import Metrix.Primitives.Serialize
import Metrix.Script.SignatureEncoding

/-! Script numbers (`CScriptNum` in `script/script.h`): the magnitude in
little-endian bytes with the sign in the top bit of the last byte.
`CScriptNum::serialize` writes the fewest bytes, adding one when the sign bit
is taken; the constructor from bytes refuses more than `nMaxNumSize` of them
and, with `fRequireMinimal`, a last byte that carries nothing but the sign,
unless the byte before it has its top bit set; `set_vch` then reads the value.
An `int64_t` is an integer here: `set_vch` reads at most eight bytes, and the
value it returns fits. -/

namespace Metrix

/-- `CScriptNum::set_vch`: the bytes as a little-endian number, negated with
the sign bit cleared when the last byte has it. -/
def setVch (vch : List UInt8) : ℤ :=
  match vch.getLast? with
  | none => 0
  | some last =>
      if last &&& 0x80 ≠ 0 then -((readLE vch : ℤ) - 128 * 256 ^ (vch.length - 1))
      else readLE vch

/-- The minimality test of the constructor: `false` where it throws
"non-minimally encoded script number". -/
def isMinimalScriptNum (vch : List UInt8) : Bool :=
  match vch.getLast? with
  | none => true
  | some last =>
      if last &&& 0x7f = 0 then
        match vch.dropLast.getLast? with
        | none => false
        | some prev => prev &&& 0x80 ≠ 0
      else true

/-- `CScriptNum(vch, fRequireMinimal, nMaxNumSize)`: `none` where it throws. -/
def scriptNumOfVch (vch : List UInt8) (fRequireMinimal : Bool) (nMaxNumSize : ℕ) : Option ℤ :=
  if nMaxNumSize < vch.length then none
  else if fRequireMinimal && !isMinimalScriptNum vch then none
  else some (setVch vch)

/-! ## Bytes -/

theorem and_0x7f_eq_zero_iff (b : UInt8) : b &&& 0x7f = 0 ↔ b.toNat % 128 = 0 := by
  rw [← UInt8.toNat_inj, UInt8.toNat_and, show (0x7f : UInt8).toNat = 2 ^ 7 - 1 from rfl,
    Nat.and_two_pow_sub_one_eq_mod]
  rfl

theorem toNat_or_0x80 {b : UInt8} (h : b.toNat < 128) : (b ||| 0x80).toNat = b.toNat + 128 := by
  rw [UInt8.toNat_or, show (0x80 : UInt8).toNat = 2 ^ 7 from rfl]
  exact Nat.or_two_pow_eq_add_of_lt h

theorem readLE_append_singleton (b : List UInt8) (x : UInt8) :
    readLE (b ++ [x]) = readLE b + 256 ^ b.length * x.toNat := by
  induction b with
  | nil => simp [readLE]
  | cons y b ih =>
      rw [List.cons_append, readLE, ih, readLE, List.length_cons, Nat.pow_succ]
      ring

theorem magnitudeBytes_of_pos {n : ℕ} (h : 0 < n) :
    magnitudeBytes n = (n % 256).toUInt8 :: magnitudeBytes (n / 256) := by
  rw [magnitudeBytes, if_neg (by omega)]

theorem magnitudeBytes_zero : magnitudeBytes 0 = [] := by
  rw [magnitudeBytes, if_pos rfl]

theorem readLE_magnitudeBytes (n : ℕ) : readLE (magnitudeBytes n) = n := by
  induction n using Nat.strongRecOn with
  | ind n ih =>
    rcases Nat.eq_zero_or_pos n with rfl | hpos
    · rw [magnitudeBytes_zero]
      rfl
    · rw [magnitudeBytes_of_pos hpos, readLE, ih (n / 256) (by omega),
        toNat_toUInt8_of_lt (Nat.mod_lt _ (by omega))]
      omega

/-- The bytes of a positive magnitude end in a byte that is not zero. -/
theorem exists_magnitudeBytes_eq {n : ℕ} (h : 0 < n) :
    ∃ b last, magnitudeBytes n = b ++ [last] ∧ 0 < last.toNat := by
  induction n using Nat.strongRecOn with
  | ind n ih =>
    rw [magnitudeBytes_of_pos h]
    rcases Nat.eq_zero_or_pos (n / 256) with hdiv | hdiv
    · refine ⟨[], (n % 256).toUInt8, by rw [hdiv, magnitudeBytes_zero]; rfl, ?_⟩
      rw [toNat_toUInt8_of_lt (Nat.mod_lt _ (by omega))]
      omega
    · obtain ⟨b, last, hb, hlast⟩ := ih (n / 256) (by omega) hdiv
      exact ⟨(n % 256).toUInt8 :: b, last, by rw [hb, List.cons_append], hlast⟩

/-- Bytes whose last one is not zero are the magnitude bytes of their value. -/
theorem magnitudeBytes_readLE (l : List UInt8) (x : UInt8) (hx : 0 < x.toNat) :
    magnitudeBytes (readLE (l ++ [x])) = l ++ [x] := by
  induction l with
  | nil =>
      have hlt : x.toNat < 256 := x.toNat_lt
      have hxx : x.toNat.toUInt8 = x := UInt8.ofNat_toNat
      rw [List.nil_append, magnitudeBytes_of_pos (by simp [readLE]; omega)]
      simp [readLE, Nat.mod_eq_of_lt hlt, hxx, Nat.div_eq_of_lt hlt, magnitudeBytes_zero]
  | cons y l ih =>
      have hy : y.toNat < 256 := y.toNat_lt
      have hyy : y.toNat.toUInt8 = y := UInt8.ofNat_toNat
      have hpos : 0 < readLE (l ++ [x]) := by
        rw [readLE_append_singleton]
        have := Nat.mul_pos (Nat.pos_of_ne_zero (by positivity : 256 ^ l.length ≠ 0)) hx
        omega
      rw [List.cons_append, readLE, magnitudeBytes_of_pos (by omega),
        show (y.toNat + 256 * readLE (l ++ [x])) % 256 = y.toNat by omega,
        show (y.toNat + 256 * readLE (l ++ [x])) / 256 = readLE (l ++ [x]) by omega, ih, hyy]

/-! ## The two directions -/

/-- `set_vch` on bytes split before the last. -/
theorem setVch_append_singleton (l : List UInt8) (x : UInt8) :
    setVch (l ++ [x]) =
      if x.toNat < 128 then ((readLE l + 256 ^ l.length * x.toNat : ℕ) : ℤ)
      else -((readLE l + 256 ^ l.length * (x.toNat - 128) : ℕ) : ℤ) := by
  rw [setVch, List.getLast?_concat]
  dsimp only
  rw [readLE_append_singleton, List.length_append, List.length_singleton, Nat.add_sub_cancel]
  by_cases hx : x.toNat < 128
  · have h0 : ¬x &&& 0x80 ≠ 0 := not_not.mpr ((and_0x80_eq_zero_iff x).mpr hx)
    rw [if_neg h0, if_pos hx]
  · have h0 : x &&& 0x80 ≠ 0 := fun h => hx ((and_0x80_eq_zero_iff x).mp h)
    rw [if_pos h0, if_neg hx]
    push_cast [Nat.cast_sub (show 128 ≤ x.toNat by omega)]
    ring

theorem isMinimalScriptNum_append_singleton (l : List UInt8) (x : UInt8) :
    isMinimalScriptNum (l ++ [x]) = true ↔
      x.toNat % 128 ≠ 0 ∨ ∃ prev, l.getLast? = some prev ∧ 128 ≤ prev.toNat := by
  rw [isMinimalScriptNum, List.getLast?_concat, List.dropLast_concat]
  dsimp only
  by_cases hx : x.toNat % 128 = 0
  · rw [if_pos ((and_0x7f_eq_zero_iff x).mpr hx)]
    cases l.getLast? with
    | none => simp [hx]
    | some prev => simp [hx, and_0x80_eq_zero_iff]
  · rw [if_neg (by rw [and_0x7f_eq_zero_iff]; exact hx)]
    simp [hx]

/-- `CScriptNum::serialize` of a nonzero value whose magnitude bytes are
`b ++ [last]`. -/
theorem scriptNumSerialize_of_magnitude {n : ℤ} {b : List UInt8} {last : UInt8}
    (h : magnitudeBytes n.natAbs = b ++ [last]) :
    scriptNumSerialize n =
      if 128 ≤ last.toNat then b ++ [last] ++ [if n < 0 then 0x80 else 0]
      else if n < 0 then b ++ [last ||| 0x80]
      else b ++ [last] := by
  rw [scriptNumSerialize, h, List.getLast?_concat]
  dsimp only
  by_cases hlast : 128 ≤ last.toNat
  · rw [if_pos (by rw [ne_eq, and_0x80_eq_zero_iff]; omega), if_pos hlast]
  · rw [if_neg (by rw [ne_eq, and_0x80_eq_zero_iff]; omega), if_neg hlast, List.dropLast_concat]

/-- The bytes written for a value the constructor reads back: four cases, by
the sign and by whether the top magnitude byte takes the sign bit. -/
theorem scriptNumOfVch_scriptNumSerialize {n : ℤ} (hlo : -2 ^ 63 < n) (hhi : n < 2 ^ 63) :
    scriptNumOfVch (scriptNumSerialize n) true 8 = some n := by
  rcases eq_or_ne n 0 with rfl | hne
  · rw [show scriptNumSerialize 0 = [] by simp [scriptNumSerialize, magnitudeBytes_zero]]
    rfl
  obtain ⟨b, last, hb, hlast⟩ := exists_magnitudeBytes_eq (Int.natAbs_pos.mpr hne)
  have habs : readLE b + 256 ^ b.length * last.toNat = n.natAbs := by
    rw [← readLE_append_singleton, ← hb, readLE_magnitudeBytes]
  have hsmall : n.natAbs < 2 ^ 63 := by omega
  have hlast' : last.toNat < 256 := last.toNat_lt
  -- the top byte bounds the number of bytes below it
  have hbytes : 256 ^ b.length * last.toNat < 2 ^ 63 := by omega
  have hlen7 : b.length ≤ 7 := by
    by_contra hlong
    have : 256 ^ 8 ≤ 256 ^ b.length := Nat.pow_le_pow_right (by omega) (by omega)
    have : 256 ^ b.length ≤ 256 ^ b.length * last.toNat := Nat.le_mul_of_pos_right _ hlast
    omega
  -- the constructor passes its two checks, and `set_vch` is left
  have hread : ∀ vch, vch.length ≤ 8 → isMinimalScriptNum vch = true →
      scriptNumOfVch vch true 8 = some (setVch vch) := by
    intro vch hlen hmin
    rw [scriptNumOfVch, if_neg (by omega), hmin, if_neg (by decide)]
  rw [scriptNumSerialize_of_magnitude hb]
  by_cases htop : 128 ≤ last.toNat
  · -- the sign takes a byte of its own
    have hlen6 : b.length ≤ 6 := by
      by_contra hlong
      have : 256 ^ 7 ≤ 256 ^ b.length := Nat.pow_le_pow_right (by omega) (by omega)
      have : 256 ^ b.length * 128 ≤ 256 ^ b.length * last.toNat := Nat.mul_le_mul_left _ htop
      omega
    rw [if_pos htop, hread _ (by simp only [List.length_append, List.length_singleton]; omega)
      ((isMinimalScriptNum_append_singleton _ _).mpr (.inr ⟨last, List.getLast?_concat, htop⟩)),
      setVch_append_singleton, readLE_append_singleton, habs]
    by_cases hneg : n < 0
    · rw [if_pos hneg, show (0x80 : UInt8).toNat = 128 from rfl, if_neg (by omega), Nat.sub_self,
        Nat.mul_zero, Nat.add_zero]
      congr 1
      omega
    · rw [if_neg hneg, show (0 : UInt8).toNat = 0 from rfl, if_pos (by omega), Nat.mul_zero,
        Nat.add_zero]
      congr 1
      omega
  · rw [if_neg htop]
    by_cases hneg : n < 0
    · -- the sign goes into the top bit of the last byte
      have hor := toNat_or_0x80 (show last.toNat < 128 by omega)
      rw [if_pos hneg, hread _ (by simp only [List.length_append, List.length_singleton]; omega)
        ((isMinimalScriptNum_append_singleton _ _).mpr (.inl (by rw [hor]; omega))),
        setVch_append_singleton, hor, if_neg (by omega), Nat.add_sub_cancel, habs]
      congr 1
      omega
    · rw [if_neg hneg, hread _ (by simp only [List.length_append, List.length_singleton]; omega)
        ((isMinimalScriptNum_append_singleton _ _).mpr (.inl (by omega))),
        setVch_append_singleton, if_pos (by omega), habs]
      congr 1
      omega

/-- The value read from minimal bytes is written back as those bytes: four
cases, by the sign bit of the last byte and by whether that byte carries more
than the sign. -/
theorem scriptNumSerialize_of_scriptNumOfVch {vch : List UInt8} {x : ℤ}
    (h : scriptNumOfVch vch true 8 = some x) : scriptNumSerialize x = vch := by
  rw [scriptNumOfVch] at h
  split_ifs at h with hsize hmin
  obtain rfl := Option.some_inj.mp h
  simp only [Bool.true_and, Bool.not_eq_true', Bool.not_eq_false] at hmin
  rcases List.eq_nil_or_concat vch with rfl | ⟨l, last, rfl⟩
  · simp [setVch, scriptNumSerialize, magnitudeBytes_zero]
  rw [List.concat_eq_append, isMinimalScriptNum_append_singleton] at hmin
  rw [List.concat_eq_append]
  have hlast : last.toNat < 256 := last.toNat_lt
  -- a last byte of nothing but the sign keeps the sign bit of the byte before clear
  have hprev : last.toNat % 128 = 0 → ∃ l' prev, l = l' ++ [prev] ∧ 128 ≤ prev.toNat := by
    intro hz
    obtain ⟨prev, hget, htop⟩ := hmin.resolve_left (not_not.mpr hz)
    obtain ⟨l', rfl⟩ := List.getLast?_eq_some_iff.mp hget
    exact ⟨l', prev, rfl, htop⟩
  rw [setVch_append_singleton]
  by_cases htop : last.toNat < 128
  · rw [if_pos htop]
    by_cases hz : last.toNat = 0
    · obtain ⟨l', prev, rfl, hprevtop⟩ := hprev (by omega)
      have hmag : magnitudeBytes (readLE (l' ++ [prev]) + 256 ^ (l' ++ [prev]).length *
          last.toNat) = l' ++ [prev] := by
        rw [hz, Nat.mul_zero, Nat.add_zero]
        exact magnitudeBytes_readLE l' prev (by omega)
      have hzero : last = 0 := UInt8.toNat_inj.mp hz
      rw [scriptNumSerialize_of_magnitude (by rw [Int.natAbs_natCast]; exact hmag),
        if_pos hprevtop, if_neg (by omega), hzero]
    · have hmag : magnitudeBytes (readLE l + 256 ^ l.length * last.toNat) = l ++ [last] := by
        rw [← readLE_append_singleton]
        exact magnitudeBytes_readLE l last (by omega)
      rw [scriptNumSerialize_of_magnitude (by rw [Int.natAbs_natCast]; exact hmag),
        if_neg (by omega), if_neg (by omega)]
  · rw [if_neg htop]
    by_cases hz : last.toNat = 128
    · obtain ⟨l', prev, rfl, hprevtop⟩ := hprev (by omega)
      have hmag : magnitudeBytes (readLE (l' ++ [prev]) + 256 ^ (l' ++ [prev]).length *
          (last.toNat - 128)) = l' ++ [prev] := by
        rw [hz, Nat.sub_self, Nat.mul_zero, Nat.add_zero]
        exact magnitudeBytes_readLE l' prev (by omega)
      have hpos : 0 < readLE (l' ++ [prev]) := by
        rw [readLE_append_singleton]
        have := Nat.mul_pos (Nat.pos_of_ne_zero (by positivity : 256 ^ l'.length ≠ 0))
          (show 0 < prev.toNat by omega)
        omega
      have hsign : last = 0x80 := UInt8.toNat_inj.mp hz
      rw [scriptNumSerialize_of_magnitude (by rw [Int.natAbs_neg, Int.natAbs_natCast]; exact hmag),
        if_pos hprevtop, if_pos (by rw [hz, Nat.sub_self, Nat.mul_zero, Nat.add_zero]; omega), hsign]
    · -- the low seven bits of the last byte are the top magnitude byte
      obtain ⟨y, hy⟩ : ∃ y : UInt8, y.toNat = last.toNat - 128 :=
        ⟨(last.toNat - 128).toUInt8, toNat_toUInt8_of_lt (by omega)⟩
      have hmag := magnitudeBytes_readLE l y (by omega)
      rw [readLE_append_singleton, hy] at hmag
      have hor : y ||| 0x80 = last := by
        apply UInt8.toNat_inj.mp
        rw [toNat_or_0x80 (by omega), hy]
        omega
      have hpos : 0 < readLE l + 256 ^ l.length * (last.toNat - 128) := by
        have := Nat.mul_pos (Nat.pos_of_ne_zero (by positivity : 256 ^ l.length ≠ 0))
          (show 0 < last.toNat - 128 by omega)
        omega
      rw [scriptNumSerialize_of_magnitude (by rw [Int.natAbs_neg, Int.natAbs_natCast]; exact hmag),
        if_neg (by omega), if_pos (by omega), hor]

/-- Script numbers round-trip minimally: every `int64_t` but the least is
written as bytes that the minimal constructor with `nMaxNumSize = 8` reads
back as itself, and every byte vector of at most eight bytes that it accepts
is what `serialize` writes for the value read. -/
theorem scriptNum_minimal_round_trip :
    (∀ n : ℤ, -2 ^ 63 < n → n < 2 ^ 63 → scriptNumOfVch (scriptNumSerialize n) true 8 = some n) ∧
    (∀ vch : List UInt8, vch.length ≤ 8 → ∀ x, scriptNumOfVch vch true 8 = some x →
      scriptNumSerialize x = vch) :=
  ⟨fun _ hlo hhi => scriptNumOfVch_scriptNumSerialize hlo hhi,
    fun _ _ _ h => scriptNumSerialize_of_scriptNumOfVch h⟩

end Metrix
