import Metrix.Primitives.Transaction

/-! The compact form of a 256-bit target (`arith_uint256::SetCompact`,
`GetCompact`, `base_uint::bits` in `arith_uint256.cpp`): a byte of size and
a 23-bit mantissa, the value `mantissa * 256^(size - 3)`. A target is an
`arith_uint256`, here a `BitVec 256`; `GetCompact` is called without a sign.
The flags `SetCompact` reports are their own functions, and the round trip
between the two forms is proved through `Nat.size`: what comes back of a value
is the value with its bytes below the mantissa cleared, and a word in normal
form comes back unchanged. -/

namespace Metrix

/-- `base_uint::bits`: one more than the position of the highest set bit,
and 0 for 0; the scan runs from the top bit down. -/
def arithBits (x : BitVec 256) : ℕ :=
  go 256
where
  go : ℕ → ℕ
    | 0 => 0
    | n + 1 => if x.getLsbD n then n + 1 else go n

/-- `arith_uint256::SetCompact`. -/
def setCompact (nCompact : UInt32) : BitVec 256 :=
  let nSize := nCompact.toNat / 2 ^ 24
  let nWord := nCompact.toNat % 2 ^ 23
  if nSize ≤ 3 then BitVec.ofNat 256 (nWord / 2 ^ (8 * (3 - nSize)))
  else BitVec.ofNat 256 nWord <<< (8 * (nSize - 3))

/-- `arith_uint256::GetCompact()`: the mantissa is the top three bytes, moved
down one byte when its top bit, the sign, would be set. -/
def getCompact (x : BitVec 256) : UInt32 :=
  let nSize := (arithBits x + 7) / 8
  let nCompact :=
    if nSize ≤ 3 then x.toNat % 2 ^ 64 * 2 ^ (8 * (3 - nSize)) % 2 ^ 64 % 2 ^ 32
    else (x >>> (8 * (nSize - 3))).toNat % 2 ^ 64 % 2 ^ 32
  let (nCompact, nSize) :=
    if nCompact &&& 0x00800000 ≠ 0 then (nCompact >>> 8, nSize + 1) else (nCompact, nSize)
  UInt32.ofNat (nCompact ||| nSize <<< 24)

/-! ## The flags of `SetCompact` -/

/-- The word `SetCompact` tests its flags on: the low 23 bits, shifted down
past the bytes the size leaves out when it is at most 3. -/
def setCompactWord (nCompact : UInt32) : ℕ :=
  let nSize := nCompact.toNat / 2 ^ 24
  let nWord := nCompact.toNat % 2 ^ 23
  if nSize ≤ 3 then nWord / 2 ^ (8 * (3 - nSize)) else nWord

/-- The flag `SetCompact` reports through pfNegative. -/
def setCompactNegative (nCompact : UInt32) : Bool :=
  setCompactWord nCompact != 0 && nCompact.toNat &&& 0x00800000 != 0

/-- The flag `SetCompact` reports through pfOverflow. -/
def setCompactOverflow (nCompact : UInt32) : Bool :=
  let nSize := nCompact.toNat / 2 ^ 24
  let nWord := setCompactWord nCompact
  nWord != 0 && (decide (34 < nSize) || decide (0xff < nWord) && decide (33 < nSize) ||
    decide (0xffff < nWord) && decide (32 < nSize))

/-! ## What the compact form keeps of a value

A nonzero value `v` is written with the size `s` for which
`2 ^ (8 * s + 15) ≤ v * 2 ^ 24 < 2 ^ (8 * s + 23)`, and the mantissa
`v * 2 ^ 24 / 2 ^ (8 * s)`: a number of 16 to 23 bits whose top bit is below
the sign bit. Everything is read off `Nat.size`. -/

/-- The size byte `GetCompact` gives a value: one more than its whole bytes,
and 0 for 0. -/
def compactSizeOf (v : ℕ) : ℕ := if v = 0 then 0 else v.size / 8 + 1

/-- The mantissa of a value at a size. -/
def compactMantissa (v s : ℕ) : ℕ := v * 2 ^ 24 / 2 ^ (8 * s)

theorem arithBits_go (x : BitVec 256) (n : ℕ) : arithBits.go x n = (x.toNat % 2 ^ n).size := by
  induction n with
  | zero => simp [arithBits.go, Nat.mod_one, Nat.size_zero]
  | succ n ih =>
      rw [arithBits.go, ← BitVec.testBit_toNat]
      split
      case isTrue hbit =>
        have hlow : 2 ^ n ≤ x.toNat % 2 ^ (n + 1) :=
          Nat.ge_two_pow_of_testBit (by simpa [Nat.testBit_mod_two_pow] using hbit)
        have hhigh : x.toNat % 2 ^ (n + 1) < 2 ^ (n + 1) := Nat.mod_lt _ (Nat.two_pow_pos _)
        exact le_antisymm (Nat.lt_size.mpr hlow) (Nat.size_le.mpr hhigh)
      case isFalse hbit =>
        have hdigit : x.toNat / 2 ^ n % 2 = 0 := by
          rw [Nat.testBit_eq_decide_div_mod_eq] at hbit
          simp at hbit
          omega
        rw [ih, Nat.mod_pow_succ, hdigit, Nat.mul_zero, Nat.add_zero]

theorem arithBits_eq_size (x : BitVec 256) : arithBits x = x.toNat.size := by
  rw [arithBits, arithBits_go, Nat.mod_eq_of_lt x.isLt]

theorem size_mul_two_pow {v : ℕ} (hv : v ≠ 0) (p : ℕ) : (v * 2 ^ p).size = v.size + p := by
  rw [← Nat.shiftLeft_eq, Nat.size_shiftLeft hv]

theorem mul_two_pow_div_of_le (a : ℕ) {p q : ℕ} (h : p ≤ q) :
    a * 2 ^ p / 2 ^ q = a / 2 ^ (q - p) := by
  rw [show 2 ^ q = 2 ^ (q - p) * 2 ^ p by rw [← pow_add, Nat.sub_add_cancel h],
    Nat.mul_div_mul_right _ _ (Nat.two_pow_pos p)]

theorem mul_two_pow_div_of_ge (a : ℕ) {p q : ℕ} (h : q ≤ p) :
    a * 2 ^ p / 2 ^ q = a * 2 ^ (p - q) := by
  rw [show 2 ^ p = 2 ^ (p - q) * 2 ^ q by rw [← pow_add, Nat.sub_add_cancel h], ← Nat.mul_assoc,
    Nat.mul_div_cancel _ (Nat.two_pow_pos q)]

section Mantissa

variable {v : ℕ} (hv : v ≠ 0)
include hv

theorem two_pow_le_mul_iff (e p : ℕ) : 2 ^ e ≤ v * 2 ^ p ↔ e < v.size + p := by
  rw [← Nat.lt_size, size_mul_two_pow hv]

theorem mul_lt_two_pow_iff (e p : ℕ) : v * 2 ^ p < 2 ^ e ↔ v.size + p ≤ e := by
  rw [← Nat.size_le, size_mul_two_pow hv]

/-- Lower bounds on a mantissa are bounds on the size of the value. -/
theorem two_pow_le_mantissa_iff (e q : ℕ) : 2 ^ e ≤ v * 2 ^ 24 / 2 ^ q ↔ e + q < v.size + 24 := by
  rw [Nat.le_div_iff_mul_le (Nat.two_pow_pos q), ← pow_add, two_pow_le_mul_iff hv]

/-- Upper bounds on a mantissa are bounds on the size of the value. -/
theorem mantissa_lt_two_pow_iff (e q : ℕ) : v * 2 ^ 24 / 2 ^ q < 2 ^ e ↔ v.size + 24 ≤ e + q := by
  rw [Nat.div_lt_iff_lt_mul (Nat.two_pow_pos q), ← pow_add, mul_lt_two_pow_iff hv]

theorem two_pow_le_compactMantissa : 2 ^ 15 ≤ compactMantissa v (compactSizeOf v) := by
  rw [compactMantissa, two_pow_le_mantissa_iff hv, compactSizeOf, if_neg hv]
  omega

theorem compactMantissa_lt_two_pow : compactMantissa v (compactSizeOf v) < 2 ^ 23 := by
  rw [compactMantissa, mantissa_lt_two_pow_iff hv, compactSizeOf, if_neg hv]
  omega

/-- A size at which the mantissa has 16 to 23 bits is the size `GetCompact`
gives. -/
theorem compactSizeOf_eq {s : ℕ} (hlow : 2 ^ 15 ≤ v * 2 ^ 24 / 2 ^ (8 * s))
    (hhigh : v * 2 ^ 24 / 2 ^ (8 * s) < 2 ^ 23) : compactSizeOf v = s := by
  rw [two_pow_le_mantissa_iff hv] at hlow
  rw [mantissa_lt_two_pow_iff hv] at hhigh
  rw [compactSizeOf, if_neg hv]
  omega

end Mantissa

/-- The sign bit of a compact word. -/
theorem and_0x800000_eq_zero_iff (m : ℕ) : m &&& 0x00800000 = 0 ↔ m / 2 ^ 23 % 2 = 0 := by
  rw [show (0x00800000 : ℕ) = 2 ^ 23 by norm_num, Nat.and_two_pow, Nat.testBit_eq_decide_div_mod_eq]
  simp

theorem and_0x800000_ne_zero_iff {m : ℕ} (hm : m < 2 ^ 24) :
    m &&& 0x00800000 ≠ 0 ↔ 2 ^ 23 ≤ m := by
  rw [Ne, and_0x800000_eq_zero_iff]
  omega

theorem or_shiftLeft_24 {m : ℕ} (hm : m < 2 ^ 24) (n : ℕ) : m ||| n <<< 24 = m + n * 2 ^ 24 := by
  rw [Nat.lor_comm, ← Nat.shiftLeft_add_eq_or_of_lt hm, Nat.shiftLeft_eq, Nat.add_comm]

/-- `GetCompact` writes the mantissa at the size `compactSizeOf` gives: the
top three bytes, moved down a byte exactly when the value fills its top byte. -/
theorem getCompact_eq (x : BitVec 256) :
    getCompact x = UInt32.ofNat (compactMantissa x.toNat (compactSizeOf x.toNat) +
      compactSizeOf x.toNat * 2 ^ 24) := by
  have hv : x.toNat < 2 ^ 256 := x.isLt
  have hb : x.toNat.size ≤ 256 := Nat.size_le.mpr hv
  set n0 := (x.toNat.size + 7) / 8 with hn0
  have hlt : compactMantissa x.toNat n0 < 2 ^ 24 := by
    by_cases h0 : x.toNat = 0
    · simp [compactMantissa, h0]
    · rw [compactMantissa, mantissa_lt_two_pow_iff h0]
      omega
  -- the word before the sign test is the mantissa at the byte count
  have hraw : (if n0 ≤ 3 then x.toNat % 2 ^ 64 * 2 ^ (8 * (3 - n0)) % 2 ^ 64 % 2 ^ 32
      else (x >>> (8 * (n0 - 3))).toNat % 2 ^ 64 % 2 ^ 32) = compactMantissa x.toNat n0 := by
    rw [compactMantissa] at hlt ⊢
    split_ifs with h3
    · rw [mul_two_pow_div_of_ge _ (by omega), show 24 - 8 * n0 = 8 * (3 - n0) by omega] at hlt ⊢
      have hv64 : x.toNat < 2 ^ 64 :=
        lt_of_le_of_lt (Nat.le_mul_of_pos_right x.toNat (Nat.two_pow_pos (8 * (3 - n0)))) (by omega)
      rw [Nat.mod_eq_of_lt hv64, Nat.mod_eq_of_lt (show x.toNat * 2 ^ (8 * (3 - n0)) < 2 ^ 64 by omega),
        Nat.mod_eq_of_lt (show x.toNat * 2 ^ (8 * (3 - n0)) < 2 ^ 32 by omega)]
    · rw [mul_two_pow_div_of_le _ (by omega), show 8 * n0 - 24 = 8 * (n0 - 3) by omega] at hlt ⊢
      rw [BitVec.toNat_ushiftRight, Nat.shiftRight_eq_div_pow,
        Nat.mod_eq_of_lt (show x.toNat / 2 ^ (8 * (n0 - 3)) < 2 ^ 64 by omega),
        Nat.mod_eq_of_lt (show x.toNat / 2 ^ (8 * (n0 - 3)) < 2 ^ 32 by omega)]
  simp only [getCompact, arithBits_eq_size, ← hn0, hraw]
  by_cases hs : 2 ^ 23 ≤ compactMantissa x.toNat n0
  · -- the value fills its top byte: one byte more, and the mantissa a byte shorter
    have h0 : x.toNat ≠ 0 := fun h => by simp [compactMantissa, h] at hs
    have hsize : x.toNat.size = 8 * n0 := by
      rw [compactMantissa, two_pow_le_mantissa_iff h0] at hs
      omega
    have hsizeOf : compactSizeOf x.toNat = n0 + 1 := by
      rw [compactSizeOf, if_neg h0]
      omega
    rw [if_pos ((and_0x800000_ne_zero_iff hlt).mpr hs), Nat.shiftRight_eq_div_pow,
      or_shiftLeft_24 (by omega), hsizeOf, compactMantissa, compactMantissa, Nat.div_div_eq_div_mul,
      ← pow_add, Nat.mul_add, Nat.mul_one]
  · have hsizeOf : compactSizeOf x.toNat = n0 := by
      by_cases h0 : x.toNat = 0
      · simp [compactSizeOf, hn0, h0]
      · rw [not_le, compactMantissa, mantissa_lt_two_pow_iff h0] at hs
        rw [compactSizeOf, if_neg h0]
        omega
    rw [if_neg (mt (and_0x800000_ne_zero_iff hlt).mp hs), or_shiftLeft_24 hlt, hsizeOf]

/-! ## `SetCompact` of a word with a clear sign bit -/

section Word

variable {w s : ℕ} (hw : w < 2 ^ 23) (hs : s < 256)
include hw hs

theorem toNat_compactWord : (UInt32.ofNat (w + s * 2 ^ 24)).toNat = w + s * 2 ^ 24 := by
  rw [UInt32.toNat_ofNat', Nat.mod_eq_of_lt (by omega)]

/-- `SetCompact` of a mantissa and a size: the mantissa moved up by the size
less three bytes, or down by three less the size. -/
theorem setCompact_ofNat :
    setCompact (UInt32.ofNat (w + s * 2 ^ 24)) = BitVec.ofNat 256 (w * 2 ^ (8 * s) / 2 ^ 24) := by
  have hsize : (w + s * 2 ^ 24) / 2 ^ 24 = s := by omega
  have hword : (w + s * 2 ^ 24) % 2 ^ 23 = w := by omega
  simp only [setCompact, toNat_compactWord hw hs, hsize, hword]
  split_ifs with h3
  · rw [mul_two_pow_div_of_le _ (by omega), show 24 - 8 * s = 8 * (3 - s) by omega]
  · apply BitVec.eq_of_toNat_eq
    rw [BitVec.toNat_shiftLeft, BitVec.toNat_ofNat, BitVec.toNat_ofNat, Nat.shiftLeft_eq,
      Nat.mod_eq_of_lt (by omega : w < 2 ^ 256), mul_two_pow_div_of_ge _ (by omega),
      show 8 * s - 24 = 8 * (s - 3) by omega]

theorem setCompactWord_ofNat :
    setCompactWord (UInt32.ofNat (w + s * 2 ^ 24)) = if s ≤ 3 then w / 2 ^ (8 * (3 - s)) else w := by
  have hsize : (w + s * 2 ^ 24) / 2 ^ 24 = s := by omega
  have hword : (w + s * 2 ^ 24) % 2 ^ 23 = w := by omega
  simp only [setCompactWord, toNat_compactWord hw hs, hsize, hword]

theorem setCompactNegative_ofNat : setCompactNegative (UInt32.ofNat (w + s * 2 ^ 24)) = false := by
  have hsign : (w + s * 2 ^ 24) &&& 0x00800000 = 0 := by
    rw [and_0x800000_eq_zero_iff]
    omega
  simp only [setCompactNegative, toNat_compactWord hw hs, hsign, bne_self_eq_false, Bool.and_false]

theorem setCompactOverflow_ofNat :
    setCompactOverflow (UInt32.ofNat (w + s * 2 ^ 24)) =
      let nWord := setCompactWord (UInt32.ofNat (w + s * 2 ^ 24))
      (nWord != 0 && (decide (34 < s) || decide (0xff < nWord) && decide (33 < s) ||
        decide (0xffff < nWord) && decide (32 < s))) := by
  have hsize : (w + s * 2 ^ 24) / 2 ^ 24 = s := by omega
  simp only [setCompactOverflow, toNat_compactWord hw hs, hsize]

end Word

/-! ## From a value to its compact form and back -/

theorem compactSizeOf_le {v : ℕ} (hv : v < 2 ^ 256) : compactSizeOf v ≤ 33 := by
  have hb : v.size ≤ 256 := Nat.size_le.mpr hv
  unfold compactSizeOf
  split_ifs <;> omega

theorem compactMantissa_lt (v : ℕ) : compactMantissa v (compactSizeOf v) < 2 ^ 23 := by
  by_cases h0 : v = 0
  · simp [compactMantissa, h0]
  · exact compactMantissa_lt_two_pow h0

theorem compactSizeOf_mono {a b : ℕ} (h : a ≤ b) : compactSizeOf a ≤ compactSizeOf b := by
  have hsize : a.size ≤ b.size := Nat.size_le_size h
  unfold compactSizeOf
  split_ifs <;> omega

theorem getCompact_eq_ofNat (x : BitVec 256) :
    getCompact x = UInt32.ofNat (compactMantissa x.toNat (compactSizeOf x.toNat) +
      compactSizeOf x.toNat * 2 ^ 24) ∧
      compactMantissa x.toNat (compactSizeOf x.toNat) < 2 ^ 23 ∧ compactSizeOf x.toNat < 256 :=
  ⟨getCompact_eq x, compactMantissa_lt _, by have := compactSizeOf_le x.isLt; omega⟩

/-- What `SetCompact` gives back of a value: the value with its bytes below
the mantissa cleared. -/
theorem setCompact_getCompact_toNat (x : BitVec 256) :
    (setCompact (getCompact x)).toNat =
      x.toNat / 2 ^ (8 * (compactSizeOf x.toNat - 3)) * 2 ^ (8 * (compactSizeOf x.toNat - 3)) := by
  obtain ⟨hc, hw, hs⟩ := getCompact_eq_ofNat x
  rw [hc, setCompact_ofNat hw hs, BitVec.toNat_ofNat, compactMantissa]
  by_cases h3 : compactSizeOf x.toNat ≤ 3
  · -- the mantissa is the value moved up, and moved back down exactly
    have hm : x.toNat * 2 ^ 24 / 2 ^ (8 * compactSizeOf x.toNat) =
        x.toNat * 2 ^ (24 - 8 * compactSizeOf x.toNat) := mul_two_pow_div_of_ge _ (by omega)
    rw [hm, Nat.mul_assoc, ← pow_add,
      show 24 - 8 * compactSizeOf x.toNat + 8 * compactSizeOf x.toNat = 24 by omega,
      Nat.mul_div_cancel _ (Nat.two_pow_pos 24), show compactSizeOf x.toNat - 3 = 0 by omega]
    simp [Nat.mod_eq_of_lt x.isLt]
  · -- the mantissa is the value moved down, and moved back up with its low bytes lost
    have hm : x.toNat * 2 ^ 24 / 2 ^ (8 * compactSizeOf x.toNat) =
        x.toNat / 2 ^ (8 * (compactSizeOf x.toNat - 3)) := by
      rw [mul_two_pow_div_of_le _ (by omega),
        show 8 * compactSizeOf x.toNat - 24 = 8 * (compactSizeOf x.toNat - 3) by omega]
    rw [hm, mul_two_pow_div_of_ge _ (by omega),
      show 8 * compactSizeOf x.toNat - 24 = 8 * (compactSizeOf x.toNat - 3) by omega]
    exact Nat.mod_eq_of_lt (lt_of_le_of_lt (Nat.div_mul_le_self _ _) x.isLt)

theorem setCompact_getCompact_eq (x : BitVec 256) :
    setCompact (getCompact x) =
      x >>> (8 * (compactSizeOf x.toNat - 3)) <<< (8 * (compactSizeOf x.toNat - 3)) := by
  apply BitVec.eq_of_toNat_eq
  rw [setCompact_getCompact_toNat, BitVec.toNat_shiftLeft, BitVec.toNat_ushiftRight,
    Nat.shiftRight_eq_div_pow, Nat.shiftLeft_eq,
    Nat.mod_eq_of_lt (lt_of_le_of_lt (Nat.div_mul_le_self _ _) x.isLt)]

/-- The part of a value that `SetCompact` gives back is the mantissa: below
the sign bit, and of at least 16 bits when bytes were dropped. -/
theorem ushiftRight_compact_bounds (x : BitVec 256) :
    (x >>> (8 * (compactSizeOf x.toNat - 3))).toNat < 2 ^ 23 ∧
      (compactSizeOf x.toNat - 3 = 0 ∨ 2 ^ 15 ≤ (x >>> (8 * (compactSizeOf x.toNat - 3))).toNat) := by
  rw [BitVec.toNat_ushiftRight, Nat.shiftRight_eq_div_pow]
  by_cases h3 : compactSizeOf x.toNat ≤ 3
  · -- no byte is dropped, and a value of at most three bytes is below the sign bit
    have hsize : x.toNat.size ≤ 23 := by
      unfold compactSizeOf at h3
      split_ifs at h3 with h0
      · simp [h0]
      · omega
    rw [show compactSizeOf x.toNat - 3 = 0 by omega]
    exact ⟨by simpa using Nat.size_le.mp hsize, .inl rfl⟩
  · have h0 : x.toNat ≠ 0 := fun h => h3 (by simp [compactSizeOf, h])
    have hmant : x.toNat / 2 ^ (8 * (compactSizeOf x.toNat - 3)) =
        compactMantissa x.toNat (compactSizeOf x.toNat) := by
      rw [compactMantissa, mul_two_pow_div_of_le _ (by omega),
        show 8 * compactSizeOf x.toNat - 24 = 8 * (compactSizeOf x.toNat - 3) by omega]
    rw [hmant]
    exact ⟨compactMantissa_lt_two_pow h0, .inr (two_pow_le_compactMantissa h0)⟩

theorem setCompactNegative_getCompact (x : BitVec 256) :
    setCompactNegative (getCompact x) = false := by
  obtain ⟨hc, hw, hs⟩ := getCompact_eq_ofNat x
  rw [hc, setCompactNegative_ofNat hw hs]

/-- `GetCompact` never writes a word that `SetCompact` reads as an overflow:
at the largest size, 33, the value has at most 16 bits of mantissa. -/
theorem setCompactOverflow_getCompact (x : BitVec 256) :
    setCompactOverflow (getCompact x) = false := by
  obtain ⟨hc, hw, hs⟩ := getCompact_eq_ofNat x
  have h33 := compactSizeOf_le x.isLt
  have h16 : compactSizeOf x.toNat = 33 →
      compactMantissa x.toNat (compactSizeOf x.toNat) < 2 ^ 16 := by
    intro h
    have h0 : x.toNat ≠ 0 := fun h0 => by simp [compactSizeOf, h0] at h
    have hb : x.toNat.size ≤ 256 := Nat.size_le.mpr x.isLt
    rw [compactMantissa, mantissa_lt_two_pow_iff h0, h]
    omega
  rw [hc, setCompactOverflow_ofNat hw hs, setCompactWord_ofNat hw hs]
  by_cases h3 : compactSizeOf x.toNat ≤ 3
  · simp only [if_pos h3]
    simp
    omega
  · simp only [if_neg h3]
    simp
    omega

/-- The value `SetCompact` gives back has its mantissa's bits: at its size
`s`, it is at least `2 ^ (8 * s - 9)`. -/
theorem two_pow_le_setCompact_getCompact {x : BitVec 256} (h0 : x.toNat ≠ 0) :
    2 ^ (8 * compactSizeOf x.toNat + 15) ≤ (setCompact (getCompact x)).toNat * 2 ^ 24 := by
  rw [setCompact_getCompact_toNat]
  by_cases h3 : compactSizeOf x.toNat ≤ 3
  · rw [show compactSizeOf x.toNat - 3 = 0 by omega, Nat.mul_zero, Nat.pow_zero, Nat.div_one,
      Nat.mul_one, two_pow_le_mul_iff h0]
    simp only [compactSizeOf, if_neg h0]
    omega
  · have hmant := two_pow_le_compactMantissa h0
    rw [compactMantissa, mul_two_pow_div_of_le _ (by omega),
      show 8 * compactSizeOf x.toNat - 24 = 8 * (compactSizeOf x.toNat - 3) by omega] at hmant
    calc 2 ^ (8 * compactSizeOf x.toNat + 15)
        = 2 ^ 15 * 2 ^ (8 * (compactSizeOf x.toNat - 3)) * 2 ^ 24 := by
          rw [← pow_add, ← pow_add]
          congr 1
          omega
      _ ≤ _ := Nat.mul_le_mul_right _ (Nat.mul_le_mul_right _ hmant)

/-- Rounding to the compact form keeps the order: a larger size means a
value past every value of the smaller size. -/
theorem setCompact_getCompact_mono {x y : BitVec 256} (h : x ≤ y) :
    setCompact (getCompact x) ≤ setCompact (getCompact y) := by
  rw [BitVec.le_def] at h ⊢
  rw [setCompact_getCompact_toNat x, setCompact_getCompact_toNat y]
  have hs := compactSizeOf_mono h
  rcases Nat.eq_or_lt_of_le hs with heq | hlt
  · rw [heq]
    exact Nat.mul_le_mul_right _ (Nat.div_le_div_right h)
  · by_cases h0 : x.toNat = 0
    · simp [h0]
    -- every value of the smaller size is below what comes back at the larger one
    have hy0 : y.toNat ≠ 0 := by omega
    have hx : x.toNat * 2 ^ 24 < 2 ^ (8 * compactSizeOf x.toNat + 23) := by
      rw [mul_lt_two_pow_iff h0]
      simp only [compactSizeOf, if_neg h0]
      omega
    have hxy : 2 ^ (8 * compactSizeOf x.toNat + 23) ≤ 2 ^ (8 * compactSizeOf y.toNat + 15) :=
      Nat.pow_le_pow_right (by norm_num) (by omega)
    have hy := two_pow_le_setCompact_getCompact hy0
    rw [setCompact_getCompact_toNat] at hy
    have hlt' : x.toNat < y.toNat / 2 ^ (8 * (compactSizeOf y.toNat - 3)) *
        2 ^ (8 * (compactSizeOf y.toNat - 3)) :=
      Nat.lt_of_mul_lt_mul_right (lt_of_lt_of_le hx (hxy.trans hy))
    exact le_trans (Nat.div_mul_le_self _ _) hlt'.le

theorem setCompact_getCompact_le (x : BitVec 256) : setCompact (getCompact x) ≤ x := by
  rw [BitVec.le_def, setCompact_getCompact_toNat]
  exact Nat.div_mul_le_self _ _

/-! ## Compact words in normal form -/

/-- A compact word in the form `GetCompact` writes: zero, or a mantissa (the
sign bit apart) of 16 to 23 bits whose bytes below the size are zero. -/
def CompactNormal (nCompact : UInt32) : Prop :=
  nCompact = 0 ∨
    2 ^ 15 ≤ nCompact.toNat % 2 ^ 23 ∧
      (nCompact.toNat / 2 ^ 24 ≤ 3 →
        nCompact.toNat % 2 ^ 23 % 2 ^ (8 * (3 - nCompact.toNat / 2 ^ 24)) = 0)

instance : DecidablePred CompactNormal := fun c => by
  unfold CompactNormal
  infer_instance

theorem compactNormal_getCompact (x : BitVec 256) : CompactNormal (getCompact x) := by
  obtain ⟨hc, hw, hs⟩ := getCompact_eq_ofNat x
  by_cases h0 : x.toNat = 0
  · left
    simp [hc, compactMantissa, compactSizeOf, h0]
  · right
    have hword : (compactMantissa x.toNat (compactSizeOf x.toNat) +
        compactSizeOf x.toNat * 2 ^ 24) % 2 ^ 23 = compactMantissa x.toNat (compactSizeOf x.toNat) := by
      omega
    have hsize : (compactMantissa x.toNat (compactSizeOf x.toNat) +
        compactSizeOf x.toNat * 2 ^ 24) / 2 ^ 24 = compactSizeOf x.toNat := by omega
    rw [hc, toNat_compactWord hw hs, hword, hsize]
    refine ⟨two_pow_le_compactMantissa h0, fun h3 => ?_⟩
    -- at a small size the mantissa is the value moved up by whole bytes
    rw [compactMantissa, mul_two_pow_div_of_ge _ (by omega),
      show 24 - 8 * compactSizeOf x.toNat = 8 * (3 - compactSizeOf x.toNat) by omega]
    exact Nat.mul_mod_left _ _

set_option maxRecDepth 4000 in
example : getCompact 0x80 = 0x02008000 ∧ CompactNormal 0x02008000 := by decide

/-- A word in normal form that `SetCompact` reads without a flag comes back
from `GetCompact` unchanged. -/
theorem getCompact_setCompact {c : UInt32} (hneg : setCompactNegative c = false)
    (hover : setCompactOverflow c = false) (hnorm : CompactNormal c) :
    getCompact (setCompact c) = c := by
  rcases hnorm with rfl | ⟨hlow, hbytes⟩
  · have hzero : setCompact 0 = 0 := by simp [setCompact]
    rw [hzero, getCompact_eq]
    simp [compactMantissa, compactSizeOf]
  have hs : c.toNat / 2 ^ 24 < 256 := by
    have := UInt32.toNat_lt c
    omega
  have hw : c.toNat % 2 ^ 23 < 2 ^ 23 := Nat.mod_lt _ (Nat.two_pow_pos 23)
  -- the word the flags are tested on is the mantissa less its zero bytes, not zero
  have hword : setCompactWord c ≠ 0 := by
    simp only [setCompactWord]
    split_ifs with h3
    · intro hz
      rcases Nat.div_eq_zero_iff.mp hz with h | h
      · exact absurd h (Nat.two_pow_pos _).ne'
      · have := hbytes h3
        rw [Nat.mod_eq_of_lt h] at this
        omega
    · omega
  have hsign : c.toNat / 2 ^ 23 % 2 = 0 := by
    rw [← and_0x800000_eq_zero_iff]
    simpa [setCompactNegative, hword] using hneg
  have hc : c = UInt32.ofNat (c.toNat % 2 ^ 23 + c.toNat / 2 ^ 24 * 2 ^ 24) := by
    apply UInt32.toNat_inj.mp
    rw [toNat_compactWord hw hs]
    omega
  generalize c.toNat % 2 ^ 23 = w at *
  generalize c.toNat / 2 ^ 24 = s at *
  subst hc
  rw [setCompact_ofNat hw hs]
  -- no overflow bounds the size, and the mantissa at the largest size
  have hbound : 3 < s → s ≤ 33 ∧ (s = 33 → w < 2 ^ 16) := by
    intro h3
    rw [setCompactOverflow_ofNat hw hs, setCompactWord_ofNat hw hs, if_neg (by omega)] at hover
    simp at hover
    omega
  -- the mantissa moved by the size loses no bits
  have hdvd : 2 ^ 24 ∣ w * 2 ^ (8 * s) := by
    by_cases h3 : 3 ≤ s
    · exact Dvd.dvd.mul_left (pow_dvd_pow 2 (by omega)) w
    · rw [show 2 ^ 24 = 2 ^ (8 * (3 - s)) * 2 ^ (8 * s) by rw [← pow_add]; congr 1; omega]
      exact mul_dvd_mul (Nat.dvd_of_mod_eq_zero (hbytes (by omega))) dvd_rfl
  have hexact : w * 2 ^ (8 * s) / 2 ^ 24 * 2 ^ 24 = w * 2 ^ (8 * s) := Nat.div_mul_cancel hdvd
  have hlt : w * 2 ^ (8 * s) < 2 ^ 256 * 2 ^ 24 := by
    by_cases h33 : s = 33
    · calc w * 2 ^ (8 * s) < 2 ^ 16 * 2 ^ (8 * s) :=
            Nat.mul_lt_mul_of_pos_right ((hbound (by omega)).2 h33) (Nat.two_pow_pos _)
        _ = 2 ^ 256 * 2 ^ 24 := by rw [← pow_add, ← pow_add, h33]
    · have hs32 : s ≤ 32 := by
        by_cases h3 : 3 < s
        · have := (hbound h3).1
          omega
        · omega
      calc w * 2 ^ (8 * s) < 2 ^ 23 * 2 ^ (8 * s) := Nat.mul_lt_mul_of_pos_right hw (Nat.two_pow_pos _)
        _ ≤ 2 ^ 24 * 2 ^ 256 :=
          Nat.mul_le_mul (Nat.pow_le_pow_right (by norm_num) (by norm_num))
            (Nat.pow_le_pow_right (by norm_num) (by omega))
        _ = 2 ^ 256 * 2 ^ 24 := Nat.mul_comm _ _
  have hV : w * 2 ^ (8 * s) / 2 ^ 24 < 2 ^ 256 := by
    rw [← hexact] at hlt
    exact Nat.lt_of_mul_lt_mul_right hlt
  have hV0 : w * 2 ^ (8 * s) / 2 ^ 24 ≠ 0 := by
    intro h
    rw [h, Nat.zero_mul] at hexact
    have := Nat.mul_pos (show 0 < w by omega) (Nat.two_pow_pos (8 * s))
    omega
  have hmant : w * 2 ^ (8 * s) / 2 ^ 24 * 2 ^ 24 / 2 ^ (8 * s) = w := by
    rw [hexact, Nat.mul_div_cancel _ (Nat.two_pow_pos _)]
  have hsize : compactSizeOf (w * 2 ^ (8 * s) / 2 ^ 24) = s :=
    compactSizeOf_eq hV0 (by rw [hmant]; exact hlow) (by rw [hmant]; exact hw)
  rw [getCompact_eq, BitVec.toNat_ofNat, Nat.mod_eq_of_lt hV, hsize, compactMantissa, hmant]

/-- The compact form as `SetCompact` and `GetCompact` use it: a value comes
back with neither flag and its bits below the mantissa cleared, the mantissa
below the sign bit and of at least 16 bits once bytes are dropped; rounding
keeps the order; and a word in normal form that `SetCompact` reads without a
flag, as every word `GetCompact` writes is, comes back unchanged. -/
theorem compact_round_trip :
    (∀ x : BitVec 256, setCompactNegative (getCompact x) = false ∧
      setCompactOverflow (getCompact x) = false ∧
      ∃ k, setCompact (getCompact x) = x >>> (8 * k) <<< (8 * k) ∧
        (x >>> (8 * k)).toNat < 2 ^ 23 ∧ (k = 0 ∨ 2 ^ 15 ≤ (x >>> (8 * k)).toNat)) ∧
    (∀ x : BitVec 256, setCompact (getCompact x) ≤ x) ∧
    (∀ x y : BitVec 256, x ≤ y → setCompact (getCompact x) ≤ setCompact (getCompact y)) ∧
    (∀ c : UInt32, setCompactNegative c = false → setCompactOverflow c = false →
      CompactNormal c → getCompact (setCompact c) = c) ∧
    (∀ x : BitVec 256, CompactNormal (getCompact x)) :=
  ⟨fun x => ⟨setCompactNegative_getCompact x, setCompactOverflow_getCompact x,
      _, setCompact_getCompact_eq x, ushiftRight_compact_bounds x⟩,
    setCompact_getCompact_le, fun _ _ h => setCompact_getCompact_mono h,
    fun _ hneg hover hnorm => getCompact_setCompact hneg hover hnorm, compactNormal_getCompact⟩

set_option maxRecDepth 4000 in
/-- `0xffffffff` fills its top byte, so only its top two bytes come back: not
its top 23 bits, nor its top 24. -/
theorem setCompact_getCompact_ffffffff :
    setCompact (getCompact 0xffffffff) = 0xffff0000 ∧
      setCompact (getCompact 0xffffffff) ≠ (0xffffffff : BitVec 256) >>> 9 <<< 9 ∧
      setCompact (getCompact 0xffffffff) ≠ (0xffffffff : BitVec 256) >>> 8 <<< 8 := by
  decide

end Metrix
