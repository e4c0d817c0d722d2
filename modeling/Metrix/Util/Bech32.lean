import Metrix.Lib.XorFold

/-! Bech32 (`bech32.cpp`): a human-readable part, the separator `1`, and the
data in 5-bit values, each a character of `CHARSET`, the last six a checksum.
Strings are their bytes. `PolyMod` is a fold over the values whose step is
linear for exclusive or, so the checksum `CreateChecksum` appends makes
`VerifyChecksum` hold, and an error in one value changes the result by the
fold of the error alone, which the step, injective on 30-bit states, never
brings to zero. -/

namespace Metrix

namespace Bech32

/-- `CHARSET`. -/
def charset : List UInt8 :=
  ['q', 'p', 'z', 'r', 'y', '9', 'x', '8', 'g', 'f', '2', 't', 'v', 'd', 'w', '0',
    's', '3', 'j', 'n', '5', '4', 'k', 'h', 'c', 'e', '6', 'm', 'u', 'a', '7', 'l'].map Char.toUInt8

/-- `CHARSET_REV`, indexed by a character below 128. -/
def charsetRev : List ℤ :=
  [-1, -1, -1, -1, -1, -1, -1, -1, -1, -1, -1, -1, -1, -1, -1, -1,
    -1, -1, -1, -1, -1, -1, -1, -1, -1, -1, -1, -1, -1, -1, -1, -1,
    -1, -1, -1, -1, -1, -1, -1, -1, -1, -1, -1, -1, -1, -1, -1, -1,
    15, -1, 10, 17, 21, 20, 26, 30, 7, 5, -1, -1, -1, -1, -1, -1,
    -1, 29, -1, 24, 13, 25, 9, 8, 23, -1, 18, 22, 31, 27, 19, -1,
    1, 0, 3, 16, 11, 28, 12, 14, 6, 4, 2, -1, -1, -1, -1, -1,
    -1, 29, -1, 24, 13, 25, 9, 8, 23, -1, 18, 22, 31, 27, 19, -1,
    1, 0, 3, 16, 11, 28, 12, 14, 6, 4, 2, -1, -1, -1, -1, -1]

/-- One iteration of the loop of `PolyMod`: `c(x) * x + v_i` reduced by the
generator, `c0` the coefficient that leaves the top. -/
def polyModStep (c : UInt32) (v_i : UInt8) : UInt32 :=
  let c0 : UInt8 := (c >>> 25).toUInt8
  let c := ((c &&& 0x1ffffff) <<< 5) ^^^ v_i.toUInt32
  let c := if c0 &&& 1 ≠ 0 then c ^^^ 0x3b6a57b2 else c
  let c := if c0 &&& 2 ≠ 0 then c ^^^ 0x26508e6d else c
  let c := if c0 &&& 4 ≠ 0 then c ^^^ 0x1ea119fa else c
  let c := if c0 &&& 8 ≠ 0 then c ^^^ 0x3d4233dd else c
  if c0 &&& 16 ≠ 0 then c ^^^ 0x2a1462b3 else c

/-- `PolyMod`. -/
def polyMod (v : List UInt8) : UInt32 := v.foldl polyModStep 1

/-- The test of `Decode` and of the assert of `Encode` for an upper-case letter. -/
def isUpper (c : UInt8) : Bool := 'A'.toUInt8 ≤ c && c ≤ 'Z'.toUInt8

/-- The test of `Decode` for a lower-case letter. -/
def isLower (c : UInt8) : Bool := 'a'.toUInt8 ≤ c && c ≤ 'z'.toUInt8

/-- `LowerCase`. -/
def lowerCase (c : UInt8) : UInt8 := if isUpper c then c - 'A'.toUInt8 + 'a'.toUInt8 else c

/-- `ExpandHRP`: the high bits of each character, a zero, the low bits. -/
def expandHRP (hrp : List UInt8) : List UInt8 :=
  hrp.map (fun c : UInt8 => c >>> 5) ++ [0] ++ hrp.map (fun c : UInt8 => c &&& 0x1f)

/-- `VerifyChecksum`. -/
def verifyChecksum (hrp values : List UInt8) : Bool :=
  polyMod (expandHRP hrp ++ values) == 1

/-- `CreateChecksum`: the six 5-bit groups of `PolyMod` of the values and six
zeros, with its low bit flipped. -/
def createChecksum (hrp values : List UInt8) : List UInt8 :=
  let enc := expandHRP hrp ++ values ++ List.replicate 6 0
  let mod := polyMod enc ^^^ 1
  (List.range 6).map fun i => ((mod >>> (5 * (5 - i)).toUInt32) &&& 31).toUInt8

/-- `CHARSET[c]`; past its 32 characters the read is out of range, 0 here. -/
def charsetAt (c : UInt8) : UInt8 := charset.getD c.toNat 0

/-- `bech32::Encode`; `none` where its assert on an upper-case letter of the
human-readable part stops the program. -/
def encode (hrp values : List UInt8) : Option (List UInt8) :=
  if hrp.any isUpper then none
  else
    let checksum := createChecksum hrp values
    let combined := values ++ checksum
    some (hrp ++ ['1'.toUInt8] ++ combined.map charsetAt)

/-- `std::string::rfind`: the position of the last `c`. -/
def rfind (c : UInt8) : List UInt8 → Option ℕ
  | [] => none
  | x :: xs =>
      match rfind c xs with
      | some i => some (i + 1)
      | none => if x = c then some 0 else none

/-- The value `CHARSET_REV` gives a character of the data part, `none` for -1. -/
def charsetRevAt (c : UInt8) : Option UInt8 :=
  let rev := charsetRev.getD c.toNat (-1)
  if rev = -1 then none else some rev.toNat.toUInt8

/-- `bech32::Decode`; the empty pair where it returns `{}`. -/
def decode (str : List UInt8) : List UInt8 × List UInt8 :=
  if str.any (fun c => !isLower c && !isUpper c && (c < 33 || 126 < c)) then ([], [])
  else if str.any isLower && str.any isUpper then ([], [])
  else
    match rfind '1'.toUInt8 str with
    | none => ([], [])
    | some pos =>
        if 90 < str.length ∨ pos = 0 ∨ str.length < pos + 7 then ([], [])
        else
          match (str.drop (pos + 1)).mapM charsetRevAt with
          | none => ([], [])
          | some values =>
              let hrp := (str.take pos).map lowerCase
              if !verifyChecksum hrp values then ([], [])
              else (hrp, values.take (values.length - 6))

/-! ## `PolyMod` is linear for exclusive or -/

/-- The multiple of `k(x)` that `PolyMod` adds for the coefficient `c0`: for
each set bit `n`, the constant for `{2^n}k(x)`. -/
def polyModGen (c0 : UInt8) : UInt32 :=
  (if c0 &&& 1 ≠ 0 then 0x3b6a57b2 else 0) ^^^ (if c0 &&& 2 ≠ 0 then 0x26508e6d else 0) ^^^
    (if c0 &&& 4 ≠ 0 then 0x1ea119fa else 0) ^^^ (if c0 &&& 8 ≠ 0 then 0x3d4233dd else 0) ^^^
    (if c0 &&& 16 ≠ 0 then 0x2a1462b3 else 0)

theorem ite_xor_eq (p : Prop) [Decidable p] (c g : UInt32) :
    (if p then c ^^^ g else c) = c ^^^ (if p then g else 0) := by
  split <;> simp

theorem polyModStep_eq (c : UInt32) (v : UInt8) :
    polyModStep c v = ((c &&& 0x1ffffff) <<< 5) ^^^ v.toUInt32 ^^^ polyModGen (c >>> 25).toUInt8 := by
  simp only [polyModStep, ite_xor_eq]
  simp only [polyModGen, UInt32.xor_assoc]

theorem and_ne_zero_iff_testBit {a k : UInt8} {i : ℕ} (hk : k.toNat = 2 ^ i) :
    a &&& k ≠ 0 ↔ a.toNat.testBit i = true := by
  rw [Ne, ← UInt8.toNat_inj, UInt8.toNat_and, hk, Nat.and_two_pow]
  cases a.toNat.testBit i <;> simp

theorem ite_and_xor (g : UInt32) (a b : UInt8) {k : UInt8} {i : ℕ} (hk : k.toNat = 2 ^ i) :
    (if (a ^^^ b) &&& k ≠ 0 then g else 0) =
      (if a &&& k ≠ 0 then g else 0) ^^^ (if b &&& k ≠ 0 then g else 0) := by
  simp only [and_ne_zero_iff_testBit hk, UInt8.toNat_xor, Nat.testBit_xor]
  cases a.toNat.testBit i <;> cases b.toNat.testBit i <;> simp

theorem polyModGen_xor (a b : UInt8) : polyModGen (a ^^^ b) = polyModGen a ^^^ polyModGen b := by
  simp only [polyModGen, ite_and_xor _ a b (show (1 : UInt8).toNat = 2 ^ 0 from rfl),
    ite_and_xor _ a b (show (2 : UInt8).toNat = 2 ^ 1 from rfl),
    ite_and_xor _ a b (show (4 : UInt8).toNat = 2 ^ 2 from rfl),
    ite_and_xor _ a b (show (8 : UInt8).toNat = 2 ^ 3 from rfl),
    ite_and_xor _ a b (show (16 : UInt8).toNat = 2 ^ 4 from rfl)]
  ac_rfl

theorem shiftLeft_five_xor (c d : UInt32) :
    ((c ^^^ d) &&& 0x1ffffff) <<< 5 = ((c &&& 0x1ffffff) <<< 5) ^^^ ((d &&& 0x1ffffff) <<< 5) := by
  apply UInt32.toBitVec_inj.mp
  ext i hi
  simp [Bool.and_xor_distrib_left, Bool.and_xor_distrib_right]

theorem top_xor (c d : UInt32) :
    ((c ^^^ d) >>> 25).toUInt8 = (c >>> 25).toUInt8 ^^^ (d >>> 25).toUInt8 := by
  rw [← UInt32.toUInt8_xor]
  congr 1
  apply UInt32.toBitVec_inj.mp
  ext i hi
  simp

/-- The step of `PolyMod` is linear in the state and the value together. -/
theorem polyModStep_xor (c d : UInt32) (v w : UInt8) :
    polyModStep (c ^^^ d) (v ^^^ w) = polyModStep c v ^^^ polyModStep d w := by
  rw [polyModStep_eq, polyModStep_eq, polyModStep_eq, shiftLeft_five_xor, top_xor, polyModGen_xor,
    UInt8.toUInt32_xor]
  ac_rfl

theorem polyModStep_zero : polyModStep 0 0 = 0 := by decide

/-! ## States of 30 bits -/

theorem toNat_shiftLeft_five (c : UInt32) : ((c &&& 0x1ffffff) <<< 5).toNat = c.toNat % 2 ^ 25 * 32 := by
  rw [UInt32.toNat_shiftLeft, UInt32.toNat_and, show (0x1ffffff : UInt32).toNat = 2 ^ 25 - 1 from rfl,
    Nat.and_two_pow_sub_one_eq_mod, show (5 : UInt32).toNat % 32 = 5 from rfl, Nat.shiftLeft_eq]
  omega

theorem toNat_top (c : UInt32) : (c >>> 25).toUInt8.toNat = c.toNat / 2 ^ 25 % 2 ^ 8 := by
  rw [UInt32.toNat_toUInt8, UInt32.toNat_shiftRight, show (25 : UInt32).toNat % 32 = 25 from rfl,
    Nat.shiftRight_eq_div_pow]

theorem toNat_ite_lt (p : Prop) [Decidable p] {g : UInt32} (hg : g.toNat < 2 ^ 30) :
    (if p then g else 0).toNat < 2 ^ 30 := by
  split
  · exact hg
  · simp

/-- The five constants have 30 bits, and so has their exclusive or. -/
theorem polyModGen_lt (a : UInt8) : (polyModGen a).toNat < 2 ^ 30 := by
  simp only [polyModGen, UInt32.toNat_xor]
  refine Nat.xor_lt_two_pow (Nat.xor_lt_two_pow (Nat.xor_lt_two_pow (Nat.xor_lt_two_pow ?_ ?_) ?_) ?_) ?_
  all_goals exact toNat_ite_lt _ (by decide)

theorem polyModGen_zero : polyModGen 0 = 0 := by decide

/-- The multiples of `k(x)` differ in their lowest coefficient, so none but
the zero one has it zero. -/
theorem eq_zero_of_polyModGen_and_31 : ∀ a : UInt8, a < 32 → polyModGen a &&& 31 = 0 → a = 0 := by
  have key : ∀ n < 32, polyModGen n.toUInt8 &&& 31 = 0 → n = 0 := by decide
  intro a ha h
  have hn : a.toNat < 32 := UInt8.lt_iff_toNat_lt.mp ha
  have h0 := key a.toNat hn (by simpa [UInt8.ofNat_toNat] using h)
  exact UInt8.toNat_inj.mp h0

theorem toNat_polyModStep_lt (c : UInt32) {v : UInt8} (hv : v.toNat < 32) :
    (polyModStep c v).toNat < 2 ^ 30 := by
  rw [polyModStep_eq, UInt32.toNat_xor, UInt32.toNat_xor, toNat_shiftLeft_five, UInt8.toNat_toUInt32]
  exact Nat.xor_lt_two_pow (Nat.xor_lt_two_pow (by omega) (by omega)) (polyModGen_lt _)

/-- On states of 30 bits, a step with the value zero never reaches zero. -/
theorem polyModStep_ne_zero {c : UInt32} (hc : c.toNat < 2 ^ 30) (h0 : c ≠ 0) : polyModStep c 0 ≠ 0 := by
  rw [polyModStep_eq, show (0 : UInt8).toUInt32 = 0 from rfl, UInt32.xor_zero]
  intro h
  have hsh := UInt32.xor_eq_zero_iff.mp h
  -- the shifted state has no low bits, so the top coefficient is zero
  have hlow : polyModGen (c >>> 25).toUInt8 &&& 31 = 0 := by
    rw [← hsh]
    apply UInt32.toNat_inj.mp
    rw [UInt32.toNat_and, toNat_shiftLeft_five, show (31 : UInt32).toNat = 2 ^ 5 - 1 from rfl,
      Nat.and_two_pow_sub_one_eq_mod]
    simp
  have htop : (c >>> 25).toUInt8 < 32 := by
    rw [UInt8.lt_iff_toNat_lt, toNat_top]
    simp
    omega
  have hc0 := eq_zero_of_polyModGen_and_31 _ htop hlow
  rw [hc0, polyModGen_zero] at hsh
  have hlowNat : c.toNat % 2 ^ 25 * 32 = 0 := by
    rw [← toNat_shiftLeft_five, hsh]
    rfl
  have htopNat : c.toNat / 2 ^ 25 % 2 ^ 8 = 0 := by
    rw [← toNat_top, hc0]
    rfl
  exact h0 (UInt32.toNat_inj.mp (by simp; omega))

/-- A nonzero state of 30 bits stays nonzero over any run of zeros. -/
theorem foldl_polyModStep_replicate_ne_zero {c : UInt32} (hc : c.toNat < 2 ^ 30) (h0 : c ≠ 0)
    (r : ℕ) : (List.replicate r 0).foldl polyModStep c ≠ 0 :=
  (List.foldlRecOn (motive := fun c : UInt32 => c.toNat < 2 ^ 30 ∧ c ≠ 0) _ _ ⟨hc, h0⟩
    fun c hc v hv => by
      rw [List.eq_of_mem_replicate hv]
      exact ⟨toNat_polyModStep_lt c (by decide), polyModStep_ne_zero hc.1 hc.2⟩).2

theorem toNat_foldl_polyModStep_lt {c : UInt32} (hc : c.toNat < 2 ^ 30) {vs : List UInt8}
    (hvs : ∀ v ∈ vs, v.toNat < 32) : (vs.foldl polyModStep c).toNat < 2 ^ 30 :=
  List.foldlRecOn (motive := fun c : UInt32 => c.toNat < 2 ^ 30) _ _ hc
    fun c _ v hv => toNat_polyModStep_lt c (hvs v hv)

/-! ## The checksum -/

theorem shiftLeft_xor_of_lt {b i : ℕ} (hb : b < 2 ^ i) (a : ℕ) : a <<< i ^^^ b = a <<< i + b := by
  rw [Nat.shiftLeft_add_eq_or_of_lt hb]
  apply Nat.eq_of_testBit_eq
  intro j
  rw [Nat.testBit_xor, Nat.testBit_or]
  by_cases hj : j < i
  · simp [Nat.testBit_shiftLeft, show ¬i ≤ j by omega]
  · have hbj : b.testBit j = false :=
      Nat.testBit_lt_two_pow (lt_of_lt_of_le hb (Nat.pow_le_pow_right (by norm_num) (by omega)))
    simp [hbj]

/-- Below the top coefficient a step only shifts the value in. -/
theorem toNat_polyModStep_of_lt {c : UInt32} {v : UInt8} (hc : c.toNat < 2 ^ 25) (hv : v.toNat < 32) :
    (polyModStep c v).toNat = c.toNat * 32 + v.toNat := by
  have htop : (c >>> 25).toUInt8 = 0 := by
    apply UInt8.toNat_inj.mp
    rw [toNat_top, Nat.div_eq_of_lt hc]
    rfl
  have hxor := shiftLeft_xor_of_lt (i := 5) (by simpa using hv) c.toNat
  rw [Nat.shiftLeft_eq] at hxor
  rw [polyModStep_eq, htop, polyModGen_zero, UInt32.xor_zero, UInt32.toNat_xor, toNat_shiftLeft_five,
    UInt8.toNat_toUInt32, Nat.mod_eq_of_lt hc]
  simpa using hxor

/-- From a state with room for them, up to six 5-bit values are shifted in whole. -/
theorem toNat_foldl_polyModStep_of_lt {vs : List UInt8} (hvs : ∀ v ∈ vs, v.toNat < 32)
    (hlen : vs.length ≤ 6) {c : UInt32} (hc : c.toNat < 2 ^ (30 - 5 * vs.length)) :
    (vs.foldl polyModStep c).toNat = vs.foldl (fun a v => a * 32 + v.toNat) c.toNat := by
  induction vs generalizing c with
  | nil => rfl
  | cons v vs ih =>
      rw [List.length_cons] at hlen hc
      have hv := hvs v List.mem_cons_self
      have hc25 : c.toNat < 2 ^ 25 :=
        lt_of_lt_of_le hc (Nat.pow_le_pow_right (by norm_num) (by omega))
      have hstep := toNat_polyModStep_of_lt hc25 hv
      have hroom : (polyModStep c v).toNat < 2 ^ (30 - 5 * vs.length) := by
        rw [hstep]
        calc c.toNat * 32 + v.toNat < (c.toNat + 1) * 32 := by omega
          _ ≤ 2 ^ (30 - 5 * (vs.length + 1)) * 2 ^ 5 := Nat.mul_le_mul_right _ hc
          _ = 2 ^ (30 - 5 * vs.length) := by rw [← pow_add]; congr 1; omega
      rw [List.foldl_cons, List.foldl_cons, ih (fun w hw => hvs w (List.mem_cons_of_mem v hw)) (by omega)
        hroom, hstep]

theorem toNat_checksumGroup (u : UInt32) {k : ℕ} (hk : k < 32) :
    ((u >>> k.toUInt32) &&& 31).toUInt8.toNat = u.toNat / 2 ^ k % 32 := by
  rw [UInt32.toNat_toUInt8, UInt32.toNat_and, UInt32.toNat_shiftRight,
    show (31 : UInt32).toNat = 2 ^ 5 - 1 from rfl, Nat.and_two_pow_sub_one_eq_mod, Nat.shiftRight_eq_div_pow]
  simp [Nat.mod_eq_of_lt hk]
  omega

/-- The six groups `CreateChecksum` cuts from a 30-bit word, shifted in from
the zero state, give the word back. -/
theorem foldl_polyModStep_groups (u : UInt32) (hu : u.toNat < 2 ^ 30) :
    ((List.range 6).map fun i => ((u >>> (5 * (5 - i)).toUInt32) &&& 31).toUInt8).foldl polyModStep 0 = u := by
  set f := fun i : ℕ => ((u >>> (5 * (5 - i)).toUInt32) &&& 31).toUInt8 with hf
  have hg : ∀ i, i < 6 → (f i).toNat = u.toNat / 2 ^ (5 * (5 - i)) % 32 :=
    fun i hi => toNat_checksumGroup u (by omega)
  have hlist : (List.range 6).map f = [f 0, f 1, f 2, f 3, f 4, f 5] := rfl
  have hvs : ∀ v ∈ (List.range 6).map f, v.toNat < 32 := by
    intro v hv
    obtain ⟨i, hi, rfl⟩ := List.mem_map.mp hv
    rw [hg i (List.mem_range.mp hi)]
    omega
  apply UInt32.toNat_inj.mp
  rw [toNat_foldl_polyModStep_of_lt hvs (by simp) (by simp), hlist]
  simp only [List.foldl_cons, List.foldl_nil, hg 0 (by norm_num), hg 1 (by norm_num), hg 2 (by norm_num),
    hg 3 (by norm_num), hg 4 (by norm_num), hg 5 (by norm_num)]
  norm_num
  omega

theorem toNat_lt_of_mem_expandHRP {hrp : List UInt8} : ∀ v ∈ expandHRP hrp, v.toNat < 32 := by
  intro v hv
  simp only [expandHRP, List.mem_append, List.mem_map, List.mem_singleton] at hv
  rcases hv with (⟨c, -, rfl⟩ | rfl) | ⟨c, -, rfl⟩
  · rw [UInt8.toNat_shiftRight]
    have : c.toNat < 256 := UInt8.toNat_lt_size c
    simp [Nat.shiftRight_eq_div_pow]
    omega
  · decide
  · rw [UInt8.toNat_and]
    exact lt_of_le_of_lt Nat.and_le_right (by decide)

@[simp] theorem length_createChecksum (hrp values : List UInt8) :
    (createChecksum hrp values).length = 6 := by
  simp [createChecksum]

/-- The checksum `CreateChecksum` appends satisfies `VerifyChecksum`. -/
theorem verifyChecksum_append_createChecksum (hrp : List UInt8) {values : List UInt8}
    (hv : ∀ v ∈ values, v.toNat < 32) :
    verifyChecksum hrp (values ++ createChecksum hrp values) = true := by
  have hA : ∀ v ∈ expandHRP hrp ++ values ++ List.replicate 6 0, v.toNat < 32 := by
    intro v hv'
    simp only [List.mem_append] at hv'
    rcases hv' with (h | h) | h
    · exact toNat_lt_of_mem_expandHRP v h
    · exact hv v h
    · rw [List.eq_of_mem_replicate h]
      decide
  have hm := toNat_foldl_polyModStep_lt (show (1 : UInt32).toNat < 2 ^ 30 by decide) hA
  have hcs : (createChecksum hrp values).foldl polyModStep 0 =
      (expandHRP hrp ++ values ++ List.replicate 6 0).foldl polyModStep 1 ^^^ 1 := by
    rw [createChecksum]
    exact foldl_polyModStep_groups _ (by
      rw [UInt32.toNat_xor]
      exact Nat.xor_lt_two_pow hm (by decide))
  -- the checksum is the error that turns the six zeros into it
  have hzeros : List.zipWith (· ^^^ ·) (List.replicate 6 0) (createChecksum hrp values) =
      createChecksum hrp values := by
    have := List.zipWith_replicate_zero_xor (fun _ => UInt8.zero_xor) (createChecksum hrp values)
    rwa [length_createChecksum] at this
  have hlist : expandHRP hrp ++ (values ++ createChecksum hrp values) =
      List.zipWith (· ^^^ ·) (expandHRP hrp ++ values ++ List.replicate 6 0)
        (List.replicate (expandHRP hrp ++ values).length 0 ++ createChecksum hrp values) := by
    rw [List.zipWith_append (by simp), List.zipWith_xor_replicate_zero (fun _ => UInt8.xor_zero), hzeros,
      List.append_assoc]
  have hsplit : (List.zipWith (· ^^^ ·) (expandHRP hrp ++ values ++ List.replicate 6 0)
      (List.replicate (expandHRP hrp ++ values).length 0 ++ createChecksum hrp values)).foldl
        polyModStep (1 ^^^ 0) =
      (expandHRP hrp ++ values ++ List.replicate 6 0).foldl polyModStep 1 ^^^
        (List.replicate (expandHRP hrp ++ values).length 0 ++ createChecksum hrp values).foldl
          polyModStep 0 :=
    List.foldl_zipWith_xor polyModStep_xor 1 0 (by simp; omega)
  have hzero : (List.replicate (expandHRP hrp ++ values).length 0 ++ createChecksum hrp values).foldl
      polyModStep 0 = (createChecksum hrp values).foldl polyModStep 0 := by
    rw [List.foldl_append, List.foldl_replicate_zero polyModStep_zero]
  rw [UInt32.xor_zero, hzero, hcs] at hsplit
  rw [verifyChecksum, hlist, polyMod, hsplit]
  simp

/-! ## Reading an encoded string back -/

theorem rfind_eq_none {c : UInt8} : ∀ {xs : List UInt8}, c ∉ xs → rfind c xs = none
  | [], _ => rfl
  | x :: xs, h => by
      rw [List.mem_cons, not_or] at h
      rw [rfind, rfind_eq_none h.2, if_neg (Ne.symm h.1)]

/-- The last `c` of a string is the one past which no `c` follows. -/
theorem rfind_append_cons {c : UInt8} {rest : List UInt8} (h : c ∉ rest) :
    ∀ pre : List UInt8, rfind c (pre ++ c :: rest) = some pre.length
  | [] => by rw [List.nil_append, rfind, rfind_eq_none h, if_pos rfl, List.length_nil]
  | x :: pre => by rw [List.cons_append, rfind, rfind_append_cons h pre, List.length_cons]

set_option maxRecDepth 4000 in
/-- What `Decode` asks of each character of an encoded string: none is
unprintable or upper case, and the data part has no separator. -/
theorem charset_spec : ∀ x ∈ charset,
    isUpper x = false ∧ ¬(x < 33 ∨ 126 < x) ∧ x ≠ '1'.toUInt8 := by
  decide

theorem charsetAt_mem {v : UInt8} (hv : v.toNat < 32) : charsetAt v ∈ charset := by
  rw [charsetAt, List.getD_eq_getElem _ _ (by simpa [charset] using hv)]
  exact List.getElem_mem _

theorem charsetRevAt_charsetAt {v : UInt8} (hv : v.toNat < 32) : charsetRevAt (charsetAt v) = some v := by
  have key : ∀ n : ℕ, n < 32 → charsetRevAt (charsetAt n.toUInt8) = some n.toUInt8 := by decide
  simpa [UInt8.ofNat_toNat] using key v.toNat hv

/-- Every character of `CHARSET` is the character of its value. -/
theorem exists_charsetAt_eq : ∀ ch ∈ charset, ∃ v : UInt8, v.toNat < 32 ∧ charsetAt v = ch := by
  intro ch hch
  obtain ⟨i, hi, rfl⟩ := List.getElem_of_mem hch
  have hi32 : i < 32 := by simpa [charset] using hi
  have hv : i.toUInt8.toNat = i := by simp only [Nat.toUInt8, UInt8.toNat_ofNat']; omega
  refine ⟨i.toUInt8, by omega, ?_⟩
  rw [charsetAt, hv, List.getD_eq_getElem _ _ hi]

theorem mapM_charsetRevAt {W : List UInt8} (hW : ∀ v ∈ W, v.toNat < 32) :
    (W.map charsetAt).mapM charsetRevAt = some W := by
  induction W with
  | nil => rfl
  | cons v W ih =>
      rw [List.map_cons, List.mapM_cons, charsetRevAt_charsetAt (hW v List.mem_cons_self),
        ih (fun w hw => hW w (List.mem_cons_of_mem v hw))]
      rfl

theorem lowerCase_of_isUpper_eq_false {c : UInt8} (h : isUpper c = false) : lowerCase c = c := by
  rw [lowerCase, if_neg (by simp [h])]

/-- `Decode` of a string laid out as `Encode` lays it out: it gives back the
human-readable part and the values less their last six exactly when the part
is not empty and the checksum holds. -/
theorem decode_of_layout {hrp W : List UInt8}
    (hhrp : ∀ c ∈ hrp, isUpper c = false ∧ 33 ≤ c ∧ c ≤ 126) (hW : ∀ v ∈ W, v.toNat < 32)
    (h6 : 6 ≤ W.length) (h90 : hrp.length + 1 + W.length ≤ 90) :
    decode (hrp ++ ['1'.toUInt8] ++ W.map charsetAt) =
      if hrp ≠ [] ∧ verifyChecksum hrp W then (hrp, W.take (W.length - 6)) else ([], []) := by
  have hdata : ∀ x ∈ W.map charsetAt, x ∈ charset := by
    intro x hx
    obtain ⟨v, hv, rfl⟩ := List.mem_map.mp hx
    exact charsetAt_mem (hW v hv)
  have hchars : ∀ x ∈ hrp ++ ['1'.toUInt8] ++ W.map charsetAt, isUpper x = false ∧ ¬(x < 33 ∨ 126 < x) := by
    intro x hx
    simp only [List.mem_append, List.mem_singleton] at hx
    rcases hx with (h | rfl) | h
    · obtain ⟨hup, hlo, hhi⟩ := hhrp x h
      exact ⟨hup, by
        rw [not_or]
        exact ⟨UInt8.not_lt.mpr hlo, UInt8.not_lt.mpr hhi⟩⟩
    · decide
    · obtain ⟨hup, hpr, -⟩ := charset_spec x (hdata x h)
      exact ⟨hup, hpr⟩
  have hbad : (hrp ++ ['1'.toUInt8] ++ W.map charsetAt).any
      (fun c => !isLower c && !isUpper c && (c < 33 || 126 < c)) = false := by
    rw [List.any_eq_false]
    intro x hx
    simp [(hchars x hx).1, (hchars x hx).2]
  have hupper : (hrp ++ ['1'.toUInt8] ++ W.map charsetAt).any isUpper = false := by
    rw [List.any_eq_false]
    intro x hx
    simp [(hchars x hx).1]
  have hsep : '1'.toUInt8 ∉ W.map charsetAt := fun h => (charset_spec _ (hdata _ h)).2.2 rfl
  have hrf : rfind '1'.toUInt8 (hrp ++ ['1'.toUInt8] ++ W.map charsetAt) = some hrp.length := by
    rw [List.append_assoc, List.singleton_append]
    exact rfind_append_cons hsep hrp
  have hdrop : (hrp ++ ['1'.toUInt8] ++ W.map charsetAt).drop (hrp.length + 1) = W.map charsetAt :=
    List.drop_left' (by simp)
  have htake : (hrp ++ ['1'.toUInt8] ++ W.map charsetAt).take hrp.length = hrp := by
    rw [List.append_assoc]
    exact List.take_left' rfl
  have hlower : hrp.map lowerCase = hrp := by
    conv => rhs; rw [← List.map_id hrp]
    exact List.map_congr_left fun c hc => lowerCase_of_isUpper_eq_false (hhrp c hc).1
  rw [decode, if_neg (by rw [hbad]; exact Bool.false_ne_true),
    if_neg (by rw [hupper, Bool.and_false]; exact Bool.false_ne_true), hrf]
  simp only [List.length_append, List.length_singleton, List.length_map]
  rw [hdrop, mapM_charsetRevAt hW, htake, hlower]
  by_cases hne : hrp = []
  · simp [hne]
  · have hlen : hrp.length ≠ 0 := fun h => hne (List.length_eq_zero_iff.mp h)
    rw [if_neg (by omega)]
    by_cases hcs : verifyChecksum hrp W <;> simp [hcs, hne]

theorem encode_eq_some {hrp : List UInt8} (hhrp : ∀ c ∈ hrp, isUpper c = false) (values : List UInt8) :
    encode hrp values =
      some (hrp ++ ['1'.toUInt8] ++ (values ++ createChecksum hrp values).map charsetAt) := by
  rw [encode, if_neg (by rw [List.any_eq_false.mpr (fun c hc => by simp [hhrp c hc])]; exact Bool.false_ne_true)]

theorem toNat_lt_of_mem_createChecksum {hrp values : List UInt8} :
    ∀ v ∈ createChecksum hrp values, v.toNat < 32 := by
  intro v hv
  simp only [createChecksum, List.mem_map] at hv
  obtain ⟨i, hi, rfl⟩ := hv
  rw [toNat_checksumGroup _ (by simp at hi; omega)]
  omega

theorem toNat_lt_of_mem_append_createChecksum {hrp values : List UInt8}
    (hv : ∀ v ∈ values, v.toNat < 32) : ∀ v ∈ values ++ createChecksum hrp values, v.toNat < 32 := by
  intro v hv'
  rcases List.mem_append.mp hv' with h | h
  · exact hv v h
  · exact toNat_lt_of_mem_createChecksum v h

/-- `Decode` reads back what `Encode` writes for a non-empty human-readable
part of printable characters without upper case. -/
theorem decode_encode {hrp values : List UInt8} (hne : hrp ≠ [])
    (hhrp : ∀ c ∈ hrp, isUpper c = false ∧ 33 ≤ c ∧ c ≤ 126) (hv : ∀ v ∈ values, v.toNat < 32)
    (h90 : hrp.length + 7 + values.length ≤ 90) :
    ∃ s, encode hrp values = some s ∧ decode s = (hrp, values) := by
  refine ⟨_, encode_eq_some (fun c hc => (hhrp c hc).1) values, ?_⟩
  rw [decode_of_layout hhrp (toNat_lt_of_mem_append_createChecksum hv) (by simp) (by simp; omega),
    if_pos ⟨hne, verifyChecksum_append_createChecksum hrp hv⟩]
  simp

set_option maxRecDepth 8000 in
example : decode ("a12uel5l".toList.map Char.toUInt8) = (['a'.toUInt8], []) := by decide

/-- Writing another value at one place of the values changes `PolyMod` by a
nonzero word: the error alone, run through the zeros after it. -/
theorem polyMod_set_ne {vs : List UInt8} (hvs : ∀ v ∈ vs, v.toNat < 32) {j : ℕ} (hj : j < vs.length)
    {v : UInt8} (hv : v.toNat < 32) (hne : v ≠ vs.getD j 0) : polyMod (vs.set j v) ≠ polyMod vs := by
  have hlen : vs.length = j + 1 + (vs.length - j - 1) := by omega
  have he : vs.getD j 0 ^^^ v ≠ 0 := fun h => hne (UInt8.xor_eq_zero_iff.mp h).symm
  have heNat : (vs.getD j 0 ^^^ v).toNat < 32 := by
    rw [UInt8.toNat_xor]
    have hvj : (vs.getD j 0).toNat < 32 := by
      rw [List.getD_eq_getElem _ _ hj]
      exact hvs _ (List.getElem_mem hj)
    exact Nat.xor_lt_two_pow (n := 5) hvj hv
  have hstart : polyModStep 0 (vs.getD j 0 ^^^ v) = (vs.getD j 0 ^^^ v).toUInt32 := by
    apply UInt32.toNat_inj.mp
    rw [toNat_polyModStep_of_lt (by decide) heNat, UInt8.toNat_toUInt32]
    simp
  have hstartNe : (vs.getD j 0 ^^^ v).toUInt32 ≠ 0 := by
    intro h
    apply he
    apply UInt8.toNat_inj.mp
    rw [← UInt8.toNat_toUInt32, h]
    rfl
  have hX := foldl_polyModStep_replicate_ne_zero
    (show (vs.getD j 0 ^^^ v).toUInt32.toNat < 2 ^ 30 by rw [UInt8.toNat_toUInt32]; omega) hstartNe
    (vs.length - j - 1)
  rw [polyMod, polyMod, List.set_eq_zipWith_singleError (fun _ => UInt8.xor_zero) (by simp) hlen,
    List.foldl_zipWith_singleError polyModStep_xor polyModStep_zero (fun _ => UInt32.xor_zero) hlen, hstart]
  simpa using hX

/-- Replacing one character of the data part of an encoding by another
character of `CHARSET` makes `Decode` fail. -/
theorem decode_encode_set {hrp values s : List UInt8}
    (hhrp : ∀ c ∈ hrp, isUpper c = false ∧ 33 ≤ c ∧ c ≤ 126) (hv : ∀ v ∈ values, v.toNat < 32)
    (h90 : hrp.length + 7 + values.length ≤ 90) (hs : encode hrp values = some s) {i : ℕ}
    (hi : hrp.length < i) (his : i < s.length) {ch : UInt8} (hch : ch ∈ charset) (hne : ch ≠ s.getD i 0) :
    decode (s.set i ch) = ([], []) := by
  rw [encode_eq_some (fun c hc => (hhrp c hc).1), Option.some_inj] at hs
  subst hs
  have hW := @toNat_lt_of_mem_append_createChecksum hrp values hv
  have hlen : (values ++ createChecksum hrp values).length = values.length + 6 := by simp
  simp only [List.length_append, List.length_singleton, List.length_map, hlen] at his
  obtain ⟨v', hv', rfl⟩ := exists_charsetAt_eq ch hch
  -- the string with one character replaced is the layout of the values with one replaced
  have hset : (hrp ++ ['1'.toUInt8] ++ (values ++ createChecksum hrp values).map charsetAt).set i
      (charsetAt v') = hrp ++ ['1'.toUInt8] ++
        ((values ++ createChecksum hrp values).set (i - (hrp.length + 1)) v').map charsetAt := by
    rw [List.set_append_right _ _ (by simp; omega), List.map_set]
    simp
  have hget : (hrp ++ ['1'.toUInt8] ++ (values ++ createChecksum hrp values).map charsetAt).getD i 0 =
      charsetAt ((values ++ createChecksum hrp values).getD (i - (hrp.length + 1)) 0) := by
    rw [List.getD_append_right _ _ _ _ (by simp; omega), List.getD_eq_getElem _ _ (by simp; omega),
      List.getD_eq_getElem _ _ (by simp; omega), List.getElem_map]
    simp
  have hvne : v' ≠ (values ++ createChecksum hrp values).getD (i - (hrp.length + 1)) 0 :=
    fun h => hne (by rw [hget, h])
  have hW' : ∀ v ∈ (values ++ createChecksum hrp values).set (i - (hrp.length + 1)) v', v.toNat < 32 := by
    intro v hmem
    rcases List.mem_or_eq_of_mem_set hmem with h | rfl
    · exact hW v h
    · exact hv'
  -- the checksum held before, so it fails after
  have hcheck : verifyChecksum hrp ((values ++ createChecksum hrp values).set (i - (hrp.length + 1)) v') =
      false := by
    have h1 : polyMod (expandHRP hrp ++ (values ++ createChecksum hrp values)) = 1 := by
      simpa [verifyChecksum] using verifyChecksum_append_createChecksum hrp hv
    have hE : ∀ v ∈ expandHRP hrp ++ (values ++ createChecksum hrp values), v.toNat < 32 := by
      intro v hmem
      rcases List.mem_append.mp hmem with h | h
      · exact toNat_lt_of_mem_expandHRP v h
      · exact hW v h
    have hne' := polyMod_set_ne hE (j := (expandHRP hrp).length + (i - (hrp.length + 1)))
      (by simp; omega) hv' (by rw [List.getD_append_right _ _ _ _ (by omega)]; simpa using hvne)
    rw [List.set_append_right _ _ (Nat.le_add_right _ _), Nat.add_sub_cancel_left, h1] at hne'
    simp [verifyChecksum, hne']
  rw [hset, decode_of_layout hhrp hW' (by simp) (by simp; omega), hcheck]
  simp

/-- Bech32 round-trips for a non-empty human-readable part of printable
characters without upper case, and `Decode` fails on an encoding with one
character of its data part replaced by another of `CHARSET`. -/
theorem bech32_round_trip :
    (∀ hrp values : List UInt8, hrp ≠ [] → (∀ c ∈ hrp, isUpper c = false ∧ 33 ≤ c ∧ c ≤ 126) →
      (∀ v ∈ values, v.toNat < 32) → hrp.length + 7 + values.length ≤ 90 →
      ∃ s, encode hrp values = some s ∧ decode s = (hrp, values)) ∧
    (∀ hrp values s : List UInt8, (∀ c ∈ hrp, isUpper c = false ∧ 33 ≤ c ∧ c ≤ 126) →
      (∀ v ∈ values, v.toNat < 32) → hrp.length + 7 + values.length ≤ 90 →
      encode hrp values = some s → ∀ (i : ℕ) (ch : UInt8), hrp.length < i → i < s.length →
      ch ∈ charset → ch ≠ s.getD i 0 → decode (s.set i ch) = ([], [])) :=
  ⟨fun _ _ hne hhrp hv h90 => decode_encode hne hhrp hv h90,
    fun _ _ _ hhrp hv h90 hs _ _ hi his hch hne => decode_encode_set hhrp hv h90 hs hi his hch hne⟩

set_option maxRecDepth 8000 in
/-- An empty human-readable part is written, but `Decode` refuses a
separator at position 0, so the values are lost. -/
theorem decode_encode_empty_hrp : (encode [] [0]).map decode = some ([], []) := by
  decide

end Bech32

end Metrix
