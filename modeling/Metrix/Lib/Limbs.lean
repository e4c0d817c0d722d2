import Mathlib

/-! Little-endian numbers in 32-bit limbs. A list of `UInt32`, least
significant first, stands for the number with those base-`2 ^ 32` digits.
The lemmas read back a list's value, its bits and its limbs, and say what
writing one limb does to the value; the loops of a big-number library over
such an array are proved against them. -/

namespace Limbs

/-- The number whose base-`2 ^ 32` digits, least significant first, are
`l`. -/
def value : List UInt32 → ℕ
  | [] => 0
  | d :: ds => d.toNat + 2 ^ 32 * value ds

@[simp] theorem value_nil : value [] = 0 := rfl

@[simp] theorem value_cons (d : UInt32) (ds : List UInt32) :
    value (d :: ds) = d.toNat + 2 ^ 32 * value ds := rfl

theorem value_lt (l : List UInt32) : value l < 2 ^ (32 * l.length) := by
  induction l with
  | nil => simp
  | cons d ds ih =>
      have hd := d.toNat_lt
      rw [value_cons, List.length_cons, Nat.mul_succ, Nat.pow_add, Nat.mul_comm (2 ^ _) (2 ^ 32)]
      -- the top limbs weigh `2 ^ 32` each, the low one fills what is below
      have : 2 ^ 32 * value ds + 2 ^ 32 ≤ 2 ^ 32 * 2 ^ (32 * ds.length) := by
        rw [← Nat.mul_succ]
        exact Nat.mul_le_mul_left _ ih
      omega

theorem value_append (l r : List UInt32) :
    value (l ++ r) = value l + 2 ^ (32 * l.length) * value r := by
  induction l with
  | nil => simp
  | cons d ds ih =>
      rw [List.cons_append, value_cons, value_cons, ih, List.length_cons, Nat.mul_succ,
        Nat.pow_add, Nat.mul_add, ← Nat.mul_assoc, Nat.mul_comm (2 ^ 32) (2 ^ _)]
      omega

@[simp] theorem value_replicate_zero (n : ℕ) : value (List.replicate n 0) = 0 := by
  induction n with
  | zero => rfl
  | succ n ih => simp [List.replicate_succ, ih]

theorem value_eq_zero_iff : ∀ l : List UInt32, value l = 0 ↔ ∀ d ∈ l, d = 0
  | [] => by simp
  | d :: ds => by
      rw [value_cons, List.forall_mem_cons, ← value_eq_zero_iff ds, ← UInt32.toNat_inj,
        UInt32.toNat_zero]
      omega

/-- Bit `u` of the value is bit `u % 32` of limb `u / 32`, for every `u`. -/
theorem testBit_value (l : List UInt32) (u : ℕ) :
    (value l).testBit u = (l.getD (u / 32) 0).toNat.testBit (u % 32) := by
  induction l generalizing u with
  | nil => simp
  | cons d ds ih =>
      rw [value_cons, Nat.add_comm, Nat.testBit_two_pow_mul_add _ d.toNat_lt]
      by_cases hu : u < 32
      · rw [if_pos hu, Nat.div_eq_of_lt hu, Nat.mod_eq_of_lt hu]
        rfl
      · rw [if_neg hu, ih]
        have hdiv : u / 32 = (u - 32) / 32 + 1 := by omega
        have hmod : u % 32 = (u - 32) % 32 := by omega
        rw [hdiv, hmod]
        rfl

/-- Two limb arrays of one length with one value are the same. -/
theorem eq_of_value_eq : ∀ {l r : List UInt32}, l.length = r.length → value l = value r → l = r
  | [], [], _, _ => rfl
  | d :: ds, e :: es, hlen, h => by
      rw [value_cons, value_cons] at h
      have hd := d.toNat_lt
      have he := e.toNat_lt
      have hlow : d.toNat = e.toNat := by omega
      have hhigh : value ds = value es := by omega
      rw [UInt32.toNat_inj.mp hlow,
        eq_of_value_eq (Nat.succ.inj (by simpa using hlen)) hhigh]

/-- The limbs of `n` below `2 ^ (32 * w)`. -/
def ofNat : ℕ → ℕ → List UInt32
  | 0, _ => []
  | w + 1, n => (n % 2 ^ 32).toUInt32 :: ofNat w (n / 2 ^ 32)

@[simp] theorem length_ofNat (w n : ℕ) : (ofNat w n).length = w := by
  induction w generalizing n with
  | zero => rfl
  | succ w ih => simp [ofNat, ih]

/-- Two numbers whose top digits differ are ordered by them. -/
theorem add_mul_lt_add_mul {a b m x y : ℕ} (ha : a < m) (hxy : x < y) : a + m * x < b + m * y := by
  have : m * (x + 1) ≤ m * y := Nat.mul_le_mul_left m hxy
  rw [Nat.mul_succ] at this
  omega

/-- A low part below `m` is kept whole by a reduction modulo a multiple of `m`. -/
theorem add_mul_mod_mul {t m y n : ℕ} (ht : t < m) : (t + m * y) % (m * n) = t + m * (y % n) := by
  have hm : 0 < m := by omega
  rw [Nat.mod_mul, Nat.add_mul_mod_self_left, Nat.mod_eq_of_lt ht, Nat.add_mul_div_left _ _ hm,
    Nat.div_eq_of_lt ht, Nat.zero_add]

theorem value_take_succ (l : List UInt32) (j : ℕ) :
    value (l.take (j + 1)) = value (l.take j) + 2 ^ (32 * j) * (l.getD j 0).toNat := by
  rw [List.take_add_one]
  by_cases hj : j < l.length
  · have htake : (l.take j).length = j := List.length_take_of_le hj.le
    rw [List.getElem?_eq_getElem hj, Option.toList_some, value_append, htake,
      List.getD_eq_getElem _ _ hj, value_cons, value_nil]
    ring
  · rw [List.getElem?_eq_none (by omega), List.getD_eq_default _ _ (by omega)]
    simp

/-- The bit length of a number with top digit `d` above `m` low bits. -/
theorem size_add_two_pow_mul {t m d : ℕ} (ht : t < 2 ^ m) (hd : d ≠ 0) :
    Nat.size (t + 2 ^ m * d) = m + Nat.size d := by
  have hdsize : d < 2 ^ Nat.size d := Nat.lt_size_self d
  have hdpos : 0 < Nat.size d := Nat.size_pos.mpr (Nat.pos_of_ne_zero hd)
  have hdlow : 2 ^ (Nat.size d - 1) ≤ d := Nat.lt_size.mp (by omega)
  apply le_antisymm
  · -- below the next power: `d < 2 ^ size d` weighs `2 ^ m` more than `t` can add
    rw [Nat.size_le, Nat.pow_add]
    have : 2 ^ m * (d + 1) ≤ 2 ^ m * 2 ^ Nat.size d := Nat.mul_le_mul_left _ hdsize
    rw [Nat.mul_succ] at this
    omega
  · -- at or above the top bit of `d`, shifted by `m`
    have hpow : 2 ^ (m + (Nat.size d - 1)) ≤ t + 2 ^ m * d := by
      rw [Nat.pow_add]
      exact le_add_left (Nat.mul_le_mul_left _ hdlow)
    have := Nat.lt_size.mpr hpow
    omega

/-- Setting bit `s` of a number whose bits up to `s` are clear adds `2 ^ s`. -/
theorem or_two_pow_of_dvd {q s : ℕ} (h : 2 ^ (s + 1) ∣ q) : q ||| 2 ^ s = q + 2 ^ s := by
  obtain ⟨m, rfl⟩ := h
  exact (Nat.two_pow_add_eq_or_of_lt (Nat.pow_lt_pow_right (by decide) (Nat.lt_succ_self s)) m).symm

/-! ## Bits of a limb -/

theorem testBit_toNat_of_le (x : UInt32) {j : ℕ} (hj : 32 ≤ j) : x.toNat.testBit j = false :=
  Nat.testBit_lt_two_pow (lt_of_lt_of_le x.toNat_lt (Nat.pow_le_pow_right (by decide) hj))

theorem toNat_toUInt32_of_lt {s : ℕ} (hs : s < 32) : s.toUInt32.toNat = s := by
  simp only [Nat.toUInt32_eq, UInt32.toNat_ofNat']
  omega

/-- Bit `u` of `x << s` for a shift below the word size. -/
theorem testBit_shl (x : UInt32) {s : ℕ} (hs : s < 32) {u : ℕ} (hu : u < 32) :
    (x <<< s.toUInt32).toNat.testBit u = (decide (s ≤ u) && x.toNat.testBit (u - s)) := by
  rw [UInt32.toNat_shiftLeft, toNat_toUInt32_of_lt hs, Nat.mod_eq_of_lt hs,
    Nat.testBit_mod_two_pow, Nat.testBit_shiftLeft]
  simp [hu]

/-- Bit `u` of `x >> s` for a shift below the word size. -/
theorem testBit_shr (x : UInt32) {s : ℕ} (hs : s < 32) (u : ℕ) :
    (x >>> s.toUInt32).toNat.testBit u = x.toNat.testBit (s + u) := by
  rw [UInt32.toNat_shiftRight, toNat_toUInt32_of_lt hs, Nat.mod_eq_of_lt hs,
    Nat.testBit_shiftRight]

@[simp] theorem testBit_ite_zero (c : Prop) [Decidable c] (v : UInt32) (u : ℕ) :
    (if c then v else 0).toNat.testBit u = (decide c && v.toNat.testBit u) := by
  by_cases h : c <;> simp [h]

/-- The one-bit word `1 << j`. -/
theorem toNat_one_shl {j : ℕ} (hj : j < 32) : ((1 : UInt32) <<< j.toUInt32).toNat = 2 ^ j := by
  rw [UInt32.toNat_shiftLeft, toNat_toUInt32_of_lt hj, Nat.mod_eq_of_lt hj, UInt32.toNat_one,
    Nat.one_shiftLeft]
  exact Nat.mod_eq_of_lt (Nat.pow_lt_pow_right (by decide) hj)

/-- Bit `j` of a limb, as tested by the code: `x & (1 << j)`. -/
theorem and_one_shl_ne_zero (x : UInt32) {j : ℕ} (hj : j < 32) :
    x &&& 1 <<< j.toUInt32 ≠ 0 ↔ x.toNat.testBit j = true := by
  rw [ne_eq, ← UInt32.toNat_inj, UInt32.toNat_and, toNat_one_shl hj, Nat.and_two_pow,
    UInt32.toNat_zero]
  cases x.toNat.testBit j <;> simp

/-! ## Loops that OR words into limbs -/

@[simp] theorem getD_replicate_zero (n t : ℕ) : (List.replicate n (0 : UInt32)).getD t 0 = 0 := by
  rw [List.getD_eq_getElem?_getD, List.getElem?_replicate]
  split <;> rfl

/-- ORing `v` into limb `j`, read at limb `t`. -/
theorem getD_modify_or (l : List UInt32) (j : ℕ) (v : UInt32) (t : ℕ) :
    (l.modify j (· ||| v)).getD t 0 = l.getD t 0 ||| (if t = j ∧ j < l.length then v else 0) := by
  rw [List.getD_eq_getElem?_getD, List.getElem?_modify, List.getD_eq_getElem?_getD]
  by_cases ht : t < l.length
  · rw [List.getElem?_eq_getElem ht]
    by_cases htj : t = j
    · subst htj
      simp [ht]
    · simp [htj, Ne.symm htj]
  · rw [List.getElem?_eq_none (by omega)]
    have : ¬(t = j ∧ j < l.length) := fun h => ht (h.1 ▸ h.2)
    simp [this]

/-- ORing `v` into limb `j` where `c` holds, as the shift loops do. -/
theorem getD_ite_modify_or (c : Prop) [Decidable c] (l : List UInt32) (j : ℕ) (v : UInt32)
    (t : ℕ) : (if c then l.modify j (· ||| v) else l).getD t 0 =
      l.getD t 0 ||| (if t = j ∧ j < l.length ∧ c then v else 0) := by
  by_cases hc : c
  · rw [if_pos hc, getD_modify_or]
    simp [hc]
  · simp [hc]

@[simp] theorem length_ite_modify (c : Prop) [Decidable c] (l : List UInt32) (j : ℕ)
    (f : UInt32 → UInt32) : (if c then l.modify j f else l).length = l.length := by
  split <;> simp

/-- A loop whose every pass ORs `c i t` into each limb `t`: a bit of a limb is
set at the end iff it was set at the start or some pass set it. -/
theorem testBit_foldl_or {w : ℕ} {step : List UInt32 → ℕ → List UInt32} {c : ℕ → ℕ → UInt32}
    (hlen : ∀ pn i, pn.length = w → (step pn i).length = w)
    (hstep : ∀ pn i t, pn.length = w → (step pn i).getD t 0 = pn.getD t 0 ||| c i t)
    (t u : ℕ) : ∀ (is : List ℕ) {pn : List UInt32}, pn.length = w →
      ((is.foldl step pn).getD t 0).toNat.testBit u =
        ((pn.getD t 0).toNat.testBit u || is.any fun i => (c i t).toNat.testBit u)
  | [], _, _ => by simp
  | i :: is, pn, hpn => by
      rw [List.foldl_cons, testBit_foldl_or hlen hstep t u is (hlen pn i hpn), hstep pn i t hpn,
        UInt32.toNat_or, Nat.testBit_or, List.any_cons, Bool.or_assoc]

/-! ## Limbs and carries in 64 bits -/

/-- The low limb of a 64-bit partial result, `n & 0xffffffff` kept as 32 bits. -/
theorem toNat_low (n : UInt64) : (n &&& 0xffffffff).toUInt32.toNat = n.toNat % 2 ^ 32 := by
  rw [UInt64.toNat_toUInt32, UInt64.toNat_and]
  show (n.toNat &&& (2 ^ 32 - 1)) % 2 ^ 32 = _
  rw [Nat.and_two_pow_sub_one_eq_mod, Nat.mod_mod]

/-- The carry of a 64-bit partial result, `n >> 32`. -/
theorem toNat_carry (n : UInt64) : (n >>> 32).toNat = n.toNat / 2 ^ 32 := by
  rw [UInt64.toNat_shiftRight]
  simp [Nat.shiftRight_eq_div_pow]

/-- A sum in 64 bits that does not wrap. -/
theorem toNat_add_of_lt {a b : UInt64} (h : a.toNat + b.toNat < 2 ^ 64) :
    (a + b).toNat = a.toNat + b.toNat := by
  rw [UInt64.toNat_add]
  exact Nat.mod_eq_of_lt h

/-- A partial product of a multiplication loop, `carry + a + x * y` in
`uint64_t` with a carry below `2 ^ 32`: it does not wrap. -/
theorem toNat_mulAdd {carry : UInt64} (hc : carry.toNat < 2 ^ 32) (a x y : UInt32) :
    (carry + a.toUInt64 + x.toUInt64 * y.toUInt64).toNat =
      carry.toNat + a.toNat + x.toNat * y.toNat := by
  have hx := x.toNat_lt
  have hy := y.toNat_lt
  have ha := a.toNat_lt
  have hxy : x.toNat * y.toNat ≤ 4294967295 * 4294967295 := Nat.mul_le_mul (by omega) (by omega)
  have hmul : (x.toUInt64 * y.toUInt64).toNat = x.toNat * y.toNat := by
    rw [UInt64.toNat_mul, UInt32.toNat_toUInt64, UInt32.toNat_toUInt64, Nat.mod_eq_of_lt (by omega)]
  have hca : (carry + a.toUInt64).toNat = carry.toNat + a.toNat := by
    rw [toNat_add_of_lt (by rw [UInt32.toNat_toUInt64]; omega), UInt32.toNat_toUInt64]
  rw [toNat_add_of_lt (by rw [hca, hmul]; omega), hca, hmul]

/-- The carry out of a partial product stays below `2 ^ 32`. -/
theorem mulAdd_div_lt (c a x y : ℕ) (hc : c < 2 ^ 32) (ha : a < 2 ^ 32) (hx : x < 2 ^ 32)
    (hy : y < 2 ^ 32) : (c + a + x * y) / 2 ^ 32 < 2 ^ 32 := by
  have hxy : x * y ≤ 4294967295 * 4294967295 := Nat.mul_le_mul (by omega) (by omega)
  omega

/-- One step of a carry loop: the low limb of a partial result, and above it
what the rest of the loop makes of the carry. -/
theorem carry_step (a b k : ℕ) :
    a % 2 ^ 32 + 2 ^ 32 * ((b + a / 2 ^ 32) % 2 ^ (32 * k)) = (a + 2 ^ 32 * b) % 2 ^ (32 * (k + 1)) := by
  rw [Nat.mul_succ, Nat.pow_add, Nat.mul_comm (2 ^ (32 * k)) (2 ^ 32), Nat.mod_mul,
    Nat.add_mul_mod_self_left, Nat.add_mul_div_left _ _ (by positivity), Nat.add_comm b]

end Limbs
