import Mathlib

/-! Bit strings of fixed-width values, most significant bit first: the
meaning of a conversion between power-of-two bases. A value of width `w` is
its `w` low bits; a list of values is their bits one after another, so that
regrouping the same bits into another width changes the list and keeps the
string. -/

namespace BitString

/-- The `w` low bits of `x`, most significant first. -/
def bitsBE (w x : ℕ) : List Bool := ((List.range w).map x.testBit).reverse

/-- Values of width `w`, one after another. -/
def groupBits (w : ℕ) (xs : List ℕ) : List Bool := (xs.map (bitsBE w)).flatten

@[simp] theorem length_bitsBE (w x : ℕ) : (bitsBE w x).length = w := by
  simp [bitsBE]

theorem getElem_bitsBE {w x j : ℕ} (hj : j < (bitsBE w x).length) :
    (bitsBE w x)[j] = x.testBit (w - 1 - j) := by
  simp [bitsBE, List.getElem_reverse]

theorem bitsBE_congr {w x y : ℕ} (h : ∀ i < w, x.testBit i = y.testBit i) : bitsBE w x = bitsBE w y := by
  rw [bitsBE, bitsBE, List.map_congr_left fun i hi => h i (List.mem_range.mp hi)]

/-- The top `a` bits of `a + b`, then the low `b`. -/
theorem bitsBE_add (a b x : ℕ) : bitsBE (a + b) x = bitsBE a (x >>> b) ++ bitsBE b x := by
  rw [bitsBE, Nat.add_comm, List.range_add, List.map_append, List.reverse_append, List.map_map]
  congr 2
  apply List.map_congr_left
  intro i _
  simp [Nat.testBit_shiftRight]

@[simp] theorem bitsBE_zero (w : ℕ) : bitsBE w 0 = List.replicate w false := by
  rw [bitsBE, List.map_congr_left fun i _ => Nat.zero_testBit i]
  simp

theorem bitsBE_mod {w m : ℕ} (hwm : w ≤ m) (x : ℕ) : bitsBE w (x % 2 ^ m) = bitsBE w x :=
  bitsBE_congr fun i hi => by rw [Nat.testBit_mod_two_pow, decide_eq_true (by omega), Bool.true_and]

/-- A value shifted up by `b` with `y` below it: its bits, then those of `y`. -/
theorem bitsBE_shiftLeft_or (a : ℕ) {b y : ℕ} (hy : y < 2 ^ b) (x : ℕ) :
    bitsBE (a + b) ((x <<< b) ||| y) = bitsBE a x ++ bitsBE b y := by
  rw [bitsBE_add]
  congr 1
  · apply bitsBE_congr
    intro i _
    rw [Nat.testBit_shiftRight, Nat.testBit_or, Nat.testBit_shiftLeft,
      Nat.testBit_lt_two_pow (lt_of_lt_of_le hy (Nat.pow_le_pow_right (by norm_num) (by omega)))]
    simp
  · apply bitsBE_congr
    intro i hi
    simp [Nat.testBit_or, Nat.testBit_shiftLeft, hi]

theorem bitsBE_shiftLeft (a b x : ℕ) : bitsBE (a + b) (x <<< b) = bitsBE a x ++ List.replicate b false := by
  have h := bitsBE_shiftLeft_or a (Nat.two_pow_pos b) x
  rwa [Nat.or_zero, bitsBE_zero] at h

theorem eq_of_bitsBE_eq {w x y : ℕ} (hx : x < 2 ^ w) (hy : y < 2 ^ w) (h : bitsBE w x = bitsBE w y) : x = y := by
  apply Nat.eq_of_testBit_eq
  intro i
  by_cases hi : i < w
  · have hj : w - 1 - i < (bitsBE w x).length := by simp; omega
    have hget := congrArg (fun l => l[w - 1 - i]?) h
    simp only [List.getElem?_eq_getElem hj, List.getElem?_eq_getElem (h ▸ hj), getElem_bitsBE,
      Option.some.injEq] at hget
    rwa [show w - 1 - (w - 1 - i) = i by omega] at hget
  · have hle : 2 ^ w ≤ 2 ^ i := Nat.pow_le_pow_right (by norm_num) (by omega)
    rw [Nat.testBit_lt_two_pow (lt_of_lt_of_le hx hle), Nat.testBit_lt_two_pow (lt_of_lt_of_le hy hle)]

@[simp] theorem groupBits_nil (w : ℕ) : groupBits w [] = [] := rfl

@[simp] theorem groupBits_cons (w x : ℕ) (xs : List ℕ) : groupBits w (x :: xs) = bitsBE w x ++ groupBits w xs := by
  simp [groupBits]

@[simp] theorem groupBits_append (w : ℕ) (xs ys : List ℕ) :
    groupBits w (xs ++ ys) = groupBits w xs ++ groupBits w ys := by
  simp [groupBits]

@[simp] theorem length_groupBits (w : ℕ) (xs : List ℕ) : (groupBits w xs).length = w * xs.length := by
  induction xs with
  | nil => rfl
  | cons x xs ih => rw [groupBits_cons, List.length_append, ih, length_bitsBE, List.length_cons]; ring

/-- Values of a positive width are read back from their bits. -/
theorem eq_of_groupBits_eq {w : ℕ} (hw : 0 < w) :
    ∀ {xs ys : List ℕ}, (∀ x ∈ xs, x < 2 ^ w) → (∀ y ∈ ys, y < 2 ^ w) →
      groupBits w xs = groupBits w ys → xs = ys
  | [], [], _, _, _ => rfl
  | [], y :: ys, _, _, h => by
    have := congrArg List.length h
    simp at this
    omega
  | x :: xs, [], _, _, h => by
    have := congrArg List.length h
    simp at this
    omega
  | x :: xs, y :: ys, hx, hy, h => by
    rw [groupBits_cons, groupBits_cons] at h
    obtain ⟨hxy, hrest⟩ := List.append_inj h (by simp)
    rw [eq_of_bitsBE_eq (hx x List.mem_cons_self) (hy y List.mem_cons_self) hxy,
      eq_of_groupBits_eq hw (fun x' h' => hx x' (List.mem_cons_of_mem x h'))
        (fun y' h' => hy y' (List.mem_cons_of_mem y h')) hrest]

/-- Division with remainder is unique. -/
theorem eq_of_mul_add_eq {t a b r s : ℕ} (hr : r < t) (hs : s < t) (h : t * a + r = t * b + s) :
    a = b ∧ r = s := by
  have ht : 0 < t := by omega
  have ha : (t * a + r) / t = a := by rw [Nat.mul_add_div ht, Nat.div_eq_of_lt hr, Nat.add_zero]
  have hb : (t * b + s) / t = b := by rw [Nat.mul_add_div ht, Nat.div_eq_of_lt hs, Nat.add_zero]
  have hab : a = b := by rw [← ha, ← hb, h]
  subst hab
  exact ⟨rfl, by omega⟩

end BitString
