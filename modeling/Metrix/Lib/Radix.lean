import Mathlib

/-! Base conversion on a fixed-size digit buffer. The buffer holds base-`B`
digits least significant first; one pass multiplies it by `m` and adds a
carry, `carry += m * d; d := carry % B; carry /= B`, and stops when the buffer
ends or when the carry is spent and the digits that may be nonzero are
passed. A pass is exact while its result fits the buffer, and the buffer read
from its top with the leading zeros dropped gives the digits of its value. -/

namespace Radix

open Nat (ofDigits digits)

/-- One multiply-add pass from the low end of the buffer, while
`carry ≠ 0 ∨ i < length` and the buffer lasts; it returns the buffer, the
carry left over and the count `i` reached. -/
def mulAddPass (B m length : ℕ) : ℕ → ℕ → List ℕ → List ℕ × ℕ × ℕ
  | carry, i, [] => ([], carry, i)
  | carry, i, d :: ds =>
    if carry != 0 || decide (i < length) then
      let r := mulAddPass B m length ((carry + m * d) / B) (i + 1) ds
      ((carry + m * d) % B :: r.1, r.2)
    else (d :: ds, carry, i)

section Equations

variable {B m length : ℕ}

@[simp] theorem mulAddPass_nil (carry i : ℕ) : mulAddPass B m length carry i [] = ([], carry, i) := rfl

theorem mulAddPass_cons (carry i d : ℕ) (ds : List ℕ) :
    mulAddPass B m length carry i (d :: ds) =
      if carry != 0 || decide (i < length) then
        ((carry + m * d) % B :: (mulAddPass B m length ((carry + m * d) / B) (i + 1) ds).1,
          (mulAddPass B m length ((carry + m * d) / B) (i + 1) ds).2)
      else (d :: ds, carry, i) := rfl

end Equations

/-- The digits from position `k` on are zero. -/
def ZeroFrom (k : ℕ) (l : List ℕ) : Prop := ∀ x ∈ l.drop k, x = 0

/-- A buffer of `size` base-`B` digits whose digits from `length` on are zero. -/
structure Buffer (B size length : ℕ) (buf : List ℕ) : Prop where
  length_eq : buf.length = size
  digit_lt : ∀ d ∈ buf, d < B
  zero_from : ZeroFrom length buf

theorem buffer_replicate_zero {B : ℕ} (hB : 0 < B) (size : ℕ) : Buffer B size 0 (List.replicate size 0) :=
  ⟨List.length_replicate, fun _ hd => (List.eq_of_mem_replicate hd).symm ▸ hB,
    fun _ hx => List.eq_of_mem_replicate (List.mem_of_mem_drop hx)⟩

theorem ofDigits_eq_zero_of_zeroFrom {B : ℕ} {l : List ℕ} (h : ZeroFrom 0 l) : ofDigits B l = 0 := by
  have hzero : ∀ x ∈ l, x = 0 := by simpa [ZeroFrom] using h
  rw [List.eq_replicate_iff.mpr ⟨rfl, hzero⟩, Nat.ofDigits_replicate_zero]

theorem zeroFrom_tail {k d : ℕ} {ds : List ℕ} (h : ZeroFrom k (d :: ds)) : ZeroFrom (k - 1) ds := by
  intro x hx
  cases k with
  | zero => exact h x (List.mem_cons_of_mem d (List.mem_of_mem_drop hx))
  | succ k => exact h x hx

/-! ## One pass -/

section Pass

variable {B m length : ℕ}

theorem length_mulAddPass (carry i : ℕ) (ds : List ℕ) :
    (mulAddPass B m length carry i ds).1.length = ds.length := by
  induction ds generalizing carry i with
  | nil => rfl
  | cons d ds ih =>
    rw [mulAddPass_cons]
    split
    · simp [ih]
    · rfl

theorem le_count_mulAddPass (carry i : ℕ) (ds : List ℕ) :
    i ≤ (mulAddPass B m length carry i ds).2.2 := by
  induction ds generalizing carry i with
  | nil => exact le_rfl
  | cons d ds ih =>
    rw [mulAddPass_cons]
    split
    · exact Nat.le_of_succ_le (ih _ (i + 1))
    · exact le_rfl

theorem digit_lt_mulAddPass (hB : 0 < B) (carry i : ℕ) {ds : List ℕ} (hds : ∀ d ∈ ds, d < B) :
    ∀ d ∈ (mulAddPass B m length carry i ds).1, d < B := by
  induction ds generalizing carry i with
  | nil => simp
  | cons d ds ih =>
    rw [mulAddPass_cons]
    split
    · intro x hx
      rcases List.mem_cons.mp hx with rfl | hx
      · exact Nat.mod_lt _ hB
      · exact ih _ (i + 1) (fun y hy => hds y (List.mem_cons_of_mem d hy)) x hx
    · exact hds

/-- A pass computes `m * value + carry`, with what does not fit the buffer
left in the carry; the digits past `length` must be zero, since the pass
leaves them unmultiplied once the carry is spent. -/
theorem ofDigits_mulAddPass (carry i : ℕ) {ds : List ℕ} (hz : ZeroFrom (length - i) ds) :
    ofDigits B (mulAddPass B m length carry i ds).1 + B ^ ds.length * (mulAddPass B m length carry i ds).2.1 =
      m * ofDigits B ds + carry := by
  induction ds generalizing carry i with
  | nil => simp
  | cons d ds ih =>
    rw [mulAddPass_cons]
    split
    · have hz' : ZeroFrom (length - (i + 1)) ds := by
        rw [← Nat.sub_sub]
        exact zeroFrom_tail hz
      have hr := ih ((carry + m * d) / B) (i + 1) hz'
      simp only [Nat.ofDigits_cons, List.length_cons]
      calc (carry + m * d) % B + B * ofDigits B (mulAddPass B m length ((carry + m * d) / B) (i + 1) ds).1 +
            B ^ (ds.length + 1) * (mulAddPass B m length ((carry + m * d) / B) (i + 1) ds).2.1
          = (carry + m * d) % B + B * (ofDigits B (mulAddPass B m length ((carry + m * d) / B) (i + 1) ds).1 +
            B ^ ds.length * (mulAddPass B m length ((carry + m * d) / B) (i + 1) ds).2.1) := by ring
        _ = ((carry + m * d) % B + B * ((carry + m * d) / B)) + B * (m * ofDigits B ds) := by rw [hr]; ring
        _ = m * (d + B * ofDigits B ds) + carry := by rw [Nat.mod_add_div]; ring
    · -- the carry is spent and every digit left is zero
      rename_i hstop
      simp only [Bool.or_eq_true, bne_iff_ne, ne_eq, decide_eq_true_eq, not_or, not_not, not_lt] at hstop
      obtain ⟨rfl, hle⟩ := hstop
      rw [Nat.sub_eq_zero_of_le hle] at hz
      simp [ofDigits_eq_zero_of_zeroFrom hz]

theorem zeroFrom_mulAddPass (carry i : ℕ) {ds : List ℕ} (hz : ZeroFrom (length - i) ds) :
    ZeroFrom ((mulAddPass B m length carry i ds).2.2 - i) (mulAddPass B m length carry i ds).1 := by
  induction ds generalizing carry i with
  | nil => simp [ZeroFrom]
  | cons d ds ih =>
    rw [mulAddPass_cons]
    split
    · have hz' : ZeroFrom (length - (i + 1)) ds := by
        rw [← Nat.sub_sub]
        exact zeroFrom_tail hz
      have hle := @le_count_mulAddPass B m length ((carry + m * d) / B) (i + 1) ds
      have hr := ih ((carry + m * d) / B) (i + 1) hz'
      obtain ⟨k, hk⟩ : ∃ k, (mulAddPass B m length ((carry + m * d) / B) (i + 1) ds).2.2 - i = k + 1 :=
        ⟨_, (Nat.succ_pred_eq_of_pos (by omega)).symm⟩
      intro x hx
      rw [hk, List.drop_succ_cons] at hx
      exact hr x (by rwa [show (mulAddPass B m length ((carry + m * d) / B) (i + 1) ds).2.2 - (i + 1) = k by omega])
    · rename_i hstop
      simp only [Bool.or_eq_true, bne_iff_ne, ne_eq, decide_eq_true_eq, not_or, not_not, not_lt] at hstop
      show ZeroFrom (i - i) (d :: ds)
      rwa [Nat.sub_self, ← Nat.sub_eq_zero_of_le hstop.2]

/-- A pass that multiplies a buffer by `m` and adds `d`, with a result below
`B ^ size`, leaves no carry and a buffer holding the result. -/
theorem mulAddPass_buffer (hB : 1 < B) {size length' d : ℕ} {buf : List ℕ}
    (hbuf : Buffer B size length' buf) (hlt : m * ofDigits B buf + d < B ^ size) :
    (mulAddPass B m length' d 0 buf).2.1 = 0 ∧
      Buffer B size (mulAddPass B m length' d 0 buf).2.2 (mulAddPass B m length' d 0 buf).1 ∧
      ofDigits B (mulAddPass B m length' d 0 buf).1 = m * ofDigits B buf + d := by
  have hz : ZeroFrom (length' - 0) buf := hbuf.zero_from
  have hval := ofDigits_mulAddPass (B := B) (m := m) d 0 hz
  have hlen : (mulAddPass B m length' d 0 buf).1.length = size := by
    rw [length_mulAddPass, hbuf.length_eq]
  have hdig := @digit_lt_mulAddPass B m length' (by omega) d 0 buf hbuf.digit_lt
  have hfits : ofDigits B (mulAddPass B m length' d 0 buf).1 < B ^ size :=
    hlen ▸ Nat.ofDigits_lt_base_pow_length hB hdig
  rw [hbuf.length_eq] at hval
  have hcarry : (mulAddPass B m length' d 0 buf).2.1 = 0 := by
    by_contra hne
    have : B ^ size ≤ B ^ size * (mulAddPass B m length' d 0 buf).2.1 :=
      Nat.le_mul_of_pos_right _ (Nat.pos_of_ne_zero hne)
    omega
  refine ⟨hcarry, ⟨hlen, hdig, ?_⟩, ?_⟩
  · simpa using zeroFrom_mulAddPass (B := B) (m := m) d 0 hz
  · simpa [hcarry] using hval

end Pass

/-- `a ^ n < b ^ (n * p / q + 1)` when `a ^ q ≤ b ^ p`: a buffer of
`n * p / q + 1` base-`b` digits holds every `n`-digit base-`a` number. -/
theorem pow_lt_pow_div_add_one {a b p q : ℕ} (hb : 1 < b) (hq : 0 < q) (h : a ^ q ≤ b ^ p) (n : ℕ) :
    a ^ n < b ^ (n * p / q + 1) := by
  have hexp : n * p < q * (n * p / q + 1) := Nat.lt_mul_div_succ (n * p) hq
  rw [← Nat.pow_lt_pow_iff_left hq.ne']
  calc (a ^ n) ^ q = (a ^ q) ^ n := by rw [← pow_mul, ← pow_mul, mul_comm]
    _ ≤ (b ^ p) ^ n := Nat.pow_le_pow_left h n
    _ = b ^ (n * p) := by rw [← pow_mul, mul_comm]
    _ < b ^ (q * (n * p / q + 1)) := Nat.pow_lt_pow_right hb hexp
    _ = (b ^ (n * p / q + 1)) ^ q := by rw [← pow_mul, mul_comm]

/-! ## Reading a buffer back -/

section Read

variable {α : Type*} [BEq α] [LawfulBEq α]

theorem takeWhile_replicate_append (a : α) (z : ℕ) {t : List α} (ht : ∀ x ∈ t.head?, x ≠ a) :
    (List.replicate z a ++ t).takeWhile (· == a) = List.replicate z a := by
  induction z with
  | zero =>
    cases t with
    | nil => rfl
    | cons x t => exact List.takeWhile_cons_of_neg (by simpa using ht x rfl)
  | succ z ih => simp [List.replicate_succ, ih]

theorem dropWhile_replicate_append (a : α) (z : ℕ) {t : List α} (ht : ∀ x ∈ t.head?, x ≠ a) :
    (List.replicate z a ++ t).dropWhile (· == a) = t := by
  induction z with
  | zero =>
    cases t with
    | nil => rfl
    | cons x t => exact List.dropWhile_cons_of_neg (by simpa using ht x rfl)
  | succ z ih => simp [List.replicate_succ, ih]

/-- A list is its leading run of `a`s followed by what `dropWhile` leaves. -/
theorem eq_replicate_append_dropWhile (a : α) (l : List α) :
    l = List.replicate (l.takeWhile (· == a)).length a ++ l.dropWhile (· == a) := by
  have hrun : l.takeWhile (· == a) = List.replicate (l.takeWhile (· == a)).length a :=
    List.eq_replicate_iff.mpr ⟨rfl, fun x hx => by simpa using List.mem_takeWhile_imp hx⟩
  rw [← hrun, List.takeWhile_append_dropWhile]

theorem head?_dropWhile_ne (a : α) (l : List α) : ∀ x ∈ (l.dropWhile (· == a)).head?, x ≠ a := by
  intro x hx
  have hne : l.dropWhile (· == a) ≠ [] := by
    intro h
    rw [h] at hx
    cases hx
  have hhead := List.head_dropWhile_not (· == a) hne
  rw [List.head?_eq_some_head hne, Option.mem_def, Option.some.injEq] at hx
  rw [hx] at hhead
  simpa using hhead

end Read

/-- Dropping a run of zeros in front of what `dropWhile` drops anyway. -/
theorem dropWhile_drop_of_zero {k : ℕ} {l : List ℕ} (h : ∀ x ∈ l.take k, x = 0) :
    (l.drop k).dropWhile (· == 0) = l.dropWhile (· == 0) := by
  induction k generalizing l with
  | zero => rfl
  | succ k ih =>
    cases l with
    | nil => rfl
    | cons x xs =>
      have hx : x = 0 := h x (by simp)
      rw [List.drop_succ_cons, List.dropWhile_cons_of_pos (by simp [hx])]
      exact ih (fun y hy => h y (List.mem_cons_of_mem x hy))

/-- The digits of a little-endian list read from the top with the leading
zeros dropped are the big-endian digits of its value. -/
theorem dropWhile_reverse_eq_digits {B : ℕ} (hB : 1 < B) {l : List ℕ} (hl : ∀ x ∈ l, x < B) :
    l.reverse.dropWhile (· == 0) = (digits B (ofDigits B l)).reverse := by
  induction l using List.reverseRecOn with
  | nil => simp
  | append_singleton l x ih =>
    have ih := ih (fun y hy => hl y (List.mem_append_left _ hy))
    rw [List.reverse_append, List.reverse_singleton, List.singleton_append]
    by_cases hx : x = 0
    · rw [List.dropWhile_cons_of_pos (by simp [hx]), ih, hx, Nat.ofDigits_append_zero]
    · rw [List.dropWhile_cons_of_neg (by simpa using hx), Nat.digits_ofDigits B hB _ hl (by simpa using hx),
        List.reverse_append, List.reverse_singleton, List.singleton_append]

/-- `b256.begin() + (size - length)` and the leading zeros after it: a buffer
read from its top past the zeros gives the digits of its value. -/
theorem dropWhile_drop_reverse {B size length : ℕ} (hB : 1 < B) {buf : List ℕ}
    (hbuf : Buffer B size length buf) :
    (buf.reverse.drop (size - length)).dropWhile (· == 0) = (digits B (ofDigits B buf)).reverse := by
  have htop : ∀ x ∈ buf.reverse.take (size - length), x = 0 := by
    intro x hx
    rw [List.take_reverse, List.mem_reverse, hbuf.length_eq] at hx
    by_cases hle : length ≤ size
    · exact hbuf.zero_from x (by rwa [Nat.sub_sub_self hle] at hx)
    · rw [Nat.sub_eq_zero_of_le (show size ≤ length by omega), Nat.sub_zero, ← hbuf.length_eq,
        List.drop_length] at hx
      cases hx
  rw [dropWhile_drop_of_zero htop, dropWhile_reverse_eq_digits hB hbuf.digit_lt]

/-- A big-endian digit list with no leading zero is its value's digits. -/
theorem digits_ofDigits_reverse {b : ℕ} (hb : 1 < b) {l : List ℕ} (hl : ∀ x ∈ l, x < b)
    (hhead : ∀ x ∈ l.head?, x ≠ 0) : digits b (ofDigits b l.reverse) = l.reverse := by
  refine Nat.digits_ofDigits b hb l.reverse (fun x hx => hl x (List.mem_reverse.mp hx)) ?_
  intro hne
  rw [List.getLast_reverse]
  exact hhead _ (Option.mem_def.mpr (List.head?_eq_some_head _))

/-- The most significant digit of a number is not zero. -/
theorem head?_reverse_digits_ne_zero (b n : ℕ) : ∀ x ∈ (digits b n).reverse.head?, x ≠ 0 := by
  intro x hx
  rw [List.head?_reverse] at hx
  rcases Nat.eq_zero_or_pos n with rfl | hn
  · simp at hx
  · rw [List.getLast?_eq_some_getLast (Nat.digits_ne_nil_iff_ne_zero.mpr hn.ne'), Option.mem_def,
      Option.some.injEq] at hx
    rw [← hx]
    exact Nat.getLast_digit_ne_zero b hn.ne'

end Radix
