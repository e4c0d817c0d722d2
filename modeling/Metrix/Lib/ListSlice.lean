import Mathlib

/-! A list whose length and whose entries at the front and at the back are
known, read as the known prefix, its middle and the known suffix: how a
format that checks bytes at fixed positions is shown to have recognised
exactly the layout it checks for. -/

namespace List

variable {α : Type*}

theorem eq_append_append_of_getD (d : α) {l pre suf : List α} {m : ℕ}
    (hlen : l.length = pre.length + m + suf.length)
    (hpre : ∀ i < pre.length, l.getD i d = pre.getD i d)
    (hsuf : ∀ i < suf.length, l.getD (pre.length + m + i) d = suf.getD i d) :
    l = pre ++ (l.drop pre.length).take m ++ suf := by
  apply List.ext_getElem
  · simp only [length_append, length_take, length_drop]
    omega
  · intro i hl _
    rw [← getD_eq_getElem l d hl]
    by_cases hp : i < pre.length
    · rw [getElem_append_left (by simp; omega), getElem_append_left hp, hpre i hp,
        getD_eq_getElem _ _ hp]
    by_cases hm : i < pre.length + m
    · rw [getElem_append_left (by simp; omega), getElem_append_right (by omega), getElem_take,
        getElem_drop, getD_eq_getElem _ _ hl]
      congr 1
      omega
    · have hs : i - (pre.length + m) < suf.length := by omega
      have := hsuf (i - (pre.length + m)) hs
      rw [Nat.add_sub_cancel' (by omega)] at this
      rw [getElem_append_right (by simp; omega), this, getD_eq_getElem _ _ hs]
      congr 1
      simp
      omega

/-! ### The last entries -/

theorem mem_rtake_add {l : List α} {m n : ℕ} {x : α} (h : x ∈ l.rtake (m + n)) :
    x ∈ l.rtake m ∨ x ∈ (l.rdrop m).rtake n := by
  rw [rtake_eq_reverse_take_reverse, mem_reverse, take_add, mem_append] at h
  rw [rtake_eq_reverse_take_reverse, rtake_eq_reverse_take_reverse, rdrop_eq_reverse_drop_reverse,
    reverse_reverse, mem_reverse, mem_reverse]
  exact h

theorem mem_rtake_of_le {l : List α} {m n : ℕ} (hmn : m ≤ n) {x : α} (h : x ∈ l.rtake m) : x ∈ l.rtake n := by
  rw [rtake_eq_reverse_take_reverse, mem_reverse] at h ⊢
  exact take_subset_take_left _ hmn h

theorem rtake_length (l : List α) : l.rtake l.length = l := by
  rw [rtake, Nat.sub_self, drop_zero]

end List
