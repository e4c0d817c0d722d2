import Mathlib

/-! Sums over the entries of an association list with values of one type,
and how `insert` and `erase` change them: what a counter kept equal to such a
sum has to add and subtract when an entry is written or removed. -/

namespace AList

variable {α β : Type*}

/-- The sum of `f` over the entries. -/
def sumBy (f : α → β → ℕ) (s : AList fun _ : α => β) : ℕ :=
  (s.entries.map fun e => f e.1 e.2).sum

variable {f : α → β → ℕ}

@[simp] theorem sumBy_empty : (∅ : AList fun _ : α => β).sumBy f = 0 := rfl

variable [DecidableEq α]

/-- Removing the entry of `a` takes its term out of the sum. -/
theorem sumBy_erase_add {s : AList fun _ : α => β} {a : α} {b : β} (h : s.lookup a = some b) :
    (s.erase a).sumBy f + f a b = s.sumBy f := by
  have hmem : a ∈ s.entries.keys := mem_keys.mp (lookup_isSome.mp (by simp [h]))
  obtain ⟨b', l₁, l₂, -, hs, hk⟩ := List.exists_of_kerase hmem
  -- the entry found by the split is the one `lookup` returns
  have hb : b' = b := by
    have hin : b' ∈ s.entries.dlookup a := List.mem_dlookup s.nodupKeys (by rw [hs]; simp)
    have hlook : s.entries.dlookup a = some b := h
    rw [hlook] at hin
    exact (Option.some_inj.mp hin).symm
  subst hb
  have herase : (s.erase a).sumBy f = ((l₁ ++ l₂).map fun e => f e.1 e.2).sum := by
    simp only [sumBy, erase, hk]
  rw [herase, sumBy, hs]
  simp only [List.map_append, List.map_cons, List.sum_append, List.sum_cons]
  omega

theorem sumBy_erase_of_lookup_eq_none {s : AList fun _ : α => β} {a : α}
    (h : s.lookup a = none) : (s.erase a).sumBy f = s.sumBy f := by
  have hnot : a ∉ s.entries.keys := fun hk => (lookup_eq_none.mp h) (mem_keys.mpr hk)
  simp only [sumBy, erase, List.kerase_of_notMem_keys hnot]

/-- Writing the entry of `a` replaces its term in the sum. -/
theorem sumBy_insert (s : AList fun _ : α => β) (a : α) (b : β) :
    (s.insert a b).sumBy f = f a b + (s.erase a).sumBy f := by
  simp only [sumBy, entries_insert, List.map_cons, List.sum_cons, erase]

theorem sumBy_insert_of_lookup_eq_none {s : AList fun _ : α => β} {a : α} (b : β)
    (h : s.lookup a = none) : (s.insert a b).sumBy f = s.sumBy f + f a b := by
  rw [sumBy_insert, sumBy_erase_of_lookup_eq_none h, Nat.add_comm]

theorem sumBy_insert_add {s : AList fun _ : α => β} {a : α} {b b' : β} (h : s.lookup a = some b')
    : (s.insert a b).sumBy f + f a b' = s.sumBy f + f a b := by
  rw [sumBy_insert, ← sumBy_erase_add h]
  omega

end AList
