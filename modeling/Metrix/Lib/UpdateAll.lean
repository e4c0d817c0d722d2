import Mathlib

/-! A list of entries written into a function one after another, each at its
own key when it is kept: what the writes leave alone, and that a write at a
key none of them touches commutes with them. Over a finite domain, how a
single write moves the number of positions whose value satisfies a
predicate. -/

namespace Function

variable {α β γ : Type*} [DecidableEq α] (key : β → α) (keep : β → Bool) (val : β → γ)

/-- Each kept entry `p` written at `key p`, in the order of the list. -/
def updateAll (m : α → γ) (ps : List β) : α → γ :=
  ps.foldl (fun m p => if keep p then update m (key p) (val p) else m) m

variable {key keep val}

@[simp] theorem updateAll_nil (m : α → γ) : updateAll key keep val m [] = m := rfl

@[simp] theorem updateAll_cons (m : α → γ) (p : β) (ps : List β) :
    updateAll key keep val m (p :: ps) =
      updateAll key keep val (if keep p then update m (key p) (val p) else m) ps := rfl

/-- Writes at other keys leave a key's value alone. -/
theorem updateAll_apply_of_forall_ne {o : α} {ps : List β} (h : ∀ p ∈ ps, key p ≠ o)
    (m : α → γ) : updateAll key keep val m ps o = m o := by
  induction ps generalizing m with
  | nil => rfl
  | cons p ps ih =>
      rw [updateAll_cons, ih (fun q hq => h q (List.mem_cons_of_mem p hq))]
      split
      · exact update_of_ne (h p List.mem_cons_self).symm _ _
      · rfl

/-- A write at a key that no entry has commutes with the entries' writes. -/
theorem updateAll_update_comm {o : α} {ps : List β} (h : ∀ p ∈ ps, key p ≠ o) (v : γ)
    (m : α → γ) :
    updateAll key keep val (update m o v) ps = update (updateAll key keep val m ps) o v := by
  induction ps generalizing m with
  | nil => rfl
  | cons p ps ih =>
      rw [updateAll_cons, updateAll_cons, ← ih (fun q hq => h q (List.mem_cons_of_mem p hq))]
      split
      · rw [update_comm (h p List.mem_cons_self).symm]
      · rfl

section Count

variable {ι δ : Type*} [Fintype ι] [DecidableEq ι]

/-- Overwriting one position of a finite table moves the number of positions
satisfying `P` by what `P` says of the old and the new value. -/
theorem card_filter_update (f : ι → δ) (c : ι) (v : δ) (P : δ → Prop) [DecidablePred P] :
    (Finset.univ.filter fun i => P (update f c v i)).card + (if P (f c) then 1 else 0) =
      (Finset.univ.filter fun i => P (f i)).card + if P v then 1 else 0 := by
  have hsplit : ∀ g : ι → δ, (Finset.univ.filter fun i => P (g i)).card =
      (if P (g c) then 1 else 0) + ((Finset.univ.erase c).filter fun i => P (g i)).card := by
    intro g
    rw [Finset.card_filter, Finset.card_filter, ← Finset.add_sum_erase _ _ (Finset.mem_univ c)]
  have hrest : ((Finset.univ.erase c).filter fun i => P (update f c v i)) =
      (Finset.univ.erase c).filter fun i => P (f i) := by
    apply Finset.filter_congr
    intro i hi
    rw [update_of_ne (Finset.ne_of_mem_erase hi)]
  rw [hsplit (update f c v), hsplit f, hrest, update_self]
  omega

/-- Counting along a list of all positions, each once, is counting over the domain. -/
theorem countP_eq_card_filter {l : List ι} (hl : l.Nodup) (hall : ∀ i, i ∈ l) (p : ι → Bool) :
    l.countP p = (Finset.univ.filter fun i => p i).card := by
  rw [List.countP_eq_length_filter, ← List.toFinset_card_of_nodup (hl.filter _), List.toFinset_filter]
  congr
  ext i
  simp [hall]

end Count

end Function
