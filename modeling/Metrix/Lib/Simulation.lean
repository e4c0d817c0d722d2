import Mathlib

/-! A fold in `Except` that follows a fold in `Option` step by step, under a
relation between their states, follows it over a whole list: where the
`Option` fold succeeds, the `Except` fold succeeds too, in a related state.
This is how a faulting implementation is shown to refine a partial
specification that rules the faults out. Also the two reductions of `Except`
that the proofs of such simulations rewrite with, and the two degenerate
cases: a fold whose steps keep an invariant and never fail, and a fold whose
steps all succeed as a pure step does. Last, the frame rule of such folds (a
part of the state that no step changes stays), and an invariant whose steps
succeed only while a counter stays within a bound, as a fixed-width counter
does: the fold succeeds when the counter starts far enough below the bound
for every step that raises it. -/

namespace Except

universe u v

variable {ε : Type u} {α β : Type v}

@[simp] theorem ok_bind (a : α) (f : α → Except ε β) : (Except.ok a >>= f) = f a := rfl

@[simp] theorem ok_map (f : α → β) (a : α) : (Except.ok a : Except ε α).map f = .ok (f a) := rfl

theorem bind_eq_ok {x : Except ε α} {f : α → Except ε β} {b : β} :
    x >>= f = .ok b ↔ ∃ a, x = .ok a ∧ f a = .ok b := by
  cases x <;> simp [bind, Except.bind]

theorem map_eq_ok {x : Except ε α} {f : α → β} {b : β} :
    x.map f = .ok b ↔ ∃ a, x = .ok a ∧ f a = b := by
  cases x <;> simp [Except.map]

end Except

namespace List

variable {σ τ ε α : Type*} (R : σ → τ → Prop) {f : σ → α → Except ε σ} {g : τ → α → Option τ}

theorem foldlM_simulates
    (hstep : ∀ s t a t', R s t → g t a = some t' → ∃ s', f s a = .ok s' ∧ R s' t')
    (l : List α) {s : σ} {t t' : τ} (hR : R s t) (hg : l.foldlM g t = some t') :
    ∃ s', l.foldlM f s = .ok s' ∧ R s' t' := by
  induction l generalizing s t with
  | nil =>
      rw [foldlM_nil, Option.pure_def, Option.some_inj] at hg
      exact ⟨s, rfl, hg ▸ hR⟩
  | cons a l ih =>
      rw [foldlM_cons] at hg
      obtain ⟨t1, hg1, hrest⟩ := Option.bind_eq_some_iff.mp hg
      obtain ⟨s1, hf1, hR1⟩ := hstep s t a t1 hR hg1
      obtain ⟨s', hf', hR'⟩ := ih hR1 hrest
      exact ⟨s', by rw [foldlM_cons, hf1]; exact hf', hR'⟩

/-- A fold in `Except` whose steps, at the elements of the list and from a state
with `P`, succeed in a state with `P`, succeeds over the list in a state with `P`. -/
theorem foldlM_except_invariant (P : σ → Prop) {l : List α}
    (hstep : ∀ s a, a ∈ l → P s → ∃ s', f s a = .ok s' ∧ P s') {s : σ} (hs : P s) :
    ∃ s', l.foldlM f s = .ok s' ∧ P s' := by
  induction l generalizing s with
  | nil => exact ⟨s, rfl, hs⟩
  | cons a l ih =>
      obtain ⟨s1, hf1, hs1⟩ := hstep s a mem_cons_self hs
      obtain ⟨s', hf', hs'⟩ := ih (fun s b hb => hstep s b (mem_cons_of_mem a hb)) hs1
      exact ⟨s', by rw [foldlM_cons, hf1]; exact hf', hs'⟩

/-- A fold in `Except` whose steps at the elements of the list all succeed as
the pure step `g` does is the pure fold. -/
theorem foldlM_eq_ok_foldl (g : σ → α → σ) {l : List α} (h : ∀ s a, a ∈ l → f s a = .ok (g s a))
    (s : σ) : l.foldlM f s = .ok (l.foldl g s) := by
  induction l generalizing s with
  | nil => rfl
  | cons a l ih =>
      rw [foldlM_cons, h s a mem_cons_self, foldl_cons]
      exact ih (fun s b hb => h s b (mem_cons_of_mem a hb)) (g s a)

/-- A fold in `Except` whose successful steps keep the part `p` of the state
keeps it over the list. -/
theorem foldlM_except_keeps {β : Type*} (p : σ → β) {l : List α}
    (hstep : ∀ s a s', a ∈ l → f s a = .ok s' → p s' = p s) {s s' : σ}
    (h : l.foldlM f s = .ok s') : p s' = p s := by
  induction l generalizing s with
  | nil =>
      cases h
      rfl
  | cons a l ih =>
      rw [foldlM_cons] at h
      obtain ⟨s1, h1, hrest⟩ := Except.bind_eq_ok.mp h
      rw [ih (fun s b s' hb => hstep s b s' (mem_cons_of_mem a hb)) hrest,
        hstep s a s1 mem_cons_self h1]

/-- A fold in `Except` whose steps keep `P` while the counter `m` stays within
`B`, raising it by at most one at the elements `q` picks, succeeds with `P`
when the counter starts at least `l.countP q` below `B`. -/
theorem foldlM_except_invariant_counted (P : σ → Prop) (m : σ → ℕ) (q : α → Bool) (B : ℕ)
    {l : List α}
    (hstep : ∀ s a, a ∈ l → P s → m s + (if q a then 1 else 0) ≤ B →
      ∃ s', f s a = .ok s' ∧ P s' ∧ m s' ≤ m s + if q a then 1 else 0)
    {s : σ} (hs : P s) (hB : m s + l.countP q ≤ B) : ∃ s', l.foldlM f s = .ok s' ∧ P s' := by
  induction l generalizing s with
  | nil => exact ⟨s, rfl, hs⟩
  | cons a l ih =>
      rw [countP_cons] at hB
      obtain ⟨s1, hf1, hs1, hm1⟩ := hstep s a mem_cons_self hs (by omega)
      obtain ⟨s', hf', hs'⟩ :=
        ih (fun s b hb => hstep s b (mem_cons_of_mem a hb)) hs1 (by omega)
      exact ⟨s', by rw [foldlM_cons, hf1]; exact hf', hs'⟩

/-- A `mapM` in `Option` whose calls on the elements all give a value gives
a value. -/
theorem mapM_option_isSome {β : Type*} {h : α → Option β} :
    ∀ {l : List α}, (∀ a ∈ l, (h a).isSome) → (l.mapM h).isSome
  | [], _ => rfl
  | a :: l, hl => by
    obtain ⟨b, hb⟩ := Option.isSome_iff_exists.mp (hl a mem_cons_self)
    obtain ⟨bs, hbs⟩ := Option.isSome_iff_exists.mp
      (mapM_option_isSome fun x hx => hl x (mem_cons_of_mem a hx))
    simp [mapM_cons, hb, hbs]

end List
