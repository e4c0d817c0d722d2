import Mathlib

/-! The rank of a value under a pairing hash. The leaves, the values that no
pair hashes to, have rank 0, and the hash of two values of rank `k` has rank
`k + 1`. Under an injective pairing a value has at most one rank, so values
that two rounds of hashing built from leaves over different numbers of
rounds are different. -/

namespace HashRank

variable {α : Type} (hash : α → α → α)

/-- `IsRank hash k x`: `x` is the hash of a full binary tree of depth `k`
over leaves. -/
inductive IsRank : ℕ → α → Prop
  | leaf {x : α} : (∀ a b, hash a b ≠ x) → IsRank 0 x
  | node {k : ℕ} {a b : α} : IsRank k a → IsRank k b → IsRank (k + 1) (hash a b)

variable {hash}

/-- Equal values of two ranks have the same rank. The hash on both sides is
taken apart by injectivity; a leaf is no hash. -/
theorem IsRank.eq_of_eq (hinj : ∀ a b c d, hash a b = hash c d → a = c ∧ b = d)
    {k : ℕ} {x : α} (hx : IsRank hash k x) :
    ∀ {j : ℕ} {y : α}, IsRank hash j y → x = y → k = j := by
  induction hx with
  | leaf hx =>
      intro j y hy hxy
      cases hy with
      | leaf _ => rfl
      | node _ _ => exact absurd hxy.symm (hx _ _)
  | node _ _ iha _ =>
      intro j y hy hxy
      cases hy with
      | leaf hy => exact absurd hxy (hy _ _)
      | node ha' _ =>
          obtain ⟨hab, -⟩ := hinj _ _ _ _ hxy
          rw [iha ha' hab]

/-- Under an injective pairing a value has one rank. -/
theorem IsRank.unique (hinj : ∀ a b c d, hash a b = hash c d → a = c ∧ b = d) {k j : ℕ}
    {x : α} (hk : IsRank hash k x) (hj : IsRank hash j x) : k = j :=
  hk.eq_of_eq hinj hj rfl

end HashRank
