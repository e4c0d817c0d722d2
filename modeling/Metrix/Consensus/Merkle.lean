import Metrix.Lib.HashRank

/-! The Merkle root of a list of hashes (`ComputeMerkleRoot` in
`consensus/merkle.cpp`). Each round pairs the hashes up, the last one
duplicated when their number is odd, and hashes each pair with `SHA256D64`.
Before that the round scans the pairs for two equal hashes, the defence
against CVE-2012-2459 that the file's comment describes: `mutated` reports
such a pair on any round. The hash of a pair is a parameter, over an
arbitrary type of hashes. -/

namespace Metrix

open HashRank

section Merkle

variable {α : Type} (sha256D64 : α → α → α)

/-- `SHA256D64(hashes[0].begin(), hashes[0].begin(), hashes.size() / 2)`:
the hash of each pair, in order. -/
def hashPairs : List α → List α
  | a :: b :: rest => sha256D64 a b :: hashPairs rest
  | _ => []

/-- `hashes.push_back(hashes.back())` when the number of hashes is odd. -/
def padLevel (hashes : List α) : List α :=
  if hashes.length % 2 = 1 then hashes ++ hashes.getLast?.toList else hashes

/-- The hashes of the next round. -/
def merkleLevel (hashes : List α) : List α :=
  hashPairs sha256D64 (padLevel hashes)

theorem length_hashPairs (l : List α) : (hashPairs sha256D64 l).length = l.length / 2 := by
  induction l using hashPairs.induct with
  | case1 a b rest ih => simp [hashPairs, ih]; omega
  | case2 l h =>
      match l, h with
      | [], _ => simp [hashPairs]
      | [_], _ => simp [hashPairs]
      | _ :: _ :: _, h => exact absurd rfl (h _ _ _)

theorem length_padLevel (l : List α) : (padLevel l).length = l.length + l.length % 2 := by
  unfold padLevel
  split_ifs with h
  · have hne : l ≠ [] := by rintro rfl; simp at h
    obtain ⟨x, hx⟩ := Option.isSome_iff_exists.mp (List.getLast?_isSome.mpr hne)
    simp [hx, h]
  · omega

/-- A round of more than one hash leaves fewer. -/
theorem length_merkleLevel_lt {l : List α} (h : 1 < l.length) :
    (merkleLevel sha256D64 l).length < l.length := by
  rw [merkleLevel, length_hashPairs, length_padLevel]
  omega

theorem length_merkleLevel_pos {l : List α} (h : 1 < l.length) :
    0 < (merkleLevel sha256D64 l).length := by
  rw [merkleLevel, length_hashPairs, length_padLevel]
  omega

/-! ## The hashes of a round -/

theorem mem_padLevel {l : List α} {x : α} (hx : x ∈ padLevel l) : x ∈ l := by
  unfold padLevel at hx
  split_ifs at hx
  · rcases List.mem_append.mp hx with hx | hx
    · exact hx
    · exact List.mem_of_getLast? (Option.mem_toList.mp hx)
  · exact hx

theorem mem_hashPairs {l : List α} {x : α} (hx : x ∈ hashPairs sha256D64 l) :
    ∃ a ∈ l, ∃ b ∈ l, x = sha256D64 a b := by
  induction l using hashPairs.induct with
  | case1 a b rest ih =>
      rcases List.mem_cons.mp hx with rfl | hx
      · exact ⟨a, by simp, b, by simp, rfl⟩
      · obtain ⟨c, hc, d, hd, rfl⟩ := ih hx
        exact ⟨c, by simp [hc], d, by simp [hd], rfl⟩
  | case2 l h =>
      match l, h with
      | [], _ => simp [hashPairs] at hx
      | [_], _ => simp [hashPairs] at hx
      | _ :: _ :: _, h => exact absurd rfl (h _ _ _)

/-- A round over hashes of rank `k` makes hashes of rank `k + 1`. -/
theorem isRank_merkleLevel {k : ℕ} {l : List α} (hl : ∀ x ∈ l, IsRank sha256D64 k x) :
    ∀ x ∈ merkleLevel sha256D64 l, IsRank sha256D64 (k + 1) x := by
  intro x hx
  obtain ⟨a, ha, b, hb, rfl⟩ := mem_hashPairs sha256D64 hx
  exact .node (hl a (mem_padLevel ha)) (hl b (mem_padLevel hb))

theorem length_merkleLevel (l : List α) :
    (merkleLevel sha256D64 l).length = (l.length + 1) / 2 := by
  rw [merkleLevel, length_hashPairs, length_padLevel]
  omega

theorem getD_hashPairs (d : α) : ∀ (l : List α) (i : ℕ), 2 * i + 1 < l.length →
    (hashPairs sha256D64 l).getD i d = sha256D64 (l.getD (2 * i) d) (l.getD (2 * i + 1) d)
  | [], _, h => by simp at h
  | [_], _, h => by simp at h
  | _ :: _ :: _, 0, _ => by simp [hashPairs]
  | _ :: _ :: rest, i + 1, h => by
      have hi : 2 * i + 1 < rest.length := by simp at h; omega
      rw [hashPairs, List.getD_cons_succ, getD_hashPairs d rest i hi,
        show 2 * (i + 1) = 2 * i + 1 + 1 by omega]
      simp

theorem getD_padLevel_of_lt (d : α) {l : List α} {i : ℕ} (hi : i < l.length) :
    (padLevel l).getD i d = l.getD i d := by
  unfold padLevel
  split_ifs
  · exact List.getD_append _ _ _ _ hi
  · rfl

/-- The duplicated last hash of an odd round. -/
theorem getD_padLevel_length (d : α) {l : List α} (hodd : l.length % 2 = 1) :
    (padLevel l).getD l.length d = l.getD (l.length - 1) d := by
  have hne : l ≠ [] := by rintro rfl; simp at hodd
  obtain ⟨init, x, rfl⟩ := List.eq_nil_or_concat' l |>.resolve_left hne
  simp only [List.length_append, List.length_singleton] at hodd
  simp [padLevel, hodd]

/-- The hash at `i` of the next round: the pair at `2 * i`, its right half
the left one again past the end. -/
theorem getD_merkleLevel (d : α) {l : List α} {i : ℕ} (hi : 2 * i < l.length) :
    (merkleLevel sha256D64 l).getD i d = sha256D64 (l.getD (2 * i) d)
      (if 2 * i + 1 < l.length then l.getD (2 * i + 1) d else l.getD (2 * i) d) := by
  have hpad : 2 * i + 1 < (padLevel l).length := by rw [length_padLevel]; omega
  rw [merkleLevel, getD_hashPairs sha256D64 d _ i hpad, getD_padLevel_of_lt d hi]
  split_ifs with hright
  · rw [getD_padLevel_of_lt d hright]
  · have hlen : l.length = 2 * i + 1 := by omega
    rw [show 2 * i + 1 = l.length from hlen.symm, getD_padLevel_length d (by omega),
      show l.length - 1 = 2 * i by omega]

/-! ## Equal rounds -/

/-- Under an injective pairing the hashes of a round determine the padded
hashes it paired. -/
theorem hashPairs_inj (hinj : ∀ a b c d, sha256D64 a b = sha256D64 c d → a = c ∧ b = d)
    {l₁ l₂ : List α} (h₁ : l₁.length % 2 = 0) (h₂ : l₂.length % 2 = 0)
    (h : hashPairs sha256D64 l₁ = hashPairs sha256D64 l₂) : l₁ = l₂ := by
  induction l₁ using hashPairs.induct generalizing l₂ with
  | case1 a b rest ih =>
      match l₂, h₂, h with
      | [], _, h => simp [hashPairs] at h
      | [_], h₂, _ => simp at h₂
      | c :: d :: rest₂, h₂, h =>
          simp only [hashPairs, List.cons.injEq] at h
          obtain ⟨rfl, rfl⟩ := hinj _ _ _ _ h.1
          rw [ih (by simp at h₁; omega) (by simp at h₂; omega) h.2]
  | case2 l hl =>
      match l, hl, h₁ with
      | [], _, _ =>
          match l₂, h₂, h with
          | [], _, _ => rfl
          | [_], h₂, _ => simp at h₂
          | _ :: _ :: _, _, h => simp [hashPairs] at h
      | [_], _, h₁ => simp at h₁
      | _ :: _ :: _, hl, _ => exact absurd rfl (hl _ _ _)

/-- Two different lists pad to the same round only when one is the other
with its last hash duplicated. -/
theorem padLevel_eq_padLevel {l₁ l₂ : List α} (h : padLevel l₁ = padLevel l₂) (hne : l₁ ≠ l₂) :
    (l₁.length % 2 = 1 ∧ padLevel l₁ = l₂) ∨ (l₂.length % 2 = 1 ∧ padLevel l₂ = l₁) := by
  have hlen := congrArg List.length h
  rw [length_padLevel, length_padLevel] at hlen
  unfold padLevel at h ⊢
  split_ifs at h ⊢ with h₁ h₂ h₂
  · exact absurd (List.append_inj_left h (by omega)) hne
  · exact .inl ⟨h₁, h⟩
  · exact .inr ⟨h₂, h.symm⟩
  · exact absurd h hne

variable [DecidableEq α]

/-- The scan for `mutated`: two equal hashes at `pos` and `pos + 1`, for an
even `pos`. -/
def hasEqualPair : List α → Bool
  | a :: b :: rest => a == b || hasEqualPair rest
  | _ => false

/-- The `while (hashes.size() > 1)` loop of `ComputeMerkleRoot` with
`mutated` given: the last round's hashes and the flag. -/
def computeMerkleRootLoop (hashes : List α) (mutation : Bool) : List α × Bool :=
  if _ : 1 < hashes.length then
    computeMerkleRootLoop (merkleLevel sha256D64 hashes) (mutation || hasEqualPair hashes)
  else (hashes, mutation)
termination_by hashes.length
decreasing_by exact length_merkleLevel_lt sha256D64 ‹_›

/-- `ComputeMerkleRoot(hashes, &mutated)`: the root, `uint256()` (the
default) for no hashes, and `mutated`. -/
def computeMerkleRoot [Inhabited α] (hashes : List α) : α × Bool :=
  let result := computeMerkleRootLoop sha256D64 hashes false
  (result.1.headD default, result.2)

/-! ## The loop -/

theorem computeMerkleRootLoop_of_le {hashes : List α} (h : hashes.length ≤ 1) (mutation : Bool) :
    computeMerkleRootLoop sha256D64 hashes mutation = (hashes, mutation) := by
  rw [computeMerkleRootLoop, dif_neg (by omega)]

theorem computeMerkleRootLoop_of_lt {hashes : List α} (h : 1 < hashes.length) (mutation : Bool) :
    computeMerkleRootLoop sha256D64 hashes mutation =
      computeMerkleRootLoop sha256D64 (merkleLevel sha256D64 hashes)
        (mutation || hasEqualPair hashes) := by
  rw [computeMerkleRootLoop, dif_pos h]

/-- Once set, `mutation` stays set. -/
theorem computeMerkleRootLoop_snd_of_true (hashes : List α) :
    (computeMerkleRootLoop sha256D64 hashes true).2 = true := by
  suffices ∀ mutation, mutation = true →
      (computeMerkleRootLoop sha256D64 hashes mutation).2 = true from this true rfl
  intro mutation
  induction hashes, mutation using computeMerkleRootLoop.induct sha256D64 with
  | case1 hashes mutation h ih =>
      intro hm
      rw [computeMerkleRootLoop_of_lt sha256D64 h]
      exact ih (by rw [hm, Bool.true_or])
  | case2 hashes mutation h =>
      intro hm
      rw [computeMerkleRootLoop_of_le sha256D64 (by omega)]
      exact hm

/-- The loop ends with one hash for a non-empty list. -/
theorem length_computeMerkleRootLoop {hashes : List α} (h : hashes ≠ []) (mutation : Bool) :
    (computeMerkleRootLoop sha256D64 hashes mutation).1.length = 1 := by
  induction hashes, mutation using computeMerkleRootLoop.induct sha256D64 with
  | case1 hashes mutation hlt ih =>
      rw [computeMerkleRootLoop_of_lt sha256D64 hlt]
      exact ih (List.ne_nil_of_length_pos (length_merkleLevel_pos sha256D64 hlt))
  | case2 hashes mutation hle =>
      rw [computeMerkleRootLoop_of_le sha256D64 (by omega)]
      show hashes.length = 1
      have := List.length_pos_of_ne_nil h
      omega

/-- The loop runs the rounds until one is left with at most one hash: its
result is the round `j` of the first such `j`. -/
theorem computeMerkleRootLoop_fst_eq_iterate (j : ℕ) : ∀ (hashes : List α) (mutation : Bool),
    ((merkleLevel sha256D64)^[j] hashes).length ≤ 1 →
      (∀ i < j, 1 < ((merkleLevel sha256D64)^[i] hashes).length) →
      (computeMerkleRootLoop sha256D64 hashes mutation).1 = (merkleLevel sha256D64)^[j] hashes := by
  induction j with
  | zero =>
      intro hashes mutation hle _
      rw [Function.iterate_zero_apply] at hle ⊢
      rw [computeMerkleRootLoop_of_le sha256D64 hle]
  | succ j ih =>
      intro hashes mutation hle hmore
      have hfirst := hmore 0 (Nat.succ_pos j)
      rw [Function.iterate_zero_apply] at hfirst
      rw [computeMerkleRootLoop_of_lt sha256D64 hfirst, Function.iterate_succ_apply]
      exact ih _ _ hle fun i hi => hmore (i + 1) (by omega)

/-! ## The rank of the root -/

/-- After at least one round the root is of a higher rank than the hashes the
loop started with. -/
theorem isRank_computeMerkleRootLoop (hashes : List α) (mutation : Bool) :
    ∀ k, (∀ x ∈ hashes, IsRank sha256D64 k x) → 1 < hashes.length →
      ∃ j, k < j ∧ ∀ x ∈ (computeMerkleRootLoop sha256D64 hashes mutation).1,
        IsRank sha256D64 j x := by
  induction hashes, mutation using computeMerkleRootLoop.induct sha256D64 with
  | case1 hashes mutation hlt ih =>
      intro k hk _
      have hnext := isRank_merkleLevel sha256D64 hk
      rw [computeMerkleRootLoop_of_lt sha256D64 hlt]
      by_cases hmore : 1 < (merkleLevel sha256D64 hashes).length
      · obtain ⟨j, hj, hroot⟩ := ih (k + 1) hnext hmore
        exact ⟨j, by omega, hroot⟩
      · rw [computeMerkleRootLoop_of_le sha256D64 (by omega)]
        exact ⟨k + 1, by omega, hnext⟩
  | case2 hashes mutation hle =>
      intro k _ hlt
      exact absurd hlt hle

/-! ## The scan -/

theorem hasEqualPair_append {l : List α} (hl : l.length % 2 = 0) (r : List α) :
    hasEqualPair (l ++ r) = (hasEqualPair l || hasEqualPair r) := by
  induction l using hasEqualPair.induct with
  | case1 a b rest ih =>
      have hrest : rest.length % 2 = 0 := by simp at hl; omega
      simp [hasEqualPair, ih hrest, Bool.or_assoc]
  | case2 l h =>
      match l, h, hl with
      | [], _, _ => simp [hasEqualPair]
      | [_], _, hl => simp at hl
      | _ :: _ :: _, h, _ => exact absurd rfl (h _ _ _)

/-- The duplicated last hash is a pair the scan finds. -/
theorem hasEqualPair_padLevel {l : List α} (h : l.length % 2 = 1) :
    hasEqualPair (padLevel l) = true := by
  have hne : l ≠ [] := by rintro rfl; simp at h
  obtain ⟨init, x, rfl⟩ := List.eq_nil_or_concat' l |>.resolve_left hne
  have hinit : init.length % 2 = 0 := by simp at h; omega
  rw [padLevel, if_pos h, List.getLast?_concat, Option.toList_some, List.append_assoc,
    hasEqualPair_append hinit]
  simp [hasEqualPair]

/-- Two different lists whose rounds agree: the scan flags one of them. -/
theorem hasEqualPair_of_merkleLevel_eq
    (hinj : ∀ a b c d, sha256D64 a b = sha256D64 c d → a = c ∧ b = d)
    {l₁ l₂ : List α} (hne : l₁ ≠ l₂)
    (h : merkleLevel sha256D64 l₁ = merkleLevel sha256D64 l₂) :
    hasEqualPair l₁ = true ∨ hasEqualPair l₂ = true := by
  have heven (l : List α) : (padLevel l).length % 2 = 0 := by rw [length_padLevel]; omega
  have hpad := hashPairs_inj sha256D64 hinj (heven l₁) (heven l₂) h
  rcases padLevel_eq_padLevel hpad hne with ⟨hodd, rfl⟩ | ⟨hodd, rfl⟩
  · exact .inr (hasEqualPair_padLevel hodd)
  · exact .inl (hasEqualPair_padLevel hodd)

/-! ## Mutation detection -/

section Detection

variable {sha256D64}
variable (hinj : ∀ a b c d, sha256D64 a b = sha256D64 c d → a = c ∧ b = d)
include hinj

/-- A list of one hash and a list of more, all of one rank, end in different
roots: the longer one's root is of a higher rank. -/
theorem computeMerkleRootLoop_ne_of_length_le {k : ℕ} {l₁ l₂ : List α}
    (hk₁ : ∀ x ∈ l₁, IsRank sha256D64 k x) (hk₂ : ∀ x ∈ l₂, IsRank sha256D64 k x)
    (hne : l₁ ≠ []) (h₂ : 1 < l₂.length) (m₂ : Bool) :
    l₁ ≠ (computeMerkleRootLoop sha256D64 l₂ m₂).1 := by
  intro heq
  obtain ⟨j, hj, hroot⟩ := isRank_computeMerkleRootLoop sha256D64 l₂ m₂ k hk₂ h₂
  obtain ⟨x, hx⟩ := List.exists_mem_of_ne_nil l₁ hne
  have := (hk₁ x hx).unique hinj (hroot x (heq ▸ hx))
  omega

/-- Two different non-empty lists of hashes of one rank that end in the same
root: one of the loops sets `mutation`. By induction on the lengths: when the
next rounds differ the induction hypothesis applies to them, and when they
agree the scan of this round finds the duplicated hash. -/
theorem computeMerkleRootLoop_detects (n : ℕ) :
    ∀ {k : ℕ} {l₁ l₂ : List α} {m₁ m₂ : Bool}, l₁.length + l₂.length ≤ n →
      (∀ x ∈ l₁, IsRank sha256D64 k x) → (∀ x ∈ l₂, IsRank sha256D64 k x) →
      l₁ ≠ [] → l₂ ≠ [] → l₁ ≠ l₂ →
      (computeMerkleRootLoop sha256D64 l₁ m₁).1 = (computeMerkleRootLoop sha256D64 l₂ m₂).1 →
      (computeMerkleRootLoop sha256D64 l₁ m₁).2 = true ∨
        (computeMerkleRootLoop sha256D64 l₂ m₂).2 = true := by
  induction n with
  | zero =>
      intro k l₁ l₂ m₁ m₂ hn _ _ h₁ _ _ _
      have := List.length_pos_of_ne_nil h₁
      omega
  | succ n ih =>
      intro k l₁ l₂ m₁ m₂ hn hk₁ hk₂ h₁ h₂ hne hroot
      by_cases hlt₁ : 1 < l₁.length <;> by_cases hlt₂ : 1 < l₂.length
      · -- Both lists take a round; compare the rounds.
        rw [computeMerkleRootLoop_of_lt sha256D64 hlt₁,
          computeMerkleRootLoop_of_lt sha256D64 hlt₂] at hroot ⊢
        by_cases hlevel : merkleLevel sha256D64 l₁ = merkleLevel sha256D64 l₂
        · rcases hasEqualPair_of_merkleLevel_eq sha256D64 hinj hne hlevel with h | h
          · left; rw [h, Bool.or_true]; exact computeMerkleRootLoop_snd_of_true sha256D64 _
          · right; rw [h, Bool.or_true]; exact computeMerkleRootLoop_snd_of_true sha256D64 _
        · have := length_merkleLevel_lt sha256D64 hlt₁
          have := length_merkleLevel_lt sha256D64 hlt₂
          exact ih (by omega) (isRank_merkleLevel sha256D64 hk₁)
            (isRank_merkleLevel sha256D64 hk₂)
            (List.ne_nil_of_length_pos (length_merkleLevel_pos sha256D64 hlt₁))
            (List.ne_nil_of_length_pos (length_merkleLevel_pos sha256D64 hlt₂)) hlevel hroot
      · rw [computeMerkleRootLoop_of_le sha256D64 (by omega) m₂] at hroot
        exact absurd hroot.symm (computeMerkleRootLoop_ne_of_length_le hinj hk₂ hk₁ h₂ hlt₁ m₁)
      · rw [computeMerkleRootLoop_of_le sha256D64 (by omega) m₁] at hroot
        exact absurd hroot (computeMerkleRootLoop_ne_of_length_le hinj hk₁ hk₂ h₁ hlt₂ m₂)
      · rw [computeMerkleRootLoop_of_le sha256D64 (by omega) m₁,
          computeMerkleRootLoop_of_le sha256D64 (by omega) m₂] at hroot
        exact absurd hroot hne

end Detection

end Merkle

/-- Modelling `SHA256D64` as an injective pairing whose hashes are never
leaves, two different non-empty lists of leaves with the same Merkle root
make one of the two calls report `mutated`. -/
theorem computeMerkleRoot_detects_mutation {α : Type} [DecidableEq α] [Inhabited α]
    {sha256D64 : α → α → α} (hinj : ∀ a b c d, sha256D64 a b = sha256D64 c d → a = c ∧ b = d)
    {l₁ l₂ : List α} (hleaf₁ : ∀ a b, sha256D64 a b ∉ l₁) (hleaf₂ : ∀ a b, sha256D64 a b ∉ l₂)
    (h₁ : l₁ ≠ []) (h₂ : l₂ ≠ []) (hne : l₁ ≠ l₂)
    (hroot : (computeMerkleRoot sha256D64 l₁).1 = (computeMerkleRoot sha256D64 l₂).1) :
    (computeMerkleRoot sha256D64 l₁).2 = true ∨ (computeMerkleRoot sha256D64 l₂).2 = true := by
  have hleaf {l : List α} (hl : ∀ a b, sha256D64 a b ∉ l) : ∀ x ∈ l, IsRank sha256D64 0 x :=
    fun x hx => .leaf fun a b hab => hl a b (hab ▸ hx)
  -- Both loops end with one hash, so equal roots are equal last rounds.
  have hone {l : List α} (hl : l ≠ []) :
      ∃ r, (computeMerkleRootLoop sha256D64 l false).1 = [r] :=
    List.length_eq_one_iff.mp (length_computeMerkleRootLoop sha256D64 hl false)
  obtain ⟨r₁, hr₁⟩ := hone h₁
  obtain ⟨r₂, hr₂⟩ := hone h₂
  simp only [computeMerkleRoot, hr₁, hr₂, List.headD_cons] at hroot ⊢
  exact computeMerkleRootLoop_detects hinj _ le_rfl (hleaf hleaf₁) (hleaf hleaf₂) h₁ h₂ hne
    (by rw [hr₁, hr₂, hroot])

/-- An injective pairing of natural numbers whose values, all odd, are never
even leaves. -/
def oddPair (a b : ℕ) : ℕ := 2 * Nat.pair a b + 1

theorem oddPair_inj : ∀ a b c d, oddPair a b = oddPair c d → a = c ∧ b = d := fun _ _ _ _ h =>
  Nat.pair_eq_pair.mp (by unfold oddPair at h; omega)

/-- The trees of the file's comment in small: `[0, 2, 4]` and `[0, 2, 4, 4]`
have one root, and the second call reports `mutated`. -/
theorem computeMerkleRoot_detects_duplicated_tail :
    (∀ a b c d, oddPair a b = oddPair c d → a = c ∧ b = d) ∧
      (∀ a b, oddPair a b ∉ [0, 2, 4]) ∧ (∀ a b, oddPair a b ∉ [0, 2, 4, 4]) ∧
      (computeMerkleRoot oddPair [0, 2, 4]).1 = (computeMerkleRoot oddPair [0, 2, 4, 4]).1 ∧
      ((computeMerkleRoot oddPair [0, 2, 4]).2 = true ∨
        (computeMerkleRoot oddPair [0, 2, 4, 4]).2 = true) := by
  have hinj := oddPair_inj
  have hleaf (l : List ℕ) (hl : ∀ x ∈ l, x % 2 = 0) : ∀ a b, oddPair a b ∉ l := by
    intro a b h
    have := hl _ h
    unfold oddPair at this
    omega
  have hroot :
      (computeMerkleRoot oddPair [0, 2, 4]).1 = (computeMerkleRoot oddPair [0, 2, 4, 4]).1 := by
    simp [computeMerkleRoot, computeMerkleRootLoop_of_lt, computeMerkleRootLoop_of_le,
      merkleLevel, padLevel, hashPairs, hasEqualPair, oddPair, Nat.pair]
  exact ⟨hinj, hleaf _ (by decide), hleaf _ (by decide), hroot,
    computeMerkleRoot_detects_mutation hinj (hleaf _ (by decide)) (hleaf _ (by decide))
      (by decide) (by decide) (by decide) hroot⟩

end Metrix
