import Mathlib

/-! The skip list of the block index (`chain.cpp`). Every `CBlockIndex`
points to its parent `pprev` and to an ancestor `pskip` further down, at the
height that `GetSkipHeight` names; `BuildSkip` sets it when the index is
added, by `GetAncestor` from the parent. `GetAncestor` walks down by `pskip`
where the jump does not overshoot and the parent offers no better one, and by
`pprev` otherwise. The block index is a type of blocks with the two pointers
and the height of each; a parent is one block lower, and only a block at
height 0 has none. -/

namespace Metrix

/-- `InvertLowestOne`: `n` with its lowest set bit cleared. -/
def invertLowestOne (n : ℕ) : ℕ := n &&& (n - 1)

/-- `GetSkipHeight`. -/
def getSkipHeight (height : ℕ) : ℕ :=
  if height < 2 then 0
  else if height % 2 = 1 then invertLowestOne (invertLowestOne (height - 1)) + 1
  else invertLowestOne height

theorem invertLowestOne_le (n : ℕ) : invertLowestOne n ≤ n - 1 := Nat.and_le_right

/-- `GetSkipHeight(n) < n` for every `n ≥ 1`: the walk goes down. -/
theorem getSkipHeight_lt {n : ℕ} (h : 1 ≤ n) : getSkipHeight n < n := by
  unfold getSkipHeight
  split_ifs with hsmall hodd
  · omega
  · have hinner := invertLowestOne_le (n - 1)
    have houter := invertLowestOne_le (invertLowestOne (n - 1))
    omega
  · have := invertLowestOne_le n
    omega

/-- Whether `GetAncestor`, at `heightWalk` on its way down to `height`,
takes a skip pointer: the jump lands on `height`, or above it while the jump
from the parent is not both longer than two and still above `height`. -/
def followsSkip (height heightWalk : ℕ) : Bool :=
  let heightSkip := getSkipHeight heightWalk
  let heightSkipPrev := getSkipHeight (heightWalk - 1)
  heightSkip = height ||
    (height < heightSkip && !(heightSkipPrev + 2 < heightSkip && height ≤ heightSkipPrev))

theorem le_getSkipHeight_of_followsSkip {height heightWalk : ℕ}
    (h : followsSkip height heightWalk = true) : height ≤ getSkipHeight heightWalk := by
  unfold followsSkip at h
  simp only [Bool.or_eq_true, decide_eq_true_eq, Bool.and_eq_true, Bool.not_eq_true'] at h
  omega

/-- The block index: the parent and skip pointers and the height of each
block. -/
structure BlockTree (α : Type) where
  pprev : α → Option α
  pskip : α → Option α
  nHeight : α → ℕ
  nHeight_pprev : ∀ b p, pprev b = some p → nHeight b = nHeight p + 1
  pprev_isSome : ∀ b, 0 < nHeight b → (pprev b).isSome

namespace BlockTree

variable {α : Type} (t : BlockTree α)

/-- The loop of `GetAncestor`; `none` where `assert(pindexWalk->pprev)`
fails. -/
def getAncestorWalk (height : ℕ) (walk : α) (heightWalk : ℕ) : Option α :=
  if height < heightWalk then
    match t.pskip walk, followsSkip height heightWalk with
    | some skip, true => getAncestorWalk height skip (getSkipHeight heightWalk)
    | _, _ =>
        match t.pprev walk with
        | none => none
        | some p => getAncestorWalk height p (heightWalk - 1)
  else some walk
termination_by heightWalk
decreasing_by
  · exact getSkipHeight_lt (by omega)
  · omega

/-- `CBlockIndex::GetAncestor`: `none` for a height outside `[0, nHeight]`. -/
def getAncestor (b : α) (height : ℤ) : Option α :=
  if height > t.nHeight b ∨ height < 0 then none
  else t.getAncestorWalk height.toNat b (t.nHeight b)

/-- `BuildSkip` has set every skip pointer: the parent's ancestor at
`GetSkipHeight(nHeight)`, and none for a block without a parent. -/
def SkipBuilt : Prop :=
  ∀ b, t.pskip b = (t.pprev b).bind fun p => t.getAncestor p (getSkipHeight (t.nHeight b))

/-- The block reached by following `pprev` `n` times. -/
def prevN : ℕ → α → Option α
  | 0, b => some b
  | n + 1, b => (t.pprev b).bind (prevN n)

@[simp] theorem prevN_zero (b : α) : t.prevN 0 b = some b := rfl

theorem prevN_succ (n : ℕ) (b : α) : t.prevN (n + 1) b = (t.pprev b).bind (t.prevN n) := rfl

theorem prevN_add (m n : ℕ) (b : α) : t.prevN (m + n) b = (t.prevN m b).bind (t.prevN n) := by
  induction m generalizing b with
  | zero => simp
  | succ m ih =>
      rw [Nat.add_right_comm, prevN_succ, prevN_succ]
      cases t.pprev b with
      | none => rfl
      | some p => exact ih p

theorem nHeight_prevN {n : ℕ} {b a : α} (h : t.prevN n b = some a) :
    t.nHeight a + n = t.nHeight b := by
  induction n generalizing b with
  | zero => simpa using congrArg t.nHeight (Option.some_inj.mp h).symm
  | succ n ih =>
      rw [prevN_succ] at h
      obtain ⟨p, hp, hrest⟩ := Option.bind_eq_some_iff.mp h
      rw [t.nHeight_pprev b p hp, ← ih hrest]
      omega

theorem prevN_isSome {n : ℕ} {b : α} (h : n ≤ t.nHeight b) : (t.prevN n b).isSome := by
  induction n generalizing b with
  | zero => rfl
  | succ n ih =>
      obtain ⟨p, hp⟩ := Option.isSome_iff_exists.mp (t.pprev_isSome b (by omega))
      rw [prevN_succ, hp, Option.bind_some]
      exact ih (by rw [t.nHeight_pprev b p hp] at h; omega)

/-- The skip pointer of `b`, where it is set, is its ancestor at
`GetSkipHeight(nHeight)`. -/
def SkipCorrect (b : α) : Prop :=
  ∀ s, t.pskip b = some s → t.prevN (t.nHeight b - getSkipHeight (t.nHeight b)) b = some s

/-- The walk of `GetAncestor` from a block at `heightWalk` down to `height`
follows `pprev` exactly `heightWalk - height` times, wherever the skip
pointers it reads are right. -/
theorem getAncestorWalk_eq_prevN {N : ℕ} (hskip : ∀ x, t.nHeight x ≤ N → t.SkipCorrect x)
    (height : ℕ) (walk : α) (heightWalk : ℕ) (hwalk : t.nHeight walk = heightWalk)
    (hN : heightWalk ≤ N) (hle : height ≤ heightWalk) :
    t.getAncestorWalk height walk heightWalk = t.prevN (heightWalk - height) walk := by
  fun_induction t.getAncestorWalk height walk heightWalk with
  | case1 walk heightWalk hlt skip hfollow hs ih =>
      -- the jump lands on the ancestor at the skip height, still above `height`
      have hskipped := hskip walk (hwalk ▸ hN) skip hs
      rw [hwalk] at hskipped
      have hsplit := t.nHeight_prevN hskipped
      have hskipLt := getSkipHeight_lt (show 1 ≤ heightWalk by omega)
      have hlow := le_getSkipHeight_of_followsSkip hfollow
      rw [ih (by omega) (by omega) hlow,
        show heightWalk - height = (heightWalk - getSkipHeight heightWalk) +
          (getSkipHeight heightWalk - height) by omega, prevN_add, hskipped, Option.bind_some]
  | case2 walk heightWalk hlt hnone hnot =>
      have := t.pprev_isSome walk (by omega)
      rw [hnone] at this
      cases this
  | case3 walk heightWalk hlt p hp hnot ih =>
      have hheight := t.nHeight_pprev walk p hp
      rw [ih (by omega) (by omega) (by omega),
        show heightWalk - height = (heightWalk - 1 - height) + 1 by omega, prevN_succ, hp,
        Option.bind_some]
  | case4 walk heightWalk hge =>
      rw [show heightWalk - height = 0 by omega]
      rfl

/-- Skip pointers set by `BuildSkip` are right: by induction on the height,
since `BuildSkip` walks from the parent and reads only lower blocks. -/
theorem skipCorrect_of_skipBuilt (hbuild : t.SkipBuilt) (b : α) : t.SkipCorrect b := by
  induction hb : t.nHeight b using Nat.strong_induction_on generalizing b with
  | _ n ih =>
    intro s hs
    rw [hbuild b] at hs
    obtain ⟨p, hp, hanc⟩ := Option.bind_eq_some_iff.mp hs
    have hheight := t.nHeight_pprev b p hp
    have hlt := getSkipHeight_lt (show 1 ≤ t.nHeight b by omega)
    -- the parent's walk reads skip pointers of blocks below `b` only
    have hwalk := t.getAncestorWalk_eq_prevN (N := t.nHeight p)
      (fun x hx => ih (t.nHeight x) (by omega) x rfl) (getSkipHeight (t.nHeight b)) p
      (t.nHeight p) rfl le_rfl (by omega)
    rw [getAncestor, if_neg (by omega), Int.toNat_natCast, hwalk] at hanc
    rw [show t.nHeight b - getSkipHeight (t.nHeight b) =
      (t.nHeight p - getSkipHeight (t.nHeight b)) + 1 by omega, prevN_succ, hp, Option.bind_some]
    exact hanc

/-- `GetAncestor` over skip pointers that `BuildSkip` set is exact: for a
height `h` in `[0, nHeight]` it returns the block reached by following
`pprev` exactly `nHeight - h` times, which exists, and nothing outside; and
`GetSkipHeight(n) < n` for every `n ≥ 1`, so its walk goes down. -/
theorem getAncestor_exact (hbuild : t.SkipBuilt) :
    (∀ (b : α) (h : ℤ), 0 ≤ h → h ≤ t.nHeight b →
      t.getAncestor b h = t.prevN (t.nHeight b - h.toNat) b ∧ (t.getAncestor b h).isSome) ∧
    (∀ (b : α) (h : ℤ), h < 0 ∨ t.nHeight b < h → t.getAncestor b h = none) ∧
    (∀ n, 1 ≤ n → getSkipHeight n < n) := by
  refine ⟨fun b h hlo hhi => ?_, fun b h hout => ?_, fun n hn => getSkipHeight_lt hn⟩
  · have hwalk := t.getAncestorWalk_eq_prevN (N := t.nHeight b)
      (fun x _ => t.skipCorrect_of_skipBuilt hbuild x) h.toNat b (t.nHeight b) rfl le_rfl
      (by omega)
    have hanc : t.getAncestor b h = t.prevN (t.nHeight b - h.toNat) b := by
      rw [getAncestor, if_neg (by omega), hwalk]
    exact ⟨hanc, hanc ▸ t.prevN_isSome (by omega)⟩
  · rw [getAncestor, if_pos (by omega)]

end BlockTree

/-- The chain of heights: block `n` has the parent `n - 1` and the skip
pointer `GetSkipHeight(n)`. -/
def heightChain : BlockTree ℕ where
  pprev n := if n = 0 then none else some (n - 1)
  pskip n := if n = 0 then none else some (getSkipHeight n)
  nHeight n := n
  nHeight_pprev b p h := by
    split_ifs at h with hb
    cases h
    omega
  pprev_isSome b h := by simp [show b ≠ 0 by omega]

theorem prevN_heightChain {k n : ℕ} (h : k ≤ n) : heightChain.prevN k n = some (n - k) := by
  induction k generalizing n with
  | zero => rfl
  | succ k ih =>
      have hpprev : heightChain.pprev n = some (n - 1) := if_neg (by omega)
      rw [BlockTree.prevN_succ, hpprev, Option.bind_some, ih (by omega)]
      congr 1
      omega

theorem skipBuilt_heightChain : heightChain.SkipBuilt := by
  have hcorrect : ∀ x, heightChain.SkipCorrect x := by
    intro x s hs
    have hx : x ≠ 0 := fun h => by simp [heightChain, h] at hs
    have hs' : getSkipHeight x = s := by simpa [heightChain, hx] using hs
    have hlt := getSkipHeight_lt (show 1 ≤ x by omega)
    show heightChain.prevN (x - getSkipHeight x) x = some s
    rw [prevN_heightChain (by omega), ← hs']
    congr 1
    omega
  intro b
  rcases Nat.eq_zero_or_pos b with rfl | hpos
  · rfl
  have hlt := getSkipHeight_lt (show 1 ≤ b by omega)
  have hwalk := heightChain.getAncestorWalk_eq_prevN (N := b - 1) (fun x _ => hcorrect x)
    (getSkipHeight b) (b - 1) (b - 1) rfl le_rfl (by omega)
  have hpprev : heightChain.pprev b = some (b - 1) := if_neg (by omega)
  have hpskip : heightChain.pskip b = some (getSkipHeight b) := if_neg (by omega)
  rw [hpskip, hpprev, Option.bind_some, BlockTree.getAncestor]
  change some (getSkipHeight b) = if (getSkipHeight b : ℤ) > (b - 1 : ℕ) ∨ (getSkipHeight b : ℤ) < 0
    then none else heightChain.getAncestorWalk (getSkipHeight b : ℤ).toNat (b - 1) (b - 1)
  rw [if_neg (by omega), Int.toNat_natCast, hwalk, prevN_heightChain (by omega)]
  congr 1
  omega

theorem getAncestor_exact_heightChain :
    heightChain.SkipBuilt ∧
      ((∀ (b : ℕ) (h : ℤ), 0 ≤ h → h ≤ heightChain.nHeight b →
        heightChain.getAncestor b h = heightChain.prevN (heightChain.nHeight b - h.toNat) b ∧
          (heightChain.getAncestor b h).isSome) ∧
      (∀ (b : ℕ) (h : ℤ), h < 0 ∨ heightChain.nHeight b < h → heightChain.getAncestor b h = none) ∧
      (∀ n, 1 ≤ n → getSkipHeight n < n)) :=
  ⟨skipBuilt_heightChain, heightChain.getAncestor_exact skipBuilt_heightChain⟩

end Metrix
