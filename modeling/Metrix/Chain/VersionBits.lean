import Metrix.Chain.SkipList

/-! Version bits (`versionbits.cpp`): the state of a BIP9 deployment for the
block after `pindexPrev`. `GetStateFor` walks back a period at a time to a
block whose state its cache holds, or whose median time past is before the
start time, and then forward, writing what it computes to the cache. Against
it stands the recurrence that defines the state period by period from the
genesis block. The median time past of each block is a parameter. -/

namespace Metrix

/-- `ThresholdState`. -/
inductive ThresholdState where
  | defined
  | started
  | lockedIn
  | active
  | failed
deriving DecidableEq, Repr

/-- What `GetStateFor` asks of its checker: `Condition`, `BeginTime`,
`EndTime`, `Period` and `Threshold`; a period has at least one block. -/
structure ThresholdConditionChecker (α : Type) where
  condition : α → Bool
  beginTime : ℤ
  endTime : ℤ
  period : ℕ
  threshold : ℕ
  period_pos : 0 < period

/-- `BIP9Deployment::ALWAYS_ACTIVE`. -/
def alwaysActive : ℤ := -1

/-- `ThresholdConditionCache`: the state of the period after each block it
holds, `none` for the null block. -/
abbrev ThresholdConditionCache (α : Type) := Option α → Option ThresholdState

namespace BlockTree

variable {α : Type} [DecidableEq α] (t : BlockTree α) (c : ThresholdConditionChecker α)
  (medianTimePast : α → ℤ)

/-- The counting loop of the `STARTED` case, from `pindexCount` back along
`pprev`. -/
def countCondition : ℕ → Option α → ℕ
  | 0, _ => 0
  | _ + 1, none => 0
  | i + 1, some pindexCount =>
      (if c.condition pindexCount then 1 else 0) + countCondition i (t.pprev pindexCount)

/-- The `switch` of the forward walk: the state of the period after
`pindexPrev` from the state of the period that it ends. -/
def nextState (state : ThresholdState) (pindexPrev : α) : ThresholdState :=
  match state with
  | .defined =>
      if medianTimePast pindexPrev ≥ c.endTime then .failed
      else if medianTimePast pindexPrev ≥ c.beginTime then .started
      else .defined
  | .started =>
      if medianTimePast pindexPrev ≥ c.endTime then .failed
      else if t.countCondition c c.period (some pindexPrev) ≥ c.threshold then .lockedIn
      else .started
  | .lockedIn => .active
  | .failed => .failed
  | .active => .active

/-- The backward walk of `GetStateFor`, with fuel: the block where it stops,
whose state the cache then holds, the blocks still to compute, the latest
first, and the cache. `none` when the fuel runs out. -/
def walkBack : ℕ → Option α → List α → ThresholdConditionCache α →
    Option (Option α × List α × ThresholdConditionCache α)
  | 0, _, _, _ => none
  | fuel + 1, pindexPrev, vToCompute, cache =>
      if (cache pindexPrev).isSome then some (pindexPrev, vToCompute, cache)
      else
        match pindexPrev with
        | none => some (none, vToCompute, Function.update cache none (some .defined))
        | some p =>
            if medianTimePast p < c.beginTime then
              some (some p, vToCompute, Function.update cache (some p) (some .defined))
            else
              walkBack fuel (t.getAncestor p (t.nHeight p - c.period)) (vToCompute ++ [p]) cache

/-- The forward walk: from the state where the backward walk stopped, the
state after each block to compute, the earliest first, each written to the
cache. -/
def walkForward (vToCompute : List α) (state : ThresholdState) (cache : ThresholdConditionCache α) :
    ThresholdState × ThresholdConditionCache α :=
  vToCompute.foldr
    (fun pindexPrev acc =>
      let stateNext := t.nextState c medianTimePast acc.1 pindexPrev
      (stateNext, Function.update acc.2 (some pindexPrev) (some stateNext)))
    (state, cache)

/-- `GetStateFor`: the state and the cache after the call. The fuel of the
backward walk is the height of the block it starts from, and two; `none`
stands for the fuel running out and for the failed `assert`. -/
def getStateFor (pindexPrev : Option α) (cache : ThresholdConditionCache α) :
    Option (ThresholdState × ThresholdConditionCache α) :=
  if c.beginTime = alwaysActive then some (.active, cache)
  else
    let pindexPrev := pindexPrev.bind fun p =>
      t.getAncestor p (t.nHeight p - ((t.nHeight p + 1) % c.period : ℕ))
    match t.walkBack c medianTimePast (pindexPrev.elim 0 t.nHeight + 2) pindexPrev [] cache with
    | none => none
    | some (pindexPrev, vToCompute, cache) =>
        match cache pindexPrev with
        | none => none
        | some state => some (t.walkForward c medianTimePast vToCompute state cache)

/-! ## The recurrence -/

/-- The height of a block and one, zero for the null block: the measure of
the recurrence. -/
def depth : Option α → ℕ
  | none => 0
  | some b => t.nHeight b + 1

omit [DecidableEq α] in
theorem depth_prevN_lt (q : α) : t.depth (t.prevN c.period q) < t.depth (some q) := by
  cases h : t.prevN c.period q with
  | none => simp [depth]
  | some a =>
      have := t.nHeight_prevN h
      have := c.period_pos
      simp only [depth]
      omega

/-- The signalling blocks of the period that ends at `q`: of the `period`
blocks from `q` down, those with the condition. -/
def signalling (q : α) : ℕ :=
  ((List.range c.period).filterMap fun i => t.prevN i q).countP c.condition

/-- BIP9's transition for the period after `q`. -/
def bip9Next (state : ThresholdState) (q : α) : ThresholdState :=
  match state with
  | .defined =>
      if c.endTime ≤ medianTimePast q then .failed
      else if c.beginTime ≤ medianTimePast q then .started
      else .defined
  | .started =>
      if c.endTime ≤ medianTimePast q then .failed
      else if c.threshold ≤ t.signalling c q then .lockedIn
      else .started
  | .lockedIn => .active
  | .failed => .failed
  | .active => .active

/-- The state of the period after the block `q`, by the recurrence from the
null block before the genesis block. -/
def periodState (q : Option α) : ThresholdState :=
  match q with
  | none => .defined
  | some q => t.bip9Next c medianTimePast (periodState (t.prevN c.period q)) q
termination_by t.depth q
decreasing_by exact t.depth_prevN_lt c q

/-- The last block of the period before the block after `pindexPrev`. -/
def periodEnd (pindexPrev : Option α) : Option α :=
  pindexPrev.bind fun p => t.prevN ((t.nHeight p + 1) % c.period) p

/-- The state of the block after `pindexPrev`, by definition. -/
def bip9State (pindexPrev : Option α) : ThresholdState :=
  if c.beginTime = alwaysActive then .active
  else t.periodState c medianTimePast (t.periodEnd c pindexPrev)

/-- Every state the cache holds is the one the recurrence gives. -/
def CacheSound (cache : ThresholdConditionCache α) : Prop :=
  ∀ q s, cache q = some s → s = t.periodState c medianTimePast q

/-- The caches that some sequence of `GetStateFor` calls leaves, from an
empty one. -/
inductive CacheReachable [DecidableEq α] : ThresholdConditionCache α → Prop
  | empty : CacheReachable fun _ => none
  | query {cache cache' : ThresholdConditionCache α} {pindexPrev : Option α} {state : ThresholdState} :
      CacheReachable cache → t.getStateFor c medianTimePast pindexPrev cache = some (state, cache') →
        CacheReachable cache'

/-! ## The counting loop -/

omit [DecidableEq α] in
/-- The counting loop counts the signalling blocks among `n` from `b` down. -/
theorem countCondition_eq (n : ℕ) : ∀ b : Option α,
    t.countCondition c n b = ((List.range n).filterMap fun i => b.bind (t.prevN i)).countP c.condition := by
  induction n with
  | zero => simp [countCondition]
  | succ n ih =>
      intro b
      cases b with
      | none => simp [countCondition]
      | some q =>
          rw [countCondition, ih, List.range_succ_eq_map, List.filterMap_cons, List.filterMap_map]
          simp only [Option.bind_some, prevN_zero, prevN_succ, List.countP_cons, Function.comp_def]
          omega

omit [DecidableEq α] in
/-- The `switch` is BIP9's transition. -/
theorem nextState_eq_bip9Next : t.nextState c medianTimePast = t.bip9Next c medianTimePast := by
  funext state q
  have hcount : t.countCondition c c.period (some q) = t.signalling c q := by
    rw [countCondition_eq, signalling]
    simp only [Option.bind_some]
  cases state <;> simp only [nextState, bip9Next, hcount, ge_iff_le]

/-! ## Ancestors -/

omit [DecidableEq α] in
theorem prevN_eq_none (b : α) {n : ℕ} (h : t.nHeight b < n) : t.prevN n b = none := by
  cases hp : t.prevN n b with
  | none => rfl
  | some a =>
      have := t.nHeight_prevN hp
      omega

omit [DecidableEq α] in
/-- Over skip pointers that `BuildSkip` set, the ancestor `k` blocks down,
none below the genesis block. -/
theorem getAncestor_sub (hbuild : t.SkipBuilt) (b : α) (k : ℕ) :
    t.getAncestor b (t.nHeight b - k) = t.prevN k b := by
  by_cases hk : k ≤ t.nHeight b
  · have hwalk := t.getAncestorWalk_eq_prevN (N := t.nHeight b)
      (fun x _ => t.skipCorrect_of_skipBuilt hbuild x) (t.nHeight b - k) b (t.nHeight b) rfl le_rfl
      (by omega)
    rw [getAncestor, if_neg (by omega), show ((t.nHeight b : ℤ) - k).toNat = t.nHeight b - k by omega,
      hwalk, show t.nHeight b - (t.nHeight b - k) = k by omega]
  · rw [getAncestor, if_pos (by omega), t.prevN_eq_none b (by omega)]

omit [DecidableEq α] in
theorem getAncestor_nHeight (hbuild : t.SkipBuilt) (b : α) : t.getAncestor b (t.nHeight b) = some b := by
  simpa using t.getAncestor_sub hbuild b 0

omit [DecidableEq α] in
theorem medianTimePast_prevN_le
    (hmono : ∀ b p, t.pprev b = some p → medianTimePast p ≤ medianTimePast b) :
    ∀ (n : ℕ) (b a : α), t.prevN n b = some a → medianTimePast a ≤ medianTimePast b
  | 0, _, _, h => by cases h; exact le_rfl
  | n + 1, b, a, h => by
      obtain ⟨p, hp, hrest⟩ := Option.bind_eq_some_iff.mp h
      exact (medianTimePast_prevN_le hmono n p a hrest).trans (hmono b p hp)

/-! ## The recurrence -/

omit [DecidableEq α] in
@[simp] theorem periodState_none : t.periodState c medianTimePast none = .defined := by
  rw [periodState]

omit [DecidableEq α] in
theorem periodState_some (q : α) :
    t.periodState c medianTimePast (some q) =
      t.bip9Next c medianTimePast (t.periodState c medianTimePast (t.prevN c.period q)) q := by
  rw [periodState]

omit [DecidableEq α] in
/-- Before the start time the recurrence has not left `DEFINED`, where the
median time past never decreases along `pprev` and the start is not after
the timeout: the reason `GetStateFor` may stop its walk there. -/
theorem periodState_of_lt_beginTime
    (hmono : ∀ b p, t.pprev b = some p → medianTimePast p ≤ medianTimePast b)
    (hstart : c.beginTime ≤ c.endTime) (q : α) (hq : medianTimePast q < c.beginTime) :
    t.periodState c medianTimePast (some q) = .defined := by
  induction hh : t.nHeight q using Nat.strong_induction_on generalizing q with
  | _ n ih =>
    have hprev : t.periodState c medianTimePast (t.prevN c.period q) = .defined := by
      cases hp : t.prevN c.period q with
      | none => exact t.periodState_none c medianTimePast
      | some a =>
          have hheight := t.nHeight_prevN hp
          have := c.period_pos
          exact ih (t.nHeight a) (by omega) a
            ((t.medianTimePast_prevN_le medianTimePast hmono _ q a hp).trans_lt hq) rfl
    rw [periodState_some, hprev, bip9Next, if_neg (by omega), if_neg (by omega)]

/-! ## The cache -/

theorem CacheSound.update {cache : ThresholdConditionCache α} (h : t.CacheSound c medianTimePast cache)
    {q : Option α} {s : ThresholdState} (hs : s = t.periodState c medianTimePast q) :
    t.CacheSound c medianTimePast (Function.update cache q (some s)) := by
  intro q' s' hq'
  by_cases hqq : q' = q
  · subst hqq
    rw [Function.update_self, Option.some_inj] at hq'
    rw [← hq', hs]
  · rw [Function.update_of_ne hqq] at hq'
    exact h q' s' hq'

/-- The block on top of the blocks to compute, `q` when there are none. -/
def top : List α → Option α → Option α
  | [], q => q
  | p :: _, _ => some p

/-- The blocks to compute as the backward walk leaves them: the previous
period of each ends at the next one, that of the last one at `q`. -/
def StepsDown : List α → Option α → Prop
  | [], _ => True
  | p :: rest, q => t.prevN c.period p = top rest q ∧ StepsDown rest q

omit [DecidableEq α] in
theorem top_append_singleton (vs : List α) (p : α) (x : Option α) :
    top (vs ++ [p]) x = top vs (some p) := by
  cases vs <;> rfl

omit [DecidableEq α] in
theorem stepsDown_append (p : α) :
    ∀ vs : List α, t.StepsDown c vs (some p) → t.StepsDown c (vs ++ [p]) (t.prevN c.period p)
  | [], _ => ⟨rfl, trivial⟩
  | v :: vs, ⟨hv, hrest⟩ => by
      refine ⟨?_, stepsDown_append p vs hrest⟩
      show t.prevN c.period v = top (vs ++ [p]) (t.prevN c.period p)
      rw [top_append_singleton]
      exact hv

theorem walkForward_cons (p : α) (rest : List α) (state : ThresholdState)
    (cache : ThresholdConditionCache α) :
    t.walkForward c medianTimePast (p :: rest) state cache =
      ((t.nextState c medianTimePast (t.walkForward c medianTimePast rest state cache).1 p),
        Function.update (t.walkForward c medianTimePast rest state cache).2 (some p)
          (some (t.nextState c medianTimePast (t.walkForward c medianTimePast rest state cache).1 p))) :=
  rfl

/-- The forward walk computes the recurrence, from the state of the block
where the backward walk stopped, and writes only what it gives. -/
theorem walkForward_spec {cache : ThresholdConditionCache α} (hsound : t.CacheSound c medianTimePast cache) :
    ∀ (vs : List α) (q : Option α), t.StepsDown c vs q →
      (t.walkForward c medianTimePast vs (t.periodState c medianTimePast q) cache).1 =
          t.periodState c medianTimePast (top vs q) ∧
        t.CacheSound c medianTimePast (t.walkForward c medianTimePast vs (t.periodState c medianTimePast q) cache).2
  | [], _, _ => ⟨rfl, hsound⟩
  | p :: rest, q, ⟨hprev, hrest⟩ => by
      obtain ⟨hstate, hsound'⟩ := walkForward_spec hsound rest q hrest
      have hnext : t.nextState c medianTimePast
          (t.walkForward c medianTimePast rest (t.periodState c medianTimePast q) cache).1 p =
          t.periodState c medianTimePast (some p) := by
        rw [hstate, nextState_eq_bip9Next, periodState_some, hprev]
      rw [walkForward_cons, hnext]
      exact ⟨rfl, CacheSound.update t c medianTimePast hsound' rfl⟩

/-! ## The walks -/

section Walks

variable (hbuild : t.SkipBuilt)
  (hmono : ∀ b p, t.pprev b = some p → medianTimePast p ≤ medianTimePast b)
include hbuild hmono

/-- The backward walk, with fuel above the depth of its block, stops at a
block whose state the cache holds, has written only what the recurrence
gives, and leaves the blocks to compute a period apart. -/
theorem walkBack_spec (hstart : c.beginTime ≤ c.endTime) :
    ∀ (fuel : ℕ) (q : Option α) (vs : List α) (cache : ThresholdConditionCache α),
      t.depth q < fuel → t.CacheSound c medianTimePast cache → t.StepsDown c vs q →
      ∃ q' vs' cache' s, t.walkBack c medianTimePast fuel q vs cache = some (q', vs', cache') ∧
        cache' q' = some s ∧ t.CacheSound c medianTimePast cache' ∧ t.StepsDown c vs' q' ∧
        top vs' q' = top vs q
  | 0, _, _, _, hfuel, _, _ => absurd hfuel (Nat.not_lt_zero _)
  | fuel + 1, q, vs, cache, hfuel, hsound, hsteps => by
      simp only [walkBack]
      by_cases hcached : (cache q).isSome
      · obtain ⟨s, hs⟩ := Option.isSome_iff_exists.mp hcached
        exact ⟨q, vs, cache, s, by rw [if_pos hcached], hs, hsound, hsteps, rfl⟩
      rw [if_neg hcached]
      cases q with
      | none =>
          exact ⟨none, vs, _, .defined, rfl, Function.update_self _ _ _,
            CacheSound.update t c medianTimePast hsound (t.periodState_none c medianTimePast).symm,
            hsteps, rfl⟩
      | some p =>
          dsimp only
          by_cases hbefore : medianTimePast p < c.beginTime
          · rw [if_pos hbefore]
            exact ⟨some p, vs, _, .defined, rfl, Function.update_self _ _ _,
              CacheSound.update t c medianTimePast hsound
                (t.periodState_of_lt_beginTime c medianTimePast hmono hstart p hbefore).symm,
              hsteps, rfl⟩
          · rw [if_neg hbefore, getAncestor_sub t hbuild]
            have hdepth := t.depth_prevN_lt c p
            obtain ⟨q', vs', cache', s, hwalk, hs, hsound', hsteps', htop⟩ :=
              walkBack_spec hstart fuel (t.prevN c.period p) (vs ++ [p]) cache
                (by omega) hsound (t.stepsDown_append c p vs hsteps)
            exact ⟨q', vs', cache', s, hwalk, hs, hsound', hsteps',
              htop.trans (top_append_singleton vs p _)⟩

/-- `GetStateFor` from a sound cache returns the state the recurrence gives
and leaves a sound cache. -/
theorem getStateFor_spec (hstart : c.beginTime = alwaysActive ∨ c.beginTime ≤ c.endTime)
    {cache : ThresholdConditionCache α} (hsound : t.CacheSound c medianTimePast cache)
    (pindexPrev : Option α) :
    ∃ cache', t.getStateFor c medianTimePast pindexPrev cache =
        some (t.bip9State c medianTimePast pindexPrev, cache') ∧
      t.CacheSound c medianTimePast cache' := by
  by_cases hactive : c.beginTime = alwaysActive
  · exact ⟨cache, by rw [getStateFor, if_pos hactive, bip9State, if_pos hactive], hsound⟩
  have hend : (pindexPrev.bind fun p =>
      t.getAncestor p (t.nHeight p - ((t.nHeight p + 1) % c.period : ℕ))) = t.periodEnd c pindexPrev := by
    cases pindexPrev with
    | none => rfl
    | some p => exact t.getAncestor_sub hbuild p _
  have hfuel : t.depth (t.periodEnd c pindexPrev) < (t.periodEnd c pindexPrev).elim 0 t.nHeight + 2 := by
    cases t.periodEnd c pindexPrev <;> simp [depth]
  obtain ⟨q', vs', cache', s, hwalk, hs, hsound', hsteps, htop⟩ :=
    t.walkBack_spec c medianTimePast hbuild hmono (hstart.resolve_left hactive) _ _ [] cache hfuel hsound
      trivial
  have hstate := hsound' q' s hs
  obtain ⟨hforward, hsound''⟩ := t.walkForward_spec c medianTimePast hsound' vs' q' hsteps
  refine ⟨_, ?_, hsound''⟩
  simp only [getStateFor, if_neg hactive, hend, hwalk, hs, hstate]
  refine congrArg some (Prod.ext ?_ rfl)
  rw [hforward, htop, bip9State, if_neg hactive]
  rfl

/-- Every cache that a sequence of calls leaves is sound. -/
theorem CacheReachable.sound (hstart : c.beginTime = alwaysActive ∨ c.beginTime ≤ c.endTime)
    {cache : ThresholdConditionCache α} (h : t.CacheReachable c medianTimePast cache) :
    t.CacheSound c medianTimePast cache := by
  induction h with
  | empty => exact fun _ _ hq => absurd hq (by simp)
  | query _ hquery ih =>
      obtain ⟨_, hspec, hsound⟩ := t.getStateFor_spec c medianTimePast hbuild hmono hstart ih _
      rw [hquery, Option.some_inj, Prod.mk.injEq] at hspec
      exact hspec.2 ▸ hsound

end Walks

/-! ## Periods -/

omit [DecidableEq α] in
/-- The blocks of one period end their previous period at one block. -/
theorem periodEnd_prevN (b : α) {j : ℕ} (hj : j ≤ (t.nHeight b + 1) % c.period) :
    t.periodEnd c (t.prevN j b) = t.periodEnd c (some b) := by
  have hmod := Nat.mod_le (t.nHeight b + 1) c.period
  cases hp : t.prevN j b with
  | none =>
      have hbelow : t.nHeight b < j := by
        by_contra hle
        have := t.prevN_isSome (show j ≤ t.nHeight b by omega)
        rw [hp] at this
        cases this
      rw [periodEnd, Option.bind_none, periodEnd, Option.bind_some, t.prevN_eq_none b (by omega)]
  | some a =>
      have ha := t.nHeight_prevN hp
      -- the period position of `a` is that of `b`, `j` blocks less
      have hpos : (t.nHeight a + 1) % c.period = (t.nHeight b + 1) % c.period - j := by
        have hdiv := Nat.div_add_mod (t.nHeight b + 1) c.period
        have hlt := Nat.mod_lt (t.nHeight b + 1) c.period_pos
        rw [show t.nHeight a + 1 = c.period * ((t.nHeight b + 1) / c.period) +
            ((t.nHeight b + 1) % c.period - j) by omega,
          Nat.mul_add_mod, Nat.mod_eq_of_lt (by omega)]
      rw [periodEnd, Option.bind_some, periodEnd, Option.bind_some,
        show (t.nHeight b + 1) % c.period = j + (t.nHeight a + 1) % c.period by omega, prevN_add, hp,
        Option.bind_some]

omit [DecidableEq α] in
/-- The state is constant within a period. -/
theorem bip9State_prevN (b : α) {j : ℕ} (hj : j ≤ (t.nHeight b + 1) % c.period) :
    t.bip9State c medianTimePast (t.prevN j b) = t.bip9State c medianTimePast (some b) := by
  rw [bip9State, bip9State, t.periodEnd_prevN c b hj]

/-- Over skip pointers that `BuildSkip` set, on a tree whose median time past
never decreases along `pprev`, for a deployment that is always active or
starts no later than its timeout: every `GetStateFor` call, with a cache
that any earlier calls left, in any order and on any fork, returns the state
that BIP9's recurrence defines and leaves a cache that such calls leave; and
that state is the same for all blocks of one period. -/
theorem getStateFor_eq_bip9State (hbuild : t.SkipBuilt)
    (hmono : ∀ b p, t.pprev b = some p → medianTimePast p ≤ medianTimePast b)
    (hstart : c.beginTime = alwaysActive ∨ c.beginTime ≤ c.endTime) :
    (∀ cache, t.CacheReachable c medianTimePast cache → ∀ pindexPrev,
      ∃ cache', t.getStateFor c medianTimePast pindexPrev cache =
          some (t.bip9State c medianTimePast pindexPrev, cache') ∧
        t.CacheReachable c medianTimePast cache') ∧
    ∀ (b : α) (j : ℕ), j ≤ (t.nHeight b + 1) % c.period →
      t.bip9State c medianTimePast (t.prevN j b) = t.bip9State c medianTimePast (some b) := by
  refine ⟨fun cache hreach pindexPrev => ?_, fun b j hj => t.bip9State_prevN c medianTimePast b hj⟩
  obtain ⟨cache', hget, -⟩ := t.getStateFor_spec c medianTimePast hbuild hmono hstart
    (CacheReachable.sound t c medianTimePast hbuild hmono hstart hreach) pindexPrev
  exact ⟨cache', hget, .query hreach hget⟩

end BlockTree

theorem medianTimePast_mono_heightChain :
    ∀ b p, heightChain.pprev b = some p → ((p : ℕ) : ℤ) ≤ ((b : ℕ) : ℤ) := by
  intro b p h
  have hp : heightChain.nHeight b = heightChain.nHeight p + 1 := heightChain.nHeight_pprev b p h
  change b = p + 1 at hp
  omega

/-- A deployment of two-block periods on the chain of heights, every block
signalling, the median time past the height. -/
theorem getStateFor_eq_bip9State_heightChain :
    heightChain.SkipBuilt ∧ (∀ b p, heightChain.pprev b = some p → ((p : ℕ) : ℤ) ≤ ((b : ℕ) : ℤ)) ∧
      ((⟨fun _ => true, 0, 100, 2, 1, by decide⟩ : ThresholdConditionChecker ℕ).beginTime = alwaysActive ∨
        (⟨fun _ => true, 0, 100, 2, 1, by decide⟩ : ThresholdConditionChecker ℕ).beginTime ≤
          (⟨fun _ => true, 0, 100, 2, 1, by decide⟩ : ThresholdConditionChecker ℕ).endTime) ∧
      ((∀ cache, heightChain.CacheReachable ⟨fun _ => true, 0, 100, 2, 1, by decide⟩ (fun n => (n : ℤ)) cache →
        ∀ pindexPrev, ∃ cache',
          heightChain.getStateFor ⟨fun _ => true, 0, 100, 2, 1, by decide⟩ (fun n => (n : ℤ)) pindexPrev cache =
            some (heightChain.bip9State ⟨fun _ => true, 0, 100, 2, 1, by decide⟩ (fun n => (n : ℤ)) pindexPrev,
              cache') ∧
          heightChain.CacheReachable ⟨fun _ => true, 0, 100, 2, 1, by decide⟩ (fun n => (n : ℤ)) cache') ∧
      ∀ (b : ℕ) (j : ℕ), j ≤ (heightChain.nHeight b + 1) % 2 →
        heightChain.bip9State ⟨fun _ => true, 0, 100, 2, 1, by decide⟩ (fun n => (n : ℤ)) (heightChain.prevN j b) =
          heightChain.bip9State ⟨fun _ => true, 0, 100, 2, 1, by decide⟩ (fun n => (n : ℤ)) (some b)) :=
  ⟨skipBuilt_heightChain, medianTimePast_mono_heightChain, .inr (by decide),
    heightChain.getStateFor_eq_bip9State _ _ skipBuilt_heightChain medianTimePast_mono_heightChain
      (.inr (by decide))⟩

/-- The early stop of the backward walk at a block whose median time past is
before the start time answers `DEFINED` where the recurrence does not: with
periods of one block, a start after the timeout gives `FAILED` at the genesis
block, and a median time past that falls below the start gives `STARTED` at
block one. -/
theorem getStateFor_early_stop_diverges :
    (heightChain.getStateFor ⟨fun _ => false, 10, 5, 1, 1, Nat.one_pos⟩ (fun _ => 7) (some 0)
        (fun _ => none)).map Prod.fst = some .defined ∧
      heightChain.bip9State ⟨fun _ => false, 10, 5, 1, 1, Nat.one_pos⟩ (fun _ => 7) (some 0) = .failed ∧
    (heightChain.getStateFor ⟨fun _ => false, 10, 100, 1, 1, Nat.one_pos⟩
        (fun n => if n = 0 then 20 else 5) (some 1) (fun _ => none)).map Prod.fst = some .defined ∧
      heightChain.bip9State ⟨fun _ => false, 10, 100, 1, 1, Nat.one_pos⟩
        (fun n => if n = 0 then 20 else 5) (some 1) = .started := by
  refine ⟨?_, ?_, ?_, ?_⟩
  · simp [BlockTree.getStateFor, BlockTree.getAncestor_nHeight _ skipBuilt_heightChain, BlockTree.walkBack,
      BlockTree.walkForward, alwaysActive]
  · simp [BlockTree.bip9State, BlockTree.periodEnd, BlockTree.periodState_some, BlockTree.prevN, heightChain,
      BlockTree.bip9Next, alwaysActive]
  · simp [BlockTree.getStateFor, BlockTree.getAncestor_nHeight _ skipBuilt_heightChain, BlockTree.walkBack,
      BlockTree.walkForward, alwaysActive]
  · simp [BlockTree.bip9State, BlockTree.periodEnd, BlockTree.periodState_some, BlockTree.prevN, heightChain,
      BlockTree.bip9Next, alwaysActive, BlockTree.signalling]

end Metrix
