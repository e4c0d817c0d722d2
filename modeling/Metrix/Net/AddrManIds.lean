import Mathlib
import Metrix.Lib.Simulation
import Metrix.Net.AddrMan

/-! The id counter of the address manager. `nIdCount` is an `int` that only
`Create` moves, one up per call, and only `Add_` calls `Create`: every other
call keeps the counter, so a run moves it by at most its number of `Add_`
calls. At `INT_MAX` the next `Create` overflows the `int`. -/

namespace Metrix.AddrMan

open Function

section Ids

variable {N : Type} [LinearOrder N] (E : NetEnv N)

namespace CAddrMan

variable {st st' : CAddrMan N}

theorem swapRandom_nIdCount {p q : ℕ} (h : st.swapRandom p q = .ok st') :
    st'.nIdCount = st.nIdCount := by
  simp only [swapRandom] at h
  split_ifs at h
  all_goals cases h; rfl

theorem delete_nIdCount {x : ℕ} (h : st.delete x = .ok st') : st'.nIdCount = st.nIdCount := by
  simp only [delete] at h
  split at h
  · cases h
  · split_ifs at h
    obtain ⟨s, hs, h⟩ := Except.bind_eq_ok.mp h
    cases h
    exact (swapRandom_nIdCount hs :)

theorem clearNew_nIdCount {c} (h : st.clearNew c = .ok st') : st'.nIdCount = st.nIdCount := by
  simp only [clearNew] at h
  split at h
  · cases h; rfl
  · split at h
    · cases h
    · split_ifs at h
      · exact (delete_nIdCount h :)
      · cases h; rfl

theorem evictTried_nIdCount {c} {x : ℕ} (h : st.evictTried E c x = .ok st') :
    st'.nIdCount = st.nIdCount := by
  simp only [evictTried] at h
  split at h
  · cases h
  · obtain ⟨s, hs, h⟩ := Except.bind_eq_ok.mp h
    split_ifs at h
    cases h
    exact (clearNew_nIdCount hs :)

theorem makeTried_nIdCount {info : CAddrInfo N} {x : ℕ} (h : st.makeTried E info x = .ok st') :
    st'.nIdCount = st.nIdCount := by
  simp only [makeTried] at h
  split_ifs at h
  split at h
  · -- the tried cell is free
    simp only [pure_bind] at h
    split_ifs at h
    cases h
    rfl
  · -- its entry is evicted first
    obtain ⟨s, hs, h⟩ := Except.bind_eq_ok.mp h
    split_ifs at h
    cases h
    exact (evictTried_nIdCount E hs :)

theorem good_nIdCount {addr : CService N} {testBeforeEvict : Bool} {nTime : ℤ} {nRnd : ℕ}
    (h : st.good E addr testBeforeEvict nTime nRnd = .ok st') : st'.nIdCount = st.nIdCount := by
  simp only [good] at h
  split at h
  · cases h; rfl
  split at h
  · cases h; rfl
  split at h
  · cases h; rfl
  split at h
  · cases h; rfl
  split at h
  · -- a collision is queued
    split at h
    · cases h; rfl
    · cases h; rfl
  · exact (makeTried_nIdCount E h :)

/-- `Create` takes the next id. -/
theorem create_nIdCount {addr : CAddress N} {source : N} {nId : ℕ}
    (h : st.create addr source = .ok (nId, st')) : st'.nIdCount = st.nIdCount + 1 := by
  simp only [create] at h
  split at h
  · cases h
    rfl
  · cases h

theorem attempt_nIdCount (addr : CService N) (fCountFailure : Bool) (nTime : ℤ) :
    (st.attempt addr fCountFailure nTime).nIdCount = st.nIdCount := by
  unfold attempt
  repeat' split
  all_goals rfl

theorem connected_nIdCount (addr : CService N) (nTime : ℤ) :
    (st.connected addr nTime).nIdCount = st.nIdCount := by
  unfold connected
  repeat' split
  all_goals rfl

theorem setServices_nIdCount (addr : CService N) (nServices : UInt64) :
    (st.setServices addr nServices).nIdCount = st.nIdCount := by
  unfold setServices
  repeat' split
  all_goals rfl

theorem getAddrLoop_nIdCount (nNow : ℤ) (rnd : ℕ → ℕ) (nNodes : ℕ) (ns : List ℕ) :
    ∀ {vAddr vAddr' : List (CAddress N)} {st st' : CAddrMan N},
      getAddrLoop nNow rnd nNodes ns (vAddr, st) = .ok (vAddr', st') → st'.nIdCount = st.nIdCount := by
  induction ns with
  | nil =>
    intro vAddr vAddr' st st' h
    cases h
    rfl
  | cons n ns ih =>
    intro vAddr vAddr' st st' h
    simp only [getAddrLoop] at h
    split_ifs at h
    · cases h
      rfl
    · -- the swap, then the rest of the loop
      obtain ⟨s, hs, h⟩ := Except.bind_eq_ok.mp h
      split at h
      · cases h
      · rw [ih h, swapRandom_nIdCount hs]

theorem getAddr_nIdCount {nNow : ℤ} {rnd : ℕ → ℕ} {vAddr : List (CAddress N)}
    (h : st.getAddr nNow rnd = .ok (vAddr, st')) : st'.nIdCount = st.nIdCount :=
  getAddrLoop_nIdCount nNow rnd _ _ h

variable [Inhabited N]

theorem addToNew_nIdCount {source : N} {x : ℕ} {pinfo : CAddrInfo N} {fNew : Bool} {nNow : ℤ}
    {b : Bool} (h : st.addToNew E source x pinfo fNew nNow = .ok (b, st')) :
    st'.nIdCount = st.nIdCount := by
  simp only [addToNew] at h
  -- every branch keeps the manager or ends in `ClearNew` or `Delete`
  repeat' split at h
  all_goals first
    | (cases h; rfl)
    | (obtain ⟨s, hs, h⟩ := Except.bind_eq_ok.mp h
       cases h
       first
         | exact (clearNew_nIdCount hs :)
         | exact (delete_nIdCount hs :))

/-- `Add_` raises the counter by at most one. -/
theorem add_nIdCount {addr : CAddress N} {source : N} {nTimePenalty nNow : ℤ} {rnd : ℕ} {b : Bool}
    (h : st.add E addr source nTimePenalty nNow rnd = .ok (b, st')) :
    st'.nIdCount ≤ st.nIdCount + 1 := by
  by_cases hroute : E.isRoutable addr.ip = true
  swap
  · simp only [add, hroute, Bool.false_eq_true, not_false_eq_true, if_true] at h
    cases h
    exact Nat.le_succ _
  simp only [add, hroute, not_true_eq_false, if_false] at h
  generalize (if addr.ip = source then (0 : ℤ) else nTimePenalty) = pen at h
  split at h
  · -- a known address: its entry is refreshed, and may gain a new cell
    split_ifs at h
    all_goals first
      | (cases h; exact Nat.le_succ _)
      | (rw [addToNew_nIdCount E h]; exact Nat.le_succ _)
  · -- a new address: `Create`, then the insertion
    obtain ⟨⟨nId, s⟩, hs, h⟩ := Except.bind_eq_ok.mp h
    have hs' : s.nIdCount = st.nIdCount + 1 := create_nIdCount hs
    split at h
    · rw [addToNew_nIdCount E h]
      exact hs'.le
    · cases h
      exact hs'.le

theorem resolveCollision_nIdCount {nNow : ℤ} {nRnd idNew : ℕ}
    (h : st.resolveCollision E nNow nRnd idNew = .ok st') : st'.nIdCount = st.nIdCount := by
  simp only [resolveCollision] at h
  -- every branch keeps the manager or runs `Good_` on it, and the erasure of
  -- the collision after it keeps the counter too
  repeat' split at h
  all_goals simp only [pure_bind] at h
  all_goals first
    | (cases h; split <;> rfl)
    | (obtain ⟨s, hs, h⟩ := Except.bind_eq_ok.mp h
       cases h
       split <;> exact (good_nIdCount E hs :))

theorem resolveCollisions_nIdCount {nNow : ℤ} {nRnd : ℕ → ℕ}
    (h : st.resolveCollisions E nNow nRnd = .ok st') : st'.nIdCount = st.nIdCount :=
  List.foldlM_except_keeps nIdCount (fun _ _ _ _ h => resolveCollision_nIdCount E h) h

end CAddrMan

open CAddrMan

variable [Inhabited N]

/-- A call moves the counter by at most one, and only `Add_` moves it. -/
theorem step_nIdCount {st st' : CAddrMan N} {op : Op N} (h : step E st op = .ok st') :
    st'.nIdCount ≤ st.nIdCount + if op.isAdd then 1 else 0 := by
  cases op with
  | add addr source nTimePenalty nNow rnd =>
    obtain ⟨⟨_, s⟩, hs, rfl⟩ := Except.map_eq_ok.mp h
    exact add_nIdCount E hs
  | good addr testBeforeEvict nTime nRnd =>
    have h : st.good E addr testBeforeEvict nTime nRnd = .ok st' := h
    exact (good_nIdCount E h).trans_le (Nat.le_add_right _ _)
  | attempt addr fCountFailure nTime =>
    cases h
    exact (attempt_nIdCount addr fCountFailure nTime).trans_le (Nat.le_add_right _ _)
  | connected addr nTime =>
    cases h
    exact (connected_nIdCount addr nTime).trans_le (Nat.le_add_right _ _)
  | setServices addr nServices =>
    cases h
    exact (setServices_nIdCount addr nServices).trans_le (Nat.le_add_right _ _)
  | resolveCollisions nNow nRnd =>
    have h : st.resolveCollisions E nNow nRnd = .ok st' := h
    exact (resolveCollisions_nIdCount E h).trans_le (Nat.le_add_right _ _)
  | select _ =>
    cases h
    exact Nat.le_add_right _ _
  | getAddr nNow rnd =>
    obtain ⟨⟨_, s⟩, hs, rfl⟩ := Except.map_eq_ok.mp h
    exact (getAddr_nIdCount hs).trans_le (Nat.le_add_right _ _)

end Ids

end Metrix.AddrMan
