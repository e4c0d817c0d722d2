import Mathlib
import Metrix.Lib.Simulation
import Metrix.Lib.UpdateAll
import Metrix.Net.AddrManOps

/-! `CAddrMan::Check_` returns `0` on a consistent manager. Each of its loops
ends in the state that consistency predicts: the loop over the entries
collects exactly the tried ids and the reference counts of the new entries,
the loop over the tried table erases each tried id once, at its own cell,
and the loop over the new table counts every reference down to none. -/

namespace Metrix.AddrMan

open Function CAddrMan

section Collect

variable {N : Type}

/-- What the loop of `Check_` over the entries collects from an entry that
passes its checks: a tried id, or the reference count of a new one. -/
def collectEntry (acc : Finset ℕ × SortedMap ℕ ℤ) (entry : ℕ × CAddrInfo N) :
    Finset ℕ × SortedMap ℕ ℤ :=
  if entry.2.fInTried then (insert entry.1 acc.1, acc.2)
  else (acc.1, acc.2.insert entry.1 entry.2.nRefCount)

/-- The ids the entry loop collects are those of the tried entries. -/
theorem mem_collectEntry_fst (m : SortedMap ℕ (CAddrInfo N)) (n : ℕ) :
    n ∈ (m.entries.foldl collectEntry (∅, SortedMap.empty)).1 ↔
      ∃ i, m.find? n = some i ∧ i.fInTried = true := by
  -- each entry writes at most its own id
  have h := SortedMap.get_foldl_of_local (fun acc k => if k ∈ acc.1 then some () else none) collectEntry
    (fun _ i old => if i.fInTried then some () else old)
    (fun s e k => by
      unfold collectEntry
      by_cases ht : e.2.fInTried <;> by_cases hk : k = e.1 <;> simp [ht, hk])
    m.keys_nodup (∅, SortedMap.empty) n
  change _ = (m.find? n).elim _ _ at h
  cases hn : m.find? n with
  | none => simpa [hn] using h
  | some i => cases ht : i.fInTried <;> simpa [hn, ht] using h

/-- The counts the entry loop collects are the reference counts of the new entries. -/
theorem find?_collectEntry_snd (m : SortedMap ℕ (CAddrInfo N)) (n : ℕ) :
    (m.entries.foldl collectEntry (∅, SortedMap.empty)).2.find? n =
      (m.find? n).bind fun i => if i.fInTried then none else some i.nRefCount := by
  have h := SortedMap.get_foldl_of_local (fun acc k => acc.2.find? k) collectEntry
    (fun _ i old => if i.fInTried then old else some i.nRefCount)
    (fun s e k => by
      unfold collectEntry
      by_cases ht : e.2.fInTried <;> by_cases hk : k = e.1 <;> simp [ht, hk])
    m.keys_nodup (∅, SortedMap.empty) n
  change _ = (m.find? n).elim _ _ at h
  rw [h]
  cases m.find? n <;> rfl

end Collect

section Check

variable {N : Type} [LinearOrder N] (E : NetEnv N)

theorem nodup_cells (nB : ℕ) : (cells nB).Nodup :=
  (List.nodup_finRange nB).product (List.nodup_finRange bucketSize)

theorem mem_cells {nB : ℕ} (c : Fin nB × Fin bucketSize) : c ∈ cells nB := by
  obtain ⟨a, b⟩ := c
  simp [cells, List.mem_product]

/-- Every entry of a consistent manager passes the checks of `Check_`. -/
theorem checkEntry_eq {st : CAddrMan N} (hC : st.Consistent E) {n : ℕ} {info : CAddrInfo N}
    (hx : st.mapInfo.find? n = some info) (acc : Finset ℕ × SortedMap ℕ ℤ) :
    checkEntry st acc (n, info) = .ok (collectEntry acc (n, info)) := by
  have hok : EntryOk info.unpos := hC.entryOk n _ (infosOf_of_find? hx)
  have hrc := hC.tabled.refCount n _ (infosOf_of_find? hx)
  have haddr : st.mapAddr.find? info.ip = some n := (hC.indexed.addrOf_eq info.ip n).mpr ⟨info, hx, rfl⟩
  obtain ⟨hlt, hat⟩ := List.getElem?_eq_some_iff.mp (hC.indexed.randomPos n info hx)
  have htry : ¬info.nLastTry < 0 := not_lt.mpr hok.lastTry_nonneg
  have hsucc : ¬info.nLastSuccess < 0 := not_lt.mpr hok.lastSuccess_nonneg
  cases ht : info.fInTried
  · have hpos' : 0 < info.nRefCount := hok.refCount_pos ht
    have hle : info.nRefCount ≤ newBucketsPerAddress := hok.refCount_le
    have h3 : ¬(info.nRefCount < 0 ∨ info.nRefCount > newBucketsPerAddress) := by omega
    simp [checkEntry, collectEntry, ht, h3, hpos'.ne', haddr, hlt, hat, htry, hsucc, pure, Except.pure]
  · have hz : info.nRefCount = 0 := by simpa [ht] using hrc
    have hs0 : info.nLastSuccess ≠ 0 := hok.lastSuccess_ne ht
    simp [checkEntry, collectEntry, ht, hs0, hz, haddr, hlt, hat, htry, hsucc, pure, Except.pure]

/-- The loop of `Check_` over the entries of a consistent manager passes, and
collects what `collectEntry` does. -/
theorem checkEntries_eq {st : CAddrMan N} (hC : st.Consistent E) :
    st.mapInfo.entries.foldlM (checkEntry st) (∅, SortedMap.empty) =
      .ok (st.mapInfo.entries.foldl collectEntry (∅, SortedMap.empty)) :=
  List.foldlM_eq_ok_foldl collectEntry
    (fun acc _ he => checkEntry_eq E hC (SortedMap.find?_eq_some_iff.mpr he) acc) _

variable [Inhabited N] in
/-- The loop of `Check_` over distinct cells of the tried table, from the set of
the ids those cells hold, passes and erases each of them: a tried entry sits at
its own cell and nowhere else. -/
theorem checkTriedCells_eq {st : CAddrMan N} (hT : st.Tabled E)
    (rest : List (Fin triedBucketCount × Fin bucketSize)) (hnd : rest.Nodup) :
    rest.foldlM (checkTriedCell E st) (rest.filterMap st.vvTried).toFinset = .ok ∅ := by
  induction rest with
  | nil => rfl
  | cons c rest ih =>
    rw [List.nodup_cons] at hnd
    cases hc : st.vvTried c with
    | none =>
      rw [List.filterMap_cons_none hc, List.foldlM_cons]
      simp only [checkTriedCell, hc]
      exact ih hnd.2
    | some x =>
      obtain ⟨i, hi, -, hcell⟩ := (hT.tried c x).mp hc
      obtain ⟨raw, hraw, rfl⟩ := exists_find?_of_infosOf hi
      -- `x` is held by no other cell
      have hfresh : x ∉ (rest.filterMap st.vvTried).toFinset := by
        rw [List.mem_toFinset, List.mem_filterMap]
        rintro ⟨c', hc', hx'⟩
        obtain ⟨i', hi', -, hcell'⟩ := (hT.tried c' x).mp hx'
        rw [hi] at hi'
        cases hi'
        exact hnd.1 (hcell ▸ hcell' ▸ hc')
      have hbucket : getTriedBucket E st.nKey raw.toCService = c.1 := congrArg Prod.fst hcell
      have hpos : getBucketPosition E st.nKey false c.1 raw.toCService = c.2 := by
        rw [← hbucket]
        exact congrArg Prod.snd hcell
      rw [List.filterMap_cons_some hc, List.toFinset_cons, List.foldlM_cons]
      simp only [checkTriedCell, hc, Finset.mem_insert, true_or, not_true_eq_false, if_false, hraw,
        Option.getD_some, hbucket, hpos, ne_eq, Finset.erase_insert hfresh]
      exact ih hnd.2

variable [Inhabited N] in
/-- The loop of `Check_` over cells of the new table, from counts that are the
number of the remaining cells holding each id, passes and counts every one of
them down to none. -/
theorem checkNewCells_eq {st : CAddrMan N} (hT : st.Tabled E)
    (rest : List (Fin newBucketCount × Fin bucketSize)) (mapNew : SortedMap ℕ ℤ)
    (hcount : ∀ x, mapNew.find? x = if rest.countP (fun c => st.vvNew c = some x) = 0 then none
      else some (rest.countP (fun c => st.vvNew c = some x) : ℤ)) :
    ∃ mapNew', rest.foldlM (checkNewCell E st) mapNew = .ok mapNew' ∧ ∀ x, mapNew'.find? x = none := by
  induction rest generalizing mapNew with
  | nil =>
    refine ⟨mapNew, rfl, fun x => ?_⟩
    simpa using hcount x
  | cons c rest ih =>
    rw [List.foldlM_cons]
    cases hc : st.vvNew c with
    | none =>
      simp only [checkNewCell, hc]
      apply ih
      intro y
      rw [hcount y, List.countP_cons_of_neg (by simp [hc])]
    | some x =>
      obtain ⟨i, hi, -, hpos⟩ := hT.new c x hc
      obtain ⟨raw, hraw, rfl⟩ := exists_find?_of_infosOf hi
      -- the cell is one of the references of `x` still counted
      have hx : mapNew.find? x = some ((rest.countP fun c => st.vvNew c = some x : ℕ) + 1 : ℤ) := by
        rw [hcount x, List.countP_cons_of_pos (by simp [hc])]
        simp
      simp only [CAddrInfo.unpos_toCService] at hpos
      simp only [checkNewCell, hc, hx, hraw, Option.getD_some, hpos, ne_eq, not_true_eq_false, if_false,
        add_sub_cancel_right]
      apply ih
      intro y
      by_cases hy : y = x
      · -- the count of `x` goes down by this cell
        subst hy
        by_cases h0 : rest.countP (fun c => st.vvNew c = some y) = 0
        · simp [h0]
        · simp [h0]
      · -- the counts of the other ids stay
        have hcy := hcount y
        rw [List.countP_cons, show decide (st.vvNew c = some y) = false by simp [hc, Ne.symm hy]] at hcy
        simp only [Bool.false_eq_true, if_false, add_zero] at hcy
        rw [← hcy]
        split_ifs <;> simp [hy]

variable [Inhabited N] in
/-- `Check_` passes on a consistent manager. -/
theorem checkRun_eq_ok {st : CAddrMan N} (hC : st.Consistent E) : checkRun E st = .ok () := by
  set R := st.mapInfo.entries.foldl collectEntry (∅, SortedMap.empty) with hR
  have htried : (st.nTried : ℤ) = st.mapInfo.countBy (·.fInTried) := by
    have := hC.triedGap_eq
    simp only [triedGap] at this
    omega
  have hnew : (st.nNew : ℤ) = st.mapInfo.countBy (fun i => !i.fInTried) := by
    have := hC.newGap_eq
    simp only [newGap] at this
    omega
  -- `vRandom` holds each id once
  have hlen : (st.vRandom.length : ℤ) = st.nTried + st.nNew := by
    have hset : st.vRandom.toFinset = st.mapInfo.keys.toFinset := by
      ext n
      rw [List.mem_toFinset, List.mem_toFinset, hC.indexed.mem_iff, SortedMap.mem_keys_iff_find?_isSome]
    have h1 := List.toFinset_card_of_nodup hC.indexed.nodup
    have h2 := SortedMap.countBy_add_countBy_not st.mapInfo (·.fInTried)
    rw [hset, ← SortedMap.size_eq_card_keys] at h1
    rw [htried, hnew]
    omega
  have hcard : (R.1.card : ℤ) = st.nTried := by
    rw [htried, SortedMap.countBy_eq_card (mem_collectEntry_fst st.mapInfo)]
  have hsize : (R.2.size : ℤ) = st.nNew := by
    rw [hnew, SortedMap.countBy_eq_card (s := R.2.keys.toFinset), SortedMap.size_eq_card_keys]
    intro k
    rw [List.mem_toFinset, SortedMap.mem_keys_iff_find?_isSome, hR, find?_collectEntry_snd]
    cases st.mapInfo.find? k with
    | none => simp
    | some i => cases i.fInTried <;> simp
  -- the tried set is that of the ids in the tried table
  have hset : R.1 = ((cells triedBucketCount).filterMap st.vvTried).toFinset := by
    ext n
    rw [mem_collectEntry_fst, List.mem_toFinset, List.mem_filterMap]
    constructor
    · rintro ⟨i, hi, ht⟩
      refine ⟨triedCell E st.nKey i.toCService, mem_cells _, (hC.tabled.tried _ n).mpr ?_⟩
      exact ⟨i.unpos, infosOf_of_find? hi, ht, rfl⟩
    · rintro ⟨c, -, hc⟩
      obtain ⟨i, hi, ht, -⟩ := (hC.tabled.tried c n).mp hc
      obtain ⟨raw, hraw, rfl⟩ := exists_find?_of_infosOf hi
      exact ⟨raw, hraw, ht⟩
  have hTried := checkTriedCells_eq E hC.tabled _ (nodup_cells triedBucketCount)
  rw [← hset] at hTried
  -- the counts are those of the cells of the new table holding each id
  obtain ⟨M, hNew, hM⟩ := checkNewCells_eq E hC.tabled (cells newBucketCount) R.2 (by
    intro x
    rw [hR, find?_collectEntry_snd, countP_eq_card_filter (nodup_cells _) mem_cells]
    have hrefs : (Finset.univ.filter fun c => decide (st.vvNew c = some x) = true).card =
        newRefs st.vvNew x := by simp [newRefs]
    rw [hrefs]
    cases hx : st.mapInfo.find? x with
    | none =>
      have h0 : newRefs st.vvNew x = 0 := newRefs_eq_zero_iff.mpr fun c hc => by
        obtain ⟨i, hi, -⟩ := hC.tabled.new c x hc
        simp [infosOf, hx] at hi
      simp only [Option.bind_none, h0, if_true]
    | some i =>
      have hi := infosOf_of_find? hx
      have hrc := hC.tabled.refCount x _ hi
      cases ht : i.fInTried
      · have hpos := (hC.entryOk x _ hi).refCount_pos (by simpa using ht)
        simp only [CAddrInfo.unpos_nRefCount, CAddrInfo.unpos_fInTried, ht] at hrc hpos
        simp only [Bool.false_eq_true, if_false] at hrc
        have h0 : newRefs st.vvNew x ≠ 0 := by omega
        simp only [Option.bind_some, ht, Bool.false_eq_true, if_false, h0, hrc]
      · have h0 : newRefs st.vvNew x = 0 := hC.tabled.newRefs_eq_zero hi (Or.inl (by simpa using ht))
        simp only [Option.bind_some, ht, if_true, h0])
  have hMsize : M.size = 0 := SortedMap.size_eq_zero_iff.mpr hM
  simp only [checkRun, hlen, ne_eq, not_true_eq_false, if_false, checkEntries_eq E hC, ← hR,
    Except.ok_bind, hcard, hsize, hTried, hNew, hMsize, Finset.card_empty, hC.nKey_ne]
  rfl

variable [Inhabited N] in
/-- `Check_` returns `0` on a consistent manager. -/
theorem check_eq_zero {st : CAddrMan N} (hC : st.Consistent E) : check E st = 0 := by
  simp [check, checkRun_eq_ok E hC]

variable [Inhabited N] in
/-- From a fresh manager with a nonzero key, every run of calls whose clock is
that of a running node, with at most `INT_MAX` calls of `Add_`, passes every
assertion, and `Check_` returns `0` after it. -/
theorem check_run_eq_zero {nKey : Uint256} (hkey : nKey ≠ 0) (ops : List (Op N))
    (hops : ∀ op ∈ ops, op.TimesOk) (hadds : ops.countP Op.isAdd ≤ intMax) :
    ∃ st, run E (init nKey) ops = .ok st ∧ check E st = 0 := by
  have hids : (init nKey : CAddrMan N).nIdCount + ops.countP Op.isAdd ≤ intMax := by
    show 0 + _ ≤ _
    omega
  obtain ⟨st, hrun, hC⟩ := run_spec E (init_consistent E hkey) hops hids
  exact ⟨st, hrun, check_eq_zero E hC⟩

end Check

/-- A network layer whose addresses are numbers, all routable and valid, with
a constant hash: every address falls in the first cell of every table. -/
def sampleEnv : NetEnv ℕ where
  getKey _ := []
  getGroup _ := []
  isRoutable _ := true
  isValid _ := true
  hash256 _ := 0

/-- The address `1` on port `8333`, seen at time `1000`. -/
def sampleAddr : CAddress ℕ := { ip := 1, port := 8333, nServices := 1, nTime := 1000 }

theorem check_run_eq_zero_sample :
    (1 : Uint256) ≠ 0 ∧
      (∀ op ∈ [Op.add sampleAddr 2 0 2000 0, .good sampleAddr.toCService true 2100 0, .select false,
        .attempt sampleAddr.toCService true 2200], op.TimesOk) ∧
      [Op.add sampleAddr 2 0 2000 0, .good sampleAddr.toCService true 2100 0, .select false,
        .attempt sampleAddr.toCService true 2200].countP Op.isAdd ≤ intMax ∧
      ∃ st, run sampleEnv (init 1) [Op.add sampleAddr 2 0 2000 0, .good sampleAddr.toCService true 2100 0,
        .select false, .attempt sampleAddr.toCService true 2200] = .ok st ∧ check sampleEnv st = 0 :=
  ⟨by decide, by decide, by decide, check_run_eq_zero sampleEnv (by decide) _ (by decide) (by decide)⟩

/-- An `Attempt_` at a negative time leaves a last try that `Check_` rejects. -/
theorem check_after_negative_attempt :
    (run sampleEnv (init 1) [Op.add sampleAddr 2 0 2000 0, .attempt sampleAddr.toCService true (-1)]).map
      (check sampleEnv) = .ok (-6) := by
  decide


end Metrix.AddrMan
