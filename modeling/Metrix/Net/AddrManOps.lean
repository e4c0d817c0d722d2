import Mathlib
import Metrix.Lib.Simulation
import Metrix.Net.AddrManIds
import Metrix.Net.AddrManInvariant

/-! The public calls of the address manager keep it consistent: `Good_` and
`ResolveCollisions_` at a positive time, `Attempt_` at a time that is not
negative, and `Add_`, `Connected_`, `SetServices_`, `Select_` and `GetAddr_`
always, as long as the id counter has room for the entry `Add_` may create.
Every run of such calls from a fresh manager with at most `INT_MAX` calls of
`Add_` therefore ends in a consistent one, with every assertion on the way
passing. -/

namespace Metrix.AddrMan

open Function CAddrMan

section Entries

variable {N : Type}

/-- The checks of an entry read its flag, its reference count and its two times. -/
theorem EntryOk.congr {i j : CAddrInfo N} (h : EntryOk i) (hf : j.fInTried = i.fInTried)
    (hr : j.nRefCount = i.nRefCount) (hs : j.nLastSuccess = i.nLastSuccess) (ht : 0 ≤ j.nLastTry) :
    EntryOk j :=
  ⟨fun hj => hr ▸ h.refCount_pos (hf ▸ hj), hr ▸ h.refCount_le,
    fun hj => hs ▸ h.lastSuccess_ne (hf ▸ hj), ht, hs ▸ h.lastSuccess_nonneg⟩

/-- An entry whose checks pass with one reference more passes them with at least one. -/
theorem EntryOk.of_incRef {i : CAddrInfo N} (h : EntryOk { i with nRefCount := i.nRefCount + 1 })
    (hpos : 0 < i.nRefCount) : EntryOk i :=
  ⟨fun _ => hpos, by have := h.refCount_le; simp only at this; omega, h.lastSuccess_ne,
    h.lastTry_nonneg, h.lastSuccess_nonneg⟩

/-- A new entry below the limit of references passes its checks with one more. -/
theorem EntryOk.incRef {i : CAddrInfo N} (h : EntryOk i) (hnt : i.fInTried = false)
    (hlt : i.nRefCount ≠ newBucketsPerAddress) : EntryOk { i with nRefCount := i.nRefCount + 1 } := by
  have hpos := h.refCount_pos hnt
  have hle := h.refCount_le
  refine ⟨fun _ => by simp only; omega, by simp only; omega, fun htried => absurd htried (by simp [hnt]),
    h.lastTry_nonneg, h.lastSuccess_nonneg⟩

variable {E : NetEnv N} {nKey : Uint256} {ent : ℕ → Option (CAddrInfo N)}
  {vT : Fin triedBucketCount × Fin bucketSize → Option ℕ}
  {vN : Fin newBucketCount × Fin bucketSize → Option ℕ}

/-- A fresh entry, new and with no references, is in no cell of either table. -/
theorem Tables.insert (h : Tables E nKey ent vT vN) {x : ℕ} {i : CAddrInfo N} (hx : ent x = none)
    (hnt : i.fInTried = false) (hrc : i.nRefCount = 0) : Tables E nKey (update ent x (some i)) vT vN := by
  have hnotT : ∀ c, vT c ≠ some x := by
    intro c hc
    obtain ⟨k, hk, -⟩ := (h.tried c x).mp hc
    rw [hx] at hk
    cases hk
  have hnotN : ∀ c, vN c ≠ some x := by
    intro c hc
    obtain ⟨k, hk, -⟩ := h.new c x hc
    rw [hx] at hk
    cases hk
  refine ⟨?_, ?_, ?_⟩
  · intro c n
    by_cases hn : n = x
    · subst hn
      simp [hnotT c, hnt]
    · rw [h.tried]
      simp [update_of_ne hn]
  · intro c n hc
    have hn : n ≠ x := fun hn => hnotN c (hn ▸ hc)
    rw [update_of_ne hn]
    exact h.new c n hc
  · intro n k hk
    by_cases hn : n = x
    · subst hn
      rw [update_self] at hk
      cases hk
      simp [hnt, hrc, newRefs_eq_zero_iff.mpr hnotN]
    · rw [update_of_ne hn] at hk
      exact h.refCount n k hk

end Entries

section Ops

variable {N : Type} [LinearOrder N] (E : NetEnv N)

theorem CAddrMan.find_eq_some {st : CAddrMan N} {a : N} {n : ℕ} {info : CAddrInfo N} :
    st.find a = some (n, info) ↔ st.mapAddr.find? a = some n ∧ st.mapInfo.find? n = some info := by
  simp only [find, Option.bind_eq_bind, Option.bind_eq_some_iff, Option.pure_def, Option.some.injEq,
    Prod.mk.injEq]
  constructor
  · rintro ⟨k, hk, i, hi, rfl, rfl⟩
    exact ⟨hk, hi⟩
  · rintro ⟨hk, hi⟩
    exact ⟨n, hk, info, hi, rfl, rfl⟩

/-- Consistency reads neither the time of the last `Good_` nor the pending collisions. -/
theorem CAddrMan.Consistent.congr {st : CAddrMan N} (hC : st.Consistent E) (t : ℤ) (s : Finset ℕ) :
    ({ st with nLastGood := t, mTriedCollisions := s } : CAddrMan N).Consistent E :=
  ⟨hC.indexed, hC.tabled, hC.triedGap_eq, hC.newGap_eq, hC.entryOk, hC.nKey_ne⟩

/-- New entries that the indexes and the tables read as the old ones, each
passing its own checks, keep the manager consistent. -/
theorem CAddrMan.Consistent.setMapInfo {st : CAddrMan N} (hC : st.Consistent E) {m : SortedMap ℕ (CAddrInfo N)}
    (hpos : ∀ n, (m.find? n).map ipPos = (st.mapInfo.find? n).map ipPos)
    (hview : ∀ n, (m.find? n).map tableView = (st.mapInfo.find? n).map tableView)
    (hok : ∀ n i, infosOf m n = some i → EntryOk i) :
    ({ st with mapInfo := m } : CAddrMan N).Consistent E := by
  -- the tables, the flags and the counts read an entry only through its view
  have hview' : ∀ n, (infosOf m n).map tableView = (infosOf st.mapInfo n).map tableView := by
    intro n
    simp only [infosOf, Option.map_map]
    exact hview n
  have hflag : ∀ (g : Bool → Bool) n,
      (m.find? n).map (fun i => g i.fInTried) = (st.mapInfo.find? n).map (fun i => g i.fInTried) := by
    intro g n
    have := congrArg (Option.map fun v : CService N × Bool × ℤ => g v.2.1) (hview n)
    simpa only [Option.map_map, Function.comp_def, tableView] using this
  have htried : m.countBy (·.fInTried) = st.mapInfo.countBy (·.fInTried) :=
    SortedMap.countBy_congr (hflag id)
  have hnew : m.countBy (fun i => !i.fInTried) = st.mapInfo.countBy (fun i => !i.fInTried) :=
    SortedMap.countBy_congr (hflag not)
  refine ⟨hC.indexed.congr hpos, hC.tabled.congr hview', ?_, ?_, hok, hC.nKey_ne⟩
  · have := hC.triedGap_eq
    simp only [triedGap] at this ⊢
    rw [htried]
    exact this
  · have := hC.newGap_eq
    simp only [newGap] at this ⊢
    rw [hnew]
    exact this

/-- A write to one entry that keeps its address, position, flag and reference
count, and leaves it passing its checks, keeps the manager consistent. -/
theorem CAddrMan.Consistent.modify {st : CAddrMan N} (hC : st.Consistent E) {nId : ℕ} {info : CAddrInfo N}
    (hx : st.mapInfo.find? nId = some info) {f : CAddrInfo N → CAddrInfo N}
    (hpos : ipPos (f info) = ipPos info) (hview : tableView (f info) = tableView info)
    (hok : EntryOk (f info).unpos) : (st.modifyInfo nId f).Consistent E := by
  have hfind : (st.mapInfo.modify nId f).find? = update st.mapInfo.find? nId (some (f info)) := by
    rw [SortedMap.find?_modify_eq_update, hx]
    rfl
  apply hC.setMapInfo E
  · intro n
    rw [hfind, update_apply]
    split_ifs with hn
    · rw [hn, hx]
      simp [hpos]
    · rfl
  · intro n
    rw [hfind, update_apply]
    split_ifs with hn
    · rw [hn, hx]
      simp [hview]
    · rfl
  · intro n i hi
    unfold infosOf at hi
    rw [hfind, update_apply] at hi
    split_ifs at hi with hn
    · cases hi
      exact hok
    · exact hC.entryOk n i hi

/-- `Good_` at a positive time keeps the manager consistent: the entry of the
address, if it is the same service, is marked as connected, and a new one
moves to its tried cell or is queued as a collision. -/
theorem good_spec {st : CAddrMan N} (hC : st.Consistent E) (addr : CService N)
    (testBeforeEvict : Bool) {nTime : ℤ} (hTime : 0 < nTime) (nRnd : ℕ) :
    ∃ st', st.good E addr testBeforeEvict nTime nRnd = .ok st' ∧ st'.Consistent E := by
  have hC0 : ({ st with nLastGood := nTime } : CAddrMan N).Consistent E :=
    hC.congr E nTime st.mTriedCollisions
  have hfind : ({ st with nLastGood := nTime } : CAddrMan N).find addr.ip = st.find addr.ip := rfl
  cases hf : st.find addr.ip with
  | none =>
    refine ⟨_, ?_, hC0⟩
    simp only [good, hfind, hf]
  | some p =>
    obtain ⟨nId, info⟩ := p
    obtain ⟨-, hx⟩ := find_eq_some.mp hf
    by_cases haddr : info.toCService = addr
    swap
    · refine ⟨_, ?_, hC0⟩
      simp only [good, hfind, hf, ne_eq, haddr, not_false_eq_true, if_true]
    subst haddr
    -- the entry records the connection
    set info' : CAddrInfo N := { info with nLastSuccess := nTime, nLastTry := nTime, nAttempts := 0 }
      with hinfo'
    have hok : EntryOk info.unpos := hC.entryOk nId _ (infosOf_of_find? hx)
    have hC2 : (({ st with nLastGood := nTime } : CAddrMan N).modifyInfo nId fun _ => info').Consistent E :=
      hC0.modify E hx rfl rfl
        ⟨hok.refCount_pos, hok.refCount_le, fun _ => hTime.ne', hTime.le, hTime.le⟩
    have hx2 : (st.mapInfo.modify nId fun _ => info').find? nId = some info' := by simp [hx]
    cases htried : info.fInTried
    · cases hb : findNewBucket E st.nKey info.toCService nId st.vvNew nRnd with
      | none =>
        refine ⟨_, ?_, hC2⟩
        simp only [good, hfind, hf, ne_eq, not_true_eq_false, if_false, htried, Bool.false_eq_true,
          modifyInfo, hb, hinfo']
      | some b =>
        by_cases hcol : testBeforeEvict = true ∧ st.vvTried (triedCell E st.nKey info.toCService) ≠ none
        · -- the tried cell is taken: the entry waits as a collision
          refine ⟨if st.mTriedCollisions.card < setTriedCollisionSize then
              { (({ st with nLastGood := nTime } : CAddrMan N).modifyInfo nId fun _ => info') with
                mTriedCollisions := insert nId st.mTriedCollisions }
            else ({ st with nLastGood := nTime } : CAddrMan N).modifyInfo nId fun _ => info', ?_, ?_⟩
          · simp only [good, hfind, hf, ne_eq, not_true_eq_false, if_false, htried, Bool.false_eq_true,
              modifyInfo, hb, hcol, hinfo']
            rfl
          · split_ifs
            · exact hC2.congr E nTime _
            · exact hC2
        · obtain ⟨st', hmk, hC'⟩ := makeTried_spec E hC2 hx2 htried hTime.ne'
          refine ⟨st', ?_, hC'⟩
          rw [← hmk]
          simp only [good, hfind, hf, ne_eq, not_true_eq_false, if_false, htried, Bool.false_eq_true,
            modifyInfo, hb, hcol, hinfo']
    · refine ⟨_, ?_, hC2⟩
      simp only [good, hfind, hf, ne_eq, not_true_eq_false, if_false, htried, if_true, modifyInfo, hinfo']

/-- `SwapRandom` moves entries in `vRandom` and nothing else, so indexes that
still agree keep the manager consistent. -/
theorem CAddrMan.Consistent.reindex {st : CAddrMan N} (hC : st.Consistent E)
    {m : SortedMap ℕ (CAddrInfo N)} {v : List ℕ} (hI : Indexes m.find? v st.mapAddr.find? st.nIdCount)
    (hinf : infosOf m = infosOf st.mapInfo) :
    ({ st with mapInfo := m, vRandom := v } : CAddrMan N).Consistent E := by
  refine ⟨hI, ?_, ?_, ?_, ?_, hC.nKey_ne⟩
  · show Tables E st.nKey (infosOf m) st.vvTried st.vvNew
    rw [hinf]
    exact hC.tabled
  · have := hC.triedGap_eq
    simp only [triedGap] at this ⊢
    rw [countBy_eq_of_infosOf hinf (fun _ => rfl)]
    exact this
  · have := hC.newGap_eq
    simp only [newGap] at this ⊢
    rw [countBy_eq_of_infosOf hinf (fun _ => rfl)]
    exact this
  · intro n i hi
    change infosOf m n = some i at hi
    rw [hinf] at hi
    exact hC.entryOk n i hi

/-- `Attempt_` at a time that is not negative keeps the manager consistent. -/
theorem attempt_spec {st : CAddrMan N} (hC : st.Consistent E) (addr : CService N)
    (fCountFailure : Bool) {nTime : ℤ} (hTime : 0 ≤ nTime) :
    (st.attempt addr fCountFailure nTime).Consistent E := by
  cases hf : st.find addr.ip with
  | none => simpa only [attempt, hf] using hC
  | some p =>
    obtain ⟨nId, info⟩ := p
    obtain ⟨-, hx⟩ := find_eq_some.mp hf
    by_cases haddr : info.toCService = addr
    · have hok : EntryOk info.unpos := hC.entryOk nId _ (infosOf_of_find? hx)
      simp only [attempt, hf, haddr, ne_eq, not_true_eq_false, if_false]
      -- the write touches the times and the attempt count only
      apply hC.modify E hx <;> split_ifs
      all_goals first
        | rfl
        | exact hok.congr rfl rfl rfl hTime
    · simpa only [attempt, hf, haddr, ne_eq, not_false_eq_true, if_true] using hC

/-- `Connected_` keeps the manager consistent. -/
theorem connected_spec {st : CAddrMan N} (hC : st.Consistent E) (addr : CService N) (nTime : ℤ) :
    (st.connected addr nTime).Consistent E := by
  cases hf : st.find addr.ip with
  | none => simpa only [connected, hf] using hC
  | some p =>
    obtain ⟨nId, info⟩ := p
    obtain ⟨-, hx⟩ := find_eq_some.mp hf
    have hok : EntryOk info.unpos := hC.entryOk nId _ (infosOf_of_find? hx)
    unfold connected
    simp only [hf]
    split_ifs
    · exact hC
    · exact hC.modify E hx rfl rfl (hok.congr rfl rfl rfl hok.lastTry_nonneg)
    · exact hC

/-- `SetServices_` keeps the manager consistent. -/
theorem setServices_spec {st : CAddrMan N} (hC : st.Consistent E) (addr : CService N)
    (nServices : UInt64) : (st.setServices addr nServices).Consistent E := by
  cases hf : st.find addr.ip with
  | none => simpa only [setServices, hf] using hC
  | some p =>
    obtain ⟨nId, info⟩ := p
    obtain ⟨-, hx⟩ := find_eq_some.mp hf
    have hok : EntryOk info.unpos := hC.entryOk nId _ (infosOf_of_find? hx)
    unfold setServices
    simp only [hf]
    split_ifs
    · exact hC
    · exact hC.modify E hx rfl rfl (hok.congr rfl rfl rfl hok.lastTry_nonneg)

/-- The loop of `GetAddr_` over positions inside `vRandom` passes its
assertions and keeps the manager consistent, with `vRandom` as long as before. -/
theorem getAddrLoop_spec (nNow : ℤ) (rnd : ℕ → ℕ) (nNodes : ℕ) (ns : List ℕ) :
    ∀ (vAddr : List (CAddress N)) (st : CAddrMan N), st.Consistent E →
      (∀ n ∈ ns, n < st.vRandom.length) →
      ∃ vAddr' st', getAddrLoop nNow rnd nNodes ns (vAddr, st) = .ok (vAddr', st') ∧
        st'.Consistent E ∧ st'.vRandom.length = st.vRandom.length := by
  induction ns with
  | nil => exact fun vAddr st hC _ => ⟨vAddr, st, rfl, hC, rfl⟩
  | cons n ns ih =>
    intro vAddr st hC hlt
    by_cases hfull : vAddr.length ≥ nNodes
    · exact ⟨vAddr, st, by simp only [getAddrLoop, hfull, if_true], hC, rfl⟩
    have hn : n < st.vRandom.length := hlt n List.mem_cons_self
    have hq : rnd n % (st.vRandom.length - n) + n < st.vRandom.length := by
      have := Nat.mod_lt (rnd n) (Nat.sub_pos_of_lt hn)
      omega
    obtain ⟨m, v, hswap, hIv, hinf, hlen, -⟩ := swapRandom_spec hC.indexed hn hq
    have hC1 := hC.reindex E hIv hinf
    -- the entry swapped to position `n` exists
    obtain ⟨ai, hai, -⟩ := hIv.atPos n _ (getElem?_eq_some_getD (hlen ▸ hn))
    obtain ⟨vAddr', st', hloop, hC', hlen'⟩ := ih _ _ hC1 (fun k hk => hlen ▸ hlt k (List.mem_cons_of_mem n hk))
    refine ⟨vAddr', st', ?_, hC', hlen'.trans hlen⟩
    simp only [getAddrLoop, hfull, if_false, hswap, bind, Except.bind, hai]
    exact hloop

/-- `GetAddr_` passes its assertions and keeps the manager consistent. -/
theorem getAddr_spec {st : CAddrMan N} (hC : st.Consistent E) (nNow : ℤ) (rnd : ℕ → ℕ) :
    ∃ vAddr st', st.getAddr nNow rnd = .ok (vAddr, st') ∧ st'.Consistent E := by
  obtain ⟨vAddr, st', hloop, hC', -⟩ :=
    getAddrLoop_spec E nNow rnd _ (List.range st.vRandom.length) [] st hC (fun n hn => List.mem_range.mp hn)
  exact ⟨vAddr, st', hloop, hC'⟩
variable [Inhabited N] in
/-- One iteration of `ResolveCollisions_` at a positive time keeps the manager consistent. -/
theorem resolveCollision_spec {st : CAddrMan N} (hC : st.Consistent E) {nNow : ℤ} (hNow : 0 < nNow)
    (nRnd idNew : ℕ) : ∃ st', st.resolveCollision E nNow nRnd idNew = .ok st' ∧ st'.Consistent E := by
  cases hnew : st.mapInfo.find? idNew with
  | none =>
    refine ⟨_, ?_, hC.congr E st.nLastGood (st.mTriedCollisions.erase idNew)⟩
    simp only [resolveCollision, hnew]
    rfl
  | some infoNew =>
    obtain ⟨st1, hg, hC1⟩ := good_spec E hC infoNew.toCService false hNow nRnd
    by_cases hvalid : E.isValid infoNew.ip = true
    swap
    · refine ⟨_, ?_, hC.congr E st.nLastGood (st.mTriedCollisions.erase idNew)⟩
      simp only [resolveCollision, hnew, hvalid, Bool.false_eq_true, not_false_eq_true, if_true, bind,
        Except.bind, pure, Except.pure]
    cases hcell : st.vvTried (triedCell E st.nKey infoNew.toCService) with
    | none =>
      refine ⟨_, ?_, hC1.congr E st1.nLastGood (st1.mTriedCollisions.erase idNew)⟩
      simp only [resolveCollision, hnew, hvalid, hcell, hg, not_true_eq_false, if_false, bind,
        Except.bind, pure, Except.pure, if_true]
    | some idOld =>
      obtain ⟨i, hi, -, -⟩ := (hC.tabled.tried _ idOld).mp hcell
      obtain ⟨infoOld, hold, -⟩ := exists_find?_of_infosOf hi
      have hget := SortedMap.getOrInsert_of_find?_eq_some CAddrInfo.empty hold
      simp only [resolveCollision, hnew, hvalid, hcell, hget, not_true_eq_false, if_false, hg,
        bind, Except.bind, pure, Except.pure, if_true]
      -- every branch keeps the manager, or runs `Good_` on it
      split_ifs
      all_goals first
        | exact ⟨_, rfl, hC.congr E _ _⟩
        | exact ⟨_, rfl, hC1.congr E _ _⟩

namespace CAddrMan

/-- Consistent but for the entry `nId`, which may be in no new cell yet: the
state of `Add_` between `Create` and the insertion into a new bucket. -/
structure ConsistentBut (st : CAddrMan N) (nId : ℕ) : Prop where
  indexed : st.Indexed
  tabled : st.Tabled E
  triedGap_eq : st.triedGap = 0
  newGap_eq : st.newGap = 0
  entriesOk : EntriesOk st.mapInfo (· = nId)
  nKey_ne : st.nKey ≠ 0

end CAddrMan

theorem CAddrMan.Consistent.consistentBut {st : CAddrMan N} (hC : st.Consistent E) (nId : ℕ) :
    st.ConsistentBut E nId :=
  ⟨hC.indexed, hC.tabled, hC.triedGap_eq, hC.newGap_eq, fun n i hi _ => hC.entryOk n i hi, hC.nKey_ne⟩

theorem CAddrMan.ConsistentBut.consistent {st : CAddrMan N} {nId : ℕ} (h : st.ConsistentBut E nId)
    (hok : ∀ i, infosOf st.mapInfo nId = some i → EntryOk i) : st.Consistent E := by
  refine ⟨h.indexed, h.tabled, h.triedGap_eq, h.newGap_eq, ?_, h.nKey_ne⟩
  intro n i hi
  by_cases hn : n = nId
  · subst hn
    exact hok i hi
  · exact h.entriesOk n i hi hn

/-- `Delete` of the entry a manager is consistent but for, new and in no cell,
leaves it consistent. -/
theorem CAddrMan.ConsistentBut.delete {st : CAddrMan N} {nId : ℕ} (h : st.ConsistentBut E nId)
    {info : CAddrInfo N} (hx : st.mapInfo.find? nId = some info) (hnt : info.fInTried = false)
    (hrc : info.nRefCount = 0) : ∃ st', st.delete nId = .ok st' ∧ st'.Consistent E := by
  obtain ⟨m, v, hdel, hIm, hinfm⟩ := delete_spec h.indexed hx hnt hrc
  have hinfm' : infosOf m = infosOf (st.mapInfo.erase nId) := by rw [hinfm, infosOf_erase]
  have hcount : ∀ g : CAddrInfo N → Bool, (∀ i, g i.unpos = g i) →
      m.countBy g + (if g info then 1 else 0) = st.mapInfo.countBy g := by
    intro g hg
    rw [countBy_eq_of_infosOf hinfm' hg]
    exact SortedMap.countBy_erase_add g hx
  refine ⟨_, hdel, hIm, ?_, ?_, ?_, ?_, h.nKey_ne⟩
  · show Tables E st.nKey (infosOf m) st.vvTried st.vvNew
    rw [hinfm]
    exact h.tabled.erase (infosOf_of_find? hx) hnt hrc
  · have h1 := hcount (·.fInTried) (fun _ => rfl)
    simp only [hnt, Bool.false_eq_true, if_false, add_zero] at h1
    have h2 : st.nTried - (st.mapInfo.countBy (·.fInTried) : ℤ) = 0 := h.triedGap_eq
    show st.nTried - (m.countBy (·.fInTried) : ℤ) = 0
    omega
  · have h1 := hcount (fun i => !i.fInTried) (fun _ => rfl)
    simp only [hnt, Bool.not_false, if_true] at h1
    have h2 : st.nNew - (st.mapInfo.countBy (fun i => !i.fInTried) : ℤ) = 0 := h.newGap_eq
    show st.nNew - 1 - (m.countBy (fun i => !i.fInTried) : ℤ) = 0
    omega
  · intro n i hi
    change infosOf m n = some i at hi
    rw [hinfm] at hi
    by_cases hn : n = nId
    · subst hn
      rw [update_self] at hi
      cases hi
    · rw [update_of_ne hn] at hi
      exact h.entriesOk n i hi hn

variable [Inhabited N] in
/-- The end of `Add_` for the entry `nId`, new, consistent with the rest but
maybe in no new cell yet, and passing its checks with one reference more: it
enters the cell it is assigned for `source`, stays where it is, or is deleted
when it is in no cell; either way the manager ends consistent. -/
theorem addToNew_spec {st : CAddrMan N} {nId : ℕ} (h : st.ConsistentBut E nId) {pinfo : CAddrInfo N}
    (hx : st.mapInfo.find? nId = some pinfo) (hnt : pinfo.fInTried = false)
    (hentry : EntryOk { pinfo.unpos with nRefCount := pinfo.nRefCount + 1 })
    (source : N) (fNew : Bool) (nNow : ℤ) :
    ∃ st', st.addToNew E source nId pinfo fNew nNow = .ok (fNew, st') ∧ st'.Consistent E := by
  have hi := infosOf_of_find? hx
  have hrefs : pinfo.nRefCount = newRefs st.vvNew nId := by
    have := h.tabled.refCount nId _ hi
    simpa only [CAddrInfo.unpos_nRefCount, CAddrInfo.unpos_fInTried, hnt, Bool.false_eq_true,
      if_false] using this
  -- with a reference, the entry passes its own checks
  have hkeep : 0 < pinfo.nRefCount → st.Consistent E := fun hpos =>
    h.consistent E fun i hi' => by
      rw [hi] at hi'
      cases hi'
      exact hentry.of_incRef hpos
  set cell : Fin newBucketCount × Fin bucketSize :=
    (getNewBucket E st.nKey pinfo.toCService source,
      getBucketPosition E st.nKey true (getNewBucket E st.nKey pinfo.toCService source) pinfo.toCService)
    with hcell
  by_cases hin : st.vvNew cell = some nId
  · refine ⟨st, ?_, hkeep ?_⟩
    · simp only [hcell] at hin
      simp only [addToNew, hin, if_true]
    · have := newRefs_pos hin
      omega
  -- the insertion: the cell is cleared and takes the entry
  obtain ⟨m, v, a, k, hclear, hIB, hTB, hgapB, htriedB, hframeB, hoccB⟩ :=
    clearNew_spec E h.indexed h.tabled cell
  have hyB : infosOf m nId = some pinfo.unpos := by rw [hframeB nId hin, hi]
  set inc : CAddrInfo N → CAddrInfo N := fun i => { i with nRefCount := i.nRefCount + 1 } with hinc
  have hinf : infosOf (m.modify nId inc) = update (infosOf m) nId (some (inc pinfo.unpos)) := by
    rw [infosOf_modify _ _ (f := inc) (fun _ => rfl), hyB]
    rfl
  have hcountB : ∀ g : CAddrInfo N → Bool, (∀ i, g (inc i) = g i) →
      (m.modify nId inc).countBy g = m.countBy g :=
    fun g hg => SortedMap.countBy_modify_of_forall nId hg
  set stB : CAddrMan N := { st with
    mapInfo := m, vRandom := v, mapAddr := a, nNew := k, vvNew := update st.vvNew cell none } with hstB
  have hins : ({ stB.modifyInfo nId inc with
      vvNew := update stB.vvNew cell (some nId) } : CAddrMan N).Consistent E := by
    refine ⟨hIB.modify nId (fun _ => rfl), ?_, ?_, ?_, ?_, h.nKey_ne⟩
    · show Tables E st.nKey (infosOf (m.modify nId inc)) st.vvTried
        (update (update st.vvNew cell none) cell (some nId))
      rw [hinf]
      exact hTB.fill (update_self ..) hyB hnt rfl
    · have h2 : st.nTried - (st.mapInfo.countBy (·.fInTried) : ℤ) = 0 := h.triedGap_eq
      show st.nTried - ((m.modify nId inc).countBy (·.fInTried) : ℤ) = 0
      rw [hcountB _ (fun _ => rfl), htriedB]
      exact h2
    · have h2 : st.nNew - (st.mapInfo.countBy (fun i => !i.fInTried) : ℤ) = 0 := h.newGap_eq
      show k - ((m.modify nId inc).countBy (fun i => !i.fInTried) : ℤ) = 0
      rw [hcountB _ (fun _ => rfl)]
      omega
    · intro n i hi'
      change infosOf (m.modify nId inc) n = some i at hi'
      rw [hinf] at hi'
      by_cases hn : n = nId
      · subst hn
        rw [update_self] at hi'
        cases hi'
        exact hentry
      · rw [update_of_ne hn] at hi'
        exact (h.entriesOk.of_frame _ hframeB hoccB) n i hi' hn
  simp only [hcell] at hin hclear hins
  cases hc : st.vvNew cell with
  | none =>
    simp only [hcell] at hc
    refine ⟨_, ?_, hins⟩
    simp only [addToNew, hc, reduceCtorEq, if_false, if_true, hclear, bind, Except.bind, pure,
      Except.pure]
    rfl
  | some e =>
    obtain ⟨ie, hie, -, -⟩ := h.tabled.new cell e hc
    obtain ⟨infoE, hE, -⟩ := exists_find?_of_infosOf hie
    have hget := SortedMap.getOrInsert_of_find?_eq_some CAddrInfo.empty hE
    simp only [hcell] at hc
    have he : (some e = some nId) = False := by
      rw [← hc]
      exact eq_false hin
    by_cases hreplace : (infoE.isTerrible nNow || (decide (infoE.nRefCount > 1) && pinfo.nRefCount == 0)) = true
    · -- a terrible or multiply referenced occupant makes way
      refine ⟨_, ?_, hins⟩
      simp only [addToNew, hc, he, if_false, hget, hreplace, if_true, hclear, bind, Except.bind,
        pure, Except.pure]
      rfl
    by_cases hz : pinfo.nRefCount = 0
    · -- the entry is in no cell and goes
      obtain ⟨st', hdel, hC'⟩ := h.delete E hx hnt hz
      refine ⟨st', ?_, hC'⟩
      rw [hz] at hreplace
      simp only [addToNew, hc, he, if_false, hget, hreplace, Bool.false_eq_true, hz, if_true, hdel,
        bind, Except.bind, pure, Except.pure]
    · -- the entry keeps the cells it has
      refine ⟨st, ?_, hkeep (by omega)⟩
      simp only [addToNew, hc, he, if_false, hget, hreplace, Bool.false_eq_true, hz]

/-- `Create` of an address with no entry, followed by a write to the fresh
entry that keeps what consistency reads and by the count of it in `nNew`,
leaves the manager consistent but for that entry, which is in no cell. -/
theorem create_consistentBut {st : CAddrMan N} (hC : st.Consistent E) {addr : CAddress N} {source : N}
    (hfree : st.find addr.ip = none) {nId : ℕ} {st1 : CAddrMan N}
    (hcreate : st.create addr source = .ok (nId, st1)) {f : CAddrInfo N → CAddrInfo N}
    (hpos : ∀ i, ipPos (f i) = ipPos i) (hview : ∀ i, tableView (f i) = tableView i) :
    ({ st1.modifyInfo nId f with nNew := st1.nNew + 1 } : CAddrMan N).ConsistentBut E nId := by
  simp only [create] at hcreate
  split at hcreate
  swap
  · cases hcreate
  cases hcreate
  set info0 : CAddrInfo N := { toCAddress := addr, source := source, nRandomPos := st.vRandom.length }
    with hinfo0
  have haddr : st.mapAddr.find? addr.ip = none := by
    cases h : st.mapAddr.find? addr.ip with
    | none => rfl
    | some n =>
      obtain ⟨i, hi, -⟩ := (hC.indexed.addrOf_eq addr.ip n).mp h
      have := find_eq_some.mpr ⟨h, hi⟩
      rw [hfree] at this
      cases this
  have hfresh : st.mapInfo.find? st.nIdCount = none := by
    cases h : st.mapInfo.find? st.nIdCount with
    | none => rfl
    | some i => exact absurd (hC.indexed.lt_nIdCount _ i h) (Nat.lt_irrefl _)
  have hfind : ((st.mapInfo.insert st.nIdCount info0).modify st.nIdCount f).find? =
      update st.mapInfo.find? st.nIdCount (some (f info0)) := by
    rw [SortedMap.find?_modify_eq_update, SortedMap.find?_insert_eq_update, update_self, update_idem]
    rfl
  have hinf : infosOf ((st.mapInfo.insert st.nIdCount info0).modify st.nIdCount f) =
      update (infosOf st.mapInfo) st.nIdCount (some (f info0).unpos) := by
    funext n
    simp only [infosOf, hfind, update_apply]
    split_ifs <;> rfl
  have hflag : ∀ i, (f i).fInTried = i.fInTried := fun i => congrArg (·.2.1) (hview i)
  have hcount : ∀ g : Bool → Bool,
      ((st.mapInfo.insert st.nIdCount info0).modify st.nIdCount f).countBy (fun i => g i.fInTried) =
        st.mapInfo.countBy (fun i => g i.fInTried) + if g false then 1 else 0 := by
    intro g
    rw [SortedMap.countBy_modify_of_forall _ (fun i => by rw [hflag]),
      SortedMap.countBy_insert_of_find?_eq_none _ _ hfresh]
  refine ⟨?_, ?_, ?_, ?_, ?_, hC.nKey_ne⟩
  · -- the fresh id joins the end of `vRandom` and the index of addresses
    have hip : (f info0).ip = addr.ip := congrArg Prod.fst (hpos info0)
    have h := hC.indexed.create (f info0) (congrArg Prod.snd (hpos info0)) (by rw [hip]; exact haddr)
    rw [hip] at h
    show Indexes ((st.mapInfo.insert st.nIdCount info0).modify st.nIdCount f).find?
      (st.vRandom ++ [st.nIdCount]) (st.mapAddr.insert addr.ip st.nIdCount).find? (st.nIdCount + 1)
    rw [hfind, SortedMap.find?_insert_eq_update]
    exact h
  · show Tables E st.nKey (infosOf ((st.mapInfo.insert st.nIdCount info0).modify st.nIdCount f))
      st.vvTried st.vvNew
    rw [hinf]
    exact hC.tabled.insert (by simp [infosOf, hfresh]) (hflag info0) (congrArg (·.2.2) (hview info0))
  · have h1 := hcount id
    simp only [id, Bool.false_eq_true, if_false, add_zero] at h1
    have h2 : st.nTried - (st.mapInfo.countBy (·.fInTried) : ℤ) = 0 := hC.triedGap_eq
    show st.nTried - (((st.mapInfo.insert st.nIdCount info0).modify st.nIdCount f).countBy
      (·.fInTried) : ℤ) = 0
    rw [h1]
    exact h2
  · have h1 := hcount not
    simp only [Bool.not_false, if_true] at h1
    have h2 : st.nNew - (st.mapInfo.countBy (fun i => !i.fInTried) : ℤ) = 0 := hC.newGap_eq
    show st.nNew + 1 - (((st.mapInfo.insert st.nIdCount info0).modify st.nIdCount f).countBy
      (fun i => !i.fInTried) : ℤ) = 0
    rw [h1]
    push_cast
    omega
  · intro n i hi hn
    change infosOf ((st.mapInfo.insert st.nIdCount info0).modify st.nIdCount f) n = some i at hi
    rw [hinf, update_of_ne hn] at hi
    exact hC.entryOk n i hi

variable [Inhabited N] in
/-- `Add_` keeps the manager consistent: the entry of a known address is
refreshed and may gain a new cell; an unknown routable address gets an entry
that enters its new cell, or goes again. -/
theorem add_spec {st : CAddrMan N} (hC : st.Consistent E) (hid : st.nIdCount < intMax)
    (addr : CAddress N) (source : N) (nTimePenalty nNow : ℤ) (rnd : ℕ) :
    ∃ fNew st', st.add E addr source nTimePenalty nNow rnd = .ok (fNew, st') ∧ st'.Consistent E := by
  by_cases hroute : E.isRoutable addr.ip = true
  swap
  · exact ⟨false, st, by simp [add, hroute], hC⟩
  cases hf : st.find addr.ip with
  | some p =>
    obtain ⟨nId, pinfo⟩ := p
    obtain ⟨-, hx⟩ := find_eq_some.mp hf
    have hok : EntryOk pinfo.unpos := hC.entryOk nId _ (infosOf_of_find? hx)
    simp only [add, hroute, not_true_eq_false, if_false, hf]
    generalize (if addr.ip = source then (0 : ℤ) else nTimePenalty) = pen
    generalize (if nNow - (addr.nTime.toNat : ℤ) < 24 * 60 * 60 then (60 * 60 : ℤ) else 24 * 60 * 60) =
      nUpdateInterval
    -- the refresh changes the time and the services only
    obtain ⟨t, ht⟩ : ∃ t, (if addr.nTime ≠ 0 ∧ (pinfo.nTime = 0 ∨
        (pinfo.nTime.toNat : ℤ) < addr.nTime.toNat - nUpdateInterval - pen) then
        { pinfo with nTime := truncTime (max 0 (addr.nTime.toNat - pen)) } else pinfo) =
        { pinfo with nTime := t } := by
      split_ifs
      exacts [⟨_, rfl⟩, ⟨pinfo.nTime, rfl⟩]
    rw [ht]
    set p : CAddrInfo N := { pinfo with nTime := t, nServices := pinfo.nServices ||| addr.nServices }
      with hp
    have hokp : EntryOk p.unpos := hok.congr rfl rfl rfl hok.lastTry_nonneg
    have hCp : (st.modifyInfo nId fun _ => p).Consistent E := hC.modify E hx rfl rfl hokp
    split_ifs with hold htried hlimit hdraw
    · exact ⟨false, _, rfl, hCp⟩
    · exact ⟨false, _, rfl, hCp⟩
    · exact ⟨false, _, rfl, hCp⟩
    · exact ⟨false, _, rfl, hCp⟩
    · have hnt : p.fInTried = false := by simpa using htried
      exact ⟨false, addToNew_spec E (hCp.consistentBut E nId) (by simp [hx]) hnt (hokp.incRef hnt hlimit)
        source false nNow⟩
  | none =>
    simp only [add, hroute, not_true_eq_false, if_false, hf]
    generalize (if addr.ip = source then (0 : ℤ) else nTimePenalty) = pen
    -- the counter has room for the fresh entry
    obtain ⟨st1, hcreate⟩ : ∃ st1, st.create addr source = .ok (st.nIdCount, st1) :=
      ⟨_, by simp only [create, dif_pos hid]; rfl⟩
    -- which, penalised in time, goes on to the insertion
    have hBut := create_consistentBut E hC hf hcreate
      (f := fun i => { i with nTime := truncTime (max 0 ((i.nTime.toNat : ℤ) - pen)) })
      (fun _ => rfl) (fun _ => rfl)
    simp only [create, dif_pos hid] at hcreate
    cases hcreate
    simp only [create, dif_pos hid, Except.ok_bind, modifyInfo, SortedMap.find?_modify,
      SortedMap.find?_insert_self, if_true, Option.map_some]
    exact ⟨true, addToNew_spec E hBut (by simp) rfl
      ⟨fun _ => by simp, by simp [newBucketsPerAddress], fun h => by simp at h, le_rfl, le_rfl⟩
      source true nNow⟩

variable [Inhabited N] in
/-- `ResolveCollisions_` at a positive time keeps the manager consistent. -/
theorem resolveCollisions_spec {st : CAddrMan N} (hC : st.Consistent E) {nNow : ℤ} (hNow : 0 < nNow)
    (nRnd : ℕ → ℕ) : ∃ st', st.resolveCollisions E nNow nRnd = .ok st' ∧ st'.Consistent E := by
  unfold resolveCollisions
  exact List.foldlM_except_invariant (Consistent E)
    (fun s idNew _ hs => resolveCollision_spec E hs hNow (nRnd idNew) idNew) hC

/-- The clock a call reads, as a running node has it: `Good_` and
`ResolveCollisions_` read a positive time, `Attempt_` one that is not negative. -/
def Op.TimesOk : Op N → Prop
  | .good _ _ nTime _ => 0 < nTime
  | .attempt _ _ nTime => 0 ≤ nTime
  | .resolveCollisions nNow _ => 0 < nNow
  | _ => True

instance (op : Op N) : Decidable op.TimesOk := by
  cases op <;> unfold Op.TimesOk <;> infer_instance

variable [Inhabited N] in
/-- Every call whose clock is that of a running node keeps the manager
consistent, `Add_` when the counter has room for one more id. -/
theorem step_spec {st : CAddrMan N} (hC : st.Consistent E) {op : Op N} (hop : op.TimesOk)
    (hid : op.isAdd = true → st.nIdCount < intMax) :
    ∃ st', step E st op = .ok st' ∧ st'.Consistent E := by
  cases op with
  | add addr source nTimePenalty nNow rnd =>
    obtain ⟨_, st', h, hC'⟩ := add_spec E hC (hid rfl) addr source nTimePenalty nNow rnd
    exact ⟨st', by rw [step, h]; rfl, hC'⟩
  | good addr testBeforeEvict nTime nRnd => exact good_spec E hC addr testBeforeEvict hop nRnd
  | attempt addr fCountFailure nTime => exact ⟨_, rfl, attempt_spec E hC addr fCountFailure hop⟩
  | connected addr nTime => exact ⟨_, rfl, connected_spec E hC addr nTime⟩
  | setServices addr nServices => exact ⟨_, rfl, setServices_spec E hC addr nServices⟩
  | resolveCollisions nNow nRnd => exact resolveCollisions_spec E hC hop nRnd
  | select _ => exact ⟨st, rfl, hC⟩
  | getAddr nNow rnd =>
    obtain ⟨_, st', h, hC'⟩ := getAddr_spec E hC nNow rnd
    exact ⟨st', by rw [step, h]; rfl, hC'⟩

variable [Inhabited N] in
/-- A run of calls whose clocks are those of a running node, with no more
calls of `Add_` than the counter has room for, keeps the manager consistent,
and every assertion on the way passes. -/
theorem run_spec {st : CAddrMan N} (hC : st.Consistent E) {ops : List (Op N)}
    (hops : ∀ op ∈ ops, op.TimesOk) (hids : st.nIdCount + ops.countP Op.isAdd ≤ intMax) :
    ∃ st', run E st ops = .ok st' ∧ st'.Consistent E := by
  -- each `Add_` spends one id of the room left
  refine List.foldlM_except_invariant_counted (Consistent E) (·.nIdCount) Op.isAdd intMax
    (fun s op hop hs hid => ?_) hC hids
  have hroom : op.isAdd = true → s.nIdCount < intMax := fun hadd => by
    simp only [hadd, if_true] at hid
    omega
  obtain ⟨s', h, hs'⟩ := step_spec E hs (hops op hop) hroom
  exact ⟨s', h, hs', step_nIdCount E h⟩

/-- A fresh manager with a nonzero key is consistent. -/
theorem init_consistent {nKey : Uint256} (hkey : nKey ≠ 0) : (init nKey : CAddrMan N).Consistent E := by
  refine ⟨⟨?_, ?_, ?_, ?_⟩, ⟨?_, ?_, ?_⟩, rfl, rfl, ?_, hkey⟩
  · intro n i hi
    cases hi
  · intro p n hp
    simp [init] at hp
  · intro n i hi
    cases hi
  · intro a n
    simp [init]
  · intro c n
    simp [init, infosOf]
  · intro c n hc
    cases hc
  · intro n i hi
    simp [init, infosOf] at hi
  · intro n i hi
    simp [init, infosOf] at hi

end Ops

end Metrix.AddrMan
