import Mathlib
import Metrix.Lib.UpdateAll
import Metrix.Net.AddrMan

/-! The consistency of the address manager that `CAddrMan::Check_` tests,
split by what it relates: `Indexes`, that `vRandom` and the positions the
entries record are inverse and `mapAddr` finds each entry's address, and
`Tables`, that the tried and new tables hold the entries the flags and
reference counts say, each at its own position. Both are stated over the
lookup functions of the maps, so that a write to the manager is a
`Function.update` of them. -/

namespace Metrix.AddrMan

open Function

section Indexes

variable {N : Type}

/-- `vRandom` and the entries' `nRandomPos` are inverse, the ids are below
`nIdCount`, and `addrOf` finds the id of each entry's address and nothing else. -/
structure Indexes (ent : ℕ → Option (CAddrInfo N)) (vRandom : List ℕ) (addrOf : N → Option ℕ)
    (nIdCount : ℕ) : Prop where
  lt_nIdCount : ∀ n info, ent n = some info → n < nIdCount
  atPos : ∀ p n, vRandom[p]? = some n → ∃ info, ent n = some info ∧ info.nRandomPos = p
  randomPos : ∀ n info, ent n = some info → vRandom[info.nRandomPos]? = some n
  addrOf_eq : ∀ a n, addrOf a = some n ↔ ∃ info, ent n = some info ∧ info.ip = a

variable {ent : ℕ → Option (CAddrInfo N)} {vRandom : List ℕ} {addrOf : N → Option ℕ} {nIdCount : ℕ}

theorem Indexes.nodup (h : Indexes ent vRandom addrOf nIdCount) : vRandom.Nodup := by
  rw [List.nodup_iff_getElem?_ne_getElem?]
  intro p q hpq hq heq
  obtain ⟨n, hn⟩ : ∃ n, vRandom[q]? = some n := ⟨vRandom[q], List.getElem?_eq_getElem hq⟩
  obtain ⟨i, hi, hip⟩ := h.atPos p n (heq.trans hn)
  obtain ⟨i', hi', hiq⟩ := h.atPos q n hn
  rw [hi] at hi'
  cases hi'
  omega

theorem Indexes.mem_iff (h : Indexes ent vRandom addrOf nIdCount) (n : ℕ) :
    n ∈ vRandom ↔ (ent n).isSome := by
  constructor
  · intro hn
    obtain ⟨p, hp, hpn⟩ := List.getElem_of_mem hn
    obtain ⟨info, hinfo, -⟩ := h.atPos p n (by rw [List.getElem?_eq_getElem hp, hpn])
    simp [hinfo]
  · intro hn
    obtain ⟨info, hinfo⟩ := Option.isSome_iff_exists.mp hn
    exact List.mem_of_getElem? (h.randomPos n info hinfo)

/-- An entry's position is inside `vRandom`. -/
theorem Indexes.pos_lt (h : Indexes ent vRandom addrOf nIdCount) {n : ℕ} {info : CAddrInfo N}
    (hn : ent n = some info) : info.nRandomPos < vRandom.length :=
  (List.getElem?_eq_some_iff.mp (h.randomPos n info hn)).1

/-- Two entries with one address are one entry. -/
theorem Indexes.eq_of_ip_eq (h : Indexes ent vRandom addrOf nIdCount) {n m : ℕ}
    {i j : CAddrInfo N} (hn : ent n = some i) (hm : ent m = some j) (hij : i.ip = j.ip) : n = m := by
  have h1 := (h.addrOf_eq i.ip n).mpr ⟨i, hn, rfl⟩
  have h2 := (h.addrOf_eq i.ip m).mpr ⟨j, hm, hij.symm⟩
  rw [h1] at h2
  exact Option.some_injective _ h2

/-- What `Indexes` reads of an entry. -/
def ipPos (info : CAddrInfo N) : N × ℕ := (info.ip, info.nRandomPos)

/-- `Indexes` depends on the entries only through their addresses and positions. -/
theorem Indexes.congr (h : Indexes ent vRandom addrOf nIdCount) {ent' : ℕ → Option (CAddrInfo N)}
    (hent : ∀ n, (ent' n).map ipPos = (ent n).map ipPos) : Indexes ent' vRandom addrOf nIdCount := by
  have hback : ∀ n i', ent' n = some i' → ∃ i, ent n = some i ∧ ipPos i = ipPos i' := by
    intro n i' hi'
    have := hent n
    rw [hi'] at this
    cases hn : ent n with
    | none => rw [hn] at this; cases this
    | some i => rw [hn] at this; exact ⟨i, rfl, (Option.some_injective _ this).symm⟩
  have hfwd : ∀ n i, ent n = some i → ∃ i', ent' n = some i' ∧ ipPos i = ipPos i' := by
    intro n i hi
    have := hent n
    rw [hi] at this
    cases hn : ent' n with
    | none => rw [hn] at this; cases this
    | some i' => rw [hn] at this; exact ⟨i', rfl, (Option.some_injective _ this).symm⟩
  refine ⟨?_, ?_, ?_, ?_⟩
  · intro n i' hi'
    obtain ⟨i, hi, -⟩ := hback n i' hi'
    exact h.lt_nIdCount n i hi
  · intro p n hp
    obtain ⟨i, hi, hip⟩ := h.atPos p n hp
    obtain ⟨i', hi', heq⟩ := hfwd n i hi
    exact ⟨i', hi', by rw [← hip]; exact (congrArg Prod.snd heq).symm⟩
  · intro n i' hi'
    obtain ⟨i, hi, heq⟩ := hback n i' hi'
    rw [← show i.nRandomPos = i'.nRandomPos from congrArg Prod.snd heq]
    exact h.randomPos n i hi
  · intro a n
    rw [h.addrOf_eq]
    constructor
    · rintro ⟨i, hi, hia⟩
      obtain ⟨i', hi', heq⟩ := hfwd n i hi
      exact ⟨i', hi', by rw [← hia]; exact (congrArg Prod.fst heq).symm⟩
    · rintro ⟨i', hi', hia⟩
      obtain ⟨i, hi, heq⟩ := hback n i' hi'
      exact ⟨i, hi, by rw [← hia]; exact congrArg Prod.fst heq⟩

/-- `Create`: a fresh id at the end of `vRandom`, for an address with no id. -/
theorem Indexes.create [DecidableEq N] (h : Indexes ent vRandom addrOf nIdCount) (info : CAddrInfo N)
    (hpos : info.nRandomPos = vRandom.length) (hfree : addrOf info.ip = none) :
    Indexes (update ent nIdCount (some info)) (vRandom ++ [nIdCount])
      (update addrOf info.ip (some nIdCount)) (nIdCount + 1) := by
  have hfresh : ent nIdCount = none := by
    cases hc : ent nIdCount with
    | none => rfl
    | some i => exact absurd (h.lt_nIdCount _ i hc) (Nat.lt_irrefl _)
  refine ⟨?_, ?_, ?_, ?_⟩
  · intro n i hi
    rw [update_apply] at hi
    split_ifs at hi with hn
    · omega
    · exact Nat.lt_succ_of_lt (h.lt_nIdCount n i hi)
  · intro p n hp
    rw [List.getElem?_append] at hp
    split_ifs at hp with hplt
    · obtain ⟨i, hi, hip⟩ := h.atPos p n hp
      have hne : n ≠ nIdCount := fun hn => by rw [hn, hfresh] at hi; cases hi
      exact ⟨i, by rw [update_of_ne hne, hi], hip⟩
    · have hp' : p - vRandom.length = 0 := by
        by_contra hne
        rw [List.getElem?_eq_none (by simp; omega)] at hp
        cases hp
      rw [hp'] at hp
      cases hp
      exact ⟨info, update_self .., by omega⟩
  · intro n i hi
    rw [update_apply] at hi
    split_ifs at hi with hn
    · cases hi
      subst hn
      rw [hpos, List.getElem?_append_right (Nat.le_refl _), Nat.sub_self]
      rfl
    · have hp := h.randomPos n i hi
      rw [List.getElem?_append_left (List.getElem?_eq_some_iff.mp hp).1, hp]
  · intro a n
    rw [update_apply]
    split_ifs with ha
    · subst ha
      constructor
      · rintro ⟨⟩
        exact ⟨info, update_self .., rfl⟩
      · rintro ⟨i, hi, hia⟩
        rw [update_apply] at hi
        split_ifs at hi with hn
        · rw [hn]
        · exact absurd ((h.addrOf_eq _ n).mpr ⟨i, hi, hia⟩) (by rw [hfree]; simp)
    · rw [h.addrOf_eq]
      constructor
      · rintro ⟨i, hi, hia⟩
        have hne : n ≠ nIdCount := fun hn => by rw [hn, hfresh] at hi; cases hi
        exact ⟨i, by rw [update_of_ne hne, hi], hia⟩
      · rintro ⟨i, hi, hia⟩
        rw [update_apply] at hi
        split_ifs at hi with hn
        · cases hi
          exact absurd hia.symm ha
        · exact ⟨i, hi, hia⟩

/-- `SwapRandom` of two positions inside `vRandom`: the two entries there
record each other's position. -/
theorem Indexes.swap (h : Indexes ent vRandom addrOf nIdCount) {p q : ℕ} (hp : p < vRandom.length)
    (hq : q < vRandom.length) (hpq : p ≠ q) {i j : CAddrInfo N}
    (hi : ent (vRandom.getD p 0) = some i) (hj : ent (vRandom.getD q 0) = some j) :
    Indexes (update (update ent (vRandom.getD p 0) (some { i with nRandomPos := q }))
        (vRandom.getD q 0) (some { j with nRandomPos := p }))
      ((vRandom.set p (vRandom.getD q 0)).set q (vRandom.getD p 0)) addrOf nIdCount := by
  set a := vRandom.getD p 0 with ha
  set b := vRandom.getD q 0 with hb
  have hpa : vRandom[p]? = some a := by rw [ha, List.getD_eq_getElem?_getD, List.getElem?_eq_getElem hp]; rfl
  have hqb : vRandom[q]? = some b := by rw [hb, List.getD_eq_getElem?_getD, List.getElem?_eq_getElem hq]; rfl
  have hab : a ≠ b := fun heq => hpq ((List.getElem?_inj hp h.nodup).mp (hpa.trans (heq ▸ hqb.symm)))
  have hipos : i.nRandomPos = p := by
    obtain ⟨i', hi', hpos⟩ := h.atPos p a hpa
    rw [hi] at hi'
    cases hi'
    exact hpos
  have hjpos : j.nRandomPos = q := by
    obtain ⟨j', hj', hpos⟩ := h.atPos q b hqb
    rw [hj] at hj'
    cases hj'
    exact hpos
  refine ⟨?_, ?_, ?_, ?_⟩
  · intro n k hk
    simp only [update_apply] at hk
    split_ifs at hk with h1 h2
    · subst h1; exact h.lt_nIdCount _ j hj
    · subst h2; exact h.lt_nIdCount _ i hi
    · exact h.lt_nIdCount n k hk
  · intro r n hr
    by_cases hrq : q = r
    · subst hrq
      rw [List.getElem?_set_self (by simpa using hq)] at hr
      cases hr
      exact ⟨{ i with nRandomPos := q }, by rw [update_of_ne hab, update_self], rfl⟩
    · rw [List.getElem?_set_ne hrq] at hr
      by_cases hrp : p = r
      · subst hrp
        rw [List.getElem?_set_self hp] at hr
        cases hr
        exact ⟨{ j with nRandomPos := p }, update_self .., rfl⟩
      · rw [List.getElem?_set_ne hrp] at hr
        obtain ⟨k, hk, hkr⟩ := h.atPos r n hr
        have hna : n ≠ a := by
          rintro rfl
          rw [hi] at hk
          cases hk
          exact hrp (hipos.symm.trans hkr)
        have hnb : n ≠ b := by
          rintro rfl
          rw [hj] at hk
          cases hk
          exact hrq (hjpos.symm.trans hkr)
        exact ⟨k, by rw [update_of_ne hnb, update_of_ne hna, hk], hkr⟩
  · intro n k hk
    simp only [update_apply] at hk
    split_ifs at hk with h1 h2
    · cases hk
      subst h1
      show ((vRandom.set p b).set q a)[p]? = some b
      rw [List.getElem?_set_ne (Ne.symm hpq), List.getElem?_set_self hp]
    · cases hk
      subst h2
      show ((vRandom.set p b).set q a)[q]? = some a
      rw [List.getElem?_set_self (by simpa using hq)]
    · have hr := h.randomPos n k hk
      have hrp : p ≠ k.nRandomPos := by
        rintro rfl
        exact h2 (Option.some_injective _ (hr.symm.trans hpa))
      have hrq : q ≠ k.nRandomPos := by
        rintro rfl
        exact h1 (Option.some_injective _ (hr.symm.trans hqb))
      rw [List.getElem?_set_ne hrq, List.getElem?_set_ne hrp, hr]
  · intro x n
    rw [h.addrOf_eq]
    simp only [update_apply]
    split_ifs with h1 h2
    · subst h1
      simp [hj]
    · subst h2
      simp [hi]
    · rfl

/-- `Delete` after its swap: the entry at the last position of `vRandom` and
its address leave. -/
theorem Indexes.dropLast [DecidableEq N] (h : Indexes ent vRandom addrOf nIdCount) {x : ℕ}
    {info : CAddrInfo N} (hx : ent x = some info) (hlast : info.nRandomPos = vRandom.length - 1) :
    Indexes (update ent x none) vRandom.dropLast (update addrOf info.ip none) nIdCount := by
  have hxlast : vRandom[vRandom.length - 1]? = some x := hlast ▸ h.randomPos x info hx
  refine ⟨?_, ?_, ?_, ?_⟩
  · intro n k hk
    rw [update_apply] at hk
    split_ifs at hk
    exact h.lt_nIdCount n k hk
  · intro p n hp
    rw [List.getElem?_dropLast] at hp
    split_ifs at hp with hplt
    obtain ⟨k, hk, hkp⟩ := h.atPos p n hp
    have hn : n ≠ x := by
      rintro rfl
      rw [hx] at hk
      cases hk
      omega
    exact ⟨k, by rw [update_of_ne hn, hk], hkp⟩
  · intro n k hk
    rw [update_apply] at hk
    split_ifs at hk with hn
    have hr := h.randomPos n k hk
    have hne : k.nRandomPos ≠ vRandom.length - 1 := by
      intro heq
      rw [heq, hxlast] at hr
      exact hn (Option.some_injective _ hr).symm
    rw [List.getElem?_dropLast, if_pos (by have := h.pos_lt hk; omega), hr]
  · intro a n
    rw [update_apply]
    split_ifs with ha
    · subst ha
      simp only [false_iff, not_exists, not_and]
      intro k hk hkip
      rw [update_apply] at hk
      split_ifs at hk with hn
      exact hn (h.eq_of_ip_eq hk hx hkip)
    · rw [h.addrOf_eq]
      constructor
      · rintro ⟨k, hk, hka⟩
        have hn : n ≠ x := by
          rintro rfl
          rw [hx] at hk
          cases hk
          exact ha hka.symm
        exact ⟨k, by rw [update_of_ne hn, hk], hka⟩
      · rintro ⟨k, hk, hka⟩
        rw [update_apply] at hk
        split_ifs at hk
        exact ⟨k, hk, hka⟩

end Indexes

section Tables

variable {N : Type} (E : NetEnv N) (nKey : Uint256)

/-- The number of cells of a new table holding `n`. -/
def newRefs (vvNew : Fin newBucketCount × Fin bucketSize → Option ℕ) (n : ℕ) : ℕ :=
  (Finset.univ.filter fun c => vvNew c = some n).card

/-- The tables agree with the entries `ent`: the tried cells hold exactly the
tried entries, each at its own cell; a new cell holds a new entry, at that
entry's position in the cell's bucket; a new entry is referenced once for
each new cell holding it, a tried one not at all. -/
structure Tables (ent : ℕ → Option (CAddrInfo N))
    (vvTried : Fin triedBucketCount × Fin bucketSize → Option ℕ)
    (vvNew : Fin newBucketCount × Fin bucketSize → Option ℕ) : Prop where
  tried : ∀ c n, vvTried c = some n ↔
    ∃ info, ent n = some info ∧ info.fInTried = true ∧ triedCell E nKey info.toCService = c
  new : ∀ c n, vvNew c = some n →
    ∃ info, ent n = some info ∧ info.fInTried = false ∧
      getBucketPosition E nKey true c.1 info.toCService = c.2
  refCount : ∀ n info, ent n = some info →
    info.nRefCount = if info.fInTried then 0 else (newRefs vvNew n : ℤ)

variable {E nKey} {ent : ℕ → Option (CAddrInfo N)}
  {vT : Fin triedBucketCount × Fin bucketSize → Option ℕ}
  {vN : Fin newBucketCount × Fin bucketSize → Option ℕ}

theorem newRefs_eq_zero_iff {n : ℕ} : newRefs vN n = 0 ↔ ∀ c, vN c ≠ some n := by
  simp [newRefs, Finset.card_eq_zero, Finset.filter_eq_empty_iff]

theorem newRefs_pos {c} {n : ℕ} (hc : vN c = some n) : 0 < newRefs vN n := by
  unfold newRefs
  exact Finset.card_pos.mpr ⟨c, by simp [hc]⟩

/-- One write to the new table moves the references of `n` by what the cell held and holds. -/
theorem newRefs_update (vN : Fin newBucketCount × Fin bucketSize → Option ℕ) (c) (v : Option ℕ)
    (n : ℕ) : (newRefs (update vN c v) n : ℤ) =
      newRefs vN n - (if vN c = some n then 1 else 0) + (if v = some n then 1 else 0) := by
  have h := card_filter_update vN c v (· = some n)
  simp only [newRefs] at h ⊢
  split_ifs at h ⊢ <;> omega

theorem Tables.fInTried_of_new (h : Tables E nKey ent vT vN) {c n} {info : CAddrInfo N}
    (hc : vN c = some n) (hn : ent n = some info) : info.fInTried = false := by
  obtain ⟨k, hk, hknt, -⟩ := h.new c n hc
  rw [hn] at hk
  cases hk
  exact hknt

/-- A tried entry, and a new one with no references, is in no new cell. -/
theorem Tables.newRefs_eq_zero (h : Tables E nKey ent vT vN) {n} {info : CAddrInfo N}
    (hn : ent n = some info) (hrc : info.fInTried = true ∨ info.nRefCount = 0) : newRefs vN n = 0 := by
  rw [newRefs_eq_zero_iff]
  intro c hc
  have hnt := h.fInTried_of_new hc hn
  have hpos := newRefs_pos hc
  have hrefs := h.refCount n info hn
  rw [hnt] at hrc hrefs
  simp only [Bool.false_eq_true, false_or, if_false] at hrc hrefs
  omega

/-- What `Tables` reads of an entry. -/
def tableView (info : CAddrInfo N) : CService N × Bool × ℤ :=
  (info.toCService, info.fInTried, info.nRefCount)

/-- `Tables` depends on the entries only through their addresses, flags and reference counts. -/
theorem Tables.congr (h : Tables E nKey ent vT vN) {ent' : ℕ → Option (CAddrInfo N)}
    (hent : ∀ n, (ent' n).map tableView = (ent n).map tableView) : Tables E nKey ent' vT vN := by
  have hback : ∀ n i', ent' n = some i' → ∃ i, ent n = some i ∧ tableView i = tableView i' := by
    intro n i' hi'
    have := hent n
    rw [hi'] at this
    cases hn : ent n with
    | none => rw [hn] at this; cases this
    | some i => rw [hn] at this; exact ⟨i, rfl, (Option.some_injective _ this).symm⟩
  have hfwd : ∀ n i, ent n = some i → ∃ i', ent' n = some i' ∧ tableView i = tableView i' := by
    intro n i hi
    have := hent n
    rw [hi] at this
    cases hn : ent' n with
    | none => rw [hn] at this; cases this
    | some i' => rw [hn] at this; exact ⟨i', rfl, (Option.some_injective _ this).symm⟩
  refine ⟨?_, ?_, ?_⟩
  · intro c n
    rw [h.tried]
    constructor
    · rintro ⟨i, hi, ht, hc⟩
      obtain ⟨i', hi', heq⟩ := hfwd n i hi
      simp only [tableView, Prod.mk.injEq] at heq
      exact ⟨i', hi', heq.2.1 ▸ ht, heq.1 ▸ hc⟩
    · rintro ⟨i', hi', ht, hc⟩
      obtain ⟨i, hi, heq⟩ := hback n i' hi'
      simp only [tableView, Prod.mk.injEq] at heq
      exact ⟨i, hi, heq.2.1 ▸ ht, heq.1 ▸ hc⟩
  · intro c n hc
    obtain ⟨i, hi, hnt, hpos⟩ := h.new c n hc
    obtain ⟨i', hi', heq⟩ := hfwd n i hi
    simp only [tableView, Prod.mk.injEq] at heq
    exact ⟨i', hi', heq.2.1 ▸ hnt, heq.1 ▸ hpos⟩
  · intro n i' hi'
    obtain ⟨i, hi, heq⟩ := hback n i' hi'
    simp only [tableView, Prod.mk.injEq] at heq
    rw [← heq.2.1, ← heq.2.2]
    exact h.refCount n i hi

/-- `ClearNew` of a cell holding `x`: `x` has one reference less. -/
theorem Tables.clear (h : Tables E nKey ent vT vN) {c x} {i : CAddrInfo N} (hc : vN c = some x)
    (hx : ent x = some i) :
    Tables E nKey (update ent x (some { i with nRefCount := i.nRefCount - 1 })) vT
      (update vN c none) := by
  have hnt := h.fInTried_of_new hc hx
  refine ⟨?_, ?_, ?_⟩
  · intro c' n
    rw [h.tried]
    by_cases hn : n = x
    · subst hn
      simp [hx, hnt]
    · simp [update_of_ne hn]
  · intro c' n hc'
    rw [update_apply] at hc'
    split_ifs at hc' with hcc
    obtain ⟨k, hk, hknt, hkpos⟩ := h.new c' n hc'
    by_cases hn : n = x
    · subst hn
      rw [hx] at hk
      cases hk
      exact ⟨_, update_self .., hknt, hkpos⟩
    · exact ⟨k, by rw [update_of_ne hn, hk], hknt, hkpos⟩
  · intro n k hk
    have hupd := newRefs_update vN c none n
    by_cases hn : n = x
    · subst hn
      rw [update_self] at hk
      cases hk
      have hrc := h.refCount _ _ hx
      simp only [hnt, Bool.false_eq_true, if_false, hc, reduceCtorEq, if_true] at hrc hupd ⊢
      omega
    · rw [update_of_ne hn] at hk
      have hcx : vN c ≠ some n := by rw [hc]; exact fun he => hn (Option.some_injective _ he).symm
      simp only [hcx, if_false, reduceCtorEq, sub_zero, add_zero] at hupd
      rw [h.refCount n k hk, hupd]

/-- A new entry `x` entered at an empty cell of the new table, at its position there. -/
theorem Tables.fill (h : Tables E nKey ent vT vN) {c x} {i : CAddrInfo N} (hc : vN c = none)
    (hx : ent x = some i) (hnt : i.fInTried = false)
    (hpos : getBucketPosition E nKey true c.1 i.toCService = c.2) :
    Tables E nKey (update ent x (some { i with nRefCount := i.nRefCount + 1 })) vT
      (update vN c (some x)) := by
  refine ⟨?_, ?_, ?_⟩
  · intro c' n
    rw [h.tried]
    by_cases hn : n = x
    · subst hn
      simp [hx, hnt]
    · simp [update_of_ne hn]
  · intro c' n hc'
    rw [update_apply] at hc'
    split_ifs at hc' with hcc
    · cases hc'
      subst hcc
      exact ⟨_, update_self .., hnt, hpos⟩
    · obtain ⟨k, hk, hknt, hkpos⟩ := h.new c' n hc'
      by_cases hn : n = x
      · subst hn
        rw [hx] at hk
        cases hk
        exact ⟨_, update_self .., hknt, hkpos⟩
      · exact ⟨k, by rw [update_of_ne hn, hk], hknt, hkpos⟩
  · intro n k hk
    have hupd := newRefs_update vN c (some x) n
    by_cases hn : n = x
    · subst hn
      rw [update_self] at hk
      cases hk
      have hrc := h.refCount _ _ hx
      simp only [hnt, Bool.false_eq_true, if_false, hc, reduceCtorEq, if_true] at hrc hupd ⊢
      omega
    · rw [update_of_ne hn] at hk
      have hxn : some x ≠ some n := fun he => hn (Option.some_injective _ he).symm
      simp only [hc, hxn, if_false, reduceCtorEq, sub_zero, add_zero] at hupd
      rw [h.refCount n k hk, hupd]

/-- An entry in no cell of either table leaves. -/
theorem Tables.erase (h : Tables E nKey ent vT vN) {x} {i : CAddrInfo N} (hx : ent x = some i)
    (hnt : i.fInTried = false) (hrc : i.nRefCount = 0) : Tables E nKey (update ent x none) vT vN := by
  have hfree := newRefs_eq_zero_iff.mp (h.newRefs_eq_zero hx (Or.inr hrc))
  refine ⟨?_, ?_, ?_⟩
  · intro c n
    rw [h.tried]
    by_cases hn : n = x
    · subst hn
      simp [hx, hnt]
    · simp [update_of_ne hn]
  · intro c n hc
    have hn : n ≠ x := by
      rintro rfl
      exact hfree c hc
    rw [update_of_ne hn]
    exact h.new c n hc
  · intro n k hk
    rw [update_apply] at hk
    split_ifs at hk
    exact h.refCount n k hk

/-- The tried entry `x` at `c` leaves the tried table, as a new entry with no references. -/
theorem Tables.untry (h : Tables E nKey ent vT vN) {c x} {i : CAddrInfo N} (hc : vT c = some x)
    (hx : ent x = some i) :
    Tables E nKey (update ent x (some { i with fInTried := false })) (update vT c none) vN := by
  obtain ⟨k, hk, ht, hcell⟩ := (h.tried c x).mp hc
  rw [hx] at hk
  cases hk
  have hrc := h.refCount x _ hx
  rw [ht, if_pos rfl] at hrc
  have hfree := newRefs_eq_zero_iff.mp (h.newRefs_eq_zero hx (Or.inl ht))
  refine ⟨?_, ?_, ?_⟩
  · intro c' n
    rw [update_apply]
    by_cases hn : n = x
    · subst hn
      split_ifs with hcc
      · simp
      · rw [h.tried]
        simp only [update_self, Option.some.injEq, exists_eq_left', Bool.false_eq_true, false_and,
          iff_false, not_exists, not_and]
        intro k hk _ hk'
        rw [hx] at hk
        cases hk
        exact hcc (hk'.symm.trans hcell)
    · rw [update_of_ne hn]
      split_ifs with hcc
      · simp only [false_iff, not_exists, not_and]
        intro k hk hkt hkc
        have := (h.tried c' n).mpr ⟨k, hk, hkt, hkc⟩
        rw [hcc, hc] at this
        exact hn (Option.some_injective _ this).symm
      · exact h.tried c' n
  · intro c' n hc'
    have hn : n ≠ x := by
      rintro rfl
      exact hfree c' hc'
    rw [update_of_ne hn]
    exact h.new c' n hc'
  · intro n k hk
    by_cases hn : n = x
    · subst hn
      rw [update_self] at hk
      cases hk
      simp only [Bool.false_eq_true, if_false]
      rw [hrc, newRefs_eq_zero_iff.mpr hfree]
      rfl
    · rw [update_of_ne hn] at hk
      exact h.refCount n k hk

/-- The new entry `x`, in no new cell, enters the tried table at its empty tried cell. -/
theorem Tables.enterTried (h : Tables E nKey ent vT vN) {x} {i : CAddrInfo N} (hx : ent x = some i)
    (hnt : i.fInTried = false) (hrc : i.nRefCount = 0)
    (hc : vT (triedCell E nKey i.toCService) = none) :
    Tables E nKey (update ent x (some { i with fInTried := true }))
      (update vT (triedCell E nKey i.toCService) (some x)) vN := by
  have hfree := newRefs_eq_zero_iff.mp (h.newRefs_eq_zero hx (Or.inr hrc))
  refine ⟨?_, ?_, ?_⟩
  · intro c n
    rw [update_apply]
    split_ifs with hcc
    · subst hcc
      constructor
      · rintro ⟨⟩
        exact ⟨_, update_self .., rfl, rfl⟩
      · rintro ⟨k, hk, hkt, hkc⟩
        by_cases hn : n = x
        · rw [hn]
        · rw [update_of_ne hn] at hk
          have := (h.tried _ n).mpr ⟨k, hk, hkt, hkc⟩
          rw [hc] at this
          cases this
    · by_cases hn : n = x
      · subst hn
        simp only [update_self, Option.some.injEq, exists_eq_left']
        rw [h.tried]
        simp only [hx, Option.some.injEq, exists_eq_left', hnt, Bool.false_eq_true, false_and,
          false_iff, not_and]
        exact fun _ hcell => hcc hcell.symm
      · rw [update_of_ne hn]
        exact h.tried c n
  · intro c n hc'
    have hn : n ≠ x := by
      rintro rfl
      exact hfree c hc'
    rw [update_of_ne hn]
    exact h.new c n hc'
  · intro n k hk
    by_cases hn : n = x
    · subst hn
      rw [update_self] at hk
      cases hk
      exact hrc
    · rw [update_of_ne hn] at hk
      exact h.refCount n k hk

/-- The loop of `MakeTried`: the new entry `x` leaves every new cell, with no references left. -/
theorem Tables.removeAll (h : Tables E nKey ent vT vN) {x} {i : CAddrInfo N} (hx : ent x = some i)
    (hnt : i.fInTried = false) :
    Tables E nKey (update ent x (some { i with nRefCount := 0 })) vT
      (fun c => if vN c = some x then none else vN c) := by
  have hsame : ∀ n, n ≠ x → newRefs (fun c => if vN c = some x then none else vN c) n = newRefs vN n := by
    intro n hn
    have hfilter : (Finset.univ.filter fun c => (if vN c = some x then none else vN c) = some n) =
        Finset.univ.filter fun c => vN c = some n := by
      apply Finset.filter_congr
      intro c _
      by_cases hc : vN c = some x
      · simp only [hc, if_true, reduceCtorEq, false_iff]
        exact fun he => hn (Option.some_injective _ he).symm
      · simp [hc]
    unfold newRefs
    rw [hfilter]
  refine ⟨?_, ?_, ?_⟩
  · intro c n
    rw [h.tried]
    by_cases hn : n = x
    · subst hn
      simp [hx, hnt]
    · simp [update_of_ne hn]
  · intro c n hc
    by_cases hcx : vN c = some x
    · simp [hcx] at hc
    · simp only [hcx, if_false] at hc
      have hn : n ≠ x := by
        rintro rfl
        exact hcx hc
      rw [update_of_ne hn]
      exact h.new c n hc
  · intro n k hk
    by_cases hn : n = x
    · subst hn
      rw [update_self] at hk
      cases hk
      have : newRefs (fun c => if vN c = some n then none else vN c) n = 0 := by
        rw [newRefs_eq_zero_iff]
        intro c
        by_cases hc : vN c = some n <;> simp [hc]
      simp [hnt, this]
    · rw [update_of_ne hn] at hk
      rw [h.refCount n k hk, hsame n hn]

end Tables

section RemoveFromNew

variable {N : Type} {E : NetEnv N} {nKey : Uint256}
  {vN : Fin newBucketCount × Fin bucketSize → Option ℕ} {addr : CService N} {x : ℕ}

/-- The loop of `MakeTried` over a list of distinct buckets, from a table
whose buckets in `S` are cleared of `x`: the buckets of the list are cleared
too, one reference less for each cell that held `x`. Each cell holding `x`
is at the position of `x` in its bucket, the only cell the loop reads there. -/
theorem removeFromNew_foldl
    (hpos : ∀ c, vN c = some x → getBucketPosition E nKey true c.1 addr = c.2) :
    ∀ (bs S : List (Fin newBucketCount)) (r : ℤ), (∀ b ∈ bs, b ∉ S) → bs.Nodup →
      bs.foldl (removeFromNewStep E nKey addr x)
        (fun c => if c.1 ∈ S ∧ vN c = some x then none else vN c, r) =
      (fun c => if c.1 ∈ S ++ bs ∧ vN c = some x then none else vN c,
        r - (bs.countP fun b => vN (b, getBucketPosition E nKey true b addr) = some x)) := by
  intro bs
  induction bs with
  | nil => intro S r _ _; simp
  | cons b bs ih =>
    intro S r hdisj hnd
    rw [List.nodup_cons] at hnd
    have hbS : b ∉ S := hdisj b List.mem_cons_self
    have hrest : ∀ b' ∈ bs, b' ∉ S ++ [b] := by
      intro b' hb' hmem
      rcases List.mem_append.mp hmem with hS | hb
      · exact hdisj b' (List.mem_cons_of_mem b hb') hS
      · rw [List.mem_singleton] at hb
        subst hb
        exact hnd.1 hb'
    set pos := getBucketPosition E nKey true b addr with hposb
    -- in bucket `b` only the cell at `pos` can hold `x`
    have hother : ∀ c : Fin newBucketCount × Fin bucketSize, c.1 = b → c ≠ (b, pos) →
        vN c ≠ some x := by
      intro c hc hne hcx
      exact hne (Prod.ext hc (by rw [← hpos c hcx, hc]))
    have hstep : removeFromNewStep E nKey addr x
        (fun c => if c.1 ∈ S ∧ vN c = some x then none else vN c, r) b =
        (fun c => if c.1 ∈ S ++ [b] ∧ vN c = some x then none else vN c,
          r - if vN (b, pos) = some x then 1 else 0) := by
      unfold removeFromNewStep
      simp only [hbS, false_and, if_false, ← hposb]
      by_cases hx : vN (b, pos) = some x
      · rw [if_pos hx, if_pos hx]
        refine Prod.ext (funext fun c => ?_) rfl
        dsimp only
        rw [update_apply]
        by_cases hcp : c = (b, pos)
        · subst hcp
          simp [hx]
        · rw [if_neg hcp]
          by_cases hcb : c.1 = b
          · simp [hother c hcb hcp]
          · simp [hcb]
      · rw [if_neg hx, if_neg hx, sub_zero]
        refine Prod.ext (funext fun c => ?_) rfl
        by_cases hc : c.1 = b
        · have : vN c ≠ some x := by
            by_cases hcp : c = (b, pos)
            · rw [hcp]; exact hx
            · exact hother c hc hcp
          simp [this]
        · simp [hc]
    rw [List.foldl_cons, hstep, ih (S ++ [b]) _ hrest hnd.2, List.append_assoc, List.singleton_append,
      List.countP_cons]
    simp only [← hposb, decide_eq_true_eq]
    congr 1
    split_ifs <;> omega

/-- The whole loop of `MakeTried`: every cell holding `x` is cleared, and the
count goes down by the number of them. -/
theorem removeFromNew_eq
    (hpos : ∀ c, vN c = some x → getBucketPosition E nKey true c.1 addr = c.2) (r : ℤ) :
    removeFromNew E nKey addr x vN r =
      (fun c => if vN c = some x then none else vN c, r - newRefs vN x) := by
  have hfold := removeFromNew_foldl hpos (List.finRange newBucketCount) [] r (by simp)
    (List.nodup_finRange _)
  have hcount : ((List.finRange newBucketCount).countP
      fun b => vN (b, getBucketPosition E nKey true b addr) = some x) = newRefs vN x := by
    have h1 := countP_eq_card_filter (List.nodup_finRange newBucketCount) (List.mem_finRange)
      (fun b => decide (vN (b, getBucketPosition E nKey true b addr) = some x))
    rw [h1]
    have himage : (Finset.univ.filter fun c => vN c = some x) =
        (Finset.univ.filter fun b => decide (vN (b, getBucketPosition E nKey true b addr) = some x)
          = true).image fun (b : Fin newBucketCount) => (b, getBucketPosition E nKey true b addr) := by
      ext c
      simp only [Finset.mem_filter, Finset.mem_univ, true_and, Finset.mem_image, decide_eq_true_eq]
      constructor
      · intro hc
        refine ⟨c.1, ?_, Prod.ext rfl (hpos c hc)⟩
        rw [hpos c hc]
        exact hc
      · rintro ⟨b, hb, rfl⟩
        exact hb
    rw [newRefs, himage, Finset.card_image_of_injective _ fun b₁ b₂ h => (Prod.mk.inj h).1]
  simp only [List.nil_append, List.mem_finRange, true_and, List.not_mem_nil, false_and, if_false,
    hcount] at hfold
  exact hfold

end RemoveFromNew

section Entries

variable {N : Type}

/-- An entry without its position in `vRandom`, which only the indexes read. -/
def CAddrInfo.unpos (info : CAddrInfo N) : CAddrInfo N := { info with nRandomPos := 0 }

/-- The entries of a map without their positions. -/
def infosOf (m : SortedMap ℕ (CAddrInfo N)) (n : ℕ) : Option (CAddrInfo N) :=
  (m.find? n).map CAddrInfo.unpos

/-- What `Check_` asks of one entry on its own. -/
structure EntryOk (info : CAddrInfo N) : Prop where
  refCount_pos : info.fInTried = false → 0 < info.nRefCount
  refCount_le : info.nRefCount ≤ newBucketsPerAddress
  lastSuccess_ne : info.fInTried = true → info.nLastSuccess ≠ 0
  lastTry_nonneg : 0 ≤ info.nLastTry
  lastSuccess_nonneg : 0 ≤ info.nLastSuccess

@[simp] theorem CAddrInfo.unpos_fInTried (info : CAddrInfo N) : info.unpos.fInTried = info.fInTried := rfl
@[simp] theorem CAddrInfo.unpos_nRefCount (info : CAddrInfo N) : info.unpos.nRefCount = info.nRefCount := rfl
@[simp] theorem CAddrInfo.unpos_toCService (info : CAddrInfo N) : info.unpos.toCService = info.toCService := rfl
@[simp] theorem CAddrInfo.unpos_ip (info : CAddrInfo N) : info.unpos.ip = info.ip := rfl

theorem infosOf_modify (m : SortedMap ℕ (CAddrInfo N)) (n : ℕ) {f : CAddrInfo N → CAddrInfo N}
    (hf : ∀ i, (f i).unpos = f i.unpos) :
    infosOf (m.modify n f) = update (infosOf m) n ((infosOf m n).map f) := by
  funext k
  unfold infosOf
  rw [SortedMap.find?_modify, update_apply]
  split_ifs
  · subst_vars
    cases m.find? k <;> simp [hf]
  · rfl

theorem infosOf_erase (m : SortedMap ℕ (CAddrInfo N)) (n : ℕ) :
    infosOf (m.erase n) = update (infosOf m) n none := by
  funext k
  unfold infosOf
  rw [SortedMap.find?_erase, update_apply]
  split_ifs <;> rfl

/-- A count that does not read positions depends only on the entries without them. -/
theorem countBy_eq_of_infosOf {m m' : SortedMap ℕ (CAddrInfo N)} (h : infosOf m' = infosOf m)
    {g : CAddrInfo N → Bool} (hg : ∀ i, g i.unpos = g i) : m'.countBy g = m.countBy g := by
  have hmap : ∀ o : Option (CAddrInfo N), o.map g = (o.map CAddrInfo.unpos).map g := by
    intro o
    cases o <;> simp [hg]
  apply SortedMap.countBy_congr
  intro k
  rw [hmap, hmap (m.find? k)]
  exact congrArg (Option.map g) (congrFun h k)

theorem getElem?_eq_some_getD {l : List ℕ} {p : ℕ} (hp : p < l.length) : l[p]? = some (l.getD p 0) := by
  rw [List.getD_eq_getElem?_getD, List.getElem?_eq_getElem hp]
  rfl

/-- The raw entry behind an entry without its position. -/
theorem exists_find?_of_infosOf {m : SortedMap ℕ (CAddrInfo N)} {n : ℕ} {i : CAddrInfo N}
    (h : infosOf m n = some i) : ∃ raw, m.find? n = some raw ∧ raw.unpos = i := by
  unfold infosOf at h
  cases hm : m.find? n with
  | none => rw [hm] at h; cases h
  | some raw => rw [hm] at h; exact ⟨raw, rfl, Option.some_injective _ h⟩

theorem infosOf_of_find? {m : SortedMap ℕ (CAddrInfo N)} {n : ℕ} {raw : CAddrInfo N}
    (h : m.find? n = some raw) : infosOf m n = some raw.unpos := by
  simp [infosOf, h]

/-- A write to an entry that keeps its address and position keeps the indexes. -/
theorem Indexes.modify {m : SortedMap ℕ (CAddrInfo N)} {v : List ℕ} {addrOf : N → Option ℕ}
    {cnt : ℕ} (h : Indexes m.find? v addrOf cnt) (n : ℕ) {f : CAddrInfo N → CAddrInfo N}
    (hf : ∀ i, ipPos (f i) = ipPos i) : Indexes (m.modify n f).find? v addrOf cnt := by
  apply h.congr
  intro k
  rw [SortedMap.find?_modify]
  split_ifs
  · subst_vars
    cases m.find? k <;> simp [hf]
  · rfl

theorem EntryOk.decRef {info : CAddrInfo N} (h : EntryOk info) (hrc : 1 < info.nRefCount) :
    EntryOk { info with nRefCount := info.nRefCount - 1 } :=
  ⟨fun _ => by simp only; omega, by have := h.refCount_le; simp only; omega, h.lastSuccess_ne,
    h.lastTry_nonneg, h.lastSuccess_nonneg⟩

/-- A tried entry back in the new table with one reference. -/
theorem EntryOk.untry {info : CAddrInfo N} (h : EntryOk info) :
    EntryOk { info with fInTried := false, nRefCount := 1 } :=
  ⟨fun _ => by simp only; omega, by simp only [newBucketsPerAddress]; omega,
    fun htried => absurd htried (by simp), h.lastTry_nonneg, h.lastSuccess_nonneg⟩

/-- Every entry outside `pend` passes the checks of `Check_` on its own. -/
def EntriesOk (m : SortedMap ℕ (CAddrInfo N)) (pend : ℕ → Prop) : Prop :=
  ∀ n i, infosOf m n = some i → ¬pend n → EntryOk i

/-- A step that keeps every entry but one, which it may drop or take one
reference from while it keeps one, keeps the entries' checks. -/
theorem EntriesOk.of_frame {m m' : SortedMap ℕ (CAddrInfo N)} {pend : ℕ → Prop}
    (h : EntriesOk m pend) (o : Option ℕ) (hframe : ∀ n, o ≠ some n → infosOf m' n = infosOf m n)
    (hocc : ∀ n i, o = some n → infosOf m' n = some i →
      ∃ i₀, infosOf m n = some i₀ ∧ i = { i₀ with nRefCount := i₀.nRefCount - 1 } ∧ 1 < i₀.nRefCount) :
    EntriesOk m' pend := by
  intro n i hi hpend
  by_cases ho : o = some n
  · obtain ⟨i₀, hi₀, rfl, hlt⟩ := hocc n i ho hi
    exact (h n i₀ hi₀ hpend).decRef hlt
  · rw [hframe n ho] at hi
    exact h n i hi hpend

end Entries

section Manager

variable {N : Type} [LinearOrder N] (E : NetEnv N)

namespace CAddrMan

/-- The indexes of the manager agree with its entries. -/
def Indexed (st : CAddrMan N) : Prop :=
  Indexes st.mapInfo.find? st.vRandom st.mapAddr.find? st.nIdCount

/-- The tables of the manager agree with its entries. -/
def Tabled (st : CAddrMan N) : Prop :=
  Tables E st.nKey (infosOf st.mapInfo) st.vvTried st.vvNew

/-- How far `nTried` is from the number of tried entries. -/
def triedGap (st : CAddrMan N) : ℤ := st.nTried - st.mapInfo.countBy (·.fInTried)

/-- How far `nNew` is from the number of new entries. -/
def newGap (st : CAddrMan N) : ℤ := st.nNew - st.mapInfo.countBy (fun i => !i.fInTried)

/-- The consistency `Check_` tests. -/
structure Consistent (st : CAddrMan N) : Prop where
  indexed : st.Indexed
  tabled : st.Tabled E
  triedGap_eq : st.triedGap = 0
  newGap_eq : st.newGap = 0
  entryOk : ∀ n info, infosOf st.mapInfo n = some info → EntryOk info
  nKey_ne : st.nKey ≠ 0

end CAddrMan

open CAddrMan

/-- `SwapRandom` of two positions inside `vRandom` succeeds, keeps the indexes
and changes nothing but the order of `vRandom` and the positions. -/
theorem swapRandom_spec {st : CAddrMan N} (hI : st.Indexed) {p q : ℕ}
    (hp : p < st.vRandom.length) (hq : q < st.vRandom.length) :
    ∃ m v, st.swapRandom p q = .ok { st with mapInfo := m, vRandom := v } ∧
      Indexes m.find? v st.mapAddr.find? st.nIdCount ∧ infosOf m = infosOf st.mapInfo ∧
      v.length = st.vRandom.length ∧ v[q]? = st.vRandom[p]? := by
  by_cases hpq : p = q
  · subst hpq
    exact ⟨st.mapInfo, st.vRandom, by simp [swapRandom], hI, rfl, rfl, rfl⟩
  obtain ⟨i, hi, -⟩ := hI.atPos p _ (getElem?_eq_some_getD hp)
  obtain ⟨j, hj, -⟩ := hI.atPos q _ (getElem?_eq_some_getD hq)
  have hne : st.vRandom.getD p 0 ≠ st.vRandom.getD q 0 := by
    intro heq
    apply hpq
    exact (List.getElem?_inj hp hI.nodup).mp
      ((getElem?_eq_some_getD hp).trans (heq ▸ (getElem?_eq_some_getD hq).symm))
  refine ⟨(st.mapInfo.modify (st.vRandom.getD p 0) fun i => { i with nRandomPos := q }).modify
      (st.vRandom.getD q 0) fun i => { i with nRandomPos := p },
    (st.vRandom.set p (st.vRandom.getD q 0)).set q (st.vRandom.getD p 0), ?_, ?_, ?_, ?_, ?_⟩
  · have hin : ¬¬(p < st.vRandom.length ∧ q < st.vRandom.length) := not_not.mpr ⟨hp, hq⟩
    simp only [swapRandom, hpq, if_false, hin, hi, hj, reduceCtorEq, modifyInfo]
  · have hfind : ((st.mapInfo.modify (st.vRandom.getD p 0) fun i => { i with nRandomPos := q }).modify
        (st.vRandom.getD q 0) fun i => { i with nRandomPos := p }).find? =
        update (update st.mapInfo.find? (st.vRandom.getD p 0) (some { i with nRandomPos := q }))
          (st.vRandom.getD q 0) (some { j with nRandomPos := p }) := by
      funext k
      simp only [SortedMap.find?_modify, update_apply]
      split_ifs <;> subst_vars <;> simp_all
    rw [hfind]
    exact Indexes.swap hI hp hq hpq hi hj
  · funext k
    simp only [infosOf, SortedMap.find?_modify]
    split_ifs <;> subst_vars <;> simp_all [CAddrInfo.unpos]
  · simp
  · rw [List.getElem?_set_self (by simpa using hq), getElem?_eq_some_getD hp]

/-- `Delete` of a new entry with no references succeeds: the entry, its
address and its place in `vRandom` go, and `nNew` goes down by one. -/
theorem delete_spec {st : CAddrMan N} (hI : st.Indexed) {x : ℕ} {info : CAddrInfo N}
    (hx : st.mapInfo.find? x = some info) (hnt : info.fInTried = false) (hrc : info.nRefCount = 0) :
    ∃ m v, st.delete x =
        .ok { st with mapInfo := m, vRandom := v, mapAddr := st.mapAddr.erase info.ip, nNew := st.nNew - 1 } ∧
      Indexes m.find? v (st.mapAddr.erase info.ip).find? st.nIdCount ∧
      infosOf m = update (infosOf st.mapInfo) x none := by
  have hlt := hI.pos_lt hx
  have hlen : st.vRandom.length - 1 < st.vRandom.length := by omega
  obtain ⟨m, v, hswap, hIs, hinf, hvlen, hvq⟩ := swapRandom_spec hI hlt hlen
  -- after the swap the entry is last
  have hxlast : v[st.vRandom.length - 1]? = some x := by
    rw [hvq]
    exact hI.randomPos x info hx
  obtain ⟨info', hinfo', hpos'⟩ := hIs.atPos _ x hxlast
  have hip : info'.ip = info.ip := by
    have hx' := congrFun hinf x
    simp only [infosOf, hinfo', hx, Option.map_some, Option.some.injEq] at hx'
    rw [← CAddrInfo.unpos_ip, hx', CAddrInfo.unpos_ip]
  refine ⟨m.erase x, v.dropLast, ?_, ?_, ?_⟩
  · simp [delete, hx, hnt, hrc, hswap]
  · rw [SortedMap.find?_erase_eq_update, SortedMap.find?_erase_eq_update, ← hip]
    exact hIs.dropLast hinfo' (by rw [hpos', hvlen])
  · rw [infosOf_erase, hinf]

/-- `ClearNew` of a cell: the cell is emptied, and its entry, if any, loses a
reference, and goes when that was its last one. `nNew` moves with the number
of new entries, and `nTried` with the tried ones. -/
theorem clearNew_spec {st : CAddrMan N} (hI : st.Indexed) (hT : st.Tabled E)
    (c : Fin newBucketCount × Fin bucketSize) :
    ∃ m v a k, st.clearNew c =
        .ok { st with mapInfo := m, vRandom := v, mapAddr := a, nNew := k, vvNew := update st.vvNew c none } ∧
      Indexes m.find? v a.find? st.nIdCount ∧
      Tables E st.nKey (infosOf m) st.vvTried (update st.vvNew c none) ∧
      k - m.countBy (fun i => !i.fInTried) = st.nNew - st.mapInfo.countBy (fun i => !i.fInTried) ∧
      m.countBy (·.fInTried) = st.mapInfo.countBy (·.fInTried) ∧
      (∀ n, st.vvNew c ≠ some n → infosOf m n = infosOf st.mapInfo n) ∧
      (∀ n i, st.vvNew c = some n → infosOf m n = some i →
        ∃ i₀, infosOf st.mapInfo n = some i₀ ∧ i = { i₀ with nRefCount := i₀.nRefCount - 1 } ∧
          1 < i₀.nRefCount) := by
  cases hc : st.vvNew c with
  | none =>
    have hsame : update st.vvNew c none = st.vvNew := by
      rw [← hc]
      exact update_eq_self c st.vvNew
    refine ⟨st.mapInfo, st.vRandom, st.mapAddr, st.nNew, ?_, hI, ?_, rfl, rfl, fun _ _ => rfl,
      fun n i h => by cases h⟩
    · simp only [clearNew, hc, hsame]
    · rw [hsame]
      exact hT
  | some x =>
    obtain ⟨i, hi, hnt, -⟩ := hT.new c x hc
    obtain ⟨raw, hraw, rfl⟩ := exists_find?_of_infosOf hi
    rw [CAddrInfo.unpos_fInTried] at hnt
    have hpos : 0 < raw.nRefCount := by
      have hrefs := hT.refCount x _ hi
      simp only [CAddrInfo.unpos_nRefCount, CAddrInfo.unpos_fInTried, hnt, Bool.false_eq_true,
        if_false] at hrefs
      have := newRefs_pos hc
      omega
    -- the entry loses the reference of the cell
    set dec : CAddrInfo N → CAddrInfo N := fun i => { i with nRefCount := i.nRefCount - 1 } with hdec
    set m1 := st.mapInfo.modify x dec with hm1
    have hinf1 : infosOf m1 = update (infosOf st.mapInfo) x (some (dec raw.unpos)) := by
      rw [hm1, infosOf_modify _ _ (f := dec) (fun _ => rfl), hi]
      rfl
    have hT1 : Tables E st.nKey (infosOf m1) st.vvTried (update st.vvNew c none) := by
      rw [hinf1]
      exact hT.clear hc hi
    have hI1 : Indexes m1.find? st.vRandom st.mapAddr.find? st.nIdCount := hI.modify x (fun _ => rfl)
    have hcount1 : ∀ g : CAddrInfo N → Bool, (∀ i, g (dec i) = g i) → m1.countBy g = st.mapInfo.countBy g :=
      fun g hg => SortedMap.countBy_modify_of_forall x hg
    have hfind1 : m1.find? x = some (dec raw) := by simp [hm1, hraw]
    have hframe1 : ∀ n, n ≠ x → infosOf m1 n = infosOf st.mapInfo n := by
      intro n hn
      rw [hinf1, update_of_ne hn]
    have hcx : ∀ n, some x ≠ some n → n ≠ x := by
      rintro n hn rfl
      exact hn rfl
    by_cases hz : raw.nRefCount - 1 = 0
    · -- that was the last reference: the entry goes
      obtain ⟨m, v, hdel, hIm, hinfm⟩ := @delete_spec _ _
        { st.modifyInfo x dec with vvNew := update st.vvNew c none } hI1 _ _ hfind1 hnt hz
      replace hinfm : infosOf m = update (infosOf m1) x none := hinfm
      have hinfm' : infosOf m = infosOf (m1.erase x) := by
        rw [hinfm, infosOf_erase]
      have hcountm : ∀ g : CAddrInfo N → Bool, (∀ i, g i.unpos = g i) → (∀ i, g (dec i) = g i) →
          m.countBy g + (if g raw then 1 else 0) = st.mapInfo.countBy g := by
        intro g hg hgd
        rw [countBy_eq_of_infosOf hinfm' hg, ← hcount1 g hgd, ← hgd raw]
        exact SortedMap.countBy_erase_add g hfind1
      refine ⟨m, v, st.mapAddr.erase raw.ip, st.nNew - 1, ?_, hIm, ?_, ?_, ?_, ?_, ?_⟩
      · have hclear : st.clearNew c = ({ st.modifyInfo x dec with vvNew := update st.vvNew c none }).delete x := by
          simp only [clearNew, hc, hraw, hpos, not_true_eq_false, if_false, hz, if_true]
          rfl
        rw [hclear, hdel]
        rfl
      · rw [hinfm]
        exact hT1.erase (i := dec raw.unpos) (by rw [hinf1, update_self]) hnt hz
      · have := hcountm (fun i => !i.fInTried) (fun _ => rfl) (fun _ => rfl)
        simp only [hnt, Bool.not_false, if_true] at this
        omega
      · have := hcountm (·.fInTried) (fun _ => rfl) (fun _ => rfl)
        simpa [hnt] using this
      · intro n hn
        rw [hinfm, update_of_ne (hcx n hn), hframe1 n (hcx n hn)]
      · intro n i hn hi'
        cases hn
        rw [hinfm, update_self] at hi'
        cases hi'
    · -- the entry stays, with one reference less
      refine ⟨m1, st.vRandom, st.mapAddr, st.nNew, ?_, hI1, hT1, ?_, ?_, ?_, ?_⟩
      · simp only [clearNew, hc, hraw, hpos, not_true_eq_false, if_false, hz]
        rfl
      · rw [hcount1 _ (fun _ => rfl)]
      · exact hcount1 _ (fun _ => rfl)
      · intro n hn
        exact hframe1 n (hcx n hn)
      · intro n i hn hi'
        cases hn
        rw [hinf1, update_self] at hi'
        cases hi'
        exact ⟨raw.unpos, hi, rfl, by simp only [CAddrInfo.unpos_nRefCount]; omega⟩

/-- The eviction of `MakeTried` succeeds for the tried entry `y` at `cell`:
`y` goes back to its new cell, clearing whatever is there, and the tried
cell is left empty. The entries in no new cell other than `y` are kept. -/
theorem evictTried_spec {st : CAddrMan N} (hI : st.Indexed) (hT : st.Tabled E)
    {cell : Fin triedBucketCount × Fin bucketSize} {y : ℕ} (hc : st.vvTried cell = some y) :
    ∃ st', st.evictTried E cell y = .ok st' ∧ st'.Indexed ∧ st'.Tabled E ∧
      st'.triedGap = st.triedGap ∧ st'.newGap = st.newGap ∧
      st'.vvTried = update st.vvTried cell none ∧ st'.nKey = st.nKey ∧ st'.nIdCount = st.nIdCount ∧
      (∀ n, n ≠ y → newRefs st.vvNew n = 0 → infosOf st'.mapInfo n = infosOf st.mapInfo n) ∧
      (∀ pend : ℕ → Prop, EntriesOk st.mapInfo pend → EntriesOk st'.mapInfo pend) := by
  obtain ⟨i, hi, ht, hcell⟩ := (hT.tried cell y).mp hc
  obtain ⟨raw, hraw, rfl⟩ := exists_find?_of_infosOf hi
  rw [CAddrInfo.unpos_fInTried] at ht
  have hrc : raw.nRefCount = 0 := by
    have := hT.refCount y _ hi
    simpa [ht] using this
  have hfree : newRefs st.vvNew y = 0 := hT.newRefs_eq_zero hi (Or.inl (by simpa using ht))
  -- the entry leaves the tried table
  set untry : CAddrInfo N → CAddrInfo N := fun i => { i with fInTried := false } with huntry
  set sA : CAddrMan N := { st.modifyInfo y untry with
    vvTried := update st.vvTried cell none, nTried := st.nTried - 1 } with hsA
  have hIA : sA.Indexed := hI.modify y (fun _ => rfl)
  have hinfA : infosOf sA.mapInfo = update (infosOf st.mapInfo) y (some (untry raw.unpos)) := by
    show infosOf (st.mapInfo.modify y untry) = _
    rw [infosOf_modify _ _ (f := untry) (fun _ => rfl), hi]
    rfl
  have hTA : sA.Tabled E := by
    show Tables E st.nKey (infosOf sA.mapInfo) (update st.vvTried cell none) st.vvNew
    rw [hinfA]
    exact hT.untry hc hi
  have hcountA : ∀ g : CAddrInfo N → Bool,
      sA.mapInfo.countBy g + (if g raw then 1 else 0) = st.mapInfo.countBy g + (if g (untry raw) then 1 else 0) :=
    fun g => SortedMap.countBy_modify_add untry g hraw
  -- its new cell is cleared
  set ub := getNewBucket E st.nKey raw.toCService raw.source with hub
  set up := getBucketPosition E st.nKey true ub raw.toCService with hup
  obtain ⟨m, v, a, k, hclear, hIB, hTB, hgapB, htriedB, hframeB, hoccB⟩ := clearNew_spec E hIA hTA (ub, up)
  have hnotocc : ∀ n, newRefs st.vvNew n = 0 → sA.vvNew (ub, up) ≠ some n :=
    fun n hn => newRefs_eq_zero_iff.mp hn (ub, up)
  have hyB : infosOf m y = some (untry raw.unpos) := by
    rw [hframeB y (hnotocc y hfree), hinfA, update_self]
  -- and it is entered there with one reference
  set setOne : CAddrInfo N → CAddrInfo N := fun i => { i with nRefCount := 1 } with hsetOne
  have hinfC : infosOf (m.modify y setOne) =
      update (infosOf m) y (some { untry raw.unpos with nRefCount := (untry raw.unpos).nRefCount + 1 }) := by
    rw [infosOf_modify _ _ (f := setOne) (fun _ => rfl), hyB]
    simp [hsetOne, huntry, CAddrInfo.unpos, hrc]
  set sB : CAddrMan N := { sA with
    mapInfo := m, vRandom := v, mapAddr := a, nNew := k, vvNew := update sA.vvNew (ub, up) none } with hsB
  refine ⟨{ sB.modifyInfo y setOne with
      vvNew := update sB.vvNew (ub, up) (some y), nNew := sB.nNew + 1 },
    ?_, hIB.modify y (fun _ => rfl), ?_, ?_, ?_, rfl, rfl, rfl, ?_, ?_⟩
  · have hclear' := hclear
    simp only [hsA, hub, hup, huntry, modifyInfo] at hclear'
    have hcellB : sB.vvNew (getNewBucket E st.nKey raw.toCService raw.source,
        getBucketPosition E st.nKey true (getNewBucket E st.nKey raw.toCService raw.source)
          raw.toCService) = none := by
      simp [hsB, hub, hup]
    simp only [evictTried, hraw, modifyInfo, hclear', bind, Except.bind, hcellB, ne_eq,
      not_true_eq_false, if_false]
    rfl
  · show Tables E st.nKey (infosOf (m.modify y setOne)) (update st.vvTried cell none)
      (update (update st.vvNew (ub, up) none) (ub, up) (some y))
    rw [hinfC]
    exact hTB.fill (by simp) hyB rfl rfl
  · have h1 := hcountA (·.fInTried)
    simp only [ht, if_true, huntry, Bool.false_eq_true, if_false] at h1
    have h2 : (m.modify y setOne).countBy (·.fInTried) = m.countBy (·.fInTried) :=
      SortedMap.countBy_modify_of_forall y (fun _ => rfl)
    show st.nTried - 1 - ((m.modify y setOne).countBy (·.fInTried) : ℤ) =
      st.nTried - st.mapInfo.countBy (·.fInTried)
    rw [h2, htriedB]
    omega
  · have h1 := hcountA (fun i => !i.fInTried)
    simp only [ht, Bool.not_true, Bool.false_eq_true, if_false, huntry, Bool.not_false, if_true] at h1
    have h2 : (m.modify y setOne).countBy (fun i => !i.fInTried) = m.countBy (fun i => !i.fInTried) :=
      SortedMap.countBy_modify_of_forall y (fun _ => rfl)
    show k + 1 - ((m.modify y setOne).countBy (fun i => !i.fInTried) : ℤ) =
      st.nNew - st.mapInfo.countBy (fun i => !i.fInTried)
    have h3 : k - (m.countBy (fun i => !i.fInTried) : ℤ) =
        st.nNew - sA.mapInfo.countBy (fun i => !i.fInTried) := hgapB
    rw [h2]
    omega
  · intro n hny hn
    show infosOf (m.modify y setOne) n = _
    rw [infosOf_modify _ _ (f := setOne) (fun _ => rfl), update_of_ne hny, hframeB n (hnotocc n hn),
      hinfA, update_of_ne hny]
  · intro pend hok
    have hokA : EntriesOk sA.mapInfo (fun n => pend n ∨ n = y) := by
      intro n i hi' hp
      rw [hinfA, update_of_ne (fun h => hp (Or.inr h))] at hi'
      exact hok n i hi' (fun h => hp (Or.inl h))
    have hokB : EntriesOk m (fun n => pend n ∨ n = y) := hokA.of_frame _ hframeB hoccB
    intro n i hi' hp
    change infosOf (m.modify y setOne) n = some i at hi'
    rw [infosOf_modify _ _ (f := setOne) (fun _ => rfl)] at hi'
    by_cases hny : n = y
    · subst hny
      rw [update_self, hyB] at hi'
      simp only [Option.map_some, Option.some.injEq] at hi'
      subst hi'
      exact (hok n raw.unpos hi hp).untry
    · rw [update_of_ne hny] at hi'
      exact hokB n i hi' (fun h => h.elim hp hny)

/-- The last step of `MakeTried`: the new entry `nId`, in no new cell and
with no references, enters its empty tried cell. `nNew` still counts it as
new and `nTried` not yet as tried; after the step both are exact. -/
theorem consistent_enterTried {st : CAddrMan N} (hI : st.Indexed) (hT : st.Tabled E)
    (htg : st.triedGap = 0) (hng : st.newGap = -1) {nId : ℕ} (hok : EntriesOk st.mapInfo (· = nId))
    (hkey : st.nKey ≠ 0) {info : CAddrInfo N} (hx : infosOf st.mapInfo nId = some info)
    (hnt : info.fInTried = false) (hrc : info.nRefCount = 0) (hentry : EntryOk { info with fInTried := true })
    (hcell : st.vvTried (triedCell E st.nKey info.toCService) = none) :
    Consistent E { st.modifyInfo nId (fun i => { i with fInTried := true }) with
      vvTried := update st.vvTried (triedCell E st.nKey info.toCService) (some nId)
      nTried := st.nTried + 1 } := by
  obtain ⟨raw, hraw, rfl⟩ := exists_find?_of_infosOf hx
  set enter : CAddrInfo N → CAddrInfo N := fun i => { i with fInTried := true } with henter
  have hinf : infosOf (st.mapInfo.modify nId enter) = update (infosOf st.mapInfo) nId (some (enter raw.unpos)) := by
    rw [infosOf_modify _ _ (f := enter) (fun _ => rfl), hx]
    rfl
  have hcount : ∀ g : CAddrInfo N → Bool,
      (st.mapInfo.modify nId enter).countBy g + (if g raw then 1 else 0) =
        st.mapInfo.countBy g + (if g (enter raw) then 1 else 0) :=
    fun g => SortedMap.countBy_modify_add enter g hraw
  rw [CAddrInfo.unpos_fInTried] at hnt
  refine ⟨hI.modify nId (fun _ => rfl), ?_, ?_, ?_, ?_, hkey⟩
  · show Tables E st.nKey (infosOf (st.mapInfo.modify nId enter))
      (update st.vvTried (triedCell E st.nKey raw.unpos.toCService) (some nId)) st.vvNew
    rw [hinf]
    exact hT.enterTried hx hnt hrc hcell
  · have h1 := hcount (·.fInTried)
    have hent : (enter raw).fInTried = true := rfl
    rw [hnt, hent, if_pos rfl] at h1
    simp only [Bool.false_eq_true, if_false] at h1
    have h2 : st.nTried - (st.mapInfo.countBy (·.fInTried) : ℤ) = 0 := htg
    show st.nTried + 1 - ((st.mapInfo.modify nId enter).countBy (·.fInTried) : ℤ) = 0
    omega
  · have h1 := hcount (fun i => !i.fInTried)
    have hent : (enter raw).fInTried = true := rfl
    simp only [hnt, hent, Bool.not_false, Bool.not_true, Bool.false_eq_true, if_false, if_true] at h1
    have h2 : st.nNew - (st.mapInfo.countBy (fun i => !i.fInTried) : ℤ) = -1 := hng
    show st.nNew - ((st.mapInfo.modify nId enter).countBy (fun i => !i.fInTried) : ℤ) = 0
    omega
  · intro n i hi
    change infosOf (st.mapInfo.modify nId enter) n = some i at hi
    rw [hinf] at hi
    by_cases hn : n = nId
    · subst hn
      rw [update_self] at hi
      cases hi
      exact hentry
    · rw [update_of_ne hn] at hi
      exact hok n i hi hn

/-- `MakeTried` of a new entry that has connected: it leaves every new cell and
enters its tried cell, the entry there, if any, going back to the new table.
The manager stays consistent. -/
theorem makeTried_spec {st : CAddrMan N} (hC : st.Consistent E) {nId : ℕ} {info : CAddrInfo N}
    (hx : st.mapInfo.find? nId = some info) (hnt : info.fInTried = false)
    (hsucc : info.nLastSuccess ≠ 0) :
    ∃ st', st.makeTried E info nId = .ok st' ∧ st'.Consistent E := by
  have hi := infosOf_of_find? hx
  have hpos : ∀ c, st.vvNew c = some nId →
      getBucketPosition E st.nKey true c.1 info.toCService = c.2 := by
    intro c hc
    obtain ⟨i, hi', -, hp⟩ := hC.tabled.new c nId hc
    rw [hi] at hi'
    cases hi'
    exact hp
  have hrefs : info.nRefCount = newRefs st.vvNew nId := by
    have := hC.tabled.refCount nId _ hi
    simpa only [CAddrInfo.unpos_nRefCount, CAddrInfo.unpos_fInTried, hnt, Bool.false_eq_true,
      if_false] using this
  have hrem : removeFromNew E st.nKey info.toCService nId st.vvNew info.nRefCount =
      (fun c => if st.vvNew c = some nId then none else st.vvNew c, 0) := by
    rw [removeFromNew_eq hpos, hrefs, sub_self]
  -- the entry leaves the new table
  set setZero : CAddrInfo N → CAddrInfo N := fun i => { i with nRefCount := 0 } with hsetZero
  set st1 : CAddrMan N := { st.modifyInfo nId setZero with
    vvNew := fun c => if st.vvNew c = some nId then none else st.vvNew c
    nNew := st.nNew - 1 } with hst1
  have hinf1 : infosOf st1.mapInfo = update (infosOf st.mapInfo) nId (some (setZero info.unpos)) := by
    show infosOf (st.mapInfo.modify nId setZero) = _
    rw [infosOf_modify _ _ (f := setZero) (fun _ => rfl), hi]
    rfl
  have hI1 : st1.Indexed := hC.indexed.modify nId (fun _ => rfl)
  have hT1 : st1.Tabled E := by
    show Tables E st.nKey (infosOf st1.mapInfo) st.vvTried _
    rw [hinf1]
    exact hC.tabled.removeAll hi hnt
  have htg1 : st1.triedGap = 0 := by
    have h1 : st1.mapInfo.countBy (·.fInTried) = st.mapInfo.countBy (·.fInTried) :=
      SortedMap.countBy_modify_of_forall nId (fun _ => rfl)
    have := hC.triedGap_eq
    simp only [triedGap] at this ⊢
    rw [h1]
    exact this
  have hng1 : st1.newGap = -1 := by
    have h1 : st1.mapInfo.countBy (fun i => !i.fInTried) = st.mapInfo.countBy (fun i => !i.fInTried) :=
      SortedMap.countBy_modify_of_forall nId (fun _ => rfl)
    have := hC.newGap_eq
    simp only [newGap] at this ⊢
    rw [h1]
    show st.nNew - 1 - _ = _
    omega
  have hok1 : EntriesOk st1.mapInfo (· = nId) := by
    intro n i hi' hn
    rw [hinf1, update_of_ne hn] at hi'
    exact hC.entryOk n i hi'
  have hfree1 : newRefs st1.vvNew nId = 0 := by
    rw [newRefs_eq_zero_iff]
    intro c
    show (if st.vvNew c = some nId then none else st.vvNew c) ≠ some nId
    split_ifs with hc
    · simp
    · exact hc
  have hentry : EntryOk { setZero info.unpos with fInTried := true } := by
    have hok := hC.entryOk nId _ hi
    refine ⟨fun htried => absurd htried (by simp), ?_, fun _ => hsucc, hok.lastTry_nonneg,
      hok.lastSuccess_nonneg⟩
    simp [hsetZero, newBucketsPerAddress]
  have hx1 : infosOf st1.mapInfo nId = some (setZero info.unpos) := by rw [hinf1, update_self]
  cases hcell : st.vvTried (triedCell E st.nKey info.toCService) with
  | none =>
    refine ⟨_, ?_, consistent_enterTried E hI1 hT1 htg1 hng1 hok1 hC.nKey_ne hx1 hnt rfl hentry hcell⟩
    simp only [makeTried, hrem, ne_eq, not_true_eq_false, if_false, modifyInfo, hcell, bind,
      Except.bind, pure, Except.pure]
    rfl
  | some z =>
    obtain ⟨st2, hev, hI2, hT2, htg2, hng2, hvv2, hkey2, hcnt2, hframe2, hok2⟩ :=
      evictTried_spec E hI1 hT1 hcell
    have hzne : nId ≠ z := by
      rintro rfl
      obtain ⟨i, hi', ht, -⟩ := (hT1.tried _ nId).mp hcell
      rw [hx1] at hi'
      cases hi'
      exact absurd ht (by simp [hsetZero, hnt])
    have hx2 : infosOf st2.mapInfo nId = some (setZero info.unpos) := by
      rw [hframe2 nId hzne hfree1, hx1]
    have hcell2 : st2.vvTried (triedCell E st2.nKey (setZero info.unpos).toCService) = none := by
      rw [hvv2, hkey2]
      exact update_self ..
    refine ⟨_, ?_, consistent_enterTried E hI2 hT2 (htg2.trans htg1) (hng2.trans hng1) (hok2 _ hok1)
      (hkey2 ▸ hC.nKey_ne) hx2 hnt rfl hentry hcell2⟩
    have hev' := hev
    simp only [hst1, hsetZero, modifyInfo] at hev'
    have hc2 : st2.vvTried (triedCell E st.nKey info.toCService) = none := by
      rw [hvv2]
      exact update_self ..
    simp only [makeTried, hrem, ne_eq, not_true_eq_false, if_false, modifyInfo, hcell, hev', bind,
      Except.bind, pure, Except.pure, hc2, not_true_eq_false, if_false]
    rw [hkey2]
    rfl

end Manager

end Metrix.AddrMan
