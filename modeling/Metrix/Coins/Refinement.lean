import Metrix.Coins.Cache

/-! A stack of coin caches refines a plain map of coins. Each layer keeps
three things true of itself and of the view below it (`CCoinsViewCache.Valid`):
an entry that is not dirty shows what the view below shows, a `FRESH` entry
has no unspent coin below it, and `cachedCoinsUsage` is the usage of its
entries. Every operation keeps them, and moves what the top of the stack
shows exactly as the same operation moves a plain map. -/

namespace Metrix

section Valid

variable (usage : Coin → ℕ)

/-- What a layer keeps true of itself and of the view `below` it. -/
structure CCoinsViewCache.Valid (c : CCoinsViewCache) (below : CoinsMap) : Prop where
  clean : ∀ o e, c.cacheCoins.lookup o = some e → e.dirty = false → below o = e.view
  fresh : ∀ o e, c.cacheCoins.lookup o = some e → e.fresh = true → below o = none
  usage : c.cachedCoinsUsage = c.cacheCoins.sumBy fun _ e => usage e.coin

/-- Every layer valid over the layers under it, over a database of unspent
coins. -/
def LayersValid (db : CoinsMap) : List CCoinsViewCache → Prop
  | [] => ∀ o coin, db o = some coin → coin.isSpent = false
  | c :: cs => c.Valid usage (layersView db cs) ∧ LayersValid db cs

/-- A valid stack. -/
def CoinsStack.Valid (s : CoinsStack) : Prop := LayersValid usage s.db s.layers

end Valid

variable {usage : Coin → ℕ}

/-! ## Views -/

section Views

variable {c : CCoinsViewCache} {below : CoinsMap} {o : COutPoint} {e : CCoinsCacheEntry}

theorem CCoinsViewCache.view_of_lookup_some (h : c.cacheCoins.lookup o = some e) :
    c.view below o = e.view := by
  simp [CCoinsViewCache.view, h]

theorem CCoinsViewCache.view_of_lookup_none (h : c.cacheCoins.lookup o = none) :
    c.view below o = below o := by
  simp [CCoinsViewCache.view, h]

@[simp] theorem layersView_nil (db : CoinsMap) : layersView db [] = db := rfl

@[simp] theorem layersView_cons (db : CoinsMap) (c : CCoinsViewCache) (cs : List CCoinsViewCache) :
    layersView db (c :: cs) = c.view (layersView db cs) := rfl

@[simp] theorem CCoinsViewCache.view_empty (below : CoinsMap) :
    CCoinsViewCache.empty.view below = below := by
  funext o
  rfl

theorem CCoinsViewCache.view_insert (c : CCoinsViewCache) (n : ℕ) (below : CoinsMap)
    (o : COutPoint) (e : CCoinsCacheEntry) :
    (⟨c.cacheCoins.insert o e, n⟩ : CCoinsViewCache).view below =
      Function.update (c.view below) o e.view := by
  funext o'
  by_cases h : o' = o
  · subst h
    simp [CCoinsViewCache.view, AList.lookup_insert]
  · simp [CCoinsViewCache.view, AList.lookup_insert_ne h, h]

theorem CCoinsViewCache.view_erase (c : CCoinsViewCache) (n : ℕ) (below : CoinsMap)
    (o : COutPoint) :
    (⟨c.cacheCoins.erase o, n⟩ : CCoinsViewCache).view below =
      Function.update (c.view below) o (below o) := by
  funext o'
  by_cases h : o' = o
  · subst h
    simp [CCoinsViewCache.view, AList.lookup_erase]
  · simp [CCoinsViewCache.view, AList.lookup_erase_ne h, h]

theorem CCoinsCacheEntry.view_eq_none {e : CCoinsCacheEntry} :
    e.view = none ↔ e.coin.isSpent = true := by
  unfold CCoinsCacheEntry.view
  split <;> simp_all

theorem CCoinsCacheEntry.view_eq_some {e : CCoinsCacheEntry} {coin : Coin} :
    e.view = some coin ↔ e.coin.isSpent = false ∧ e.coin = coin := by
  unfold CCoinsCacheEntry.view
  split <;> simp_all

@[simp] theorem CoinsStack.view_mk (layers : List CCoinsViewCache) (db : CoinsMap) :
    (⟨layers, db⟩ : CoinsStack).view = layersView db layers := rfl

@[simp] theorem CoinsStack.valid_mk (layers : List CCoinsViewCache) (db : CoinsMap) :
    (⟨layers, db⟩ : CoinsStack).Valid usage ↔ LayersValid usage db layers := Iff.rfl

end Views

/-! ## Writing one entry of a layer -/

namespace CCoinsViewCache

variable {c : CCoinsViewCache} {below : CoinsMap}

/-- Writing an entry keeps a layer valid when the entry keeps the flags'
promises and the counter moves with the sum. -/
theorem Valid.insert (hc : c.Valid usage below) {o : COutPoint} {e : CCoinsCacheEntry}
    (hclean : e.dirty = false → below o = e.view) (hfresh : e.fresh = true → below o = none)
    {n : ℕ} (hn : n = (c.cacheCoins.insert o e).sumBy fun _ e => usage e.coin) :
    (⟨c.cacheCoins.insert o e, n⟩ : CCoinsViewCache).Valid usage below := by
  refine ⟨fun o' e' h' hd => ?_, fun o' e' h' hf => ?_, hn⟩
  · by_cases ho : o' = o
    · subst ho
      rw [AList.lookup_insert, Option.some_inj] at h'
      subst h'
      exact hclean hd
    · rw [AList.lookup_insert_ne ho] at h'
      exact hc.clean o' e' h' hd
  · by_cases ho : o' = o
    · subst ho
      rw [AList.lookup_insert, Option.some_inj] at h'
      subst h'
      exact hfresh hf
    · rw [AList.lookup_insert_ne ho] at h'
      exact hc.fresh o' e' h' hf

theorem Valid.erase (hc : c.Valid usage below) (o : COutPoint) {n : ℕ}
    (hn : n = (c.cacheCoins.erase o).sumBy fun _ e => usage e.coin) :
    (⟨c.cacheCoins.erase o, n⟩ : CCoinsViewCache).Valid usage below := by
  refine ⟨fun o' e' h' hd => ?_, fun o' e' h' hf => ?_, hn⟩
  · by_cases ho : o' = o
    · subst ho
      simp [AList.lookup_erase] at h'
    · rw [AList.lookup_erase_ne ho] at h'
      exact hc.clean o' e' h' hd
  · by_cases ho : o' = o
    · subst ho
      simp [AList.lookup_erase] at h'
    · rw [AList.lookup_erase_ne ho] at h'
      exact hc.fresh o' e' h' hf

/-- A layer is valid over any view that agrees with its own view below. -/
theorem Valid.congr (hc : c.Valid usage below) {below' : CoinsMap} (h : below' = below) :
    c.Valid usage below' := h ▸ hc

theorem valid_empty (below : CoinsMap) : CCoinsViewCache.empty.Valid usage below := by
  refine ⟨fun o e h _ => ?_, fun o e h _ => ?_, rfl⟩ <;>
    simp [CCoinsViewCache.empty, AList.lookup_empty] at h

end CCoinsViewCache

/-! ## `FetchCoin` -/

section Fetch

variable {db : CoinsMap}

/-- `FetchCoin` changes no view, keeps every layer valid and returns an entry
showing what the stack shows. -/
theorem fetchCoin_spec {layers : List CCoinsViewCache} (h : LayersValid usage db layers)
    (o : COutPoint) :
    LayersValid usage db (fetchCoin usage db layers o).2 ∧
      layersView db (fetchCoin usage db layers o).2 = layersView db layers ∧
      (fetchCoin usage db layers o).1.bind CCoinsCacheEntry.view = layersView db layers o := by
  induction layers with
  | nil =>
      refine ⟨h, rfl, ?_⟩
      cases hdb : db o with
      | none => simp [fetchCoin, hdb]
      | some coin => simp [fetchCoin, hdb, CCoinsCacheEntry.view, h o coin hdb]
  | cons c cs ih =>
      obtain ⟨hc, hcs⟩ := h
      cases hlook : c.cacheCoins.lookup o with
      | some e =>
          have hr : fetchCoin usage db (c :: cs) o = (some e, c :: cs) := by
            simp [fetchCoin, hlook]
          rw [hr]
          exact ⟨⟨hc, hcs⟩, rfl, by simp [CCoinsViewCache.view_of_lookup_some hlook]⟩
      | none =>
          -- the entry from below, copied up when its coin is unspent
          obtain ⟨hvalid, hview, hentry⟩ := ih hcs
          cases hbelow : fetchCoin usage db cs o with
          | mk r cs' =>
              rw [hbelow] at hvalid hview hentry
              have hc' : c.Valid usage (layersView db cs') := hc.congr hview
              have hnone : r.bind CCoinsCacheEntry.view = none →
                  fetchCoin usage db (c :: cs) o = (none, c :: cs') →
                  LayersValid usage db (fetchCoin usage db (c :: cs) o).2 ∧
                    layersView db (fetchCoin usage db (c :: cs) o).2 = layersView db (c :: cs) ∧
                    (fetchCoin usage db (c :: cs) o).1.bind CCoinsCacheEntry.view =
                      layersView db (c :: cs) o := by
                intro hr0 hr
                rw [hr]
                refine ⟨⟨hc', hvalid⟩, by simp [hview], ?_⟩
                simp [CCoinsViewCache.view_of_lookup_none hlook, ← hentry, hr0]
              cases r with
              | none => exact hnone rfl (by simp [fetchCoin, hlook, hbelow])
              | some e =>
                  by_cases hspent : e.coin.isSpent = true
                  · exact hnone (CCoinsCacheEntry.view_eq_none.mpr hspent)
                      (by simp [fetchCoin, hlook, hbelow, hspent])
                  have hshow : layersView db cs o = some e.coin := by
                    simp [← hentry, CCoinsCacheEntry.view, hspent]
                  have hcopy : (⟨e.coin, false, false⟩ : CCoinsCacheEntry).view = some e.coin := by
                    simp [CCoinsCacheEntry.view, hspent]
                  have hr : fetchCoin usage db (c :: cs) o = (some ⟨e.coin, false, false⟩,
                      ⟨c.cacheCoins.insert o ⟨e.coin, false, false⟩, c.cachedCoinsUsage + usage e.coin⟩
                        :: cs') := by
                    simp [fetchCoin, hlook, hbelow, hspent]
                  rw [hr]
                  refine ⟨⟨hc'.insert (fun _ => by rw [hview, hshow, hcopy]) (fun h => by cases h)
                    ?_, hvalid⟩, ?_, by simp [CCoinsViewCache.view_of_lookup_none hlook, hshow, hcopy]⟩
                  · rw [AList.sumBy_insert_of_lookup_eq_none _ hlook, hc.usage]
                  · -- the copy shows what the layers below showed
                    rw [layersView_cons, layersView_cons, CCoinsViewCache.view_insert, hview, hcopy]
                    funext o'
                    by_cases ho : o' = o
                    · subst ho
                      simp [CCoinsViewCache.view_of_lookup_none hlook, hshow]
                    · simp [ho, CCoinsViewCache.view]

/-- After `FetchCoin` the top layer holds the entry it returned. -/
theorem fetchCoin_top (c : CCoinsViewCache) (cs : List CCoinsViewCache) (o : COutPoint) :
    ∃ c' cs', (fetchCoin usage db (c :: cs) o).2 = c' :: cs' ∧
      (fetchCoin usage db (c :: cs) o).1 = c'.cacheCoins.lookup o := by
  cases hlook : c.cacheCoins.lookup o with
  | some e => exact ⟨c, cs, by simp [fetchCoin, hlook], by simp [fetchCoin, hlook]⟩
  | none =>
      cases hbelow : fetchCoin usage db cs o with
      | mk r cs' =>
          cases r with
          | none => exact ⟨c, cs', by simp [fetchCoin, hlook, hbelow], by simp [fetchCoin, hlook, hbelow]⟩
          | some e =>
              by_cases hspent : e.coin.isSpent = true
              · exact ⟨c, cs', by simp [fetchCoin, hlook, hbelow, hspent],
                  by simp [fetchCoin, hlook, hbelow, hspent]⟩
              · exact ⟨⟨c.cacheCoins.insert o ⟨e.coin, false, false⟩, c.cachedCoinsUsage + usage e.coin⟩,
                  cs', by simp [fetchCoin, hlook, hbelow, hspent],
                  by simp [fetchCoin, hlook, hbelow, hspent, AList.lookup_insert]⟩

/-- `FetchCoin` over a top layer: the entry it returns is the entry of the new
top layer, and the new layers are valid and show what the old ones showed. -/
theorem fetchCoin_cons_spec {c : CCoinsViewCache} {cs : List CCoinsViewCache}
    (h : LayersValid usage db (c :: cs)) (o : COutPoint) :
    ∃ c' cs', fetchCoin usage db (c :: cs) o = (c'.cacheCoins.lookup o, c' :: cs') ∧
      LayersValid usage db (c' :: cs') ∧ layersView db (c' :: cs') = layersView db (c :: cs) ∧
      (c'.cacheCoins.lookup o).bind CCoinsCacheEntry.view = layersView db (c :: cs) o := by
  obtain ⟨hvalid, hview, hentry⟩ := fetchCoin_spec h o
  obtain ⟨c', cs', htop, hfound⟩ := @fetchCoin_top usage db c cs o
  rw [htop] at hvalid hview
  rw [hfound] at hentry
  exact ⟨c', cs', Prod.ext hfound htop, hvalid, hview, hentry⟩

theorem fetchCoin_ne_nil {layers : List CCoinsViewCache} (hl : layers ≠ []) (o : COutPoint) :
    (fetchCoin usage db layers o).2 ≠ [] := by
  obtain ⟨c, cs, rfl⟩ := List.exists_cons_of_ne_nil hl
  obtain ⟨c', cs', htop, -⟩ := @fetchCoin_top usage db c cs o
  rw [htop]
  exact List.cons_ne_nil _ _

end Fetch

/-! ## The operations of the top layer -/

section Entries

variable (r : Option CCoinsCacheEntry)

/-- What `HaveCoin` returns of a fetched entry. -/
theorem any_not_isSpent_eq_isSome :
    (r.any fun e => !e.coin.isSpent) = (r.bind CCoinsCacheEntry.view).isSome := by
  cases r with
  | none => rfl
  | some e => cases hs : e.coin.isSpent <;> simp [CCoinsCacheEntry.view, hs]

/-- What `AccessCoin` returns of a fetched entry: its coin when that coin is
unspent, and an unspent coin only as the entry's. -/
theorem accessed_coin_of_view :
    (((r.map CCoinsCacheEntry.coin).getD Coin.empty).isSpent = false →
        r.bind CCoinsCacheEntry.view = some ((r.map CCoinsCacheEntry.coin).getD Coin.empty)) ∧
      ∀ coin, r.bind CCoinsCacheEntry.view = some coin →
        (r.map CCoinsCacheEntry.coin).getD Coin.empty = coin := by
  cases r with
  | none => simp
  | some e => simp [CCoinsCacheEntry.view_eq_some]

end Entries

namespace CoinsStack

variable {s : CoinsStack}

theorem getCoin_spec (h : s.Valid usage) (o : COutPoint) :
    (s.getCoin usage o).1 = s.view o ∧ (s.getCoin usage o).2.Valid usage ∧
      (s.getCoin usage o).2.view = s.view := by
  obtain ⟨hvalid, hview, hentry⟩ := fetchCoin_spec h o
  exact ⟨hentry, hvalid, hview⟩

theorem haveCoin_spec (h : s.Valid usage) (o : COutPoint) :
    (s.haveCoin usage o).1 = (s.view o).isSome ∧ (s.haveCoin usage o).2.Valid usage ∧
      (s.haveCoin usage o).2.view = s.view := by
  obtain ⟨hvalid, hview, hentry⟩ := fetchCoin_spec h o
  refine ⟨?_, hvalid, hview⟩
  simp only [haveCoin, any_not_isSpent_eq_isSome, hentry]
  rfl

/-- `AccessCoin` returns the unspent coin the stack shows, and a spent coin
where it shows none. -/
theorem accessCoin_spec (h : s.Valid usage) (o : COutPoint) :
    ((s.accessCoin usage o).1.isSpent = false → s.view o = some (s.accessCoin usage o).1) ∧
      (∀ coin, s.view o = some coin → (s.accessCoin usage o).1 = coin) ∧
      (s.accessCoin usage o).2.Valid usage ∧ (s.accessCoin usage o).2.view = s.view := by
  obtain ⟨hvalid, hview, hentry⟩ := fetchCoin_spec h o
  obtain ⟨hunspent, hcoin⟩ := accessed_coin_of_view (fetchCoin usage s.db s.layers o).1
  rw [hentry] at hunspent hcoin
  exact ⟨hunspent, hcoin, hvalid, hview⟩

/-- `SpendCoin` takes the coin out of what the stack shows and returns it. -/
theorem spendCoin_spec (h : s.Valid usage) (hl : s.layers ≠ []) (hu : usage Coin.empty = 0)
    (o : COutPoint) :
    (s.spendCoin usage o).2.Valid usage ∧ (s.spendCoin usage o).2.layers ≠ [] ∧
      (s.spendCoin usage o).2.view = Function.update s.view o none ∧
      ∀ coin, s.view o = some coin → (s.spendCoin usage o).1 = some coin := by
  obtain ⟨_ | ⟨c, cs⟩, db⟩ := s
  · exact absurd rfl hl
  rw [valid_mk] at h
  obtain ⟨c', cs', hr, ⟨hc', hcs'⟩, hview, hentry⟩ := fetchCoin_cons_spec h o
  simp only [view_mk]
  cases hlook : c'.cacheCoins.lookup o with
  | none =>
      -- nothing to spend: the stack shows no coin there
      have hnone : layersView db (c :: cs) o = none := by rw [← hentry, hlook]; rfl
      have hs : spendCoin usage ⟨c :: cs, db⟩ o = (none, ⟨c' :: cs', db⟩) := by
        simp [spendCoin, hr, hlook]
      rw [hs]
      refine ⟨⟨hc', hcs'⟩, List.cons_ne_nil _ _, ?_, fun coin h => by simp [hnone] at h⟩
      rw [view_mk, hview]
      exact (Function.update_eq_self_iff.mpr hnone.symm).symm
  | some e =>
      have hshow : layersView db (c :: cs) o = e.view := by rw [← hentry, hlook]; rfl
      have hreturn : ∀ coin, layersView db (c :: cs) o = some coin → some e.coin = some coin := by
        intro coin h
        rw [hshow, CCoinsCacheEntry.view_eq_some] at h
        rw [h.2]
      have hcount := hc'.usage
      have hsum := AList.sumBy_erase_add (f := fun _ e => usage e.coin) hlook
      by_cases hfresh : e.fresh = true
      · -- a `FRESH` entry is dropped: there is no unspent coin below it
        have hs : spendCoin usage ⟨c :: cs, db⟩ o = (some e.coin,
            ⟨⟨c'.cacheCoins.erase o, c'.cachedCoinsUsage - usage e.coin⟩ :: cs', db⟩) := by
          simp [spendCoin, hr, hlook, hfresh]
        rw [hs]
        refine ⟨⟨hc'.erase o (by omega), hcs'⟩, List.cons_ne_nil _ _, ?_, hreturn⟩
        rw [view_mk, layersView_cons, CCoinsViewCache.view_erase, hc'.fresh o e hlook hfresh,
          ← layersView_cons, hview]
      · -- any other entry is cleared and marked dirty
        have hs : spendCoin usage ⟨c :: cs, db⟩ o = (some e.coin,
            ⟨⟨c'.cacheCoins.insert o ⟨Coin.empty, true, false⟩, c'.cachedCoinsUsage - usage e.coin⟩
              :: cs', db⟩) := by
          simp [spendCoin, hr, hlook, hfresh]
        rw [hs]
        have hcleared : (⟨Coin.empty, true, false⟩ : CCoinsCacheEntry).view = none :=
          CCoinsCacheEntry.view_eq_none.mpr Coin.isSpent_empty
        refine ⟨⟨hc'.insert (fun h => by cases h) (fun h => by cases h) ?_, hcs'⟩,
          List.cons_ne_nil _ _, ?_, hreturn⟩
        · rw [AList.sumBy_insert]
          simp only [hu]
          omega
        · rw [view_mk, layersView_cons, CCoinsViewCache.view_insert, hcleared, ← layersView_cons,
            hview]

/-- `AddCoin` of an unspent coin, without `possible_overwrite` only where no
coin shows, succeeds and writes the coin where the stack shows it, unless its
script is unspendable. -/
theorem addCoin_spec (h : s.Valid usage) (hl : s.layers ≠ []) {o : COutPoint} {coin : Coin}
    {possibleOverwrite : Bool} (hcoin : coin.isSpent = false)
    (hp : possibleOverwrite = false → isUnspendable coin.out.scriptPubKey = false → s.view o = none) :
    ∃ s', s.addCoin usage o coin possibleOverwrite = .ok s' ∧ s'.Valid usage ∧ s'.layers ≠ [] ∧
      s'.view = if isUnspendable coin.out.scriptPubKey then s.view
        else Function.update s.view o (some coin) := by
  obtain ⟨_ | ⟨c, cs⟩, db⟩ := s
  · exact absurd rfl hl
  obtain ⟨hc, hcs⟩ := h
  by_cases hun : isUnspendable coin.out.scriptPubKey = true
  · exact ⟨⟨c :: cs, db⟩, by simp [addCoin, hcoin, hun], ⟨hc, hcs⟩, hl, by simp [hun]⟩
  have hshows : ∀ fresh, (⟨coin, true, fresh⟩ : CCoinsCacheEntry).view = some coin := fun _ =>
    CCoinsCacheEntry.view_eq_some.mpr ⟨hcoin, rfl⟩
  simp only [hun, Bool.false_eq_true, if_false, view_mk]
  cases hlook : c.cacheCoins.lookup o with
  | none =>
      -- a new entry, `FRESH` without `possible_overwrite`
      have hbelow : possibleOverwrite = false → layersView db cs o = none := fun hp0 => by
        simpa [CCoinsViewCache.view_of_lookup_none hlook] using hp hp0 (by simpa using hun)
      have hr : addCoin usage ⟨c :: cs, db⟩ o coin possibleOverwrite = .ok
          ⟨⟨c.cacheCoins.insert o ⟨coin, true, !possibleOverwrite⟩, c.cachedCoinsUsage + usage coin⟩
            :: cs, db⟩ := by
        simp [addCoin, hcoin, hun, hlook]
      refine ⟨_, hr, ⟨hc.insert (fun h => by cases h) (fun hf => hbelow (by simpa using hf)) ?_,
        hcs⟩, List.cons_ne_nil _ _, ?_⟩
      · rw [AList.sumBy_insert_of_lookup_eq_none _ hlook, hc.usage]
      · rw [view_mk, layersView_cons, CCoinsViewCache.view_insert, hshows, layersView_cons]
  | some old =>
      -- without `possible_overwrite` the entry there shows no coin
      have hold : possibleOverwrite = false → old.coin.isSpent = true := fun hp0 => by
        have hnone := hp hp0 (by simpa using hun)
        rw [view_mk, layersView_cons, CCoinsViewCache.view_of_lookup_some hlook] at hnone
        exact CCoinsCacheEntry.view_eq_none.mp hnone
      have hnothrow : (!possibleOverwrite && !old.coin.isSpent) = false := by
        cases possibleOverwrite <;> simp_all
      have hr : addCoin usage ⟨c :: cs, db⟩ o coin possibleOverwrite = .ok
          ⟨⟨c.cacheCoins.insert o ⟨coin, true, old.fresh || (!possibleOverwrite && !old.dirty)⟩,
            c.cachedCoinsUsage - usage old.coin + usage coin⟩ :: cs, db⟩ := by
        simp only [addCoin, hcoin, hun, hlook, hnothrow, Option.isSome_some, Option.getD_some]
        rfl
      have hsum := AList.sumBy_insert_add (f := fun _ e => usage e.coin)
        (b := ⟨coin, true, old.fresh || (!possibleOverwrite && !old.dirty)⟩) hlook
      have herase := AList.sumBy_erase_add (f := fun _ e => usage e.coin) hlook
      have hcount := hc.usage
      refine ⟨_, hr, ⟨hc.insert (fun h => by cases h) (fun hf => ?_) (by simp only at hsum ⊢; omega),
        hcs⟩, List.cons_ne_nil _ _, ?_⟩
      · -- the entry stays `FRESH`, or becomes so over a clean entry of a spent coin
        rcases Bool.or_eq_true_iff.mp hf with hf | hf
        · exact hc.fresh o old hlook hf
        · simp only [Bool.and_eq_true, Bool.not_eq_eq_eq_not, Bool.not_true] at hf
          rw [hc.clean o old hlook hf.2]
          exact CCoinsCacheEntry.view_eq_none.mpr (hold hf.1)
      · rw [view_mk, layersView_cons, CCoinsViewCache.view_insert, hshows, layersView_cons]

end CoinsStack

/-! ## `Uncache` -/

/-- `Uncache` drops only a clean entry, which shows what is below it. -/
theorem CCoinsViewCache.uncache_spec {c : CCoinsViewCache} {below : CoinsMap}
    (hc : c.Valid usage below) (o : COutPoint) :
    (c.uncache usage o).Valid usage below ∧ (c.uncache usage o).view below = c.view below := by
  unfold CCoinsViewCache.uncache
  cases hlook : c.cacheCoins.lookup o with
  | none => exact ⟨hc, rfl⟩
  | some e =>
      by_cases hflags : e.dirty = false ∧ e.fresh = false
      · have herase := AList.sumBy_erase_add (f := fun _ e => usage e.coin) hlook
        have hcount := hc.usage
        simp only [hflags.1, hflags.2, Bool.not_false, Bool.and_self, if_true]
        refine ⟨hc.erase o (by omega), ?_⟩
        rw [CCoinsViewCache.view_erase, hc.clean o e hlook hflags.1,
          ← CCoinsViewCache.view_of_lookup_some hlook, Function.update_eq_self]
      · have hkeep : (!e.dirty && !e.fresh) = false := by
          cases hd : e.dirty <;> cases hf : e.fresh <;> simp_all
        simp only [hkeep]
        exact ⟨hc, rfl⟩

theorem uncacheAt_spec {db : CoinsMap} (o : COutPoint) :
    ∀ (j : ℕ) (layers : List CCoinsViewCache), LayersValid usage db layers →
      LayersValid usage db (uncacheAt usage o j layers) ∧
        layersView db (uncacheAt usage o j layers) = layersView db layers ∧
        (uncacheAt usage o j layers).length = layers.length
  | j, [], h => by simpa using h
  | 0, c :: cs, h => by
      obtain ⟨hc, hcs⟩ := h
      obtain ⟨hv, hview⟩ := CCoinsViewCache.uncache_spec hc o
      exact ⟨⟨hv, hcs⟩, by simp [uncacheAt, hview], rfl⟩
  | j + 1, c :: cs, h => by
      obtain ⟨hc, hcs⟩ := h
      obtain ⟨hv, hview, hlen⟩ := uncacheAt_spec o j cs hcs
      exact ⟨⟨hc.congr hview, hv⟩, by simp [uncacheAt, hview], by simp [uncacheAt, hlen]⟩

/-! ## `BatchWrite` and `Flush` -/

namespace CCoinsViewCache

theorem view_eq_getD (c : CCoinsViewCache) (below : CoinsMap) (o : COutPoint) :
    c.view below o = ((c.cacheCoins.lookup o).map CCoinsCacheEntry.view).getD (below o) := by
  cases hlook : c.cacheCoins.lookup o <;> simp [view, hlook]

/-- A layer over a view of unspent coins shows only unspent coins. -/
theorem view_isSpent_eq_false {c : CCoinsViewCache} {below : CoinsMap}
    (hbelow : ∀ o coin, below o = some coin → coin.isSpent = false) :
    ∀ o coin, c.view below o = some coin → coin.isSpent = false := by
  intro o coin h
  cases hlook : c.cacheCoins.lookup o with
  | none => exact hbelow o coin (by rwa [view_of_lookup_none hlook] at h)
  | some e =>
      rw [view_of_lookup_some hlook, CCoinsCacheEntry.view_eq_some] at h
      exact h.2 ▸ h.1

variable {p : CCoinsViewCache} {vb : CoinsMap}

/-- One child entry written into a valid parent: a dirty entry becomes what the
parent shows, and the `FRESH` promise of the child rules out the
`std::logic_error`. -/
theorem batchWriteEntry_spec (hp : p.Valid usage vb) {o : COutPoint} {ce : CCoinsCacheEntry}
    (hfresh : ce.fresh = true → p.view vb o = none) :
    ∃ p', p.batchWriteEntry usage o ce = .ok p' ∧ p'.Valid usage vb ∧
      p'.view vb = if ce.dirty then Function.update (p.view vb) o ce.view else p.view vb := by
  cases hd : ce.dirty
  · exact ⟨p, by simp [batchWriteEntry, hd], hp, rfl⟩
  have hmoved : ∀ fresh, (⟨ce.coin, true, fresh⟩ : CCoinsCacheEntry).view = ce.view := fun _ => rfl
  have hcount := hp.usage
  simp only [if_true]
  cases hlook : p.cacheCoins.lookup o with
  | none =>
      have hvb : p.view vb o = vb o := view_of_lookup_none hlook
      by_cases hskip : ce.fresh = true ∧ ce.coin.isSpent = true
      · -- a `FRESH` spent entry over nothing: the parent already shows nothing
        refine ⟨p, by simp [batchWriteEntry, hd, hlook, hskip.1, hskip.2], hp, ?_⟩
        rw [CCoinsCacheEntry.view_eq_none.mpr hskip.2, ← hfresh hskip.1, Function.update_eq_self]
      · have hw : (ce.fresh && ce.coin.isSpent) = false := by
          cases hf : ce.fresh <;> cases hs : ce.coin.isSpent <;> simp_all
        have hr : p.batchWriteEntry usage o ce = .ok
            ⟨p.cacheCoins.insert o ⟨ce.coin, true, ce.fresh⟩, p.cachedCoinsUsage + usage ce.coin⟩ := by
          simp [batchWriteEntry, hd, hlook, hw]
        refine ⟨_, hr, hp.insert (fun h => by cases h) (fun hf => hvb ▸ hfresh hf) ?_, ?_⟩
        · rw [AList.sumBy_insert_of_lookup_eq_none _ hlook, hcount]
        · rw [view_insert, hmoved]
  | some pe =>
      have hpview : p.view vb o = pe.view := view_of_lookup_some hlook
      -- a `FRESH` child entry is over a parent entry of a spent coin
      have hnothrow : (ce.fresh && !pe.coin.isSpent) = false := by
        cases hf : ce.fresh
        · rfl
        · simp [CCoinsCacheEntry.view_eq_none.mp (hpview ▸ hfresh hf)]
      have herase := AList.sumBy_erase_add (f := fun _ e => usage e.coin) hlook
      by_cases hprune : pe.fresh = true ∧ ce.coin.isSpent = true
      · -- nothing below the parent's `FRESH` entry: it is dropped
        have hr : p.batchWriteEntry usage o ce = .ok
            ⟨p.cacheCoins.erase o, p.cachedCoinsUsage - usage pe.coin⟩ := by
          simp [batchWriteEntry, hd, hlook, hnothrow, hprune.1, hprune.2]
        refine ⟨_, hr, hp.erase o (by omega), ?_⟩
        rw [view_erase, hp.fresh o pe hlook hprune.1, CCoinsCacheEntry.view_eq_none.mpr hprune.2]
      · have hw : (pe.fresh && ce.coin.isSpent) = false := by
          cases hf : pe.fresh <;> cases hs : ce.coin.isSpent <;> simp_all
        have hr : p.batchWriteEntry usage o ce = .ok ⟨p.cacheCoins.insert o ⟨ce.coin, true, pe.fresh⟩,
            p.cachedCoinsUsage - usage pe.coin + usage ce.coin⟩ := by
          simp [batchWriteEntry, hd, hlook, hnothrow, hw]
        have hsum := AList.sumBy_insert_add (f := fun _ e => usage e.coin)
          (b := ⟨ce.coin, true, pe.fresh⟩) hlook
        refine ⟨_, hr, hp.insert (e := ⟨ce.coin, true, pe.fresh⟩) (fun h => by cases h)
          (fun hf => hp.fresh o pe hlook hf) (by simp only at hsum ⊢; omega), ?_⟩
        rw [view_insert, hmoved]

/-- The entries of a child written one by one: where the child has an entry
the parent shows it, elsewhere what it showed before. The child's promises,
relative to what the parent shows, carry the induction. -/
theorem foldlM_batchWriteEntry_spec :
    ∀ (es : List (Σ _ : COutPoint, CCoinsCacheEntry)) {p : CCoinsViewCache}, es.NodupKeys →
      p.Valid usage vb →
      (∀ o ce, es.dlookup o = some ce → ce.fresh = true → p.view vb o = none) →
      (∀ o ce, es.dlookup o = some ce → ce.dirty = false → p.view vb o = ce.view) →
      ∃ p', es.foldlM (fun p e => p.batchWriteEntry usage e.1 e.2) p = .ok p' ∧
        p'.Valid usage vb ∧
        ∀ o, p'.view vb o = ((es.dlookup o).map CCoinsCacheEntry.view).getD (p.view vb o)
  | [], p, _, hp, _, _ => ⟨p, rfl, hp, fun o => rfl⟩
  | ⟨a, b⟩ :: es, p, hnd, hp, hfresh, hclean => by
      rw [List.nodupKeys_cons] at hnd
      have hhead := List.dlookup_cons_eq es a b
      have htail : ∀ o, o ≠ a → List.dlookup o (⟨a, b⟩ :: es) = es.dlookup o :=
        fun o hne => List.dlookup_cons_ne es ⟨a, b⟩ hne
      have hnotin : es.dlookup a = none := List.dlookup_eq_none.mpr hnd.1
      obtain ⟨p1, h1, hp1, hview1⟩ := batchWriteEntry_spec hp (hfresh a b hhead)
      -- the first write changes only what the parent shows at `a`
      have hkeep : ∀ o, o ≠ a → p1.view vb o = p.view vb o := by
        intro o hne
        rw [hview1]
        split <;> simp [Function.update_of_ne hne]
      have hne : ∀ o ce, es.dlookup o = some ce → o ≠ a := by
        rintro o ce h rfl
        simp [hnotin] at h
      obtain ⟨p', h', hp', hview'⟩ := foldlM_batchWriteEntry_spec es hnd.2 hp1
        (fun o ce h hf => by rw [hkeep o (hne o ce h)]; exact hfresh o ce (by rw [htail o (hne o ce h)]; exact h) hf)
        (fun o ce h hd => by rw [hkeep o (hne o ce h)]; exact hclean o ce (by rw [htail o (hne o ce h)]; exact h) hd)
      refine ⟨p', by rw [List.foldlM_cons, h1]; exact h', hp', fun o => ?_⟩
      rw [hview' o]
      by_cases hoa : o = a
      · subst hoa
        -- a clean entry already showed what the parent shows
        rw [hnotin, hhead, hview1]
        cases hd : b.dirty
        · exact hclean o b hhead hd
        · simp
      · rw [htail o hoa, hkeep o hoa]

/-- `BatchWrite` of a child valid over its parent leaves the parent showing what
the child showed. -/
theorem batchWrite_spec (hp : p.Valid usage vb) {c : CCoinsViewCache}
    (hc : c.Valid usage (p.view vb)) :
    ∃ p', p.batchWrite usage c.cacheCoins = .ok p' ∧ p'.Valid usage vb ∧
      p'.view vb = c.view (p.view vb) := by
  obtain ⟨p', h, hp', hview⟩ := foldlM_batchWriteEntry_spec c.cacheCoins.entries
    c.cacheCoins.nodupKeys hp (fun o ce h hf => hc.fresh o ce h hf)
    (fun o ce h hd => hc.clean o ce h hd)
  exact ⟨p', h, hp', funext fun o => by rw [hview, view_eq_getD c]; rfl⟩

end CCoinsViewCache

/-- The database written with a child's entries. -/
theorem foldl_dbBatchWrite :
    ∀ (es : List (Σ _ : COutPoint, CCoinsCacheEntry)) (db : CoinsMap), es.NodupKeys →
      (∀ o ce, es.dlookup o = some ce → ce.dirty = false → db o = ce.view) →
      ∀ o, es.foldl (fun db e => if e.2.dirty then Function.update db e.1 e.2.view else db) db o =
        ((es.dlookup o).map CCoinsCacheEntry.view).getD (db o)
  | [], _, _, _, _ => rfl
  | ⟨a, b⟩ :: es, db, hnd, hclean, o => by
      rw [List.nodupKeys_cons] at hnd
      have hhead := List.dlookup_cons_eq es a b
      have hnotin : es.dlookup a = none := List.dlookup_eq_none.mpr hnd.1
      have hne : ∀ o ce, es.dlookup o = some ce → o ≠ a := by
        rintro o ce h rfl
        simp [hnotin] at h
      -- the first write changes the database at `a` only
      set db1 := if b.dirty then Function.update db a b.view else db with hdb1
      have hkeep : ∀ o, o ≠ a → db1 o = db o := by
        intro o hne
        rw [hdb1]
        split <;> simp [Function.update_of_ne hne]
      rw [List.foldl_cons]
      rw [foldl_dbBatchWrite es db1 hnd.2 (fun o ce h hd => by
        rw [hkeep o (hne o ce h)]
        exact hclean o ce (by rw [List.dlookup_cons_ne es ⟨a, b⟩ (hne o ce h)]; exact h) hd) o]
      by_cases hoa : o = a
      · subst hoa
        rw [hnotin, hhead, hdb1]
        cases hd : b.dirty
        · exact hclean o b hhead hd
        · simp
      · rw [List.dlookup_cons_ne es ⟨a, b⟩ hoa, hkeep o hoa]

/-- `CCoinsViewDB::BatchWrite` of a layer valid over the database stores what
the layer showed. -/
theorem dbBatchWrite_eq_view {db : CoinsMap} {c : CCoinsViewCache} (hc : c.Valid usage db) :
    dbBatchWrite db c.cacheCoins = c.view db := by
  funext o
  rw [dbBatchWrite, foldl_dbBatchWrite c.cacheCoins.entries db c.cacheCoins.nodupKeys
    (fun o ce h hd => hc.clean o ce h hd), CCoinsViewCache.view_eq_getD]
  rfl

theorem flushTop_spec {db : CoinsMap} {layers : List CCoinsViewCache}
    (h : LayersValid usage db layers) :
    ∃ layers' db', flushTop usage layers db = .ok (layers', db') ∧ LayersValid usage db' layers' ∧
      layersView db' layers' = layersView db layers ∧ layers'.length = layers.length ∧
      ∀ c cs, layers = c :: cs → ∃ cs', layers' = CCoinsViewCache.empty :: cs' := by
  match layers, h with
  | [], h => exact ⟨[], db, rfl, h, rfl, rfl, fun c cs h => nomatch h⟩
  | [c], ⟨hc, hdb⟩ =>
      -- the bottom layer is written into the database
      have hdb' : dbBatchWrite db c.cacheCoins = c.view db := dbBatchWrite_eq_view hc
      refine ⟨[CCoinsViewCache.empty], dbBatchWrite db c.cacheCoins, rfl,
        ⟨CCoinsViewCache.valid_empty _, ?_⟩, by simp [hdb'], rfl, fun _ _ _ => ⟨[], rfl⟩⟩
      rw [hdb']
      exact CCoinsViewCache.view_isSpent_eq_false hdb
  | c :: p :: cs, ⟨hc, hp, hcs⟩ =>
      obtain ⟨p', hw, hp', hview⟩ := CCoinsViewCache.batchWrite_spec hp hc
      refine ⟨CCoinsViewCache.empty :: p' :: cs, db, by simp [flushTop, hw],
        ⟨CCoinsViewCache.valid_empty _, hp', hcs⟩, ?_, rfl, fun _ _ _ => ⟨_, rfl⟩⟩
      simp only [layersView_cons, CCoinsViewCache.view_empty]
      exact hview

theorem flushAt_spec {db : CoinsMap} :
    ∀ (j : ℕ) {layers : List CCoinsViewCache}, LayersValid usage db layers →
      ∃ layers' db', flushAt usage j layers db = .ok (layers', db') ∧
        LayersValid usage db' layers' ∧ layersView db' layers' = layersView db layers ∧
        layers'.length = layers.length
  | 0, _, h =>
      let ⟨layers', db', hr, hv, hview, hlen, _⟩ := flushTop_spec h
      ⟨layers', db', hr, hv, hview, hlen⟩
  | _ + 1, [], h => ⟨[], db, rfl, h, rfl, rfl⟩
  | j + 1, c :: cs, h => by
      obtain ⟨hc, hcs⟩ := h
      obtain ⟨cs', db', hr, hv, hview, hlen⟩ := flushAt_spec j hcs
      exact ⟨c :: cs', db', by simp [flushAt, hr], ⟨hc.congr hview, hv⟩, by simp [hview],
        by simp [hlen]⟩

/-! ## Runs -/

/-- What an `AddCoin` that the map allows does to the map. -/
theorem CoinsOp.onMap_addCoin {m m' : CoinsMap} {o : COutPoint} {coin : Coin}
    {possibleOverwrite : Bool} (h : (CoinsOp.addCoin o coin possibleOverwrite).onMap m = some m') :
    coin.isSpent = false ∧
      (possibleOverwrite = false → isUnspendable coin.out.scriptPubKey = false → m o = none) ∧
      m' = if isUnspendable coin.out.scriptPubKey then m else Function.update m o (some coin) := by
  simp only [CoinsOp.onMap] at h
  split at h
  · cases h
  rename_i hs
  refine ⟨by simpa using hs, ?_⟩
  split at h
  · rename_i hun
    exact ⟨fun _ h' => absurd hun (by simp [h']), by simp [hun, (Option.some_inj.mp h).symm]⟩
  · rename_i hun
    split at h
    · cases h
    · rename_i hover
      refine ⟨fun hp _ => by simpa [hp] using hover, by simp [hun, (Option.some_inj.mp h).symm]⟩

theorem CoinsOp.runOnMap_cons {m m' : CoinsMap} {op : CoinsOp} {ops : List CoinsOp}
    (h : CoinsOp.runOnMap m (op :: ops) = some m') :
    ∃ m1, op.onMap m = some m1 ∧ CoinsOp.runOnMap m1 ops = some m' := by
  simp only [CoinsOp.runOnMap, List.foldlM_cons] at h
  exact Option.bind_eq_some_iff.mp h

namespace CoinsStack

variable {s : CoinsStack}

/-- One operation the map allows keeps the stack valid and moves what it shows
as it moves the map. -/
theorem step_spec (h : s.Valid usage) (hl : s.layers ≠ []) (hu : usage Coin.empty = 0)
    {op : CoinsOp} {m : CoinsMap} (hm : op.onMap s.view = some m) :
    ∃ s', s.step usage op = .ok s' ∧ s'.Valid usage ∧ s'.layers ≠ [] ∧ s'.view = m := by
  cases op with
  | addCoin o coin possibleOverwrite =>
      obtain ⟨hcoin, hp, rfl⟩ := CoinsOp.onMap_addCoin hm
      exact addCoin_spec h hl hcoin hp
  | spendCoin o =>
      obtain ⟨hv, hl', hview, -⟩ := spendCoin_spec h hl hu o
      exact ⟨_, rfl, hv, hl', hview.trans (Option.some_inj.mp hm)⟩
  | getCoin o =>
      obtain ⟨-, hv, hview⟩ := getCoin_spec h o
      exact ⟨_, rfl, hv, fetchCoin_ne_nil hl o, hview.trans (Option.some_inj.mp hm)⟩
  | haveCoin o =>
      obtain ⟨-, hv, hview⟩ := haveCoin_spec h o
      exact ⟨_, rfl, hv, fetchCoin_ne_nil hl o, hview.trans (Option.some_inj.mp hm)⟩
  | accessCoin o =>
      obtain ⟨-, -, hv, hview⟩ := accessCoin_spec h o
      exact ⟨_, rfl, hv, fetchCoin_ne_nil hl o, hview.trans (Option.some_inj.mp hm)⟩
  | uncache j o =>
      obtain ⟨hv, hview, hlen⟩ := uncacheAt_spec o j s.layers h
      refine ⟨_, rfl, hv, ?_, hview.trans (Option.some_inj.mp hm)⟩
      rw [← List.length_pos_iff, hlen, List.length_pos_iff]
      exact hl
  | flush j =>
      obtain ⟨layers', db', hr, hv, hview, hlen⟩ := flushAt_spec j h
      refine ⟨⟨layers', db'⟩, by simp [step, hr], hv, ?_, hview.trans (Option.some_inj.mp hm)⟩
      rw [← List.length_pos_iff, hlen, List.length_pos_iff]
      exact hl
  | push =>
      exact ⟨_, rfl, ⟨CCoinsViewCache.valid_empty _, h⟩, List.cons_ne_nil _ _,
        by simpa [CoinsStack.view] using Option.some_inj.mp hm⟩
  | pop =>
      -- the top is flushed, then dropped when a layer is left below it
      obtain ⟨c, cs, hcs⟩ := List.exists_cons_of_ne_nil hl
      obtain ⟨layers', db', hr, hv, hview, -, hshape⟩ := flushTop_spec h
      obtain ⟨cs', rfl⟩ := hshape c cs hcs
      simp only [layersView_cons, CCoinsViewCache.view_empty] at hview
      have hm' : layersView db' cs' = m := hview.trans (Option.some_inj.mp hm)
      cases cs' with
      | nil => exact ⟨⟨[CCoinsViewCache.empty], db'⟩, by rw [step, hr]; rfl, hv,
          List.cons_ne_nil _ _, by simpa using hm'⟩
      | cons p cs'' => exact ⟨⟨p :: cs'', db'⟩, by rw [step, hr]; rfl, hv.2, List.cons_ne_nil _ _, hm'⟩

/-- A run of operations that the map allows: the stack stays valid, has a
top layer, and shows the map. -/
theorem run_spec (hu : usage Coin.empty = 0) :
    ∀ (ops : List CoinsOp) {s : CoinsStack} {m : CoinsMap}, s.Valid usage → s.layers ≠ [] →
      CoinsOp.runOnMap s.view ops = some m →
      ∃ s', s.run usage ops = .ok s' ∧ s'.Valid usage ∧ s'.layers ≠ [] ∧ s'.view = m
  | [], s, _, h, hl, hm => ⟨s, rfl, h, hl, Option.some_inj.mp hm⟩
  | op :: ops, s, _, h, hl, hm => by
      obtain ⟨m1, h1, hrest⟩ := CoinsOp.runOnMap_cons hm
      obtain ⟨s1, hs1, hv1, hl1, rfl⟩ := step_spec h hl hu h1
      obtain ⟨s', hs', hv', hl', hview'⟩ := run_spec hu ops hv1 hl1 hrest
      exact ⟨s', by rw [run, List.foldlM_cons, hs1]; exact hs', hv', hl', hview'⟩

end CoinsStack

/-! ## What a valid stack keeps -/

/-- A `FRESH` entry of any layer has no unspent coin in the view below it. -/
theorem LayersValid.fresh_below {db : CoinsMap} :
    ∀ {pre : List CCoinsViewCache} {c : CCoinsViewCache} {post : List CCoinsViewCache},
      LayersValid usage db (pre ++ c :: post) →
      ∀ o e, c.cacheCoins.lookup o = some e → e.fresh = true → layersView db post o = none
  | [], _, _, ⟨hc, _⟩ => hc.fresh
  | _ :: _, _, _, ⟨_, h⟩ => LayersValid.fresh_below h

/-- Every layer's counter is the usage of its entries. -/
theorem LayersValid.usage_eq {db : CoinsMap} :
    ∀ {layers : List CCoinsViewCache}, LayersValid usage db layers →
      ∀ c ∈ layers, c.cachedCoinsUsage = c.cacheCoins.sumBy fun _ e => usage e.coin
  | [], _ => fun _ h => nomatch h
  | _ :: _, ⟨hc, h⟩ => by
      intro c hmem
      rcases List.mem_cons.mp hmem with rfl | hmem
      · exact hc.usage
      · exact LayersValid.usage_eq h c hmem

/-- A valid stack shows only unspent coins. -/
theorem LayersValid.view_isSpent_eq_false {db : CoinsMap} {layers : List CCoinsViewCache}
    (h : LayersValid usage db layers) :
    ∀ o coin, layersView db layers o = some coin → coin.isSpent = false := by
  induction layers with
  | nil => exact h
  | cons c cs ih => exact CCoinsViewCache.view_isSpent_eq_false (ih h.2)

/-! ## The stack refines the map -/

/-- A valid stack of caches, run through operations that the plain map allows,
fails with no `std::logic_error` and ends showing the map; every `FRESH` entry of
a layer has no unspent coin in what the layers below it show; and each layer's
`cachedCoinsUsage` is the usage of its entries. -/
theorem CoinsStack.run_refines_map (usage : Coin → ℕ) (hu : usage Coin.empty = 0)
    {s : CoinsStack} (hs : s.Valid usage) (hl : s.layers ≠ []) {ops : List CoinsOp}
    {m : CoinsMap} (hm : CoinsOp.runOnMap s.view ops = some m) :
    ∃ s', s.run usage ops = .ok s' ∧ s'.view = m ∧
      (∀ pre c post, s'.layers = pre ++ c :: post → ∀ o e, c.cacheCoins.lookup o = some e →
        e.fresh = true → layersView s'.db post o = none) ∧
      ∀ c ∈ s'.layers, c.cachedCoinsUsage = c.cacheCoins.sumBy fun _ e => usage e.coin := by
  obtain ⟨s', hrun, hv, -, hview⟩ := CoinsStack.run_spec hu ops hs hl hm
  refine ⟨s', hrun, hview, fun pre c post hlayers => ?_, LayersValid.usage_eq hv⟩
  rw [CoinsStack.Valid, hlayers] at hv
  exact LayersValid.fresh_below hv

/-- The outpoint of the runs below. -/
def sampleOutPoint : COutPoint := ⟨0, 0⟩

/-- A coin of value `v` at height 1 with a one-byte script. -/
def sampleCoin (v : CAmount) : Coin := ⟨⟨v, [0x51]⟩, false, false, 1⟩

/-- A new coin added, spent in a layer pushed over it, and that layer popped
into the one below and flushed to the database. -/
def spendInChildOps : List CoinsOp :=
  [.addCoin sampleOutPoint (sampleCoin 5) false, .push, .spendCoin sampleOutPoint, .pop, .flush 0]

theorem CoinsStack.run_spend_in_child :
    ∃ s', (⟨[CCoinsViewCache.empty], fun _ => none⟩ : CoinsStack).run
        (fun coin => coin.out.scriptPubKey.length) spendInChildOps = .ok s' ∧
      s'.view = Function.update (Function.update (fun _ => none) sampleOutPoint
        (some (sampleCoin 5))) sampleOutPoint none ∧
      (∀ pre c post, s'.layers = pre ++ c :: post → ∀ o e, c.cacheCoins.lookup o = some e →
        e.fresh = true → layersView s'.db post o = none) ∧
      ∀ c ∈ s'.layers, c.cachedCoinsUsage =
        c.cacheCoins.sumBy fun _ e => (fun coin => coin.out.scriptPubKey.length) e.coin := by
  have hs : (⟨[CCoinsViewCache.empty], fun _ => none⟩ : CoinsStack).Valid
      fun coin => coin.out.scriptPubKey.length :=
    ⟨CCoinsViewCache.valid_empty _, fun _ _ h => nomatch h⟩
  exact CoinsStack.run_refines_map _ rfl hs (List.cons_ne_nil _ _) rfl

/-- The database of the run below: one unspent coin. -/
def freshOverSpentDb : CoinsMap := Function.update (fun _ => none) sampleOutPoint (some (sampleCoin 5))

/-- The coin loaded into a layer, spent in a second layer over it, and a new
coin at the same outpoint added in a third, without `possible_overwrite`. -/
def freshOverSpentOps : List CoinsOp :=
  [.haveCoin sampleOutPoint, .push, .spendCoin sampleOutPoint, .push,
    .addCoin sampleOutPoint (sampleCoin 7) false]

/-- The map allows the run, and at its end the top layer's entry is `FRESH`
while the bottom layer still holds the unspent coin that the middle layer
spent: a `FRESH` entry need not be absent or spent in every layer below. -/
theorem CoinsStack.run_fresh_over_unspent_below :
    (CoinsOp.runOnMap freshOverSpentDb freshOverSpentOps).isSome = true ∧
      ((⟨[CCoinsViewCache.empty], freshOverSpentDb⟩ : CoinsStack).run
          (fun coin => coin.out.scriptPubKey.length) freshOverSpentOps).map
        (fun s => s.layers.map fun c =>
          (c.cacheCoins.lookup sampleOutPoint).map fun e => (e.fresh, e.coin.isSpent)) =
        .ok [some (true, false), some (false, true), some (false, false)] := by
  decide

end Metrix
