import Metrix.Coins.Block
import Metrix.Coins.Refinement
import Metrix.Lib.UpdateAll
import Metrix.Lib.Simulation

/-! Disconnecting a block undoes connecting it. Connecting is stated first on a
plain map of coins: each transaction's inputs taken out in order, their coins
kept as its undo record, and its outputs written. The stack of caches does the
same to what it shows. Disconnecting then spends each transaction's outputs
again and puts back the coins of its inputs, so that from the last
transaction back to the first every map of the connecting run is shown
again. -/

namespace Metrix

open Function

/-! ## Connecting on a plain map -/

/-- The inputs' coins taken out of a plain map in order, and the coins taken;
`none` where an input has no coin. -/
def spendOnMap (m : CoinsMap) : List CTxIn → Option (CoinsMap × List Coin)
  | [] => some (m, [])
  | txin :: vin => (m txin.prevout).bind fun coin =>
      (spendOnMap (update m txin.prevout none) vin).map fun r => (r.1, coin :: r.2)

/-- The outputs `ps` of a transaction added to a plain map, each `AddCoin` as
`CoinsOp.onMap` does it. -/
def addOutputsOnMap (txid : Uint256) (tx : CTransaction) (nHeight : ℕ) (m : CoinsMap)
    (ps : List (CTxOut × ℕ)) : Option CoinsMap :=
  ps.foldlM (fun m p =>
    (CoinsOp.addCoin (outputPoint txid p) (txCoin tx nHeight p.1) tx.isCoinBase).onMap m) m

/-- What the outputs `ps` write into a plain map: the coin of each spendable
one at its outpoint. -/
def writeOutputs (txid : Uint256) (tx : CTransaction) (nHeight : ℕ) (m : CoinsMap)
    (ps : List (CTxOut × ℕ)) : CoinsMap :=
  updateAll (outputPoint txid) (fun p => !isUnspendable p.1.scriptPubKey)
    (fun p => some (txCoin tx nHeight p.1)) m ps

/-- `UpdateCoins` on a plain map, with the undo record. -/
def updateCoinsOnMap (getHash : CTransaction → Uint256) (m : CoinsMap) (tx : CTransaction)
    (nHeight : ℕ) : Option (CoinsMap × List Coin) :=
  (if tx.isCoinBase then some (m, []) else spendOnMap m tx.vin).bind fun r =>
    (addOutputsOnMap (getHash tx) tx nHeight r.1 tx.vout.zipIdx).map fun m' => (m', r.2)

/-- `UpdateCoins` of the transactions in order on a plain map, with the undo
records. -/
def updateCoinsAllOnMap (getHash : CTransaction → Uint256) :
    CoinsMap → List CTransaction → ℕ → Option (CoinsMap × List (List Coin))
  | m, [], _ => some (m, [])
  | m, tx :: vtx, nHeight => (updateCoinsOnMap getHash m tx nHeight).bind fun r =>
      (updateCoinsAllOnMap getHash r.1 vtx nHeight).map fun r' => (r'.1, r.2 :: r'.2)

/-- A coin that `ApplyTxInUndo` puts back as it was: unspent, at a nonzero
height, and with a spendable script. -/
def Coin.Restorable (coin : Coin) : Prop :=
  coin.isSpent = false ∧ coin.nHeight ≠ 0 ∧ isUnspendable coin.out.scriptPubKey = false

/-- What the amended statement asks of a block and the view it is connected
to: the coinbase first and no other, distinct transaction hashes, at most
`2^32` outputs per transaction and none of them null, and none of them at an
outpoint that already has a coin. -/
structure BlockFitsView (getHash : CTransaction → Uint256) (vtx : List CTransaction)
    (m : CoinsMap) : Prop where
  coinBase_iff : ∀ p ∈ vtx.zipIdx, (p.1.isCoinBase = true ↔ p.2 = 0)
  txids_nodup : (vtx.map getHash).Nodup
  outputs_le : ∀ tx ∈ vtx, tx.vout.length ≤ 2 ^ 32
  outputs_not_null : ∀ tx ∈ vtx, ∀ out ∈ tx.vout, out.isNull = false
  outputs_fresh : ∀ tx ∈ vtx, ∀ p ∈ tx.vout.zipIdx, m (outputPoint (getHash tx) p) = none

section OnMap

variable {getHash : CTransaction → Uint256} {txid : Uint256} {tx : CTransaction} {nHeight : ℕ}

theorem outputPoint_ne_of_hash_ne {o : COutPoint} (h : txid ≠ o.hash) (p : CTxOut × ℕ) :
    outputPoint txid p ≠ o := fun he => h (by rw [← he]; rfl)

theorem spendOnMap_cons {m m' : CoinsMap} {txin : CTxIn} {vin : List CTxIn} {undo : List Coin}
    (h : spendOnMap m (txin :: vin) = some (m', undo)) :
    ∃ coin undo', m txin.prevout = some coin ∧
      spendOnMap (update m txin.prevout none) vin = some (m', undo') ∧ undo = coin :: undo' := by
  simp only [spendOnMap, Option.bind_eq_some_iff, Option.map_eq_some_iff] at h
  obtain ⟨coin, hcoin, ⟨m1, undo'⟩, hrest, hr⟩ := h
  cases hr
  exact ⟨coin, undo', hcoin, hrest, rfl⟩

theorem length_spendOnMap {vin : List CTxIn} :
    ∀ {m m' : CoinsMap} {undo : List Coin}, spendOnMap m vin = some (m', undo) →
      undo.length = vin.length := by
  induction vin with
  | nil =>
      intro m m' undo h
      cases h
      rfl
  | cons txin vin ih =>
      intro m m' undo h
      obtain ⟨coin, undo', -, hrest, rfl⟩ := spendOnMap_cons h
      simp [ih hrest]

/-- Taking inputs out only empties outpoints. -/
theorem spendOnMap_apply {vin : List CTxIn} :
    ∀ {m m' : CoinsMap} {undo : List Coin}, spendOnMap m vin = some (m', undo) →
      ∀ o, m' o = none ∨ m' o = m o := by
  induction vin with
  | nil =>
      intro m m' undo h o
      cases h
      exact Or.inr rfl
  | cons txin vin ih =>
      intro m m' undo h o
      obtain ⟨coin, undo', -, hrest, -⟩ := spendOnMap_cons h
      rcases ih hrest o with hnone | hsame
      · exact Or.inl hnone
      · rw [hsame]
        by_cases ho : o = txin.prevout
        · subst ho
          exact Or.inl (update_self _ _ _)
        · exact Or.inr (update_of_ne ho _ _)

/-- `AddCoins` that the map allows writes the spendable outputs. -/
theorem addOutputsOnMap_eq_writeOutputs :
    ∀ {ps : List (CTxOut × ℕ)} {m m' : CoinsMap}, addOutputsOnMap txid tx nHeight m ps = some m' →
      m' = writeOutputs txid tx nHeight m ps
  | [], m, m', h => by
      rw [addOutputsOnMap, List.foldlM_nil, Option.pure_def, Option.some_inj] at h
      exact h.symm
  | p :: ps, m, m', h => by
      rw [addOutputsOnMap, List.foldlM_cons] at h
      obtain ⟨m1, h1, hrest⟩ := Option.bind_eq_some_iff.mp h
      obtain ⟨-, -, rfl⟩ := CoinsOp.onMap_addCoin h1
      rw [addOutputsOnMap_eq_writeOutputs hrest]
      simp only [writeOutputs, updateAll_cons, txCoin_out]
      by_cases hun : isUnspendable p.1.scriptPubKey = true <;> simp [hun]

/-- The writes of a transaction's outputs touch only its own outpoints. -/
theorem writeOutputs_apply_of_hash_ne {o : COutPoint} (h : txid ≠ o.hash) (m : CoinsMap)
    (ps : List (CTxOut × ℕ)) : writeOutputs txid tx nHeight m ps o = m o :=
  updateAll_apply_of_forall_ne (fun p _ => outputPoint_ne_of_hash_ne h p) m

theorem updateCoinsOnMap_spec {m m' : CoinsMap} {undo : List Coin}
    (h : updateCoinsOnMap getHash m tx nHeight = some (m', undo)) :
    ∃ spent, (if tx.isCoinBase then some (m, []) else spendOnMap m tx.vin) = some (spent, undo) ∧
      m' = writeOutputs (getHash tx) tx nHeight spent tx.vout.zipIdx := by
  simp only [updateCoinsOnMap, Option.bind_eq_some_iff, Option.map_eq_some_iff] at h
  obtain ⟨⟨spent, undo'⟩, hspent, m1, hadd, hr⟩ := h
  cases hr
  exact ⟨spent, hspent, addOutputsOnMap_eq_writeOutputs hadd⟩

/-- Connecting a transaction leaves an empty outpoint of another transaction
empty. -/
theorem updateCoinsOnMap_eq_none {m m' : CoinsMap} {undo : List Coin}
    (h : updateCoinsOnMap getHash m tx nHeight = some (m', undo)) {o : COutPoint}
    (hne : getHash tx ≠ o.hash) (hnone : m o = none) : m' o = none := by
  obtain ⟨spent, hspent, rfl⟩ := updateCoinsOnMap_spec h
  rw [writeOutputs_apply_of_hash_ne hne]
  split at hspent
  · cases hspent
    exact hnone
  · rcases spendOnMap_apply hspent o with h0 | hsame
    · exact h0
    · rw [hsame, hnone]

theorem fst_mem_of_mem_zipIdx {l : List CTxOut} {p : CTxOut × ℕ} (h : p ∈ l.zipIdx) : p.1 ∈ l := by
  obtain ⟨-, -, hx⟩ := List.mem_zipIdx (x := p.1) (i := p.2) h
  rw [hx]
  exact List.getElem_mem _

theorem restorable_txCoin (hh : 0 < nHeight ∧ nHeight < 2 ^ 30) {out : CTxOut}
    (hnull : out.isNull = false) (hkeep : isUnspendable out.scriptPubKey = false) :
    (txCoin tx nHeight out).Restorable := by
  refine ⟨hnull, fun h0 => ?_, hkeep⟩
  have hval := congrArg BitVec.toNat h0
  simp [txCoin] at hval
  omega

/-- Connecting a transaction with no null output keeps every coin
restorable. -/
theorem updateCoinsOnMap_restorable (hh : 0 < nHeight ∧ nHeight < 2 ^ 30) {m m' : CoinsMap}
    {undo : List Coin} (h : updateCoinsOnMap getHash m tx nHeight = some (m', undo))
    (hnull : ∀ out ∈ tx.vout, out.isNull = false)
    (hm : ∀ o coin, m o = some coin → coin.Restorable) :
    ∀ o coin, m' o = some coin → coin.Restorable := by
  obtain ⟨spent, hspent, rfl⟩ := updateCoinsOnMap_spec h
  have hspent' : ∀ o coin, spent o = some coin → coin.Restorable := by
    intro o coin ho
    split at hspent
    · cases hspent
      exact hm o coin ho
    · rcases spendOnMap_apply hspent o with h0 | hsame
      · simp [h0] at ho
      · exact hm o coin (hsame ▸ ho)
  -- each write is the coin of a spendable, not null output
  suffices hall : ∀ (ps : List (CTxOut × ℕ)) (w : CoinsMap), (∀ p ∈ ps, p.1 ∈ tx.vout) →
      (∀ o coin, w o = some coin → coin.Restorable) →
      ∀ o coin, writeOutputs (getHash tx) tx nHeight w ps o = some coin → coin.Restorable from
    hall _ spent (fun p hp => fst_mem_of_mem_zipIdx hp) hspent'
  intro ps
  induction ps with
  | nil => exact fun w _ hw => hw
  | cons p ps ih =>
      intro w hps hw
      rw [writeOutputs, updateAll_cons]
      refine ih _ (fun q hq => hps q (List.mem_cons_of_mem p hq)) ?_
      split
      · rename_i hkeep
        intro o coin ho
        by_cases hop : o = outputPoint (getHash tx) p
        · subst hop
          rw [update_self, Option.some_inj] at ho
          subst ho
          exact restorable_txCoin hh (hnull p.1 (hps p List.mem_cons_self)) (by simpa using hkeep)
        · exact hw o coin (by rwa [update_of_ne hop] at ho)
      · exact hw

theorem updateCoinsAllOnMap_cons {m m' : CoinsMap} {vtx : List CTransaction}
    {undos : List (List Coin)}
    (h : updateCoinsAllOnMap getHash m (tx :: vtx) nHeight = some (m', undos)) :
    ∃ m1 undo undos', updateCoinsOnMap getHash m tx nHeight = some (m1, undo) ∧
      updateCoinsAllOnMap getHash m1 vtx nHeight = some (m', undos') ∧ undos = undo :: undos' := by
  simp only [updateCoinsAllOnMap, Option.bind_eq_some_iff, Option.map_eq_some_iff] at h
  obtain ⟨⟨m1, undo⟩, h1, ⟨m2, undos'⟩, hrest, hr⟩ := h
  cases hr
  exact ⟨m1, undo, undos', h1, hrest, rfl⟩

/-- Connecting a block that ends in `tx` is connecting the transactions
before it, then `tx`. -/
theorem updateCoinsAllOnMap_append_singleton {tx : CTransaction} :
    ∀ {vtx : List CTransaction} {m m' : CoinsMap} {undos : List (List Coin)},
      updateCoinsAllOnMap getHash m (vtx ++ [tx]) nHeight = some (m', undos) →
      ∃ m1 undos' undo, updateCoinsAllOnMap getHash m vtx nHeight = some (m1, undos') ∧
        updateCoinsOnMap getHash m1 tx nHeight = some (m', undo) ∧ undos = undos' ++ [undo]
  | [], m, m', undos, h => by
      obtain ⟨m1, undo, undos', h1, hrest, rfl⟩ := updateCoinsAllOnMap_cons h
      cases hrest
      exact ⟨m, [], undo, rfl, h1, rfl⟩
  | tx' :: vtx, m, m', undos, h => by
      obtain ⟨m1, undo, undos', h1, hrest, rfl⟩ := updateCoinsAllOnMap_cons h
      obtain ⟨m2, undos'', undo', h2, hlast, rfl⟩ := updateCoinsAllOnMap_append_singleton hrest
      refine ⟨m2, undo :: undos'', undo', ?_, hlast, rfl⟩
      simp [updateCoinsAllOnMap, h1, h2]

theorem length_updateCoinsAllOnMap :
    ∀ {vtx : List CTransaction} {m m' : CoinsMap} {undos : List (List Coin)},
      updateCoinsAllOnMap getHash m vtx nHeight = some (m', undos) → undos.length = vtx.length
  | [], _, _, _, h => by
      cases h
      rfl
  | _ :: _, _, _, _, h => by
      obtain ⟨m1, undo, undos', -, hrest, rfl⟩ := updateCoinsAllOnMap_cons h
      simp [length_updateCoinsAllOnMap hrest]

/-- Connecting transactions leaves an empty outpoint of another transaction
empty. -/
theorem updateCoinsAllOnMap_eq_none {o : COutPoint} :
    ∀ {vtx : List CTransaction} {m m' : CoinsMap} {undos : List (List Coin)},
      updateCoinsAllOnMap getHash m vtx nHeight = some (m', undos) →
      (∀ tx ∈ vtx, getHash tx ≠ o.hash) → m o = none → m' o = none
  | [], _, _, _, h, _, hnone => by
      cases h
      exact hnone
  | tx :: _, _, _, _, h, hne, hnone => by
      obtain ⟨m1, undo, undos', h1, hrest, -⟩ := updateCoinsAllOnMap_cons h
      exact updateCoinsAllOnMap_eq_none hrest (fun tx' h' => hne tx' (List.mem_cons_of_mem tx h'))
        (updateCoinsOnMap_eq_none h1 (hne tx List.mem_cons_self) hnone)

theorem updateCoinsAllOnMap_restorable (hh : 0 < nHeight ∧ nHeight < 2 ^ 30) :
    ∀ {vtx : List CTransaction} {m m' : CoinsMap} {undos : List (List Coin)},
      updateCoinsAllOnMap getHash m vtx nHeight = some (m', undos) →
      (∀ tx ∈ vtx, ∀ out ∈ tx.vout, out.isNull = false) →
      (∀ o coin, m o = some coin → coin.Restorable) →
      ∀ o coin, m' o = some coin → coin.Restorable
  | [], _, _, _, h, _, hm => by
      cases h
      exact hm
  | tx :: _, _, _, _, h, hnull, hm => by
      obtain ⟨m1, undo, undos', h1, hrest, -⟩ := updateCoinsAllOnMap_cons h
      exact updateCoinsAllOnMap_restorable hh hrest
        (fun tx' h' => hnull tx' (List.mem_cons_of_mem tx h'))
        (updateCoinsOnMap_restorable hh h1 (hnull tx List.mem_cons_self) hm)

/-- A prefix of a block fits the view as the block does. -/
theorem BlockFitsView.of_append {vtx rest : List CTransaction} {m : CoinsMap}
    (h : BlockFitsView getHash (vtx ++ rest) m) : BlockFitsView getHash vtx m where
  coinBase_iff p hp := h.coinBase_iff p (by rw [List.zipIdx_append]; exact List.mem_append_left _ hp)
  txids_nodup := by
    have hnd := h.txids_nodup
    rw [List.map_append] at hnd
    exact (List.nodup_append.mp hnd).1
  outputs_le tx htx := h.outputs_le tx (List.mem_append_left _ htx)
  outputs_not_null tx htx := h.outputs_not_null tx (List.mem_append_left _ htx)
  outputs_fresh tx htx := h.outputs_fresh tx (List.mem_append_left _ htx)

end OnMap

/-! ## The stack connects as the map does -/

/-- A valid stack of caches with a top layer, showing the map `m`. -/
structure CoinsStack.Shows (usage : Coin → ℕ) (s : CoinsStack) (m : CoinsMap) : Prop where
  valid : s.Valid usage
  nonempty : s.layers ≠ []
  view_eq : s.view = m

section Connect

variable {usage : Coin → ℕ} {getHash : CTransaction → Uint256} {tx : CTransaction} {nHeight : ℕ}

theorem addOutputs_spec {txid : Uint256} {s : CoinsStack} {m m' : CoinsMap}
    (hs : s.Shows usage m) {ps : List (CTxOut × ℕ)}
    (h : addOutputsOnMap txid tx nHeight m ps = some m') :
    ∃ s', addOutputs usage txid tx nHeight s ps = .ok s' ∧ s'.Shows usage m' := by
  refine List.foldlM_simulates (CoinsStack.Shows usage) (fun s m p m1 hs h1 => ?_) ps hs h
  obtain ⟨hcoin, hp, rfl⟩ := CoinsOp.onMap_addCoin h1
  obtain ⟨s1, hr, hv, hl, hview⟩ := @CoinsStack.addCoin_spec usage s hs.valid hs.nonempty
    (outputPoint txid p) (txCoin tx nHeight p.1) tx.isCoinBase hcoin (hs.view_eq ▸ hp)
  exact ⟨s1, hr, hv, hl, by rw [hview, hs.view_eq]⟩

theorem spendInputs_spec (hu : usage Coin.empty = 0) :
    ∀ {vin : List CTxIn} {s : CoinsStack} {m m' : CoinsMap} {undo : List Coin},
      s.Shows usage m → spendOnMap m vin = some (m', undo) →
      ∃ s', spendInputs usage s vin = .ok (s', undo) ∧ s'.Shows usage m'
  | [], s, _, _, _, hs, h => by
      cases h
      exact ⟨s, rfl, hs⟩
  | txin :: vin, s, m, m', undo, hs, h => by
      obtain ⟨coin, undo', hcoin, hrest, rfl⟩ := spendOnMap_cons h
      obtain ⟨hv, hl, hview, hret⟩ := CoinsStack.spendCoin_spec hs.valid hs.nonempty hu txin.prevout
      obtain ⟨s', hs', hshows⟩ := spendInputs_spec hu ⟨hv, hl, by rw [hview, hs.view_eq]⟩ hrest
      have hspend : s.spendCoin usage txin.prevout = (some coin, (s.spendCoin usage txin.prevout).2) :=
        Prod.ext (hret coin (by rw [hs.view_eq]; exact hcoin)) rfl
      refine ⟨s', ?_, hshows⟩
      rw [spendInputs, hspend]
      simp only [hs', Except.ok_map]

theorem updateCoins_spec (hu : usage Coin.empty = 0) {s : CoinsStack} {m m' : CoinsMap}
    {undo : List Coin} (hs : s.Shows usage m)
    (h : updateCoinsOnMap getHash m tx nHeight = some (m', undo)) :
    ∃ s', updateCoins usage getHash s tx nHeight = .ok (s', undo) ∧ s'.Shows usage m' := by
  simp only [updateCoinsOnMap, Option.bind_eq_some_iff, Option.map_eq_some_iff] at h
  obtain ⟨⟨spent, undo'⟩, hspent, m1, hadd, hr⟩ := h
  cases hr
  cases hcb : tx.isCoinBase
  · rw [hcb, if_neg Bool.false_ne_true] at hspent
    obtain ⟨s1, h1, hs1⟩ := spendInputs_spec hu hs hspent
    obtain ⟨s2, h2, hs2⟩ := addOutputs_spec hs1 hadd
    refine ⟨s2, ?_, hs2⟩
    simp only [updateCoins, hcb, Bool.false_eq_true, if_false, h1, Except.ok_bind, addCoins, h2]
    rfl
  · rw [hcb, if_pos rfl, Option.some_inj] at hspent
    cases hspent
    obtain ⟨s2, h2, hs2⟩ := addOutputs_spec hs hadd
    refine ⟨s2, ?_, hs2⟩
    simp only [updateCoins, hcb, if_true, pure, Except.pure, Except.ok_bind, addCoins, h2]

theorem updateCoinsAll_spec (hu : usage Coin.empty = 0) :
    ∀ {vtx : List CTransaction} {s : CoinsStack} {m m' : CoinsMap} {undos : List (List Coin)},
      s.Shows usage m → updateCoinsAllOnMap getHash m vtx nHeight = some (m', undos) →
      ∃ s', updateCoinsAll usage getHash s vtx nHeight = .ok (s', undos) ∧ s'.Shows usage m'
  | [], s, _, _, _, hs, h => by
      cases h
      exact ⟨s, rfl, hs⟩
  | _ :: _, _, _, _, _, hs, h => by
      obtain ⟨m1, undo, undos', h1, hrest, rfl⟩ := updateCoinsAllOnMap_cons h
      obtain ⟨s1, hs1, hshows1⟩ := updateCoins_spec hu hs h1
      obtain ⟨s', hs', hshows⟩ := updateCoinsAll_spec hu hshows1 hrest
      refine ⟨s', ?_, hshows⟩
      simp only [updateCoinsAll, hs1, Except.ok_bind, hs']
      rfl

end Connect

/-! ## Disconnecting undoes connecting -/

section Disconnect

variable {usage : Coin → ℕ} {getHash : CTransaction → Uint256} {tx : CTransaction} {nHeight : ℕ}

theorem toUInt32_ne_of_lt {i j : ℕ} (hi : i < 2 ^ 32) (hj : j < 2 ^ 32) (h : i ≠ j) :
    i.toUInt32 ≠ j.toUInt32 := by
  intro he
  have hval := congrArg UInt32.toNat he
  simp [Nat.toUInt32] at hval
  omega

/-- The outputs after one of a transaction have other outpoints. -/
theorem outputPoint_ne_of_mem_zipIdx {txid : Uint256} {outs : List CTxOut} {k : ℕ}
    (hlen : k + 1 + outs.length ≤ 2 ^ 32) {p : CTxOut × ℕ} (hp : p ∈ outs.zipIdx (k + 1))
    (out : CTxOut) : outputPoint txid p ≠ outputPoint txid (out, k) := by
  obtain ⟨hlo, hhi, -⟩ := List.mem_zipIdx (x := p.1) (i := p.2) hp
  intro he
  exact toUInt32_ne_of_lt (by omega) (by omega) (by omega) (congrArg COutPoint.n he)

theorem coinMatches_txCoin (hh : nHeight < 2 ^ 30) (out : CTxOut) :
    coinMatches tx nHeight out (some (txCoin tx nHeight out)) = true := by
  simp [coinMatches, txCoin]
  omega

/-- Spending the outputs that were written, none of them at an outpoint that
had a coin, finds each as the block created it and shows again the map they
were written into. -/
theorem spendOutputs_writeOutputs (hu : usage Coin.empty = 0) (hh : nHeight < 2 ^ 30)
    {txid : Uint256} :
    ∀ {outs : List CTxOut} {k : ℕ} {s : CoinsStack} {m : CoinsMap}, k + outs.length ≤ 2 ^ 32 →
      (∀ p ∈ outs.zipIdx k, m (outputPoint txid p) = none) →
      s.Shows usage (writeOutputs txid tx nHeight m (outs.zipIdx k)) →
      ∃ s', spendOutputs usage txid tx nHeight s (outs.zipIdx k) = (true, s') ∧ s'.Shows usage m
  | [], _, s, _, _, _, hs => ⟨s, rfl, hs⟩
  | out :: outs, k, s, m, hlen, hfresh, hs => by
      rw [List.zipIdx_cons] at hfresh hs ⊢
      have hlen' : k + 1 + outs.length ≤ 2 ^ 32 := by
        simp only [List.length_cons] at hlen
        omega
      have hkey : ∀ p ∈ outs.zipIdx (k + 1), outputPoint txid p ≠ outputPoint txid (out, k) :=
        fun p hp => outputPoint_ne_of_mem_zipIdx hlen' hp out
      have hnone : m (outputPoint txid (out, k)) = none := hfresh _ List.mem_cons_self
      have hrest : ∀ p ∈ outs.zipIdx (k + 1), m (outputPoint txid p) = none :=
        fun p hp => hfresh p (List.mem_cons_of_mem _ hp)
      by_cases hun : isUnspendable out.scriptPubKey = true
      · -- an unspendable output was not written, and is not spent
        have hs' : s.Shows usage (writeOutputs txid tx nHeight m (outs.zipIdx (k + 1))) := by
          simpa [writeOutputs, hun] using hs
        obtain ⟨s', h', hs''⟩ := spendOutputs_writeOutputs hu hh (by omega) hrest hs'
        exact ⟨s', by simpa [spendOutputs, hun] using h', hs''⟩
      · have hwrite : writeOutputs txid tx nHeight m ((out, k) :: outs.zipIdx (k + 1)) =
            writeOutputs txid tx nHeight
              (update m (outputPoint txid (out, k)) (some (txCoin tx nHeight out)))
              (outs.zipIdx (k + 1)) := by
          simp [writeOutputs, hun]
        rw [hwrite] at hs
        have hshow : s.view (outputPoint txid (out, k)) = some (txCoin tx nHeight out) := by
          rw [hs.view_eq, writeOutputs, updateAll_apply_of_forall_ne hkey, update_self]
        obtain ⟨hv, hl, hview, hret⟩ :=
          CoinsStack.spendCoin_spec hs.valid hs.nonempty hu (outputPoint txid (out, k))
        have hspent : (s.spendCoin usage (outputPoint txid (out, k))).2.Shows usage
            (writeOutputs txid tx nHeight m (outs.zipIdx (k + 1))) := by
          refine ⟨hv, hl, ?_⟩
          rw [hview, hs.view_eq, writeOutputs, ← updateAll_update_comm hkey, update_idem,
            update_eq_self_iff.mpr hnone.symm]
          rfl
        obtain ⟨s', h', hs''⟩ := spendOutputs_writeOutputs hu hh (by omega) hrest hspent
        have hpair : s.spendCoin usage (outputPoint txid (out, k)) =
            (some (txCoin tx nHeight out), (s.spendCoin usage (outputPoint txid (out, k))).2) :=
          Prod.ext (hret _ hshow) rfl
        refine ⟨s', ?_, hs''⟩
        simp only [spendOutputs, hun, Bool.false_eq_true, if_false]
        rw [hpair]
        simp only [h', coinMatches_txCoin hh, Bool.and_self]

/-- `ApplyTxInUndo` of a restorable coin where the stack shows none puts it
back cleanly. -/
theorem applyTxInUndo_restore {s : CoinsStack} {m : CoinsMap} (hs : s.Shows usage m)
    {o : COutPoint} {coin : Coin} (hnone : m o = none) (hcoin : coin.Restorable) :
    ∃ s', applyTxInUndo usage coin s o = .ok (.ok, s') ∧ s'.Shows usage (update m o (some coin)) := by
  obtain ⟨hunspent, hheight, hkeep⟩ := hcoin
  obtain ⟨hhave, hv, hview⟩ := CoinsStack.haveCoin_spec hs.valid o
  have hl : (s.haveCoin usage o).2.layers ≠ [] := fetchCoin_ne_nil hs.nonempty o
  have hpair : s.haveCoin usage o = (false, (s.haveCoin usage o).2) :=
    Prod.ext (by rw [hhave, hs.view_eq, hnone]; rfl) rfl
  obtain ⟨s', hadd, hv', hl', hview'⟩ := @CoinsStack.addCoin_spec usage _ hv hl o coin false
    hunspent (fun _ _ => by rw [hview, hs.view_eq]; exact hnone)
  refine ⟨s', ?_, hv', hl', ?_⟩
  · rw [applyTxInUndo, hpair]
    simp only [hheight, if_false, addUndoCoin, Bool.not_false, Bool.not_true, hadd, Except.ok_map,
      if_true]
  · rw [hview', if_neg (by simpa using hkeep), hview, hs.view_eq]

theorem restoreInputs_cons_of_ok {s t : CoinsStack} {txin : CTxIn} {undo : Coin}
    (h : applyTxInUndo usage undo s txin.prevout = .ok (.ok, t)) (rest : List (CTxIn × Coin)) :
    restoreInputs usage s ((txin, undo) :: rest) = restoreInputs usage t rest := by
  rw [restoreInputs, h]
  show (restoreInputs usage t rest >>= fun r => pure (DisconnectResult.ok.andThen r.1, r.2)) = _
  cases restoreInputs usage t rest with
  | error e => rfl
  | ok r => rfl

/-- Putting back the coins that the inputs took out, from the last input,
shows the map before the inputs were spent. -/
theorem restoreInputs_spendOnMap (hu : usage Coin.empty = 0) :
    ∀ {vin : List CTxIn} {m m' : CoinsMap} {undo : List Coin} {s : CoinsStack},
      spendOnMap m vin = some (m', undo) → (∀ o coin, m o = some coin → coin.Restorable) →
      s.Shows usage m' →
      ∃ s', s'.Shows usage m ∧ ∀ rest,
        restoreInputs usage s ((vin.zip undo).reverse ++ rest) = restoreInputs usage s' rest
  | [], _, _, _, s, h, _, hs => by
      cases h
      exact ⟨s, hs, fun _ => rfl⟩
  | txin :: vin, m, m', undo, s, h, hm, hs => by
      obtain ⟨coin, undo', hcoin, hrest, rfl⟩ := spendOnMap_cons h
      have hm' : ∀ o c, update m txin.prevout none o = some c → c.Restorable := by
        intro o c ho
        by_cases hop : o = txin.prevout
        · subst hop
          simp at ho
        · rw [update_of_ne hop] at ho
          exact hm o c ho
      obtain ⟨s1, hs1, hrestore⟩ := restoreInputs_spendOnMap hu hrest hm' hs
      obtain ⟨s2, happly, hs2⟩ := applyTxInUndo_restore hs1 (update_self _ _ _) (hm _ _ hcoin)
      refine ⟨s2, ?_, fun rest => ?_⟩
      · rwa [update_idem, update_eq_self_iff.mpr hcoin.symm] at hs2
      · rw [List.zip_cons_cons, List.reverse_cons, List.append_assoc, hrestore,
          List.singleton_append, restoreInputs_cons_of_ok happly]

/-- Undoing one connected transaction, at its index in the block, shows again
the map before it. -/
theorem disconnectTx_updateCoinsOnMap (hu : usage Coin.empty = 0)
    (hh : 0 < nHeight ∧ nHeight < 2 ^ 30) {vtxundo : List (List Coin)} {m m' : CoinsMap}
    {undo : List Coin} (h : updateCoinsOnMap getHash m tx nHeight = some (m', undo)) {i : ℕ}
    (hcb : tx.isCoinBase = true ↔ i = 0) (hundo : 0 < i → vtxundo.getD (i - 1) [] = undo)
    (hlen : tx.vout.length ≤ 2 ^ 32)
    (hfresh : ∀ p ∈ tx.vout.zipIdx, m (outputPoint (getHash tx) p) = none)
    (hm : ∀ o coin, m o = some coin → coin.Restorable) {s : CoinsStack} (hs : s.Shows usage m') :
    ∃ s', disconnectTx usage getHash vtxundo nHeight s tx i = .ok (.ok, s') ∧ s'.Shows usage m := by
  obtain ⟨spent, hspent, rfl⟩ := updateCoinsOnMap_spec h
  have hempty : ∀ p ∈ tx.vout.zipIdx, spent (outputPoint (getHash tx) p) = none := by
    intro p hp
    split at hspent
    · cases hspent
      exact hfresh p hp
    · rcases spendOnMap_apply hspent (outputPoint (getHash tx) p) with h0 | hsame
      · exact h0
      · rw [hsame]
        exact hfresh p hp
  obtain ⟨s1, hout, hs1⟩ := spendOutputs_writeOutputs hu hh.2 (by simpa using hlen) hempty hs
  by_cases hi : i = 0
  · -- the coinbase took nothing out
    rw [if_pos (hcb.mpr hi), Option.some_inj, Prod.mk.injEq] at hspent
    obtain ⟨rfl, rfl⟩ := hspent
    exact ⟨s1, by simp [disconnectTx, hout, hi], hs1⟩
  · rw [if_neg (by simpa [hi] using hcb)] at hspent
    obtain ⟨s2, hs2, hrestore⟩ := restoreInputs_spendOnMap hu hspent hm hs1
    have hr := hrestore []
    rw [List.append_nil] at hr
    refine ⟨s2, ?_, hs2⟩
    simp only [disconnectTx, hout, if_true, hi, if_false, hundo (by omega),
      length_spendOnMap hspent, ne_eq, not_true_eq_false, hr]
    rfl

theorem disconnectLoop_cons_of_ok {vtxundo : List (List Coin)} {s t : CoinsStack} {i : ℕ}
    (h : disconnectTx usage getHash vtxundo nHeight s tx i = .ok (.ok, t))
    (rest : List (CTransaction × ℕ)) :
    disconnectLoop usage getHash vtxundo nHeight s ((tx, i) :: rest) =
      disconnectLoop usage getHash vtxundo nHeight t rest := by
  rw [disconnectLoop, h]
  show (disconnectLoop usage getHash vtxundo nHeight t rest >>= fun r =>
    pure (DisconnectResult.ok.andThen r.1, r.2)) = _
  cases disconnectLoop usage getHash vtxundo nHeight t rest with
  | error e => rfl
  | ok r => rfl

/-- Undoing a connected run of transactions from the last one back shows
again the map before the first. The induction takes the block apart at its
last transaction, which the loop undoes first. -/
theorem disconnectLoop_updateCoinsAllOnMap (hu : usage Coin.empty = 0)
    (hh : 0 < nHeight ∧ nHeight < 2 ^ 30) (vtxundo : List (List Coin)) (vtx : List CTransaction) :
    ∀ {m m' : CoinsMap} {undos : List (List Coin)} {s : CoinsStack},
      updateCoinsAllOnMap getHash m vtx nHeight = some (m', undos) → BlockFitsView getHash vtx m →
      (∀ o coin, m o = some coin → coin.Restorable) →
      (∀ i, 0 < i → i < vtx.length → vtxundo.getD (i - 1) [] = undos.getD i []) →
      s.Shows usage m' →
      ∃ s', disconnectLoop usage getHash vtxundo nHeight s vtx.zipIdx.reverse = .ok (.ok, s') ∧
        s'.Shows usage m := by
  induction vtx using List.reverseRecOn with
  | nil =>
      intro m m' undos s h _ _ _ hs
      cases h
      exact ⟨s, rfl, hs⟩
  | append_singleton pre tx ih =>
      intro m m' undos s h hfit hm hundo hs
      obtain ⟨m1, undos', undo, h1, hlast, rfl⟩ := updateCoinsAllOnMap_append_singleton h
      have hlen := length_updateCoinsAllOnMap h1
      have hmem : tx ∈ pre ++ [tx] := List.mem_append_right _ List.mem_cons_self
      have hcb : tx.isCoinBase = true ↔ pre.length = 0 :=
        hfit.coinBase_iff (tx, pre.length) (by simp [List.zipIdx_append])
      -- the hash of the last transaction is none of the earlier ones
      have hnew : ∀ tx' ∈ pre, getHash tx' ≠ getHash tx := by
        have hnd := hfit.txids_nodup
        rw [List.map_append, List.nodup_append] at hnd
        exact fun tx' h' he => hnd.2.2 _ (List.mem_map_of_mem h') _ List.mem_cons_self he
      have hfresh1 : ∀ p ∈ tx.vout.zipIdx, m1 (outputPoint (getHash tx) p) = none :=
        fun p hp => updateCoinsAllOnMap_eq_none h1 hnew (hfit.outputs_fresh tx hmem p hp)
      have hm1 := updateCoinsAllOnMap_restorable hh h1
        (fun tx' h' => hfit.outputs_not_null tx' (List.mem_append_left _ h')) hm
      have hundo1 : 0 < pre.length → vtxundo.getD (pre.length - 1) [] = undo := by
        intro hpos
        rw [hundo pre.length hpos (by simp), List.getD_append_right _ _ _ _ (by omega)]
        simp [hlen]
      obtain ⟨s1, hs1, hshows1⟩ := disconnectTx_updateCoinsOnMap hu hh hlast hcb hundo1
        (hfit.outputs_le tx hmem) hfresh1 hm1 hs
      obtain ⟨s', hs', hshows⟩ := ih h1 hfit.of_append hm
        (fun i hi hlt => by
          rw [hundo i hi (by simp; omega), List.getD_append _ _ _ _ (by omega)]) hshows1
      refine ⟨s', ?_, hshows⟩
      rw [List.zipIdx_append, List.reverse_append]
      simp only [List.zipIdx_cons, List.zipIdx_nil, List.reverse_cons, List.reverse_nil,
        List.nil_append, List.singleton_append, Nat.zero_add]
      rw [disconnectLoop_cons_of_ok hs1]
      exact hs'

end Disconnect

/-- Connecting a block to a view of coins that all have a height, and then
disconnecting it with the undo data that connecting recorded, returns
`DISCONNECT_OK` and shows the view again. The block has its coinbase first
and no other, distinct transaction hashes, and no output that is null or
already in the view; its inputs are there in order, that is, connecting it on
the plain map of the view finds a coin for each; and its height is positive and
fits the 30 bits of `nHeight`. -/
theorem disconnectBlock_connectBlockCoins (usage : Coin → ℕ) (hu : usage Coin.empty = 0)
    (getHash : CTransaction → Uint256) {s : CoinsStack} (hs : s.Valid usage)
    (hl : s.layers ≠ []) {vtx : List CTransaction} {nHeight : ℕ} (hne : vtx ≠ [])
    (hfit : BlockFitsView getHash vtx s.view)
    (hcoins : ∀ o coin, s.view o = some coin →
      coin.nHeight ≠ 0 ∧ isUnspendable coin.out.scriptPubKey = false)
    (hh : 0 < nHeight ∧ nHeight < 2 ^ 30)
    (hinputs : (updateCoinsAllOnMap getHash s.view vtx nHeight).isSome = true) :
    ∃ s1 vtxundo, connectBlockCoins usage getHash s vtx nHeight = .ok (s1, vtxundo) ∧
      ∃ s2, disconnectBlock usage getHash s1 vtx vtxundo nHeight = .ok (.ok, s2) ∧
        s2.view = s.view := by
  obtain ⟨⟨m', undos⟩, hrun⟩ := Option.isSome_iff_exists.mp hinputs
  have hshows : s.Shows usage s.view := ⟨hs, hl, rfl⟩
  obtain ⟨s1, hs1, hshows1⟩ := updateCoinsAll_spec hu hshows hrun
  have hlen := length_updateCoinsAllOnMap hrun
  have hrestorable : ∀ o coin, s.view o = some coin → coin.Restorable := fun o coin ho =>
    ⟨LayersValid.view_isSpent_eq_false hs o coin ho, (hcoins o coin ho).1, (hcoins o coin ho).2⟩
  obtain ⟨s2, hs2, hshows2⟩ := disconnectLoop_updateCoinsAllOnMap hu hh undos.tail vtx
    hrun hfit hrestorable (fun i hi _ => by
      obtain ⟨j, rfl⟩ := Nat.exists_eq_add_of_lt hi
      cases undos with
      | nil => rfl
      | cons u us => simp) hshows1
  refine ⟨s1, undos.tail, by simp [connectBlockCoins, hs1], s2, ?_, hshows2.view_eq⟩
  have hsize : undos.tail.length + 1 = vtx.length := by
    have hpos := List.length_pos_iff.mpr hne
    simp only [List.length_tail, hlen]
    omega
  simp only [disconnectBlock, hsize, ne_eq, not_true_eq_false, if_false]
  exact hs2

/-- The transaction hash of the blocks below: the number of outputs. -/
def outputCountHash (tx : CTransaction) : Uint256 := BitVec.ofNat 256 tx.vout.length

/-- The outpoint that the blocks below spend. -/
def spentOutPoint : COutPoint := ⟨7, 0⟩

/-- A coinbase with one output, and a transaction with two outputs spending
`spentOutPoint`. -/
def spendingBlock : List CTransaction :=
  [⟨[⟨⟨0, COutPoint.nullIndex⟩, [], 0xffffffff⟩], [⟨50, [0x51]⟩]⟩,
    ⟨[⟨spentOutPoint, [], 0xffffffff⟩], [⟨20, [0x51]⟩, ⟨30, [0x51]⟩]⟩]

/-- One cache over a database holding a coin of height 3 at `spentOutPoint`. -/
def heightThreeView : CoinsStack :=
  ⟨[CCoinsViewCache.empty], update (fun _ => none) spentOutPoint (some ⟨⟨60, [0x51]⟩, false, false, 3⟩)⟩

theorem disconnectBlock_connectBlockCoins_spending :
    ∃ s1 vtxundo, connectBlockCoins (fun coin => coin.out.scriptPubKey.length) outputCountHash
        heightThreeView spendingBlock 10 = .ok (s1, vtxundo) ∧
      ∃ s2, disconnectBlock (fun coin => coin.out.scriptPubKey.length) outputCountHash s1
          spendingBlock vtxundo 10 = .ok (.ok, s2) ∧ s2.view = heightThreeView.view := by
  have hdb : ∀ o coin, heightThreeView.db o = some coin →
      coin = ⟨⟨60, [0x51]⟩, false, false, 3⟩ := by
    intro o coin h
    by_cases ho : o = spentOutPoint
    · subst ho
      simpa [heightThreeView] using h.symm
    · simp [heightThreeView, update_of_ne ho] at h
  have hs : heightThreeView.Valid fun coin => coin.out.scriptPubKey.length :=
    ⟨CCoinsViewCache.valid_empty _, fun o coin h => by rw [hdb o coin h]; rfl⟩
  have hcoins : ∀ o coin, heightThreeView.view o = some coin →
      coin.nHeight ≠ 0 ∧ isUnspendable coin.out.scriptPubKey = false := by
    intro o coin h
    rw [hdb o coin h]
    decide
  have hfit : BlockFitsView outputCountHash spendingBlock heightThreeView.view :=
    ⟨by decide, by decide, by decide, by decide, by decide⟩
  exact disconnectBlock_connectBlockCoins _ rfl outputCountHash hs (List.cons_ne_nil _ _)
    (List.cons_ne_nil _ _) hfit hcoins (by decide) (by decide)

/-- One cache over a database holding a coin of height 0 at `spentOutPoint`
and a coin of height 5 at the next output of the same transaction. -/
def heightZeroView : CoinsStack :=
  ⟨[CCoinsViewCache.empty], update (update (fun _ => none) spentOutPoint
    (some ⟨⟨60, [0x51]⟩, false, true, 0⟩)) ⟨7, 1⟩ (some ⟨⟨70, [0x51]⟩, true, false, 5⟩)⟩

/-- The block fits the view and its inputs are there, yet disconnecting it
after connecting it returns `DISCONNECT_OK` with the coin at `spentOutPoint`
back at height 5 instead of 0: its undo record has height 0, so
`ApplyTxInUndo` takes the height of the other output. -/
theorem disconnectBlock_connectBlockCoins_height_zero :
    BlockFitsView outputCountHash spendingBlock heightZeroView.view ∧
      (updateCoinsAllOnMap outputCountHash heightZeroView.view spendingBlock 10).isSome = true ∧
      ((connectBlockCoins (fun coin => coin.out.scriptPubKey.length) outputCountHash
          heightZeroView spendingBlock 10).bind fun r =>
        disconnectBlock (fun coin => coin.out.scriptPubKey.length) outputCountHash r.1
          spendingBlock r.2 10).map (fun r => (r.1, (r.2.view spentOutPoint).map Coin.nHeight)) =
        .ok (.ok, some 5) ∧
      (heightZeroView.view spentOutPoint).map Coin.nHeight = some 0 :=
  ⟨⟨by decide, by decide, by decide, by decide, by decide⟩,
    by decide, by decide, by decide⟩

end Metrix
