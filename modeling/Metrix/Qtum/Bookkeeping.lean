import Metrix.Qtum.Conservation

/-! The bookkeeping after a condensing transaction (`QtumState::execute`):
`createVin` gives each address the output of the transaction that now holds
its balance, at the index `createVout` recorded, and `updateUTXO` stores it
in the contract UTXO map. -/

namespace Metrix.CondensingTX

open SortedMap

/-! ## `createVin` -/

theorem find?_createVinStep (txHash : Uint256) (c : CondensingTX) (vins : SortedMap Address Vin)
    (b : Address × U256) (a : Address) :
    (createVinStep txHash c vins b).find? a =
      if a = b.1 then
        (if b.1 = c.transaction.sender then vins.find? a
          else if 0 < b.2 then some ⟨txHash, (c.nVouts.find? b.1).getD 0, b.2, 1⟩
          else some ⟨txHash, 0, 0, 0⟩)
      else vins.find? a := by
  unfold createVinStep
  by_cases ha : a = b.1
  · subst ha
    rw [if_pos rfl]
    split_ifs <;> simp
  · rw [if_neg ha]
    split_ifs <;> simp [ha]

/-- `createVin` writes every address with a new balance but the sender, and
no other. -/
theorem find?_createVin (txHash : Uint256) (c : CondensingTX) (a : Address) :
    (createVin txHash c).find? a = (c.balances.find? a).elim none fun b =>
      if a = c.transaction.sender then none
      else if 0 < b then some ⟨txHash, (c.nVouts.find? a).getD 0, b, 1⟩
      else some ⟨txHash, 0, 0, 0⟩ :=
  get_foldl_of_local SortedMap.find? (createVinStep txHash c)
    (fun a b old => if a = c.transaction.sender then old
      else if 0 < b then some ⟨txHash, (c.nVouts.find? a).getD 0, b, 1⟩
      else some ⟨txHash, 0, 0, 0⟩)
    (find?_createVinStep txHash c) c.balances.keys_nodup .empty a

/-! ## The indices recorded by `createVout` -/

section Vout

variable {toCAmount : U256 → CAmount} {state : QtumState}

/-- The loop records an index only for the addresses it visits. -/
theorem voutLoop_nVouts_of_not_mem {L : List (Address × U256)} {count : ℕ}
    {outs : List CTxOut} {nVouts : SortedMap Address UInt32} {a : Address}
    (ha : a ∉ L.map Prod.fst) :
    (voutLoop toCAmount state L count outs nVouts).2.1.find? a = nVouts.find? a := by
  induction L generalizing count outs nVouts with
  | nil => rfl
  | cons e rest ih =>
      obtain ⟨k, b⟩ := e
      rw [List.map_cons, List.mem_cons, not_or] at ha
      unfold voutLoop
      by_cases hb : 0 < b
      · simp only [hb, if_true]
        split_ifs
        · exact find?_insert_of_ne _ _ ha.1
        · rw [ih ha.2, find?_insert_of_ne _ _ ha.1]
      · simp only [hb, if_false]
        split_ifs
        · rfl
        · exact ih ha.2

/-- Without reaching the limit, the index the loop records for a positive
balance is the position of the output that pays it. The count is the number
of outputs so far and stays below the limit, so it fits the `uint32_t` of
`nVouts`. -/
theorem voutLoop_index {L : List (Address × U256)} (hL : L.Pairwise fun x y => x.1 < y.1)
    {count : ℕ} {outs : List CTxOut} {nVouts : SortedMap Address UInt32}
    (hcount : outs.length = count) (hmax : count ≤ maxContractVouts)
    (h : (voutLoop toCAmount state L count outs nVouts).2.2 = false)
    {a : Address} {b : U256} (hab : (a, b) ∈ L) (hb : 0 < b) :
    ∃ i : UInt32, (voutLoop toCAmount state L count outs nVouts).2.1.find? a = some i ∧
      (voutLoop toCAmount state L count outs nVouts).1[i.toNat]? =
        some (balanceOut toCAmount state (a, b)) := by
  induction L generalizing count outs nVouts with
  | nil => cases hab
  | cons e rest ih =>
      obtain ⟨k, b'⟩ := e
      rw [List.pairwise_cons] at hL
      have hout := voutLoop_outs h
      unfold voutLoop at h hout ⊢
      rcases List.mem_cons.mp hab with heq | hrest
      · -- the entry itself: its index is the count of the outputs before it
        obtain ⟨rfl, rfl⟩ := Prod.mk.inj heq
        simp only [hb, if_true] at h hout ⊢
        split_ifs at h hout ⊢ with hover
        have hfresh : a ∉ rest.map Prod.fst := fun hmem => by
          obtain ⟨e', he', hkey⟩ := List.mem_map.mp hmem
          exact absurd (hL.1 e' he') (by rw [hkey]; exact lt_irrefl a)
        have hidx : count.toUInt32.toNat = count := by
          simp only [Nat.toUInt32_eq]
          exact Nat.mod_eq_of_lt (by unfold maxContractVouts at hmax; omega)
        refine ⟨count.toUInt32, ?_, ?_⟩
        · rw [voutLoop_nVouts_of_not_mem hfresh, find?_insert_self]
        · rw [hout, hidx, List.filter_cons_of_pos (by simpa using hb), List.map_cons,
            List.getElem?_append_right (by omega), hcount, Nat.sub_self, List.getElem?_cons_zero]
      · by_cases hb' : 0 < b'
        · simp only [hb', if_true] at h ⊢
          split_ifs at h ⊢ with hover
          exact ih hL.2 (by simp [hcount]) (by omega) h hrest
        · simp only [hb', if_false] at h ⊢
          split_ifs at h ⊢ with hover
          exact ih hL.2 hcount (by omega) h hrest

end Vout

/-! ## The contract UTXO map after a condensing transaction -/

/-- After a non-empty condensing transaction that did not reach the output
limit, every address of the transfers but the sender has a new balance `b`.
When `b` is positive, `createVin` gives it an alive Vin on the output at the
index `createVout` recorded, that output pays `CAmount(b)` with the address's
script, and `updateUTXO` stores that Vin. When `b` is zero, `createVin` gives
it a dead Vin, which `updateUTXO` stores only over an existing entry. -/
theorem createVin_records_vout (toCAmount : U256 → CAmount) (txHash : Uint256)
    (state : QtumState) (transfers : List TransferInfo) (t : QtumTransaction)
    (d : Finset Address)
    (hne : (createCondensingTX toCAmount state (mk' transfers t d)).1 ≠ CTransaction.empty)
    (hlim : (createCondensingTX toCAmount state (mk' transfers t d)).2.reachedVoutLimit = false)
    (a : Address) (ha : a ∈ touched transfers) (hs : a ≠ t.sender) :
    let r := createCondensingTX toCAmount state (mk' transfers t d)
    ∃ b, r.2.balances.find? a = some b ∧
      (0 < b → ∃ i : UInt32, r.2.nVouts.find? a = some i ∧
        r.1.vout[i.toNat]? = some ⟨toCAmount b, voutScript state a⟩ ∧
        (createVin txHash r.2).find? a = some ⟨txHash, i, b, 1⟩ ∧
        (state.updateUTXO (createVin txHash r.2)).utxo a = some ⟨txHash, i, b, 1⟩) ∧
      (b = 0 → (createVin txHash r.2).find? a = some ⟨txHash, 0, 0, 0⟩ ∧
        (state.updateUTXO (createVin txHash r.2)).utxo a =
          (state.utxo a).map fun _ => ⟨txHash, 0, 0, 0⟩) := by
  intro r
  obtain ⟨hok, htx, hobj⟩ := createCondensingTX_of_ne_empty hne
  change (balancesRun state transfers t d).1 = true at hok
  -- the maps of the object as `createVout` leaves it
  have hvl : (voutLoop toCAmount state (balancesRun state transfers t d).2.2.entries 0 []
      SortedMap.empty).2.2 = false := by
    rw [hobj] at hlim
    simp only [reachedVoutLimit, createVout, Bool.or_eq_false_iff] at hlim
    exact hlim.1
  have hbal : r.2.balances = (balancesRun state transfers t d).2.2 := by rw [hobj]; rfl
  have htr : r.2.transaction = t := by rw [hobj]; rfl
  have hnv : r.2.nVouts = (voutLoop toCAmount state (balancesRun state transfers t d).2.2.entries
      0 [] SortedMap.empty).2.1 := by rw [hobj]; rfl
  have hvout : r.1.vout = (voutLoop toCAmount state (balancesRun state transfers t d).2.2.entries
      0 [] SortedMap.empty).1 := by rw [htx]; rfl
  obtain ⟨hfind, -⟩ := find?_balancesRun hok ha
  have hvin := find?_createVin txHash r.2 a
  rw [hbal, hfind, htr] at hvin
  simp only [Option.elim, if_neg hs] at hvin
  refine ⟨_, hbal ▸ hfind, fun hb => ?_, fun hb => ?_⟩
  · obtain ⟨i, hi, hout⟩ := voutLoop_index (balancesRun state transfers t d).2.2.sorted
      (show ([] : List CTxOut).length = 0 from rfl) (Nat.zero_le _) hvl
      (find?_eq_some_iff.mp hfind) hb
    rw [if_pos hb, hnv, hi, Option.getD_some] at hvin
    refine ⟨i, hnv ▸ hi, hvout ▸ hout, hvin, ?_⟩
    rw [utxo_updateUTXO, hvin, Option.elim, storedVin_of_alive _ (show (0 : UInt8) < 1 by decide)]
  · rw [hb, if_neg (by decide)] at hvin
    refine ⟨hvin, ?_⟩
    rw [utxo_updateUTXO, hvin, Option.elim, storedVin_of_dead _ rfl]

/-- The call of `createCondensingTX_call_and_forward` once more: `3` receives
its 3 on output 1, after the contract's 9 on output 0, and the contract UTXO
map records that output. -/
theorem createVin_records_forward :
    (createCondensingTX (fun n => (n.toNat : ℤ))
      ⟨fun a => if a = 2 then some ⟨0, 1, 7, 1⟩ else none, fun a => a = 2⟩
      (mk' [⟨1, 2, 5⟩, ⟨2, 3, 3⟩] ⟨1, 5, 1, 0⟩ ∅)).1 ≠ CTransaction.empty ∧
    (createCondensingTX (fun n => (n.toNat : ℤ))
      ⟨fun a => if a = 2 then some ⟨0, 1, 7, 1⟩ else none, fun a => a = 2⟩
      (mk' [⟨1, 2, 5⟩, ⟨2, 3, 3⟩] ⟨1, 5, 1, 0⟩ ∅)).2.reachedVoutLimit = false ∧
    (3 : Address) ∈ touched [⟨1, 2, 5⟩, ⟨2, 3, 3⟩] ∧ (3 : Address) ≠ 1 ∧
    let r := createCondensingTX (fun n => (n.toNat : ℤ))
      ⟨fun a => if a = 2 then some ⟨0, 1, 7, 1⟩ else none, fun a => a = 2⟩
      (mk' [⟨1, 2, 5⟩, ⟨2, 3, 3⟩] ⟨1, 5, 1, 0⟩ ∅)
    ∃ b, r.2.balances.find? 3 = some b ∧
      (0 < b → ∃ i : UInt32, r.2.nVouts.find? 3 = some i ∧
        r.1.vout[i.toNat]? = some ⟨(fun n : U256 => (n.toNat : ℤ)) b,
          voutScript ⟨fun a => if a = 2 then some ⟨0, 1, 7, 1⟩ else none, fun a => a = 2⟩ 3⟩ ∧
        (createVin 7 r.2).find? 3 = some ⟨7, i, b, 1⟩ ∧
        (QtumState.updateUTXO ⟨fun a => if a = 2 then some ⟨0, 1, 7, 1⟩ else none,
          fun a => a = 2⟩ (createVin 7 r.2)).utxo 3 = some ⟨7, i, b, 1⟩) ∧
      (b = 0 → (createVin 7 r.2).find? 3 = some ⟨7, 0, 0, 0⟩ ∧
        (QtumState.updateUTXO ⟨fun a => if a = 2 then some ⟨0, 1, 7, 1⟩ else none,
          fun a => a = 2⟩ (createVin 7 r.2)).utxo 3 =
          (if (3 : Address) = 2 then some (⟨0, 1, 7, 1⟩ : Vin) else none).map
            fun _ => ⟨7, 0, 0, 0⟩) := by
  have hne : (createCondensingTX (fun n => (n.toNat : ℤ))
      ⟨fun a => if a = 2 then some ⟨0, 1, 7, 1⟩ else none, fun a => a = 2⟩
      (mk' [⟨1, 2, 5⟩, ⟨2, 3, 3⟩] ⟨1, 5, 1, 0⟩ ∅)).1 ≠ CTransaction.empty := by decide
  have hlim : (createCondensingTX (fun n => (n.toNat : ℤ))
      ⟨fun a => if a = 2 then some ⟨0, 1, 7, 1⟩ else none, fun a => a = 2⟩
      (mk' [⟨1, 2, 5⟩, ⟨2, 3, 3⟩] ⟨1, 5, 1, 0⟩ ∅)).2.reachedVoutLimit = false := by decide
  have hmem : (3 : Address) ∈ touched [⟨1, 2, 5⟩, ⟨2, 3, 3⟩] := by decide
  have hs : (3 : Address) ≠ 1 := by decide
  exact ⟨hne, hlim, hmem, hs, createVin_records_vout _ 7 _ _ _ _ hne hlim 3 hmem hs⟩

/-- A contract without a contract UTXO that passes on all it receives ends
with balance 0: `createVin` gives it a dead Vin, but `updateUTXO` does not
store a dead Vin for an address without an entry, so it still has none. -/
theorem updateUTXO_drops_dead_vin :
    let r := createCondensingTX (fun n => (n.toNat : ℤ)) ⟨fun _ => none, fun _ => false⟩
      (mk' [⟨1, 2, 5⟩, ⟨2, 3, 5⟩] ⟨1, 5, 1, 0⟩ ∅)
    r.1 ≠ CTransaction.empty ∧ r.2.reachedVoutLimit = false ∧
      r.2.balances.find? 2 = some 0 ∧ (createVin 7 r.2).find? 2 = some ⟨7, 0, 0, 0⟩ ∧
      (QtumState.updateUTXO ⟨fun _ => none, fun _ => false⟩ (createVin 7 r.2)).utxo 2 = none := by
  decide

/-- A condensation that fails still writes the addresses before the one that
fails. Address 1 pays 5 of its 10 and 3 pays 7 of nothing to 2;
`createNewBalances` has set the balances of 1 and 2 when it stops at 3, and
`createCondensingTX` returns the empty transaction. `createVin` of that
transaction, whatever its hash `h`, and `updateUTXO`, as `QtumState::execute`
runs them, move the contract UTXO of 1 from its output of 10 to an output of
the empty transaction worth 5, and give 2 one worth 12. -/
theorem updateUTXO_after_failed_condensing (h : Uint256) :
    let state : QtumState := ⟨fun a => if a = 1 then some ⟨0, 1, 10, 1⟩ else none, fun _ => false⟩
    let r := createCondensingTX (fun n => (n.toNat : ℤ)) state
      (mk' [⟨1, 2, 5⟩, ⟨3, 2, 7⟩] ⟨9, 0, 1, 0⟩ ∅)
    r.1 = CTransaction.empty ∧ r.2.reachedVoutLimit = false ∧
      (state.updateUTXO (createVin h r.2)).utxo 1 = some ⟨h, 0, 5, 1⟩ ∧
      (state.updateUTXO (createVin h r.2)).utxo 2 = some ⟨h, 0, 12, 1⟩ := by
  intro state r
  have hsender : r.2.transaction.sender = 9 := by decide
  have hb1 : r.2.balances.find? 1 = some 5 := by decide
  have hb2 : r.2.balances.find? 2 = some 12 := by decide
  have hnv1 : r.2.nVouts.find? 1 = none := by decide
  have hnv2 : r.2.nVouts.find? 2 = none := by decide
  refine ⟨by decide, by decide, ?_, ?_⟩
  · rw [utxo_updateUTXO, find?_createVin, hb1, hsender, hnv1]
    simp [state, storedVin]
  · rw [utxo_updateUTXO, find?_createVin, hb2, hsender, hnv2]
    simp [state, storedVin]

end Metrix.CondensingTX
