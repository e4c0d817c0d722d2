import Metrix.Qtum.State

/-! `CondensingTX` (`qtum/qtumstate.cpp`): the transaction that settles the
value transfers of one contract execution on the UTXO side. Each method of
the class is a function on the object's fields; the loops over the object's
`std::map`s are folds over their entries in key order. `createNewBalances`
returns the object as the loop left it, also when it stops early, because
`createVin` reads those partial balances afterwards.

`CAmount(b)` converts a `dev::u256` by the multiprecision library, which is
not part of this repository: it is the argument `toCAmount`. -/

namespace Metrix

open Opcode

/-- `MAX_CONTRACT_VOUTS`. -/
def maxContractVouts : ℕ := 1000

/-- `plusAndMinus`: what an address receives and what it pays. -/
abbrev PlusAndMinus := U256 × U256

/-- `CondensingTX`: the constructor arguments, then the private state. -/
structure CondensingTX where
  transfers : List TransferInfo
  deleteAddresses : Finset Address
  transaction : QtumTransaction
  plusMinusInfo : SortedMap Address PlusAndMinus := .empty
  balances : SortedMap Address U256 := .empty
  nVouts : SortedMap Address UInt32 := .empty
  vins : SortedMap Address Vin := .empty
  voutOverflow : Bool := false

namespace CondensingTX

/-- The Vin that stands for the calling output of the transaction. -/
def callingVin (t : QtumTransaction) : Vin :=
  ⟨t.hashWith, t.nVout, t.value, 1⟩

/-- Copy the UTXO entry of `k` into `vins`, if it has one. -/
def copyVin (state : QtumState) (vins : SortedMap Address Vin) (k : Address) :
    SortedMap Address Vin :=
  match state.utxo k with
  | some a => vins.insert k a
  | none => vins

/-- The payer half of an iteration of `selectionVin`: fetch the payer's Vin
when it has none yet; for the sender of a transaction carrying value, the
calling output replaces it. -/
def fetchPayerVin (state : QtumState) (t : QtumTransaction) (vins : SortedMap Address Vin)
    (k : Address) : SortedMap Address Vin :=
  if vins.contains k then vins
  else
    let vins := copyVin state vins k
    if k = t.sender ∧ 0 < t.value then vins.insert k (callingVin t) else vins

/-- The payee half of an iteration of `selectionVin`. -/
def fetchPayeeVin (state : QtumState) (vins : SortedMap Address Vin) (k : Address) :
    SortedMap Address Vin :=
  if vins.contains k then vins else copyVin state vins k

/-- One iteration of `selectionVin`. -/
def selectionStep (state : QtumState) (t : QtumTransaction)
    (vins : SortedMap Address Vin) (ti : TransferInfo) : SortedMap Address Vin :=
  fetchPayeeVin state (fetchPayerVin state t vins ti.fromAddr) ti.toAddr

/-- `CondensingTX::selectionVin`. -/
def selectionVin (state : QtumState) (c : CondensingTX) : CondensingTX :=
  { c with vins := c.transfers.foldl (selectionStep state c.transaction) c.vins }

/-- The payer half of an iteration of `calculatePlusAndMinus`. -/
def addMinus (pm : SortedMap Address PlusAndMinus) (k : Address) (v : U256) :
    SortedMap Address PlusAndMinus :=
  match pm.find? k with
  | none => pm.insert k (0, v)
  | some (p, m) => pm.insert k (p, m + v)

/-- The payee half of an iteration of `calculatePlusAndMinus`. -/
def addPlus (pm : SortedMap Address PlusAndMinus) (k : Address) (v : U256) :
    SortedMap Address PlusAndMinus :=
  match pm.find? k with
  | none => pm.insert k (v, 0)
  | some (p, m) => pm.insert k (p + v, m)

/-- One iteration of `calculatePlusAndMinus`. -/
def plusMinusStep (pm : SortedMap Address PlusAndMinus) (ti : TransferInfo) :
    SortedMap Address PlusAndMinus :=
  addPlus (addMinus pm ti.fromAddr ti.value) ti.toAddr ti.value

/-- `CondensingTX::calculatePlusAndMinus`. -/
def calculatePlusAndMinus (c : CondensingTX) : CondensingTX :=
  { c with plusMinusInfo := c.transfers.foldl plusMinusStep c.plusMinusInfo }

/-- Whether the Vin of `a` is counted (`createNewBalances`) and spent
(`createVins`): alive, or dead but not deleted by this execution. -/
def spendable (deleteAddresses : Finset Address) (a : Address) (v : Vin) : Prop :=
  v.alive ≠ 0 ∨ (v.alive = 0 ∧ a ∉ deleteAddresses)

instance (d : Finset Address) (a : Address) (v : Vin) : Decidable (spendable d a v) := by
  unfold spendable; infer_instance

/-- The opening balance read by `createNewBalances`, with the side effect of
its condition: when `a` has no Vin the test `!vins[a].alive` inserts the
zero Vin, whose value 0 is then the opening balance either way. -/
def openingBalance (deleteAddresses : Finset Address) (a : Address)
    (vins : SortedMap Address Vin) : U256 × SortedMap Address Vin :=
  match vins.find? a with
  | some v => (if spendable deleteAddresses a v then v.value else 0, vins)
  | none => ((default : Vin).value, vins.insert a default)

/-- The loop of `createNewBalances` over the entries of `plusMinusInfo`;
`false` with the state reached when an address pays more than it has. -/
def newBalancesLoop (deleteAddresses : Finset Address) :
    List (Address × PlusAndMinus) → SortedMap Address Vin → SortedMap Address U256 →
      Bool × SortedMap Address Vin × SortedMap Address U256
  | [], vins, balances => (true, vins, balances)
  | (a, (plus, minus)) :: rest, vins, balances =>
      let opening := openingBalance deleteAddresses a vins
      let balance := opening.1 + plus
      if balance < minus then (false, opening.2, balances)
      else newBalancesLoop deleteAddresses rest opening.2 (balances.insert a (balance - minus))

/-- `CondensingTX::createNewBalances`. -/
def createNewBalances (c : CondensingTX) : Bool × CondensingTX :=
  let r := newBalancesLoop c.deleteAddresses c.plusMinusInfo.entries c.vins c.balances
  (r.1, { c with vins := r.2.1, balances := r.2.2 })

/-- The input spending a Vin: `CTxIn(hash, nVout, CScript() << OP_SPEND)`. -/
def spendInput (v : Vin) : CTxIn :=
  { prevout := ⟨v.hash, v.nVout⟩, scriptSig := spendScript }

/-- The condition of `createVins`; it tests `spendable` as `createNewBalances` does. -/
def spentBy (deleteAddresses : Finset Address) (e : Address × Vin) : Prop :=
  (0 < e.2.value ∧ e.2.alive ≠ 0) ∨ (0 < e.2.value ∧ e.2.alive = 0 ∧ e.1 ∉ deleteAddresses)

instance (d : Finset Address) (e : Address × Vin) : Decidable (spentBy d e) := by
  unfold spentBy; infer_instance

/-- The Vins that `createVins` spends, in key order. -/
def spentVins (c : CondensingTX) : List (Address × Vin) :=
  c.vins.entries.filter fun e => spentBy c.deleteAddresses e

/-- `CondensingTX::createVins`. -/
def createVins (c : CondensingTX) : List CTxIn :=
  c.spentVins.map fun e => spendInput e.2

/-- The output script for a positive balance: a no-exec call to a live
contract account, pay-to-pubkey-hash otherwise. -/
def voutScript (state : QtumState) (a : Address) : CScript :=
  if state.accountAlive a then noExecCall a.asBytes else payToPubKeyHash a.asBytes

/-- The loop of `createVout` over the entries of `balances`: the outputs so
far, the output index of each address and whether it stopped at the limit. -/
def voutLoop (toCAmount : U256 → CAmount) (state : QtumState) :
    List (Address × U256) → ℕ → List CTxOut → SortedMap Address UInt32 →
      List CTxOut × SortedMap Address UInt32 × Bool
  | [], _, outs, nVouts => (outs, nVouts, false)
  | (a, b) :: rest, count, outs, nVouts =>
      let (count, outs, nVouts) :=
        if 0 < b then
          (count + 1, outs ++ [⟨toCAmount b, voutScript state a⟩], nVouts.insert a count.toUInt32)
        else (count, outs, nVouts)
      if count > maxContractVouts then (outs, nVouts, true)
      else voutLoop toCAmount state rest count outs nVouts

/-- `CondensingTX::createVout`. -/
def createVout (toCAmount : U256 → CAmount) (state : QtumState) (c : CondensingTX) :
    List CTxOut × CondensingTX :=
  let r := voutLoop toCAmount state c.balances.entries 0 [] c.nVouts
  (r.1, { c with nVouts := r.2.1, voutOverflow := r.2.2 || c.voutOverflow })

/-- `CondensingTX::createCondensingTX`: the transaction, and the object as
the call leaves it for `reachedVoutLimit` and `createVin`. -/
def createCondensingTX (toCAmount : U256 → CAmount) (state : QtumState) (c : CondensingTX) :
    CTransaction × CondensingTX :=
  let c := (c.selectionVin state).calculatePlusAndMinus
  let r := c.createNewBalances
  if !r.1 then (CTransaction.empty, r.2)
  else
    let ins := r.2.createVins
    let outs := r.2.createVout toCAmount state
    ((if ins.isEmpty || outs.1.isEmpty then CTransaction.empty else ⟨ins, outs.1⟩), outs.2)

/-- `CondensingTX::reachedVoutLimit`. -/
def reachedVoutLimit (c : CondensingTX) : Bool := c.voutOverflow

/-- One iteration of `createVin`: skip the sender; an alive Vin on the
address's output for a positive balance, a dead one otherwise. -/
def createVinStep (txHash : Uint256) (c : CondensingTX) (vins : SortedMap Address Vin)
    (b : Address × U256) : SortedMap Address Vin :=
  if b.1 = c.transaction.sender then vins
  else if 0 < b.2 then vins.insert b.1 ⟨txHash, (c.nVouts.find? b.1).getD 0, b.2, 1⟩
  else vins.insert b.1 ⟨txHash, 0, 0, 0⟩

/-- `CondensingTX::createVin`, given `tx.GetHash()`. -/
def createVin (txHash : Uint256) (c : CondensingTX) : SortedMap Address Vin :=
  c.balances.entries.foldl (createVinStep txHash c) .empty

end CondensingTX

/-- A fresh `CondensingTX(state, transfers, t, deleteAddresses)`. -/
def CondensingTX.mk' (transfers : List TransferInfo) (t : QtumTransaction)
    (deleteAddresses : Finset Address) : CondensingTX :=
  { transfers, deleteAddresses, transaction := t }

end Metrix
