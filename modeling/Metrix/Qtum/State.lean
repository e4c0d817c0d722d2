import Metrix.Primitives.Transaction
import Metrix.Lib.SortedMap

/-! The contract side of the node's state as the account abstraction layer
sees it (`qtum/qtumstate.h`): addresses and 256-bit words of the EVM, the
value transfers the EVM reports, and the contract UTXO that each address owns
(`Vin`). The EVM itself lives in a library that is not part of this
repository; what of it the code reads is a field of `QtumState`. -/

namespace Metrix

/-- `dev::Address`, a 160-bit account. The ordered maps of the condensing
code order it as its big-endian bytes, that is, numerically. -/
abbrev Address := Fin (2 ^ 160)

/-- Addresses are written as numerals, which need the bound to be nonzero. -/
instance address_bound_neZero : NeZero (2 ^ 160 : ℕ) := ⟨(Nat.two_pow_pos 160).ne'⟩

/-- `Address::asBytes`: the 20 big-endian bytes. -/
def Address.asBytes (a : Address) : List UInt8 :=
  (List.range 20).reverse.map fun i => ((a.val / 256 ^ i) % 256).toUInt8

/-- `dev::u256`, the EVM word: arithmetic wraps modulo `2 ^ 256`. -/
abbrev U256 := BitVec 256

/-- `TransferInfo`: one value transfer made by the EVM. -/
structure TransferInfo where
  fromAddr : Address
  toAddr : Address
  value : U256
deriving DecidableEq, Repr

/-- `Vin`: the contract UTXO held for an address. A dead entry has
`alive = 0`. -/
structure Vin where
  hash : Uint256
  nVout : UInt32
  value : U256
  alive : UInt8
deriving DecidableEq, Repr

/-- `Vin{}`, the value-initialized entry that `std::map::operator[]` inserts. -/
instance : Inhabited Vin := ⟨⟨0, 0, 0, 0⟩⟩

/-- The fields of `QtumTransaction` that the account abstraction layer reads. -/
structure QtumTransaction where
  sender : Address
  value : U256
  hashWith : Uint256
  nVout : UInt32
deriving DecidableEq, Repr

/-- What `QtumState` holds for the account abstraction layer: the contract
UTXO of each address (`vin(a)`, the UTXO cache over the UTXO trie) and
whether the EVM has a live account there (`account(a) && a->isAlive()`). -/
structure QtumState where
  utxo : Address → Option Vin
  accountAlive : Address → Bool

/-- The Vin that `updateUTXO` leaves at an address that held `old` and is
given `v`. -/
def storedVin (old : Option Vin) (v : Vin) : Option Vin :=
  match old with
  | some _ => some v
  | none => if (0 : UInt8) < v.alive then some v else none

/-- One iteration of `QtumState::updateUTXO`: an address that already has a
contract UTXO takes the new entry, dead or alive; an address without one
takes it only when it is alive. -/
def QtumState.updateUTXOStep (s : QtumState) (e : Address × Vin) : QtumState :=
  match s.utxo e.1 with
  | some _ => { s with utxo := Function.update s.utxo e.1 (some e.2) }
  | none =>
      if (0 : UInt8) < e.2.alive then { s with utxo := Function.update s.utxo e.1 (some e.2) }
      else s

/-- `QtumState::updateUTXO`. The source iterates an unordered map; the
result does not depend on the order (`utxo_updateUTXO`). -/
def QtumState.updateUTXO (s : QtumState) (vins : SortedMap Address Vin) : QtumState :=
  vins.entries.foldl QtumState.updateUTXOStep s

theorem utxo_updateUTXOStep (s : QtumState) (e : Address × Vin) (a : Address) :
    (s.updateUTXOStep e).utxo a = if a = e.1 then storedVin (s.utxo a) e.2 else s.utxo a := by
  obtain ⟨k, v⟩ := e
  unfold QtumState.updateUTXOStep
  by_cases ha : a = k
  · subst ha
    cases hs : s.utxo a with
    | some _ => simp [storedVin]
    | none => by_cases hv : (0 : UInt8) < v.alive <;> simp [storedVin, hs, hv]
  · cases s.utxo k with
    | some _ => simp [ha]
    | none => by_cases hv : (0 : UInt8) < v.alive <;> simp [ha, hv]

theorem storedVin_of_alive (old : Option Vin) {v : Vin} (h : (0 : UInt8) < v.alive) :
    storedVin old v = some v := by
  cases old <;> simp [storedVin, h]

/-- A dead Vin replaces an existing entry and is dropped otherwise. -/
theorem storedVin_of_dead (old : Option Vin) {v : Vin} (h : v.alive = 0) :
    storedVin old v = old.map fun _ => v := by
  cases old <;> simp [storedVin, h]

/-- What `updateUTXO` stores at each address depends only on the Vin it is
given there. -/
theorem utxo_updateUTXO (s : QtumState) (vins : SortedMap Address Vin) (a : Address) :
    (s.updateUTXO vins).utxo a = (vins.find? a).elim (s.utxo a) (storedVin (s.utxo a)) :=
  SortedMap.get_foldl_of_local QtumState.utxo QtumState.updateUTXOStep (fun _ v old => storedVin old v)
    utxo_updateUTXOStep vins.keys_nodup s a

end Metrix
