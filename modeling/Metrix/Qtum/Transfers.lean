import Metrix.Qtum.State

/-! The check of the transfers of an EVM execution against its change log
(`QtumState::validateTransfersWithChangeLog`, from QIP7 on).
`transferBalance` records each transfer of a positive value, and `addBalance`
and `subBalance` log each change of a balance. A transfer is kept when the
change log credits its value to the receiver and debits it from the sender;
the two entries found are then marked used by setting their address to
`Address(0)`. The EVM library that defines `dev::eth::Change` is outside this
tree; the check reads its kind, address and value. -/

namespace Metrix

/-- The kinds of `dev::eth::Change`: `Balance`, and the others, which the
check passes over. -/
inductive ChangeKind
  | balance
  | other
deriving DecidableEq, Repr

/-- `dev::eth::Change`, by the fields the check reads. -/
structure Change where
  kind : ChangeKind
  address : Address
  value : U256
deriving DecidableEq, Repr

/-- The receiver's entry of a transfer: a balance change of its value at its
receiver. -/
def Change.credits (ti : TransferInfo) (c : Change) : Bool :=
  c.kind = .balance && c.address = ti.toAddr && c.value = ti.value

/-- The sender's entry: a balance change of `0 - value` at its sender. -/
def Change.debits (ti : TransferInfo) (c : Change) : Bool :=
  c.kind = .balance && c.address = ti.fromAddr && c.value = 0 - ti.value

/-- `tmpChangeLog[i].address = dev::Address(0)`. -/
def markUsed (log : List Change) (i : ℕ) : List Change :=
  log.modify i fun c => { c with address := 0 }

/-- One pass of the outer loop over the transfers: the first credit of `ti`,
then the first debit, both marked used and `ti` kept when both exist. The
search breaks after the first credit, whether a debit follows or not. -/
def validateStep (acc : List Change × List TransferInfo) (ti : TransferInfo) :
    List Change × List TransferInfo :=
  match acc.1.findIdx? (Change.credits ti) with
  | none => acc
  | some i =>
      match acc.1.findIdx? (Change.debits ti) with
      | none => acc
      | some j => (markUsed (markUsed acc.1 i) j, acc.2 ++ [ti])

/-- `QtumState::validateTransfersWithChangeLog`: the transfers it keeps. -/
def validateTransfersWithChangeLog (changeLog : List Change) (transfers : List TransferInfo) :
    List TransferInfo :=
  (transfers.foldl validateStep (changeLog, [])).2

/-- The credit of 5 to 1, once used by the transfer from 2 to 1, is marked
by giving it the address 0, and so it credits a transfer of 5 to the zero
address: the transfer from 3 to 0 is kept although the change log credits
nothing to the zero address. -/
theorem validateTransfersWithChangeLog_keeps_unlogged_transfer :
    validateTransfersWithChangeLog [⟨.balance, 1, 5⟩, ⟨.balance, 2, 0 - 5⟩, ⟨.balance, 3, 0 - 5⟩]
        [⟨2, 1, 5⟩, ⟨3, 0, 5⟩] = [⟨2, 1, 5⟩, ⟨3, 0, 5⟩] ∧
      ([⟨.balance, 1, 5⟩, ⟨.balance, 2, 0 - 5⟩, ⟨.balance, 3, 0 - 5⟩] : List Change).all
        (fun c => !Change.credits ⟨3, 0, 5⟩ c) = true := by
  decide

end Metrix
