import Metrix.Primitives.Script

/-! Amounts, hashes and transactions (`amount.h`,
`primitives/transaction.h`). `CAmount` is `int64_t` in the source; it is an
unbounded integer here and every range the code relies on is stated where it
is used. A transaction's hash is not computed: functions that read
`GetHash()` take it as an argument. -/

namespace Metrix

/-- `CAmount`. -/
abbrev CAmount := ℤ

def coin : CAmount := 100000000

/-- Metrix raises the money cap of the Bitcoin code it derives from. -/
def maxMoney : CAmount := 30000000000 * coin

/-- `MoneyRange`. -/
def moneyRange (n : CAmount) : Prop := 0 ≤ n ∧ n ≤ maxMoney

instance (n : CAmount) : Decidable (moneyRange n) := by
  unfold moneyRange; infer_instance

/-- Comparisons of amounts as comparisons of integers, the form `omega` reads. -/
theorem camount_lt_iff (a b : CAmount) : a < b ↔ @LT.lt ℤ _ a b := Iff.rfl

theorem camount_le_iff (a b : CAmount) : a ≤ b ↔ @LE.le ℤ _ a b := Iff.rfl

/-- `uint256`, also standing for `dev::h256`: `uintToh256` and `h256Touint`
only reorder bytes, so both directions are the identity here. -/
abbrev Uint256 := BitVec 256

/-- `COutPoint`. -/
structure COutPoint where
  hash : Uint256
  n : UInt32
deriving DecidableEq, Repr

/-- `COutPoint::NULL_INDEX`. -/
def COutPoint.nullIndex : UInt32 := 0xffffffff

/-- `COutPoint::IsNull`. -/
def COutPoint.isNull (o : COutPoint) : Bool :=
  o.hash = 0 && o.n = COutPoint.nullIndex

/-- `CTxIn`, without the witness, which no modelled function reads. -/
structure CTxIn where
  prevout : COutPoint
  scriptSig : CScript
  nSequence : UInt32 := 0xffffffff
deriving DecidableEq, Repr

/-- `CTxOut`. -/
structure CTxOut where
  nValue : CAmount
  scriptPubKey : CScript
deriving DecidableEq, Repr

/-- `CTxOut::IsEmpty`. -/
def CTxOut.isEmpty (o : CTxOut) : Bool :=
  o.nValue = 0 && o.scriptPubKey.isEmpty

/-- `CTransaction`, by its inputs and outputs; the version and lock time of
every transaction built here are the defaults. -/
structure CTransaction where
  vin : List CTxIn
  vout : List CTxOut
deriving DecidableEq, Repr

/-- `CTransaction()`, the empty transaction. -/
def CTransaction.empty : CTransaction := ⟨[], []⟩

/-- `CTransaction::IsCoinBase`. -/
def CTransaction.isCoinBase (tx : CTransaction) : Bool :=
  match tx.vin with
  | [i] => i.prevout.isNull && 1 ≤ tx.vout.length
  | _ => false

/-- `CTransaction::IsCoinStake`: the first output of a coinstake is empty. -/
def CTransaction.isCoinStake (tx : CTransaction) : Bool :=
  match tx.vin, tx.vout with
  | i :: _, o :: _ :: _ => !i.prevout.isNull && o.isEmpty
  | _, _ => false

/-- The loop of `CTransaction::GetValueOut` at one output: a burnt output is
skipped, the others are added, and the `runtime_error` thrown when the value
or the running total leaves `MoneyRange` is the error. No addition of two
amounts that pass the check overflows `int64_t`, and an output whose value
does not pass it throws whatever the total. -/
def addValueOut (nValueOut : CAmount) (txOut : CTxOut) : Except String CAmount :=
  if isBurnt txOut.scriptPubKey then pure nValueOut
  else
    let nValueOut := nValueOut + txOut.nValue
    if ¬moneyRange txOut.nValue ∨ ¬moneyRange nValueOut then throw "GetValueOut: value out of range"
    else pure nValueOut

/-- `CTransaction::GetValueOut`. -/
def CTransaction.getValueOut (tx : CTransaction) : Except String CAmount :=
  tx.vout.foldlM addValueOut 0

/-- The outputs `GetValueOut` counts. -/
def CTransaction.unburntVout (tx : CTransaction) : List CTxOut :=
  tx.vout.filter fun o => !isBurnt o.scriptPubKey

theorem sum_nonneg_of_moneyRange {vout : List CTxOut} (h : ∀ o ∈ vout, moneyRange o.nValue) :
    (0 : ℤ) ≤ (vout.map (·.nValue)).sum :=
  List.sum_nonneg fun v hv => by
    obtain ⟨o, ho, rfl⟩ := List.mem_map.mp hv
    exact (h o ho).1

/-- The loop from a running total in `MoneyRange` returns exactly when every
value it adds and its final total are in range, and returns that total. -/
theorem foldlM_addValueOut_eq_ok {vout : List CTxOut} :
    ∀ {acc v : CAmount}, moneyRange acc →
      (vout.foldlM addValueOut acc = .ok v ↔
        (∀ o ∈ vout.filter (fun o => !isBurnt o.scriptPubKey), moneyRange o.nValue) ∧
          acc + ((vout.filter fun o => !isBurnt o.scriptPubKey).map (·.nValue)).sum ≤ maxMoney ∧
          v = acc + ((vout.filter fun o => !isBurnt o.scriptPubKey).map (·.nValue)).sum) := by
  induction vout with
  | nil =>
    intro acc v hacc
    simp only [List.foldlM_nil, List.filter_nil, List.map_nil, List.sum_nil, add_zero,
      List.not_mem_nil, IsEmpty.forall_iff, implies_true, true_and, hacc.2]
    exact ⟨fun h => (Except.ok.inj h).symm, fun h => congrArg Except.ok h.symm⟩
  | cons o vout ih =>
    intro acc v hacc
    rw [List.foldlM_cons]
    by_cases hburnt : isBurnt o.scriptPubKey = true
    · -- a burnt output adds nothing
      rw [List.filter_cons_of_neg (by simp [hburnt])]
      simp only [addValueOut, hburnt, if_true]
      exact ih hacc
    rw [List.filter_cons_of_pos (by simpa using hburnt), List.map_cons, List.sum_cons,
      List.forall_mem_cons, ← add_assoc]
    by_cases hcheck : ¬moneyRange o.nValue ∨ ¬moneyRange (acc + o.nValue)
    · -- the check throws, and the value or the total it throws on is out of range
      simp only [addValueOut, hburnt, Bool.false_eq_true, if_false, if_pos hcheck]
      refine ⟨(fun h => nomatch h), ?_⟩
      rintro ⟨⟨ho, hrest⟩, hle, -⟩
      have hS : (0 : ℤ) ≤ _ := sum_nonneg_of_moneyRange hrest
      have hv : (0 : ℤ) ≤ o.nValue := ho.1
      have hacc' : (0 : ℤ) ≤ acc := hacc.1
      have hle' : @LE.le ℤ _ (acc + o.nValue +
          ((vout.filter fun o => !isBurnt o.scriptPubKey).map (·.nValue)).sum) maxMoney := hle
      rcases hcheck with hbad | hbad
      · exact absurd ho hbad
      · refine absurd ?_ hbad
        show (0 : ℤ) ≤ acc + o.nValue ∧ @LE.le ℤ _ (acc + o.nValue) maxMoney
        omega
    · -- the check passes and the loop goes on from the new total
      rw [not_or, not_not, not_not] at hcheck
      simp only [addValueOut, hburnt, Bool.false_eq_true, if_false, if_neg (not_or.mpr
        ⟨not_not.mpr hcheck.1, not_not.mpr hcheck.2⟩), pure_bind]
      rw [ih hcheck.2]
      simp only [hcheck.1, true_and]

/-- `GetValueOut` returns exactly when the value of every output not burnt
and their total are in `MoneyRange`, and returns that total; otherwise it
throws. -/
theorem getValueOut_eq_ok_iff (tx : CTransaction) (v : CAmount) :
    tx.getValueOut = .ok v ↔
      (∀ o ∈ tx.unburntVout, moneyRange o.nValue) ∧ (tx.unburntVout.map (·.nValue)).sum ≤ maxMoney ∧
        v = (tx.unburntVout.map (·.nValue)).sum := by
  have h := @foldlM_addValueOut_eq_ok tx.vout 0 v (show moneyRange 0 by decide)
  rw [zero_add] at h
  exact h

end Metrix
