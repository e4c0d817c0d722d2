import Metrix.Consensus.Converter
import Metrix.Primitives.Serialize
import Metrix.Qtum.StorageResults

/-! `ByteCodeExec::processingResults` (`validation.cpp`): how the results of
the executions of one transaction's contract outputs become the gas used, the
refunds to the senders and the value transfers of the block; and the gas and
version checks that `ConnectBlock` makes on the converted outputs before it
runs them.

Three things come from outside. `dev::eth::TransactionException` is the code
structure of the receipts, with `None` its first enumerator and
`RevertInstruction` a parameter; `ChainActive().Height() >= QIP7Height` is the
flag `afterQIP7`; and the fee `view.GetValueIn(tx) - tx.GetValueOut()` is the
amount `nTxFee`. -/

namespace Metrix

/-- `dev::eth::TransactionException::None`, the first enumerator. -/
def TransactionException.none : TransactionException := ⟨0, Nat.two_pow_pos 31⟩

/-- The fields of `dev::eth::ExecutionResult` that `processingResults` reads. -/
structure ExecutionResult where
  gasUsed : ℕ
  excepted : TransactionException
deriving DecidableEq, Repr

/-- `ResultExecute`; the receipt is not read here. -/
structure ResultExecute where
  execRes : ExecutionResult
  tx : CTransaction
deriving DecidableEq, Repr

/-- `ByteCodeExecResult`. -/
structure ByteCodeExecResult where
  usedGas : UInt64
  refundSender : CAmount
  refundOutputs : List CTxOut
  valueTransfers : List CTransaction
deriving DecidableEq, Repr

/-! ## `processingResults` -/

/-- The transaction that sends the value of a failed execution back: it
spends the contract output and pays the sender by `P2PKH`. -/
def valueRefundTx (tx : EthTransaction) : CTransaction :=
  ⟨[{ prevout := ⟨tx.hashWith, tx.nVout⟩, scriptSig := spendScript }],
    [⟨tx.value, payToPubKeyHash tx.sender.asBytes⟩]⟩

/-- `(gas - gasUsed) * gasPrice` in `uint64_t`, narrowed to `int64_t`. -/
def refundAmount (gas gasUsed gasPrice : UInt64) : CAmount :=
  ((gas - gasUsed) * gasPrice).toInt64.toInt

/-- The output that pays a gas refund to the refund sender. -/
def refundOutput (tx : EthTransaction) (amount : CAmount) : CTxOut :=
  ⟨amount, payToPubKeyHash tx.refundSender.asBytes⟩

/-- The branch of an execution that threw: the value sent to the contract
goes back to the sender (`txs[i].value() > 0` compares the `u256` of the
amount), and the gas counts as used unless the execution reverted after
QIP7. -/
def refundValue (reverted : Bool) (bce : ByteCodeExecResult) (tx : EthTransaction)
    (gasUsed : ℕ) : ByteCodeExecResult :=
  let bce := if 0 < tx.value % 2 ^ 256 then
      { bce with valueTransfers := bce.valueTransfers ++ [valueRefundTx tx] } else bce
  if reverted then bce else { bce with usedGas := bce.usedGas + gasUsed.toUInt64 }

/-- The branch of an execution that succeeded, or reverted after QIP7: the
gas left is paid back to the refund sender. `none` where `processingResults`
returns `false`. -/
def refundGas (bce : ByteCodeExecResult) (tx : EthTransaction) (gasUsed : ℕ) :
    Option ByteCodeExecResult :=
  if uint64Max < tx.gasLimit ∨ uint64Max < gasUsed ∨ uint64Max < tx.gasPrice then none else
  let bce := { bce with usedGas := bce.usedGas + gasUsed.toUInt64 }
  let amount := refundAmount tx.gasLimit.toUInt64 gasUsed.toUInt64 tx.gasPrice.toUInt64
  if amount < 0 then none
  else if 0 < amount then
    some { bce with
      refundOutputs := bce.refundOutputs ++ [refundOutput tx amount]
      refundSender := bce.refundSender + amount }
  else some bce

/-- The value transfers the execution itself produced. -/
def pushValueTransfer (bce : ByteCodeExecResult) (transfer : CTransaction) :
    ByteCodeExecResult :=
  if transfer ≠ CTransaction.empty then
    { bce with valueTransfers := bce.valueTransfers ++ [transfer] } else bce

/-- The body of the loop of `processingResults` for the transaction `tx` and
its result `r`. -/
def processingResult (afterQIP7 : Bool) (revertInstruction : TransactionException)
    (bce : ByteCodeExecResult) (tx : EthTransaction) (r : ResultExecute) :
    Option ByteCodeExecResult := do
  let gasUsed := r.execRes.gasUsed
  let reverted := afterQIP7 && r.execRes.excepted == revertInstruction
  let bce := if r.execRes.excepted ≠ .none then refundValue reverted bce tx gasUsed else bce
  let bce ← if r.execRes.excepted = .none ∨ reverted = true then refundGas bce tx gasUsed
    else some bce
  pure (pushValueTransfer bce r.tx)

/-- `ByteCodeExec::processingResults`, `none` where it returns `false`. The
loop runs over `result` and reads `txs` at the same index; `performByteCode`
pushes one result for each transaction. -/
def processingResults (afterQIP7 : Bool) (revertInstruction : TransactionException) :
    List EthTransaction → List ResultExecute → ByteCodeExecResult → Option ByteCodeExecResult
  | tx :: txs, r :: result, bce =>
      (processingResult afterQIP7 revertInstruction bce tx r).bind
        (processingResults afterQIP7 revertInstruction txs result)
  | _, _, bce => some bce

/-! ## The gas checks of `ConnectBlock` -/

/-- `VersionVM`, its bit fields as they lie in the raw value on a
little-endian target. -/
structure VersionVM where
  format : ℕ
  rootVM : ℕ
  vmVersion : ℕ
  flagOptions : ℕ
deriving DecidableEq, Repr

/-- `VersionVM::fromRaw`. -/
def VersionVM.fromRaw (raw : ℕ) : VersionVM :=
  ⟨raw % 4, raw / 4 % 64, raw / 256 % 256, raw / 65536 % 65536⟩

/-- `MINIMUM_GAS_LIMIT`. -/
def minimumGasLimit : ℕ := 10000

/-- `dev::u256` of a signed amount. -/
def u256OfAmount (a : CAmount) : ℕ := (a % 2 ^ 256).toNat

/-- The loop of `ConnectBlock` over the converted outputs of one transaction,
with its sums in `u256`: the reject reason where it returns `state.Invalid`,
else the flag `nonZeroVersion`. -/
def gasChecksLoop (nTxFee : CAmount) (blockGasLimit minGasPrice : UInt64) :
    List EthTransaction → (gasAllTxs sumGas : ℕ) → (nonZeroVersion : Bool) → Except String Bool
  | [], _, _, nonZeroVersion => .ok nonZeroVersion
  | qtx :: txs, gasAllTxs, sumGas, nonZeroVersion =>
      let sumGas := (sumGas + qtx.gasLimit * qtx.gasPrice) % 2 ^ 256
      if int64Max < sumGas then .error "bad-tx-gas-stipend-overflow" else
      if u256OfAmount nTxFee < sumGas then .error "bad-txns-fee-notenough" else
      let v := VersionVM.fromRaw qtx.version
      if v.format ≠ 0 then .error "bad-tx-version-format" else
      if v.rootVM = 0 ∧ nonZeroVersion = true then .error "bad-tx-mixed-zero-versions" else
      let nonZeroVersion := nonZeroVersion || v.rootVM ≠ 0
      if ¬(v.rootVM = 0 ∨ v.rootVM = 1) then .error "bad-tx-version-rootvm" else
      if v.vmVersion ≠ 0 then .error "bad-tx-version-vmversion" else
      if v.flagOptions ≠ 0 then .error "bad-tx-version-flags" else
      if qtx.gasLimit < minimumGasLimit ∧ v.rootVM ≠ 0 then .error "bad-tx-too-little-gas" else
      if uint32Max < qtx.gasLimit then .error "bad-tx-too-much-gas" else
      let gasAllTxs := (gasAllTxs + qtx.gasLimit) % 2 ^ 256
      if blockGasLimit.toNat < gasAllTxs then .error "bad-txns-gas-exceeds-blockgaslimit" else
      if v.rootVM ≠ 0 ∧ qtx.gasPrice.toUInt64 < minGasPrice then .error "bad-tx-low-gas-price"
      else gasChecksLoop nTxFee blockGasLimit minGasPrice txs gasAllTxs sumGas nonZeroVersion

/-- The checks of `ConnectBlock` on the converted outputs `qtxs` of the
contract transaction `tx`, from `gasAllTxs` to the check of version 0. -/
def checkContractGas (tx : CTransaction) (qtxs : List EthTransaction) (nTxFee : CAmount)
    (blockGasLimit minGasPrice : UInt64) : Except String Unit := do
  let nonZeroVersion ← gasChecksLoop nTxFee blockGasLimit minGasPrice qtxs 0 0 false
  if !nonZeroVersion && !tx.hasOpSpend then throw "bad-tx-improper-version-0"

/-! ## What the refunds are

The gas a contract output pays for is its stipend `gasLimit * gasPrice`; an
execution that succeeded, or after QIP7 reverted, gets back what it left of
the gas limit at the same price. -/

/-- The gas fields of a converted output as `parseEthTXParams` bounds them:
each within `INT64_MAX`, and so is the stipend. -/
structure EthTransaction.GasBounded (tx : EthTransaction) : Prop where
  gasLimit_le : tx.gasLimit ≤ int64Max
  gasPrice_le : tx.gasPrice ≤ int64Max
  stipend_le : tx.gasLimit * tx.gasPrice ≤ int64Max

/-- The refund of one execution. -/
def gasRefund (afterQIP7 : Bool) (revertInstruction : TransactionException)
    (tx : EthTransaction) (r : ResultExecute) : ℕ :=
  if r.execRes.excepted = .none ∨ (afterQIP7 = true ∧ r.execRes.excepted = revertInstruction)
  then (tx.gasLimit - r.execRes.gasUsed) * tx.gasPrice else 0

/-- The refund outputs of a run of executions: one for each positive refund,
in order. -/
def gasRefundOutputs (afterQIP7 : Bool) (revertInstruction : TransactionException)
    (runs : List (EthTransaction × ResultExecute)) : List CTxOut :=
  runs.filterMap fun run =>
    if 0 < gasRefund afterQIP7 revertInstruction run.1 run.2 then
      some (refundOutput run.1 (gasRefund afterQIP7 revertInstruction run.1 run.2))
    else none

theorem gasRefundOutputs_cons (afterQIP7 : Bool) (revertInstruction : TransactionException)
    (run : EthTransaction × ResultExecute) (runs : List (EthTransaction × ResultExecute)) :
    gasRefundOutputs afterQIP7 revertInstruction (run :: runs) =
      gasRefundOutputs afterQIP7 revertInstruction [run] ++
        gasRefundOutputs afterQIP7 revertInstruction runs := by
  rw [gasRefundOutputs, gasRefundOutputs, gasRefundOutputs, ← List.filterMap_append]
  rfl

theorem gasRefund_le_stipend (afterQIP7 : Bool) (revertInstruction : TransactionException)
    (tx : EthTransaction) (r : ResultExecute) :
    gasRefund afterQIP7 revertInstruction tx r ≤ tx.gasLimit * tx.gasPrice := by
  unfold gasRefund
  split_ifs
  · exact Nat.mul_le_mul_right _ (Nat.sub_le _ _)
  · exact Nat.zero_le _

/-! ## The converter bounds the gas -/

theorem parseEthTXParams_gas {toAddress : List UInt8 → Address} {c c' : ConverterState}
    {etp : EthTransactionParams} (h : parseEthTXParams toAddress c = some (etp, c')) :
    etp.gasPrice ≤ int64Max ∧ etp.gasLimit ≤ int64Max ∧
      (etp.gasPrice ≠ 0 → etp.gasLimit ≤ int64Max / etp.gasPrice) := by
  unfold parseEthTXParams at h
  dsimp only at h
  -- with `OP_CALL` or without, the gas fields come from the same items
  split_ifs at h <;> (try split at h) <;>
    simp only [Option.bind_eq_bind, Option.bind_some, Option.bind_none, reduceCtorEq] at h
  all_goals
    simp only [Option.ite_none_left_eq_some] at h
    obtain ⟨-, h⟩ := h
    split at h
    · simp only [Option.ite_none_left_eq_some, Option.bind_eq_some_iff] at h
      obtain ⟨-, gasPrice, -, gasLimit, -, hmax, hprod, -, version, -, h⟩ := h
      cases h
      dsimp only
      omega
    · cases h

/-- The bound of the parser read as a product: a gas limit within
`INT64_MAX / gasPrice` keeps the stipend within `INT64_MAX`. -/
theorem stipend_le_of_le_div {gasLimit gasPrice : ℕ}
    (h : gasPrice ≠ 0 → gasLimit ≤ int64Max / gasPrice) : gasLimit * gasPrice ≤ int64Max := by
  rcases Nat.eq_zero_or_pos gasPrice with h0 | hpos
  · simp [h0]
  · exact (Nat.le_div_iff_mul_le hpos).mp (h (Nat.pos_iff_ne_zero.mp hpos))

theorem gasBounded_createEthTX {toAddress : List UInt8 → Address} {c c' : ConverterState}
    {etp : EthTransactionParams} (h : parseEthTXParams toAddress c = some (etp, c'))
    (txHash : Uint256) (opcode : UInt8) (sender refundSender : Address) (nOut : ℕ)
    (out : CTxOut) : (createEthTX txHash opcode sender refundSender etp nOut out).GasBounded := by
  obtain ⟨hprice, hlimit, hdiv⟩ := parseEthTXParams_gas h
  exact ⟨hlimit, hprice, stipend_le_of_le_div hdiv⟩

section Runs

variable {outputSender : Bool} {other : OtherOps} {toAddress : List UInt8 → Address}
  {txHash : Uint256} {senderAddress : Option ℕ → Address} {refundSender : Address}

theorem gasBounded_of_mem_extractionLoop {nOut : ℕ} {outs : List CTxOut} {c : ConverterState}
    {txs : List EthTransaction} {etps : List EthTransactionParams}
    (h : extractionLoop outputSender other toAddress txHash senderAddress refundSender nOut outs c =
      .ok (some (txs, etps))) {et : EthTransaction} (het : et ∈ txs) : et.GasBounded := by
  induction outs generalizing nOut c txs etps with
  | nil =>
      rw [extractionLoop] at h
      obtain ⟨rfl, -⟩ := Prod.mk.inj (Option.some_inj.mp (Except.ok.inj h))
      cases het
  | cons out outs ih =>
      by_cases hc : (hasOpCreate out.scriptPubKey || hasOpCall out.scriptPubKey) = true
      · obtain ⟨c1, params, c2, txs', etps', -, hp, hl, rfl, -⟩ := extractionLoop_cons_contract hc h
        rcases List.mem_cons.mp het with rfl | het
        · exact gasBounded_createEthTX hp _ _ _ _ _ _
        · exact ih hl het
      · rw [extractionLoop, if_neg hc] at h
        exact ih h het

end Runs

/-! ## `processingResults` pays the refunds -/

theorem toInt_toInt64_of_lt {u : UInt64} (h : u.toNat < 2 ^ 63) : u.toInt64.toInt = u.toNat := by
  rw [Int64.toInt, UInt64.toBitVec_toInt64, BitVec.toInt_eq_toNat_cond, UInt64.toNat_toBitVec,
    if_pos (by omega)]

/-- With the stipend within `INT64_MAX`, the `uint64_t` arithmetic of the
refund neither wraps nor turns negative when narrowed. -/
theorem refundAmount_eq {gas gasUsed gasPrice : ℕ} (hgas : gas ≤ int64Max)
    (hprice : gasPrice ≤ int64Max) (hstipend : gas * gasPrice ≤ int64Max) (hused : gasUsed ≤ gas) :
    refundAmount gas.toUInt64 gasUsed.toUInt64 gasPrice.toUInt64 = ((gas - gasUsed) * gasPrice : ℕ) := by
  have hmax : int64Max < 2 ^ 63 := by decide
  have hgas' : gas.toUInt64.toNat = gas := by rw [UInt64.toNat_ofNat']; omega
  have hused' : gasUsed.toUInt64.toNat = gasUsed := by rw [UInt64.toNat_ofNat']; omega
  have hprice' : gasPrice.toUInt64.toNat = gasPrice := by rw [UInt64.toNat_ofNat']; omega
  have hsub : (gas.toUInt64 - gasUsed.toUInt64).toNat = gas - gasUsed := by
    rw [UInt64.toNat_sub_of_le _ _ (UInt64.le_iff_toNat_le.mpr (by omega)), hgas', hused']
  have hle : (gas - gasUsed) * gasPrice ≤ gas * gasPrice := Nat.mul_le_mul_right _ (Nat.sub_le _ _)
  have hmul : ((gas.toUInt64 - gasUsed.toUInt64) * gasPrice.toUInt64).toNat =
      (gas - gasUsed) * gasPrice := by
    rw [UInt64.toNat_mul, hsub, hprice']
    exact Nat.mod_eq_of_lt (by omega)
  rw [refundAmount, toInt_toInt64_of_lt (by omega), hmul]

@[simp] theorem refundValue_refundSender (reverted : Bool) (bce : ByteCodeExecResult)
    (tx : EthTransaction) (gasUsed : ℕ) :
    (refundValue reverted bce tx gasUsed).refundSender = bce.refundSender := by
  unfold refundValue
  split_ifs <;> rfl

@[simp] theorem refundValue_refundOutputs (reverted : Bool) (bce : ByteCodeExecResult)
    (tx : EthTransaction) (gasUsed : ℕ) :
    (refundValue reverted bce tx gasUsed).refundOutputs = bce.refundOutputs := by
  unfold refundValue
  split_ifs <;> rfl

@[simp] theorem pushValueTransfer_refundSender (bce : ByteCodeExecResult) (transfer : CTransaction) :
    (pushValueTransfer bce transfer).refundSender = bce.refundSender := by
  unfold pushValueTransfer
  split_ifs <;> rfl

@[simp] theorem pushValueTransfer_refundOutputs (bce : ByteCodeExecResult) (transfer : CTransaction) :
    (pushValueTransfer bce transfer).refundOutputs = bce.refundOutputs := by
  unfold pushValueTransfer
  split_ifs <;> rfl

/-- The refund branch on bounded gas: it goes through, and pays exactly the
gas left at the gas price, by one output when that is positive. -/
theorem refundGas_spec {tx : EthTransaction} (hb : tx.GasBounded) {gasUsed : ℕ}
    (hused : gasUsed ≤ tx.gasLimit) (bce : ByteCodeExecResult) :
    ∃ bce', refundGas bce tx gasUsed = some bce' ∧
      bce'.refundSender = bce.refundSender + ((tx.gasLimit - gasUsed) * tx.gasPrice : ℕ) ∧
      bce'.refundOutputs = bce.refundOutputs ++
        if 0 < (tx.gasLimit - gasUsed) * tx.gasPrice then
          [refundOutput tx ((tx.gasLimit - gasUsed) * tx.gasPrice : ℕ)] else [] := by
  have hamount := refundAmount_eq hb.gasLimit_le hb.gasPrice_le hb.stipend_le hused
  have hmax : int64Max < uint64Max := by decide
  have hin : ¬(uint64Max < tx.gasLimit ∨ uint64Max < gasUsed ∨ uint64Max < tx.gasPrice) := by
    have := hb.gasLimit_le; have := hb.gasPrice_le; omega
  simp only [refundGas, if_neg hin, hamount]
  generalize (tx.gasLimit - gasUsed) * tx.gasPrice = g
  rcases Nat.eq_zero_or_pos g with rfl | hpos
  · simp
  · rw [if_neg (show ¬((g : ℤ) < 0) by omega), if_pos (show (0 : ℤ) < g by omega), if_pos hpos]
    exact ⟨_, rfl, rfl, rfl⟩

/-- One pass of the loop: only the refund branch touches the refunds, and it
pays `gasRefund`. -/
theorem processingResult_spec (afterQIP7 : Bool) (revertInstruction : TransactionException)
    {tx : EthTransaction} (hb : tx.GasBounded) {r : ResultExecute}
    (hused : r.execRes.gasUsed ≤ tx.gasLimit) (bce : ByteCodeExecResult) :
    ∃ bce', processingResult afterQIP7 revertInstruction bce tx r = some bce' ∧
      bce'.refundSender = bce.refundSender + (gasRefund afterQIP7 revertInstruction tx r : ℕ) ∧
      bce'.refundOutputs = bce.refundOutputs ++
        gasRefundOutputs afterQIP7 revertInstruction [(tx, r)] := by
  -- the value branch before the refund leaves the refunds as they were
  generalize hmid : (if r.execRes.excepted ≠ .none then
    refundValue (afterQIP7 && r.execRes.excepted == revertInstruction) bce tx r.execRes.gasUsed
    else bce) = mid
  have hmidS : mid.refundSender = bce.refundSender := by rw [← hmid]; split_ifs <;> simp
  have hmidO : mid.refundOutputs = bce.refundOutputs := by rw [← hmid]; split_ifs <;> simp
  by_cases href : r.execRes.excepted = .none ∨
      (afterQIP7 = true ∧ r.execRes.excepted = revertInstruction)
  · have hcond : r.execRes.excepted = .none ∨
        (afterQIP7 && r.execRes.excepted == revertInstruction) = true := by
      simpa only [Bool.and_eq_true, beq_iff_eq] using href
    obtain ⟨bce', hbce', hS, hO⟩ := refundGas_spec hb hused mid
    refine ⟨pushValueTransfer bce' r.tx, ?_, ?_, ?_⟩
    · simp only [processingResult, hmid, if_pos hcond, hbce']
      rfl
    · simp [hS, hmidS, gasRefund, if_pos href]
    · simp only [pushValueTransfer_refundOutputs, hO, hmidO, gasRefundOutputs, gasRefund,
        if_pos href, List.filterMap_cons, List.filterMap_nil]
      split_ifs <;> rfl
  · have hcond : ¬(r.execRes.excepted = .none ∨
        (afterQIP7 && r.execRes.excepted == revertInstruction) = true) := by
      simpa only [Bool.and_eq_true, beq_iff_eq] using href
    refine ⟨pushValueTransfer mid r.tx, ?_, ?_, ?_⟩
    · simp only [processingResult, hmid, if_neg hcond]
      rfl
    · simp [hmidS, gasRefund, if_neg href]
    · simp [hmidO, gasRefundOutputs, gasRefund, if_neg href]

/-- The whole loop on bounded gas: it never fails, and the refunds it adds
are the protocol's, output by output. -/
theorem processingResults_spec (afterQIP7 : Bool) (revertInstruction : TransactionException) :
    ∀ (txs : List EthTransaction) (result : List ResultExecute), (∀ tx ∈ txs, tx.GasBounded) →
      (∀ run ∈ txs.zip result, run.2.execRes.gasUsed ≤ run.1.gasLimit) →
      ∀ bce : ByteCodeExecResult, ∃ bce',
        processingResults afterQIP7 revertInstruction txs result bce = some bce' ∧
        bce'.refundSender = bce.refundSender +
          ((txs.zip result).map fun run => gasRefund afterQIP7 revertInstruction run.1 run.2).sum ∧
        bce'.refundOutputs = bce.refundOutputs ++
          gasRefundOutputs afterQIP7 revertInstruction (txs.zip result)
  | [], _, _, _, bce => ⟨bce, rfl, by simp, by simp [gasRefundOutputs]⟩
  | _ :: _, [], _, _, bce => ⟨bce, rfl, by simp, by simp [gasRefundOutputs]⟩
  | tx :: txs, r :: result, hb, hused, bce => by
      have hused₀ : r.execRes.gasUsed ≤ tx.gasLimit := hused (tx, r) List.mem_cons_self
      obtain ⟨mid, hmid, hS, hO⟩ := processingResult_spec afterQIP7 revertInstruction
        (hb tx List.mem_cons_self) hused₀ bce
      obtain ⟨bce', hrest, hS', hO'⟩ := processingResults_spec afterQIP7 revertInstruction txs
        result (fun tx' h => hb tx' (List.mem_cons_of_mem _ h))
        (fun run h => hused run (List.mem_cons_of_mem _ h)) mid
      refine ⟨bce', by rw [processingResults, hmid, Option.bind_some, hrest], ?_, ?_⟩
      · rw [hS', hS, List.zip_cons_cons, List.map_cons, List.sum_cons, Nat.cast_add, add_assoc]
      · rw [hO', hO, List.zip_cons_cons, List.append_assoc,
          gasRefundOutputs_cons _ _ (tx, r) (txs.zip result)]

/-! ## `ConnectBlock` bounds the refunds by the fee -/

section GasChecks

variable {nTxFee : CAmount} {blockGasLimit minGasPrice : UInt64}

/-- A check of the loop that lets it go on. -/
theorem ite_error_eq_ok {c : Prop} [Decidable c] {e : String} {rest : Except String Bool}
    {b : Bool} (h : (if c then .error e else rest) = .ok b) : ¬c ∧ rest = .ok b := by
  by_cases hc : c
  · rw [if_pos hc] at h
    cases h
  · rw [if_neg hc] at h
    exact ⟨hc, h⟩

/-- What a pass of the checks that lets the loop go on has seen: the stipends
so far within `INT64_MAX` and within the fee. -/
theorem gasChecksLoop_cons_ok {qtx : EthTransaction} {txs : List EthTransaction}
    {gasAllTxs sumGas : ℕ} {nonZeroVersion b : Bool}
    (h : gasChecksLoop nTxFee blockGasLimit minGasPrice (qtx :: txs) gasAllTxs sumGas
      nonZeroVersion = .ok b) :
    (sumGas + qtx.gasLimit * qtx.gasPrice) % 2 ^ 256 ≤ int64Max ∧
      (sumGas + qtx.gasLimit * qtx.gasPrice) % 2 ^ 256 ≤ u256OfAmount nTxFee ∧
      ∃ gasAllTxs' nonZeroVersion', gasChecksLoop nTxFee blockGasLimit minGasPrice txs gasAllTxs'
        ((sumGas + qtx.gasLimit * qtx.gasPrice) % 2 ^ 256) nonZeroVersion' = .ok b := by
  rw [gasChecksLoop] at h
  obtain ⟨hover, h⟩ := ite_error_eq_ok h
  obtain ⟨hfee, h⟩ := ite_error_eq_ok h
  -- the checks of the version, the gas limit and the gas price leave the sum as it is
  iterate 9 obtain ⟨-, h⟩ := ite_error_eq_ok h
  exact ⟨Nat.le_of_not_lt hover, Nat.le_of_not_lt hfee, _, _, h⟩

/-- Along a run of the loop that accepts, the stipends summed in `u256` never
wrap: every one is within `INT64_MAX`, and so is the sum before it. -/
theorem gasChecksLoop_stipends :
    ∀ {txs : List EthTransaction} {gasAllTxs sumGas : ℕ} {nonZeroVersion b : Bool},
      (∀ qtx ∈ txs, qtx.GasBounded) → sumGas ≤ int64Max → sumGas ≤ u256OfAmount nTxFee →
      gasChecksLoop nTxFee blockGasLimit minGasPrice txs gasAllTxs sumGas nonZeroVersion = .ok b →
      sumGas + (txs.map fun qtx => qtx.gasLimit * qtx.gasPrice).sum ≤ u256OfAmount nTxFee
  | [], _, _, _, _, _, _, hfee, _ => by simpa using hfee
  | qtx :: txs, _, sumGas, _, _, hb, hsum, _, h => by
      obtain ⟨hover, hfee, _, _, hrest⟩ := gasChecksLoop_cons_ok h
      have hstipend := (hb qtx List.mem_cons_self).stipend_le
      have hwrap : (sumGas + qtx.gasLimit * qtx.gasPrice) % 2 ^ 256 =
          sumGas + qtx.gasLimit * qtx.gasPrice :=
        Nat.mod_eq_of_lt (by unfold int64Max at hsum hstipend; omega)
      rw [hwrap] at hover hfee hrest
      have := gasChecksLoop_stipends (fun qtx' h => hb qtx' (List.mem_cons_of_mem _ h)) hover
        hfee hrest
      rw [List.map_cons, List.sum_cons]
      omega

theorem checkContractGas_stipends {tx : CTransaction} {qtxs : List EthTransaction}
    (hb : ∀ qtx ∈ qtxs, qtx.GasBounded)
    (h : checkContractGas tx qtxs nTxFee blockGasLimit minGasPrice = .ok ()) :
    (qtxs.map fun qtx => qtx.gasLimit * qtx.gasPrice).sum ≤ u256OfAmount nTxFee := by
  cases hl : gasChecksLoop nTxFee blockGasLimit minGasPrice qtxs 0 0 false with
  | error e => simp [checkContractGas, hl, bind, Except.bind] at h
  | ok b =>
      have := gasChecksLoop_stipends hb (Nat.zero_le _) (Nat.zero_le _) hl
      omega

end GasChecks

theorem u256OfAmount_le {a : CAmount} (ha : 0 ≤ a) : (u256OfAmount a : ℤ) ≤ a := by
  rw [camount_le_iff] at ha
  unfold u256OfAmount
  omega

theorem sum_gasRefund_le (afterQIP7 : Bool) (revertInstruction : TransactionException) :
    ∀ (txs : List EthTransaction) (result : List ResultExecute),
      ((txs.zip result).map fun run => gasRefund afterQIP7 revertInstruction run.1 run.2).sum ≤
        (txs.map fun tx => tx.gasLimit * tx.gasPrice).sum
  | [], _ => by simp
  | _ :: _, [] => by simp
  | tx :: txs, r :: result => by
      rw [List.zip_cons_cons, List.map_cons, List.sum_cons, List.map_cons, List.sum_cons]
      exact Nat.add_le_add (gasRefund_le_stipend afterQIP7 revertInstruction tx r)
        (sum_gasRefund_le afterQIP7 revertInstruction txs result)

/-- The refunds of a contract transaction, from the converter to the block.
Every output the converter accepts has its refund computed in `uint64_t`
without a wrap, within the stipend and so within `INT64_MAX`;
`processingResults` then goes through and pays exactly these refunds; and
when `ConnectBlock`'s checks accept a transaction whose fee is not negative
they sum to at most that fee. `CheckTxInputs` makes the fee of every
transaction but a coinstake non-negative; a coinstake may hold the DGP calls
the miner adds, and its fee is negative. -/
theorem processingResults_refunds_bounded {outputSender : Bool} {other : OtherOps}
    {toAddress : List UInt8 → Address} {txHash : Uint256} {senderAddress : Option ℕ → Address}
    {tx : CTransaction} {qtxs : List EthTransaction} {etps : List EthTransactionParams}
    (hconv : extractionQtumTransactions outputSender other toAddress txHash senderAddress tx =
      .ok (some (qtxs, etps)))
    (afterQIP7 : Bool) (revertInstruction : TransactionException) {result : List ResultExecute}
    (hused : ∀ run ∈ qtxs.zip result, run.2.execRes.gasUsed ≤ run.1.gasLimit)
    (bce : ByteCodeExecResult) :
    (∀ qtx ∈ qtxs, ∀ gasUsed ≤ qtx.gasLimit,
      refundAmount qtx.gasLimit.toUInt64 gasUsed.toUInt64 qtx.gasPrice.toUInt64 =
          ((qtx.gasLimit - gasUsed) * qtx.gasPrice : ℕ) ∧
        (qtx.gasLimit - gasUsed) * qtx.gasPrice ≤ qtx.gasLimit * qtx.gasPrice ∧
        qtx.gasLimit * qtx.gasPrice ≤ int64Max) ∧
    (∃ bce', processingResults afterQIP7 revertInstruction qtxs result bce = some bce' ∧
      bce'.refundSender = bce.refundSender +
        ((qtxs.zip result).map fun run => gasRefund afterQIP7 revertInstruction run.1 run.2).sum ∧
      bce'.refundOutputs = bce.refundOutputs ++
        gasRefundOutputs afterQIP7 revertInstruction (qtxs.zip result)) ∧
    ∀ (nTxFee : CAmount) (blockGasLimit minGasPrice : UInt64), 0 ≤ nTxFee →
      checkContractGas tx qtxs nTxFee blockGasLimit minGasPrice = .ok () →
      (((qtxs.zip result).map fun run =>
        gasRefund afterQIP7 revertInstruction run.1 run.2).sum : ℤ) ≤ nTxFee := by
  have hb : ∀ qtx ∈ qtxs, qtx.GasBounded := fun _ h => gasBounded_of_mem_extractionLoop hconv h
  refine ⟨fun qtx hq gasUsed hu => ?_,
    processingResults_spec afterQIP7 revertInstruction qtxs result hb hused bce, ?_⟩
  · have hbq := hb qtx hq
    exact ⟨refundAmount_eq hbq.gasLimit_le hbq.gasPrice_le hbq.stipend_le hu,
      Nat.mul_le_mul_right _ (Nat.sub_le _ _), hbq.stipend_le⟩
  · intro nTxFee blockGasLimit minGasPrice hfee hcheck
    have hrefunds := sum_gasRefund_le afterQIP7 revertInstruction qtxs result
    have hstipends := checkContractGas_stipends hb hcheck
    calc (((qtxs.zip result).map fun run =>
          gasRefund afterQIP7 revertInstruction run.1 run.2).sum : ℤ)
        ≤ ((qtxs.map fun qtx => qtx.gasLimit * qtx.gasPrice).sum : ℕ) := by exact_mod_cast hrefunds
      _ ≤ (u256OfAmount nTxFee : ℕ) := by exact_mod_cast hstipends
      _ ≤ nTxFee := u256OfAmount_le hfee

/-- A creation with the EVM's default version 4, a gas limit of 10000 at a
price of 40 and one byte of code, which used 2000 gas: it is refunded
320000 of its stipend of 400000, the fee its transaction pays. -/
theorem processingResults_refunds_bounded_create :
    let tx : CTransaction :=
      ⟨[], [⟨0, (⟨none, [4], [0x10, 0x27], [0x28], [0x60], none⟩ : ContractOutput).script⟩]⟩
    let qtx : EthTransaction := ⟨0, 40, 10000, none, [0x60], 0, 0, 0, 4, 0⟩
    let r : ResultExecute := ⟨⟨2000, .none⟩, CTransaction.empty⟩
    extractionQtumTransactions false (fun _ s => (false, s)) (fun _ => 0) 0 (fun _ => 0) tx =
        .ok (some ([qtx], [⟨4, 10000, 40, [0x60], 0⟩])) ∧
      checkContractGas tx [qtx] 400000 40000000 40 = .ok () ∧
      ∃ bce', processingResults true ⟨15, by decide⟩ [qtx] [r] ⟨0, 0, [], []⟩ = some bce' ∧
        bce'.refundSender = 320000 ∧
        ((([qtx].zip [r]).map fun run => gasRefund true ⟨15, by decide⟩ run.1 run.2).sum : ℤ) ≤
          400000 := by
  intro tx qtx r
  have hconv : extractionQtumTransactions false (fun _ s => (false, s)) (fun _ => 0) 0
      (fun _ => 0) tx = .ok (some ([qtx], [⟨4, 10000, 40, [0x60], 0⟩])) := by decide +kernel
  have hcheck : checkContractGas tx [qtx] 400000 40000000 40 = .ok () := by decide +kernel
  have hused : ∀ run ∈ [qtx].zip [r], run.2.execRes.gasUsed ≤ run.1.gasLimit := by decide
  obtain ⟨-, ⟨bce', hrun, hS, -⟩, hfee⟩ :=
    processingResults_refunds_bounded hconv true ⟨15, by decide⟩ hused ⟨0, 0, [], []⟩
  refine ⟨hconv, hcheck, bce', hrun, ?_, hfee 400000 40000000 40 (by decide) hcheck⟩
  rw [hS]
  decide

/-- A coinstake that carries a call of the DGP contract at `0x88`, as
`CreateNewBlock` adds them, behind the empty marker output. -/
def dgpCallCoinstake : CTransaction :=
  ⟨[{ prevout := ⟨1, 0⟩, scriptSig := [] }],
    [⟨0, []⟩, ⟨0, (⟨none, [4], [0x10, 0x27], [0x28], [0x01],
      some (List.replicate 19 0 ++ [0x88])⟩ : ContractOutput).script⟩]⟩

/-- The fee of a coinstake is negative, and `dev::u256` of it wraps to
`2^256 - 1`: `ConnectBlock`'s gas checks accept the coinstake's call with a
fee of -1, and an execution that used 2000 of its 10000 gas is refunded
320000, more than the fee. -/
theorem processingResults_refunds_exceed_coinstake_fee :
    let qtx : EthTransaction := ⟨0, 40, 10000, some 0, [0x01], 0, 0, 1, 4, 0⟩
    let r : ResultExecute := ⟨⟨2000, .none⟩, CTransaction.empty⟩
    dgpCallCoinstake.isCoinStake = true ∧
      extractionQtumTransactions false (fun _ s => (false, s)) (fun _ => 0) 0 (fun _ => 0)
        dgpCallCoinstake = .ok (some ([qtx], [⟨4, 10000, 40, [0x01], 0⟩])) ∧
      u256OfAmount (-1) = 2 ^ 256 - 1 ∧
      checkContractGas dgpCallCoinstake [qtx] (-1) 40000000 40 = .ok () ∧
      (∃ bce', processingResults true ⟨15, by decide⟩ [qtx] [r] ⟨0, 0, [], []⟩ = some bce' ∧
        bce'.refundSender = 320000) ∧
      ¬((([qtx].zip [r]).map fun run => gasRefund true ⟨15, by decide⟩ run.1 run.2).sum : ℤ) ≤ -1 := by
  intro qtx r
  have hb : ∀ q ∈ [qtx], q.GasBounded := by
    intro q hq
    rw [List.mem_singleton] at hq
    subst hq
    exact ⟨by decide, by decide, by decide⟩
  have hused : ∀ run ∈ [qtx].zip [r], run.2.execRes.gasUsed ≤ run.1.gasLimit := by decide
  obtain ⟨bce', hrun, hS, -⟩ :=
    processingResults_spec true ⟨15, by decide⟩ [qtx] [r] hb hused ⟨0, 0, [], []⟩
  refine ⟨by decide, by decide +kernel, by decide, by decide +kernel, ⟨bce', hrun, ?_⟩, by decide⟩
  rw [hS]
  decide

end Metrix
