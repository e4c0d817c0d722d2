import Metrix.Script.Interpreter
import Metrix.Consensus.DGPTransactions

/-! `QtumTxConverter` (`validation.cpp`): how the contract outputs of a
transaction become the creations and calls that the EVM runs. For each output
with one `OP_CREATE` or one `OP_CALL` the converter runs `EvalScript` on its
member `stack`, pops the item the contract opcode pushed and then the
parameters under it. The member is never cleared between outputs.

Two things come from outside: `dev::Address` of a byte string (the EVM
library), and `GetSenderAddress`, which reads the coins view and the block
(`senderAddress`, with `none` for the default `nOut = -1`). -/

namespace Metrix

open Opcode

/-- `CScript::HasOpCreate`. -/
def hasOpCreate (s : CScript) : Bool := findOp opCreate s = 1

/-- `CScript::HasOpCall`. -/
def hasOpCall (s : CScript) : Bool := findOp opCall s = 1

/-- `CScript::HasOpSender`. -/
def hasOpSender (s : CScript) : Bool := findOp opSender s = 1

/-- `EthTransactionParams`; the version is the raw value of `VersionVM`. -/
structure EthTransactionParams where
  version : ℕ
  gasLimit : ℕ
  gasPrice : ℕ
  code : List UInt8
  receiveAddress : Address
deriving DecidableEq, Repr

/-- The members of `QtumTxConverter` that change while it reads the outputs.
The constructor leaves `opcode` uninitialized; nothing reads it before
`receiveStack` sets it. -/
structure ConverterState where
  stack : List (List UInt8)
  opcode : UInt8
  sender : Bool
deriving DecidableEq, Repr

/-- The undefined behaviour of the converter: `*scriptRest.begin()` on an
empty item. -/
inductive ConverterFault where
  | emptyScriptRest
deriving DecidableEq, Repr

/-- `QtumTxConverter::correctedStackSize`: a sender output has three more
items. -/
def correctedStackSize (sender : Bool) (size : ℕ) : ℕ :=
  if sender then size + 3 else size

/-- `INT64_MAX`. -/
def int64Max : ℕ := 2 ^ 63 - 1

/-- `QtumTxConverter::receiveStack`, with `none` where it returns `false`:
the extraction then fails and the converter is not used again. -/
def receiveStack (outputSender : Bool) (other : OtherOps) (c : ConverterState)
    (scriptPubKey : CScript) : Except ConverterFault (Option ConverterState) :=
  -- the result of `EvalScript` is ignored; only the stack it leaves is read
  match (evalScript outputSender other c.stack scriptPubKey).2 with
  | [] => .ok none
  | scriptRest :: stack =>
      let sender := hasOpSender scriptPubKey
      match scriptRest.head? with
      | none => .error .emptyScriptRest
      | some opcode =>
          if (opcode = opCreate ∧ stack.length < correctedStackSize sender 4) ∨
              (opcode = opCall ∧ stack.length < correctedStackSize sender 5) then .ok none
          else .ok (some ⟨stack, opcode, sender⟩)

/-- `QtumTxConverter::parseEthTXParams`, with `none` where it returns `false`
or catches a `scriptnum_error`. -/
def parseEthTXParams (toAddress : List UInt8 → Address) (c : ConverterState) :
    Option (EthTransactionParams × ConverterState) := do
  let (receiveAddress, stack) ← if c.opcode = opCall then
      match c.stack with
      | vecAddr :: stack => some (toAddress vecAddr, stack)
      -- `receiveStack` left at least five items under `OP_CALL`
      | [] => none
    else some (0, c.stack)
  if stack.length < correctedStackSize c.sender 4 then none else
  match stack with
  | code :: gasPriceVch :: gasLimitVch :: versionVch :: stack =>
      if code.length < 1 then none else
      let gasPrice ← vchToUInt64 gasPriceVch
      let gasLimit ← vchToUInt64 gasLimitVch
      if int64Max < gasPrice ∨ int64Max < gasLimit then none else
      if gasPrice ≠ 0 ∧ int64Max / gasPrice < gasLimit then none else
      if 4 < versionVch.length then none else
      let version ← vchToUInt64 versionVch
      some (⟨version, gasLimit, gasPrice, code, receiveAddress⟩, { c with stack })
  -- excluded by the size check
  | _ => none

/-- The fields of the `QtumTransaction` that `createEthTX` builds; a creation
has no receiving address. -/
structure EthTransaction where
  value : CAmount
  gasPrice : ℕ
  gasLimit : ℕ
  receiveAddress : Option Address
  code : List UInt8
  sender : Address
  hashWith : Uint256
  nVout : UInt32
  version : ℕ
  refundSender : Address
deriving DecidableEq, Repr

/-- `QtumTxConverter::createEthTX` for output `nOut`, which is `out`: a call
when the opcode is `OP_CALL` or the address is not zero. -/
def createEthTX (txHash : Uint256) (opcode : UInt8) (sender refundSender : Address)
    (etp : EthTransactionParams) (nOut : ℕ) (out : CTxOut) : EthTransaction :=
  { value := out.nValue
    gasPrice := etp.gasPrice
    gasLimit := etp.gasLimit
    receiveAddress :=
      if etp.receiveAddress = 0 ∧ opcode ≠ opCall then none else some etp.receiveAddress
    code := etp.code
    sender
    hashWith := txHash
    nVout := nOut.toUInt32
    version := etp.version
    refundSender }

/-- The loop of `extractionQtumTransactions` from output `nOut` on. -/
def extractionLoop (outputSender : Bool) (other : OtherOps) (toAddress : List UInt8 → Address)
    (txHash : Uint256) (senderAddress : Option ℕ → Address) (refundSender : Address) :
    ℕ → List CTxOut → ConverterState →
      Except ConverterFault (Option (List EthTransaction × List EthTransactionParams))
  | _, [], _ => .ok (some ([], []))
  | nOut, out :: outs, c =>
      if hasOpCreate out.scriptPubKey || hasOpCall out.scriptPubKey then do
        let some c ← receiveStack outputSender other c out.scriptPubKey | pure none
        let some (params, c) := parseEthTXParams toAddress c | pure none
        let tx := createEthTX txHash c.opcode (senderAddress (some nOut)) refundSender params nOut out
        let some (txs, etps) ← extractionLoop outputSender other toAddress txHash senderAddress
            refundSender (nOut + 1) outs c | pure none
        pure (some (tx :: txs, params :: etps))
      else extractionLoop outputSender other toAddress txHash senderAddress refundSender
        (nOut + 1) outs c

/-- `QtumTxConverter::extractionQtumTransactions` on a fresh converter:
`none` where it returns `false`, else `(resultTX, resultETP)`. -/
def extractionQtumTransactions (outputSender : Bool) (other : OtherOps)
    (toAddress : List UInt8 → Address) (txHash : Uint256) (senderAddress : Option ℕ → Address)
    (tx : CTransaction) :
    Except ConverterFault (Option (List EthTransaction × List EthTransactionParams)) :=
  extractionLoop outputSender other toAddress txHash senderAddress (senderAddress none) 0 tx.vout
    ⟨[], 0, false⟩

section Runs

variable {outputSender : Bool} {other : OtherOps} {toAddress : List UInt8 → Address}
  {txHash : Uint256} {senderAddress : Option ℕ → Address} {refundSender : Address}

/-- A successful run past a contract output: the output's stack and
parameters were read, and the run goes on from the converter they leave. -/
theorem extractionLoop_cons_contract {nOut : ℕ} {out : CTxOut} {outs : List CTxOut}
    {c : ConverterState} {txs : List EthTransaction} {etps : List EthTransactionParams}
    (hc : (hasOpCreate out.scriptPubKey || hasOpCall out.scriptPubKey) = true)
    (h : extractionLoop outputSender other toAddress txHash senderAddress refundSender nOut
      (out :: outs) c = .ok (some (txs, etps))) :
    ∃ c1 params c2 txs' etps',
      receiveStack outputSender other c out.scriptPubKey = .ok (some c1) ∧
      parseEthTXParams toAddress c1 = some (params, c2) ∧
      extractionLoop outputSender other toAddress txHash senderAddress refundSender (nOut + 1)
        outs c2 = .ok (some (txs', etps')) ∧
      txs = createEthTX txHash c2.opcode (senderAddress (some nOut)) refundSender params nOut out
        :: txs' ∧
      etps = params :: etps' := by
  rw [extractionLoop, if_pos hc] at h
  -- peel the three steps of the body; each failure contradicts the result
  cases hr : receiveStack outputSender other c out.scriptPubKey with
  | error e => simp [hr, bind, Except.bind] at h
  | ok r =>
      obtain _ | c1 := r
      · simp [hr, bind, Except.bind, pure, Except.pure] at h
      cases hp : parseEthTXParams toAddress c1 with
      | none => simp [hr, hp, bind, Except.bind, pure, Except.pure] at h
      | some pc =>
          obtain ⟨params, c2⟩ := pc
          cases hl : extractionLoop outputSender other toAddress txHash senderAddress refundSender
              (nOut + 1) outs c2 with
          | error e => simp [hr, hp, hl, bind, Except.bind] at h
          | ok r =>
              obtain _ | ⟨txs', etps'⟩ := r
              · simp [hr, hp, hl, bind, Except.bind, pure, Except.pure] at h
              simp only [hr, hp, hl, bind, Except.bind, pure, Except.pure, Except.ok.injEq,
                Option.some.injEq, Prod.mk.injEq] at h
              exact ⟨c1, params, c2, txs', etps', rfl, hp, hl, h.1.symm, h.2.symm⟩

/-- Every transaction a successful run extracts comes from a contract output
at its index, and carries the sender forced for that index. -/
theorem mem_extractionLoop {nOut : ℕ} {outs : List CTxOut} {c : ConverterState}
    {txs : List EthTransaction} {etps : List EthTransactionParams}
    (h : extractionLoop outputSender other toAddress txHash senderAddress refundSender nOut outs c =
      .ok (some (txs, etps))) {et : EthTransaction} (het : et ∈ txs) :
    ∃ j out, outs[j]? = some out ∧ et.nVout = (nOut + j).toUInt32 ∧
      et.sender = senderAddress (some (nOut + j)) := by
  -- induction on the outputs left, the index and the converter moving with them
  induction outs generalizing nOut c txs etps with
  | nil =>
      rw [extractionLoop] at h
      obtain ⟨rfl, -⟩ := Prod.mk.inj (Option.some_inj.mp (Except.ok.inj h))
      cases het
  | cons out outs ih =>
      by_cases hc : (hasOpCreate out.scriptPubKey || hasOpCall out.scriptPubKey) = true
      · obtain ⟨c1, params, c2, txs', etps', -, -, hl, rfl, -⟩ := extractionLoop_cons_contract hc h
        rcases List.mem_cons.mp het with rfl | het
        · exact ⟨0, out, rfl, rfl, rfl⟩
        · obtain ⟨j, out', hj, hv, hs⟩ := ih hl het
          refine ⟨j + 1, out', hj, ?_, ?_⟩ <;> rwa [Nat.add_assoc, Nat.add_comm 1 j] at *
      · rw [extractionLoop, if_neg hc] at h
        obtain ⟨j, out', hj, hv, hs⟩ := ih h het
        refine ⟨j + 1, out', hj, ?_, ?_⟩ <;> rwa [Nat.add_assoc, Nat.add_comm 1 j] at *

end Runs

/-! ## Outputs written as their templates

A contract output whose every slot is a push of its bytes. For such outputs
the converter reads exactly what the template holds, whatever the outputs
before it left on the member stack. -/

/-- A contract output as its template reads: the address type, address and
signature script of a sender output, the version, gas limit, gas price and
data, and the contract's address for a call. -/
structure ContractOutput where
  senderPart : Option (List UInt8 × List UInt8 × List UInt8)
  version : List UInt8
  gasLimit : List UInt8
  gasPrice : List UInt8
  data : List UInt8
  contract : Option (List UInt8)
deriving DecidableEq, Repr

namespace ContractOutput

/-- The pushes before `OP_SENDER`. -/
def senderItems (o : ContractOutput) : List (List UInt8) :=
  match o.senderPart with
  | some (addressType, address, scriptSig) => [addressType, address, scriptSig]
  | none => []

/-- The pushes after `OP_SENDER`, in script order. -/
def paramItems (o : ContractOutput) : List (List UInt8) :=
  [o.version, o.gasLimit, o.gasPrice, o.data] ++ o.contract.toList

def opcode (o : ContractOutput) : UInt8 :=
  if o.contract.isSome then opCall else opCreate

def script (o : ContractOutput) : CScript :=
  (if o.senderPart.isSome then pushAll o.senderItems ++ [opSender] else []) ++
    (pushAll o.paramItems ++ [o.opcode])

/-- The parameters the template holds. -/
def params (toAddress : List UInt8 → Address) (o : ContractOutput) : EthTransactionParams :=
  ⟨readLE o.version, readLE o.gasLimit, readLE o.gasPrice, o.data, (o.contract.map toAddress).getD 0⟩

/-- The slots within what the interpreter and `parseEthTXParams` accept:
items and script within the limits, data to run, numbers that
`vch_to_uint64` reads, and gas within `INT64_MAX` and its product bound. -/
structure InRange (o : ContractOutput) : Prop where
  items : ∀ b ∈ o.senderItems ++ o.paramItems, b.length ≤ maxScriptElementSize
  scriptSize : o.script.length ≤ maxScriptSize
  data : o.data ≠ []
  gasPrice : vchToUInt64 o.gasPrice = some (readLE o.gasPrice)
  gasLimit : vchToUInt64 o.gasLimit = some (readLE o.gasLimit)
  gasPriceMax : readLE o.gasPrice ≤ int64Max
  gasLimitMax : readLE o.gasLimit ≤ int64Max
  gasProduct : readLE o.gasPrice ≠ 0 → readLE o.gasLimit ≤ int64Max / readLE o.gasPrice
  versionSize : o.version.length ≤ 4
  version : vchToUInt64 o.version = some (readLE o.version)

theorem length_senderItems_le (o : ContractOutput) : o.senderItems.length ≤ 3 := by
  unfold senderItems
  split <;> simp

theorem length_paramItems_le (o : ContractOutput) : o.paramItems.length ≤ 5 := by
  cases h : o.contract <;> simp [paramItems, h]

theorem findOp_pushAll {op : UInt8} (hop : opPushData4 < op) {bs : List (List UInt8)}
    (hb : ∀ b ∈ bs, b.length ≤ maxScriptElementSize) (rest : CScript) :
    findOp op (pushAll bs ++ rest) = findOp op rest := by
  induction bs with
  | nil => rfl
  | cons b bs ih =>
      simp only [List.mem_cons, forall_eq_or_imp] at hb
      have hlen : b.length < 2 ^ 32 := by unfold maxScriptElementSize at hb; omega
      rw [pushAll, List.append_assoc, findOp_pushData hop hlen, ih hb.2]

/-- `Find` sees the opcodes of the template and nothing in its pushes. -/
theorem findOp_script {op : UInt8} (hop : opPushData4 < op) {o : ContractOutput}
    (h : o.InRange) :
    findOp op o.script = (if o.senderPart.isSome ∧ op = opSender then 1 else 0) +
      (if o.opcode = op then 1 else 0) := by
  have hsender := fun b hb => h.items b (List.mem_append_left _ hb)
  have hparam := fun b hb => h.items b (List.mem_append_right _ hb)
  have hopcode : opPushData4 < o.opcode := by
    unfold opcode
    split <;> decide
  have htail : findOp op (pushAll o.paramItems ++ [o.opcode]) = if o.opcode = op then 1 else 0 := by
    rw [findOp_pushAll hop hparam, findOp_cons_of_not_push hopcode, findOp_nil, Nat.add_zero]
  unfold script
  cases hs : o.senderPart.isSome
  · simp [htail]
  · rw [if_pos rfl, List.append_assoc, findOp_pushAll hop hsender, List.singleton_append,
      findOp_cons_of_not_push (by decide), htail]
    by_cases hop' : op = opSender <;> simp [hop', eq_comm]

theorem length_senderItems (o : ContractOutput) :
    o.senderItems.length = if o.senderPart.isSome then 3 else 0 := by
  unfold senderItems
  split <;> simp_all

theorem length_paramItems (o : ContractOutput) :
    o.paramItems.length = if o.contract.isSome then 5 else 4 := by
  cases h : o.contract <;> simp [paramItems, h]

theorem opcode_cases (o : ContractOutput) : o.opcode = opCreate ∨ o.opcode = opCall := by
  unfold opcode
  split
  · exact .inr rfl
  · exact .inl rfl

theorem hasOpSender_script {o : ContractOutput} (h : o.InRange) :
    hasOpSender o.script = o.senderPart.isSome := by
  have hcount := findOp_script (show opPushData4 < opSender by decide) h
  have hne : o.opcode ≠ opSender := by
    rcases o.opcode_cases with hc | hc <;> rw [hc] <;> decide
  cases hs : o.senderPart.isSome <;> simp [hasOpSender, hcount, hs, hne]

/-- A template output is one the converter reads. -/
theorem hasContractOp_script {o : ContractOutput} (h : o.InRange) :
    (hasOpCreate o.script || hasOpCall o.script) = true := by
  have hcreate := findOp_script (show opPushData4 < opCreate by decide) h
  have hcall := findOp_script (show opPushData4 < opCall by decide) h
  rcases o.opcode_cases with hc | hc
  · simp [hasOpCreate, hcreate, hc, show opCreate ≠ opSender by decide]
  · simp [hasOpCall, hcall, hc, show opCall ≠ opSender by decide]

end ContractOutput

open ContractOutput

section Templates

variable {outputSender : Bool} {other : OtherOps}

/-- The stack that `EvalScript` leaves for a template output: the contract
opcode's item over the parameters, the sender items and what was there. -/
theorem evalScript_script {o : ContractOutput} (h : o.InRange)
    (hsender : o.senderPart.isSome → outputSender = true) (lo : List (List UInt8))
    (hlo : lo.length + 8 ≤ maxStackSize) :
    (evalScript outputSender other lo o.script).2 =
      [o.opcode] :: (o.paramItems.reverse ++ o.senderItems.reverse ++ lo) := by
  have hsenderItems := fun b hb => h.items b (List.mem_append_left _ hb)
  have hparam := fun b hb => h.items b (List.mem_append_right _ hb)
  have hs3 := o.length_senderItems_le
  have hp5 := o.length_paramItems_le
  rw [evalScript, if_neg (Nat.not_lt.mpr h.scriptSize), script]
  cases hs : o.senderPart.isSome
  · have hnil : o.senderItems = [] := by
      rw [← List.length_eq_zero_iff, length_senderItems, hs]
      rfl
    simp only [Bool.false_eq_true, if_false, List.nil_append]
    rw [evalLoop_pushAll hparam _ (by simp) (by simp; omega),
      evalLoop_contract o.opcode_cases _ (by simp) (by simp [maxOpsPerScript])]
    simp [hnil]
  · obtain rfl := hsender hs
    rw [if_pos rfl, List.append_assoc, evalLoop_pushAll hsenderItems _ (by simp) (by simp; omega),
      List.singleton_append, evalLoop_sender _ (by simp [maxOpsPerScript]) (by simp; omega),
      evalLoop_pushAll hparam _ (by simp) (by simp; omega),
      evalLoop_contract o.opcode_cases _ (by simp) (by simp [maxOpsPerScript])]
    simp

/-- `receiveStack` on a template output: the parameters stay on the stack
over the sender items and what earlier outputs left. -/
theorem receiveStack_script {o : ContractOutput} (h : o.InRange)
    (hsender : o.senderPart.isSome → outputSender = true) (c : ConverterState)
    (hlo : c.stack.length + 8 ≤ maxStackSize) :
    receiveStack outputSender other c o.script =
      .ok (some ⟨o.paramItems.reverse ++ o.senderItems.reverse ++ c.stack, o.opcode,
        o.senderPart.isSome⟩) := by
  rw [receiveStack, evalScript_script h hsender c.stack hlo]
  simp only [List.head?_cons, hasOpSender_script h]
  have hroom : ¬((o.opcode = opCreate ∧ (o.paramItems.reverse ++ o.senderItems.reverse ++
      c.stack).length < correctedStackSize o.senderPart.isSome 4) ∨
      (o.opcode = opCall ∧ (o.paramItems.reverse ++ o.senderItems.reverse ++ c.stack).length <
        correctedStackSize o.senderPart.isSome 5)) := by
    simp only [List.length_append, List.length_reverse, length_paramItems, length_senderItems,
      correctedStackSize, opcode]
    cases o.contract.isSome <;> cases o.senderPart.isSome <;> simp +decide
  rw [if_neg hroom]

/-- `parseEthTXParams` after `receiveStack` on a template output pops exactly
the parameters and reads them as the template holds them. -/
theorem parseEthTXParams_script (toAddress : List UInt8 → Address) {o : ContractOutput}
    (h : o.InRange) (lo : List (List UInt8)) :
    parseEthTXParams toAddress
        ⟨o.paramItems.reverse ++ o.senderItems.reverse ++ lo, o.opcode, o.senderPart.isSome⟩ =
      some (o.params toAddress, ⟨o.senderItems.reverse ++ lo, o.opcode, o.senderPart.isSome⟩) := by
  have hmax : ¬(int64Max < readLE o.gasPrice ∨ int64Max < readLE o.gasLimit) := by
    have := h.gasPriceMax
    have := h.gasLimitMax
    omega
  have hproduct : ¬(readLE o.gasPrice ≠ 0 ∧ int64Max / readLE o.gasPrice < readLE o.gasLimit) := by
    have := h.gasProduct
    omega
  -- the size check counts the sender items, which stay under the parameters
  have hroom : correctedStackSize o.senderPart.isSome 4 ≤
      o.senderItems.length + lo.length + 1 + 1 + 1 + 1 := by
    rw [length_senderItems, correctedStackSize]
    split <;> omega
  cases hc : o.contract with
  | none =>
      have hop : o.opcode = opCreate := by simp [opcode, hc]
      simp only [parseEthTXParams, hop, show opCreate ≠ opCall by decide, if_false, paramItems, hc]
      simp [hroom, h.data, h.gasPrice, h.gasLimit, hmax, hproduct, Nat.not_lt.mpr h.versionSize,
        h.version, params, hc]
  | some a =>
      have hop : o.opcode = opCall := by simp [opcode, hc]
      simp only [parseEthTXParams, hop, if_true, paramItems, hc]
      simp [hroom, h.data, h.gasPrice, h.gasLimit, hmax, hproduct, Nat.not_lt.mpr h.versionSize,
        h.version, params, hc]

/-- How an output reads under the templates: `some o` for a contract output
written as `o`, with a sender part only where sender outputs are on, and
`none` for an output with no contract opcode. -/
def ReadsAs (outputSender : Bool) (out : CTxOut) : Option ContractOutput → Prop
  | some o => out.scriptPubKey = o.script ∧ o.InRange ∧ (o.senderPart.isSome → outputSender = true)
  | none => (hasOpCreate out.scriptPubKey || hasOpCall out.scriptPubKey) = false

/-- The sender outputs: each leaves its three items on the member stack. -/
def senderOutputs (shape : List (Option ContractOutput)) : ℕ :=
  (shape.filter fun o => o.any fun o => o.senderPart.isSome).length

theorem senderOutputs_cons_some (o : ContractOutput) (shape : List (Option ContractOutput)) :
    senderOutputs (some o :: shape) =
      (if o.senderPart.isSome then 1 else 0) + senderOutputs shape := by
  cases h : o.senderPart.isSome <;> simp [senderOutputs, h, Nat.add_comm]

/-- The run of the extraction over template outputs: each contract output
gives the parameters its template holds; the stack grows by the sender items
only. -/
theorem extractionLoop_templates (toAddress : List UInt8 → Address) (txHash : Uint256)
    (senderAddress : Option ℕ → Address) (refundSender : Address) {outs : List CTxOut}
    {shape : List (Option ContractOutput)} (hshape : List.Forall₂ (ReadsAs outputSender) outs shape)
    (nOut : ℕ) (c : ConverterState)
    (hdepth : c.stack.length + 3 * senderOutputs shape + 8 ≤ maxStackSize) :
    ∃ txs, extractionLoop outputSender other toAddress txHash senderAddress refundSender nOut outs c =
      .ok (some (txs, shape.filterMap (Option.map (params toAddress)))) := by
  induction hshape generalizing nOut c with
  | nil => exact ⟨[], rfl⟩
  | @cons out o outs shape hread _ ih =>
      cases o with
      | none =>
          have hskip : senderOutputs (none :: shape) = senderOutputs shape := by
            simp [senderOutputs]
          obtain ⟨txs, htxs⟩ := ih (nOut + 1) c (by rw [hskip] at hdepth; exact hdepth)
          refine ⟨txs, ?_⟩
          simp only [ReadsAs] at hread
          rw [extractionLoop, if_neg (by simp [hread]), htxs]
          rfl
      | some o =>
          obtain ⟨hscript, hin, hsender⟩ := hread
          rw [senderOutputs_cons_some] at hdepth
          -- the sender items stay on the stack for the outputs after this one
          have hrest : (o.senderItems.reverse ++ c.stack).length + 3 * senderOutputs shape + 8 ≤
              maxStackSize := by
            rw [List.length_append, List.length_reverse, length_senderItems]
            cases hs : o.senderPart.isSome <;>
              simp only [hs, Bool.false_eq_true, if_true, if_false] at hdepth ⊢ <;> omega
          obtain ⟨txs, htxs⟩ := ih (nOut + 1) ⟨o.senderItems.reverse ++ c.stack, o.opcode,
            o.senderPart.isSome⟩ hrest
          refine ⟨createEthTX txHash o.opcode (senderAddress (some nOut)) refundSender
            (o.params toAddress) nOut out :: txs, ?_⟩
          rw [extractionLoop, hscript, if_pos (hasContractOp_script hin),
            receiveStack_script hin hsender c (by omega)]
          simp only [bind, Except.bind]
          rw [parseEthTXParams_script toAddress hin]
          dsimp only
          rw [htxs]
          rfl

/-- The converter reads every contract output written as its template by
its slots, whatever the outputs before it: version, gas limit, gas price,
data and the called contract. -/
theorem extractionQtumTransactions_reads_templates (toAddress : List UInt8 → Address)
    (txHash : Uint256) (senderAddress : Option ℕ → Address) (tx : CTransaction)
    {shape : List (Option ContractOutput)} (hshape : List.Forall₂ (ReadsAs outputSender) tx.vout shape)
    (hdepth : 3 * senderOutputs shape + 8 ≤ maxStackSize) :
    ∃ txs, extractionQtumTransactions outputSender other toAddress txHash senderAddress tx =
      .ok (some (txs, shape.filterMap (Option.map (params toAddress)))) :=
  extractionLoop_templates toAddress txHash senderAddress _ hshape 0 _ (by simpa using hdepth)

end Templates

/-! ## A template slot that is not a push

`Solver` checks the `OP_VERSION`, `OP_DATA` and `OP_SCRIPT_SIG` slots only
when they hold a push, so a contract output may hold another opcode there;
`EvalScript` then puts fewer items on the stack than the template has slots,
and the converter pops what lies below: the sender items an earlier output
left on the member stack. -/

/-- A creation with a sender: address type 1, a 20-byte address and a
one-byte signature script, then version 4, gas limit 64, gas price 40 and
one byte of data. -/
def senderCreateOutput : ContractOutput :=
  ⟨some ([1], List.replicate 20 0x11, [1]), [4], [0x40], [0x28], [0x60], none⟩

/-- A creation with version 4, gas limit 64 and gas price 40 whose `OP_DATA`
slot holds `OP_NOP`. -/
def nopDataCreateScript : CScript :=
  pushAll [[4], [0x40], [0x28]] ++ [opNop, opCreate]

theorem evalScript_nopDataCreate {outputSender : Bool} {other : OtherOps}
    (lo : List (List UInt8)) (hlo : lo.length + 3 ≤ maxStackSize) :
    (evalScript outputSender other lo nopDataCreateScript).2 =
      [opCreate] :: ([[0x28], [0x40], [4]] ++ lo) := by
  rw [evalScript, if_neg (by decide), nopDataCreateScript,
    evalLoop_pushAll (by decide) _ (by simp) (by simp; omega),
    evalLoop_nop _ (by simp [maxOpsPerScript]) (by simp; omega),
    evalLoop_contract (.inl rfl) _ (by simp) (by simp [maxOpsPerScript])]
  rfl

theorem extractionQtumTransactions_reads_sender_leftovers (other : OtherOps)
    (toAddress : List UInt8 → Address) (txHash : Uint256) (senderAddress : Option ℕ → Address) :
    (solver senderCreateOutput.script true).1 = .createSender ∧
    (solver nopDataCreateScript true).1 = .create ∧
    extractionQtumTransactions true other toAddress txHash senderAddress
      ⟨[], [⟨0, nopDataCreateScript⟩]⟩ = .ok none ∧
    (extractionQtumTransactions true other toAddress txHash senderAddress
      ⟨[], [⟨0, senderCreateOutput.script⟩, ⟨0, nopDataCreateScript⟩]⟩).map (Option.map Prod.snd) =
        .ok (some [⟨4, 64, 40, [0x60], 0⟩, ⟨1, 4, 64, [0x28], 0⟩]) := by
  have hcreate : (hasOpCreate nopDataCreateScript || hasOpCall nopDataCreateScript) = true := by
    decide +kernel
  have hsender : hasOpSender nopDataCreateScript = false := by decide +kernel
  have hin : senderCreateOutput.InRange :=
    ⟨by decide, by decide, by decide, by decide, by decide, by decide, by decide, by decide,
      by decide, by decide⟩
  refine ⟨by decide +kernel, by decide +kernel, ?_, ?_⟩
  · -- alone, the output leaves three items under the contract opcode's and is rejected
    rw [extractionQtumTransactions, extractionLoop, if_pos hcreate, receiveStack,
      evalScript_nopDataCreate [] (by decide)]
    simp [hsender, correctedStackSize, bind, Except.bind, pure, Except.pure]
  · -- after the sender output, its three items make up the missing slot
    rw [extractionQtumTransactions, extractionLoop, if_pos (hasContractOp_script hin),
      receiveStack_script hin (fun _ => rfl) _ (by decide)]
    simp only [bind, Except.bind]
    rw [parseEthTXParams_script toAddress hin]
    dsimp only
    rw [extractionLoop, if_pos hcreate, receiveStack, evalScript_nopDataCreate _ (by decide)]
    simp only [hsender]
    rfl

end Metrix
