import Metrix.Script.SenderSig
import Metrix.Consensus.Sender
import Metrix.Script.ScriptOp
import Metrix.Lib.Simulation

/-! The signature hashes of `script/interpreter.cpp`: `SignatureHash` of an
input, `SignatureHashOutput` of an `OP_SENDER` output, and the midstate hashes
that `PrecomputedTransactionData` caches. Each is `CHashWriter::GetHash` of
a byte stream, the function `hash256` here; an `uint256` member left
unset is zero. The transaction's version and lock time, which the model of
`CTransaction` does not carry, and whether it has a witness are arguments.
The legacy preimage is the stream of `CTransactionSignatureSerializer`, whose
`SerializeScriptCode` walks the script code with `GetScriptOp`. The hash
type, an `int`, is taken by its bits. -/

namespace Metrix

open Opcode

/-- `SIGHASH_NONE`. -/
def sighashNone : UInt32 := 2

/-- `SIGHASH_SINGLE`. -/
def sighashSingle : UInt32 := 3

/-- `SIGHASH_ANYONECANPAY`. -/
def sighashAnyoneCanPay : UInt32 := 0x80

/-- `SigVersion`. -/
inductive SigVersion
  | base
  | witnessV0
deriving DecidableEq, Repr

/-! ## Streams -/

/-- A 32-bit integer on the stream. -/
def serUInt32 (n : UInt32) : List UInt8 := leBytes 4 n.toNat

/-- An amount, an `int64_t`, on the stream. -/
def serAmount (v : CAmount) : List UInt8 := leBytes 8 (v % 2 ^ 64).toNat

/-- An `uint256` on the stream. -/
def serUint256 (h : Uint256) : List UInt8 := leBytes 32 h.toNat

/-- A `COutPoint` on the stream. -/
def serOutPoint (o : COutPoint) : List UInt8 := serUint256 o.hash ++ serUInt32 o.n

/-- A `CTxOut` on the stream. -/
def serTxOut (o : CTxOut) : List UInt8 := serAmount o.nValue ++ serializeScript o.scriptPubKey

/-! ## The legacy preimage -/

/-- The loop `while (scriptCode.GetOp(it, opcode))` from the offset `pc`:
each opcode read with the offset after it, and the offset `it` is left at
when a read fails and the loop stops. `fuel` bounds the reads. -/
def scriptOpsFrom (script : CScript) : ℕ → ℕ → List (UInt8 × ℕ) × ℕ
  | 0, pc => ([], pc)
  | fuel + 1, pc =>
      let r := getScriptOp script pc
      if r.ok then
        let rest := scriptOpsFrom script fuel r.pc
        ((r.opcode, r.pc) :: rest.1, rest.2)
      else ([], r.pc)

/-- The loop over a whole script: a read that succeeds takes at least a byte,
so one read more than the bytes reaches the failing one. -/
def scriptCodeOps (script : CScript) : List (UInt8 × ℕ) × ℕ :=
  scriptOpsFrom script (script.length + 1) 0

/-- The second loop of `SerializeScriptCode` and the write after it: from
`itBegin`, the bytes before each `OP_CODESEPARATOR`, and then, unless
`itBegin` is the end, the bytes up to the offset `stop` the loop stopped at.
Offsets below `2 ^ 31` make the iterator differences these lengths. -/
def writeCodeSegments (script : CScript) (stop : ℕ) : List (UInt8 × ℕ) → ℕ → List UInt8
  | [], itBegin =>
      if itBegin ≠ script.length then (script.drop itBegin).take (stop - itBegin) else []
  | (opcode, it) :: ops, itBegin =>
      if opcode = opCodeSeparator then
        (script.drop itBegin).take (it - itBegin - 1) ++ writeCodeSegments script stop ops it
      else writeCodeSegments script stop ops itBegin

/-- `SerializeScriptCode`: the size less the code separators, then the
script without them. -/
def serializeScriptCode (scriptCode : CScript) : List UInt8 :=
  let (ops, stop) := scriptCodeOps scriptCode
  let nCodeSeparators := ops.countP fun p => p.1 = opCodeSeparator
  writeCompactSize (scriptCode.length - nCodeSeparators) ++ writeCodeSegments scriptCode stop ops 0

/-! ### What `SerializeScriptCode` writes -/

/-- The loop stops within one read more than the bytes left, so more fuel
changes nothing. -/
theorem scriptOpsFrom_fuel {script : CScript} {fuel fuel' pc : ℕ} (hpc : pc ≤ script.length)
    (h : script.length - pc < fuel) (h' : script.length - pc < fuel') :
    scriptOpsFrom script fuel pc = scriptOpsFrom script fuel' pc := by
  induction fuel generalizing pc fuel' with
  | zero => omega
  | succ fuel ih =>
    obtain ⟨fuel', rfl⟩ : ∃ f, fuel' = f + 1 := ⟨fuel' - 1, by omega⟩
    simp only [scriptOpsFrom]
    split_ifs with hok
    · -- the read moved past `pc` and stays in the script
      have hle := (getScriptOp_pc_bounds script hpc).2.1
      have hlt := (getScriptOp_pc_bounds script hpc).2.2 hok
      rw [@ih fuel' _ hle (by omega) (by omega)]
    · rfl

/-- The write after the loop: the bytes from `itBegin` to where it stopped,
none when `itBegin` is the end. -/
theorem length_writeCodeSegments_nil {script : CScript} {stop itBegin : ℕ}
    (hbegin : itBegin ≤ stop) (hstop : stop ≤ script.length) :
    (writeCodeSegments script stop [] itBegin).length = stop - itBegin := by
  simp only [writeCodeSegments]
  split_ifs
  · rw [List.length_take, List.length_drop]
    omega
  · simp only [List.length_nil]
    omega

/-- The loop stops at an offset between where it started and the end, and
the bytes the second loop writes from `itBegin`, with the code separators
read, make up what lies between `itBegin` and that offset. -/
theorem writeCodeSegments_scriptOpsFrom {script : CScript} :
    ∀ {fuel pc itBegin : ℕ}, itBegin ≤ pc → pc ≤ script.length →
      pc ≤ (scriptOpsFrom script fuel pc).2 ∧ (scriptOpsFrom script fuel pc).2 ≤ script.length ∧
        (writeCodeSegments script (scriptOpsFrom script fuel pc).2 (scriptOpsFrom script fuel pc).1
            itBegin).length +
          (scriptOpsFrom script fuel pc).1.countP (fun p => p.1 = opCodeSeparator) =
        (scriptOpsFrom script fuel pc).2 - itBegin
  | 0, pc, itBegin, hbegin, hpc => by
    simp only [scriptOpsFrom, List.countP_nil, Nat.add_zero]
    exact ⟨le_refl pc, hpc, length_writeCodeSegments_nil hbegin hpc⟩
  | fuel + 1, pc, itBegin, hbegin, hpc => by
    obtain ⟨hle, hend, hlt⟩ := getScriptOp_pc_bounds script hpc
    simp only [scriptOpsFrom]
    split_ifs with hok
    · -- a read: the segment before a separator is written, the rest by induction
      have hlt := hlt hok
      obtain ⟨hstop, hstop', hrest⟩ :=
        @writeCodeSegments_scriptOpsFrom script fuel _ itBegin (by omega) hend
      obtain ⟨-, -, hrest'⟩ :=
        @writeCodeSegments_scriptOpsFrom script fuel _ (getScriptOp script pc).pc (le_refl _) hend
      refine ⟨by omega, hstop', ?_⟩
      by_cases hsep : (getScriptOp script pc).opcode = opCodeSeparator
      · simp only [writeCodeSegments, List.countP_cons, hsep, decide_true, if_true,
          List.length_append, List.length_take, List.length_drop]
        omega
      · simp only [writeCodeSegments, List.countP_cons, hsep, decide_false, Bool.false_eq_true,
          if_false, Nat.add_zero]
        exact hrest
    · -- the failing read ends the loop where it stopped
      simp only [List.countP_nil, Nat.add_zero]
      exact ⟨hle, hend, length_writeCodeSegments_nil (hbegin.trans hle) hend⟩

/-- `SerializeScriptCode` declares the script's size less its code
separators, and after that size writes the bytes up to where its loop of
`GetOp` stopped, less the separators: the two agree when the loop reads to
the end of the script, and a script whose last push runs past the end is
written shorter than declared. The loop's fuel is enough: more changes
nothing. -/
theorem serializeScriptCode_length (scriptCode : CScript) :
    let nCodeSeparators := (scriptCodeOps scriptCode).1.countP fun p => p.1 = opCodeSeparator
    (scriptCodeOps scriptCode).2 ≤ scriptCode.length ∧
      (∃ bytes, serializeScriptCode scriptCode =
          writeCompactSize (scriptCode.length - nCodeSeparators) ++ bytes ∧
        bytes.length + nCodeSeparators = (scriptCodeOps scriptCode).2) ∧
      ∀ fuel, scriptCode.length < fuel → scriptOpsFrom scriptCode fuel 0 = scriptCodeOps scriptCode := by
  intro nCodeSeparators
  obtain ⟨-, hstop, hbytes⟩ :=
    @writeCodeSegments_scriptOpsFrom scriptCode (scriptCode.length + 1) 0 0 (le_refl 0) (Nat.zero_le _)
  rw [Nat.sub_zero] at hbytes
  refine ⟨hstop, ⟨_, rfl, hbytes⟩, fun fuel hfuel => ?_⟩
  exact scriptOpsFrom_fuel (Nat.zero_le _) (by omega) (by omega)

/-- A push of two bytes with one left: the size says two, one byte follows. -/
example : serializeScriptCode [0x02, 0xaa] = [2, 2] := by decide

/-! ### The serializer -/

/-- `CTransactionSignatureSerializer`, with the flags its constructor reads
off the hash type. -/
structure CTransactionSignatureSerializer where
  txTo : CTransaction
  scriptCode : CScript
  nIn : ℕ
  fAnyoneCanPay : Bool
  fHashSingle : Bool
  fHashNone : Bool
deriving DecidableEq, Repr

/-- An input with its `scriptSig` emptied. -/
def CTxIn.withoutScriptSig (txin : CTxIn) : CTxIn := { txin with scriptSig := [] }

/-- The transaction with every `scriptSig` emptied. -/
def CTransaction.withoutScriptSigs (tx : CTransaction) : CTransaction :=
  ⟨tx.vin.map CTxIn.withoutScriptSig, tx.vout⟩

theorem getElem?_withoutScriptSigs (tx : CTransaction) (n : ℕ) :
    tx.withoutScriptSigs.vin[n]? = tx.vin[n]?.map CTxIn.withoutScriptSig :=
  List.getElem?_map ..

namespace CTransactionSignatureSerializer

/-- The constructor. -/
def ofHashType (txTo : CTransaction) (scriptCode : CScript) (nIn : ℕ) (nHashType : UInt32) :
    CTransactionSignatureSerializer :=
  ⟨txTo, scriptCode, nIn, nHashType &&& sighashAnyoneCanPay != 0,
    nHashType &&& 0x1f == sighashSingle, nHashType &&& 0x1f == sighashNone⟩

variable (t : CTransactionSignatureSerializer)

/-- `SerializeInput`: the other inputs with an empty script, and under
`SIGHASH_SINGLE` or `SIGHASH_NONE` with the sequence 0; `none` for a read
past the inputs. -/
def serializeInput (nInput : ℕ) : Option (List UInt8) := do
  let nInput := if t.fAnyoneCanPay then t.nIn else nInput
  let txin ← t.txTo.vin[nInput]?
  pure (serOutPoint txin.prevout ++
    (if nInput ≠ t.nIn then serializeScript [] else serializeScriptCode t.scriptCode) ++
    serUInt32 (if nInput ≠ t.nIn ∧ (t.fHashSingle || t.fHashNone) then 0 else txin.nSequence))

/-- `SerializeOutput`: under `SIGHASH_SINGLE` the other outputs as
`CTxOut()`, of value -1 and an empty script; `none` for a read past the
outputs. -/
def serializeOutput (nOutput : ℕ) : Option (List UInt8) :=
  if t.fHashSingle ∧ nOutput ≠ t.nIn then some (serTxOut ⟨-1, []⟩)
  else t.txTo.vout[nOutput]?.map serTxOut

/-- `Serialize`. -/
def serialize (nVersion nLockTime : UInt32) : Option (List UInt8) := do
  let nInputs := if t.fAnyoneCanPay then 1 else t.txTo.vin.length
  let ins ← (List.range nInputs).mapM t.serializeInput
  let nOutputs := if t.fHashNone then 0 else if t.fHashSingle then t.nIn + 1 else t.txTo.vout.length
  let outs ← (List.range nOutputs).mapM t.serializeOutput
  pure (serUInt32 nVersion ++ writeCompactSize nInputs ++ ins.flatten ++
    writeCompactSize nOutputs ++ outs.flatten ++ serUInt32 nLockTime)

/-! ### The serializer reads what the asserts guard -/

theorem serializeInput_isSome {nInput : ℕ}
    (h : (if t.fAnyoneCanPay then t.nIn else nInput) < t.txTo.vin.length) :
    (t.serializeInput nInput).isSome := by
  simp [serializeInput, List.getElem?_eq_getElem h]

theorem serializeOutput_isSome {nOutput : ℕ}
    (h : ¬(t.fHashSingle ∧ nOutput ≠ t.nIn) → nOutput < t.txTo.vout.length) :
    (t.serializeOutput nOutput).isSome := by
  unfold serializeOutput
  split_ifs with hsingle
  · rfl
  · simp [List.getElem?_eq_getElem (h hsingle)]

/-- With the input signed among the inputs, and under `SIGHASH_SINGLE` among
the outputs too, every read of the serializer is in range. -/
theorem serialize_isSome (hin : t.nIn < t.txTo.vin.length)
    (hout : t.fHashSingle = true → t.nIn < t.txTo.vout.length) (nVersion nLockTime : UInt32) :
    (t.serialize nVersion nLockTime).isSome := by
  have hins := List.mapM_option_isSome (h := t.serializeInput)
      (l := List.range (if t.fAnyoneCanPay then 1 else t.txTo.vin.length)) fun nInput hmem =>
    t.serializeInput_isSome (by
      rw [List.mem_range] at hmem
      split_ifs at hmem ⊢ <;> omega)
  -- under `SIGHASH_SINGLE` the outputs before the signed one are `CTxOut()`
  have houts := List.mapM_option_isSome (h := t.serializeOutput)
      (l := List.range (if t.fHashNone then 0 else if t.fHashSingle then t.nIn + 1
        else t.txTo.vout.length)) fun nOutput hmem =>
    t.serializeOutput_isSome fun hread => by
      rw [List.mem_range] at hmem
      split_ifs at hmem with hnone hsingle
      · omega
      · have := hout hsingle
        simp only [hsingle, true_and, not_not] at hread
        omega
      · exact hmem
  obtain ⟨ins, hins⟩ := Option.isSome_iff_exists.mp hins
  obtain ⟨outs, houts⟩ := Option.isSome_iff_exists.mp houts
  simp [serialize, hins, houts]

/-! ### The serializer does not read the `scriptSig`s -/

theorem serializeInput_withoutScriptSigs (tx : CTransaction) (scriptCode : CScript) (nIn : ℕ)
    (nHashType : UInt32) :
    (ofHashType tx.withoutScriptSigs scriptCode nIn nHashType).serializeInput =
      (ofHashType tx scriptCode nIn nHashType).serializeInput := by
  funext nInput
  simp only [serializeInput, ofHashType, getElem?_withoutScriptSigs, Option.bind_eq_bind,
    Option.bind_map]
  -- the input read is the same but for its `scriptSig`, which is never written
  rfl

theorem serialize_withoutScriptSigs (tx : CTransaction) (scriptCode : CScript) (nIn : ℕ)
    (nHashType : UInt32) :
    (ofHashType tx.withoutScriptSigs scriptCode nIn nHashType).serialize =
      (ofHashType tx scriptCode nIn nHashType).serialize := by
  have hout : (ofHashType tx.withoutScriptSigs scriptCode nIn nHashType).serializeOutput =
      (ofHashType tx scriptCode nIn nHashType).serializeOutput := rfl
  funext nVersion nLockTime
  simp only [serialize, serializeInput_withoutScriptSigs, hout]
  simp [ofHashType, CTransaction.withoutScriptSigs]

end CTransactionSignatureSerializer

section Hashes

variable (hash256 : List UInt8 → Uint256)

/-- `GetPrevoutHash`. -/
def getPrevoutHash (tx : CTransaction) : Uint256 :=
  hash256 (tx.vin.flatMap fun txin => serOutPoint txin.prevout)

/-- `GetSequenceHash`. -/
def getSequenceHash (tx : CTransaction) : Uint256 :=
  hash256 (tx.vin.flatMap fun txin => serUInt32 txin.nSequence)

/-- `GetOutputsHash`. -/
def getOutputsHash (tx : CTransaction) : Uint256 :=
  hash256 (tx.vout.flatMap serTxOut)

/-- `GetOutputWithoutSenderSig`. -/
def getOutputWithoutSenderSig (o : CTxOut) : CTxOut :=
  ⟨o.nValue, withoutSenderSig o.scriptPubKey⟩

/-- An output as `GetOutputsOpSenderHash` writes it: without its sender
signature when it has an `OP_SENDER`. -/
def outputForOpSenderHash (o : CTxOut) : CTxOut :=
  if hasOpSender o.scriptPubKey then getOutputWithoutSenderSig o else o

/-- `GetOutputsOpSenderHash`. -/
def getOutputsOpSenderHash (tx : CTransaction) : Uint256 :=
  hash256 (tx.vout.flatMap fun o => serTxOut (outputForOpSenderHash o))

/-- `PrecomputedTransactionData`. -/
structure PrecomputedTransactionData where
  hashPrevouts : Uint256
  hashSequence : Uint256
  hashOutputs : Uint256
  hashOutputsOpSender : Uint256
  ready : Bool
deriving DecidableEq, Repr

/-- `cacheready ? cache->field : compute`, with a null `cache` as `none`. -/
def fromCache (cache : Option PrecomputedTransactionData)
    (field : PrecomputedTransactionData → Uint256) (compute : Uint256) : Uint256 :=
  match cache with
  | some c => if c.ready then field c else compute
  | none => compute

/-- `SignatureHashOutput`: `none` where an assertion fails. -/
def signatureHashOutput (scriptCode : CScript) (tx : CTransaction) (nVersion nLockTime : UInt32)
    (nOut : ℕ) (nHashType : UInt32) (amount : CAmount)
    (cache : Option PrecomputedTransactionData) : Option Uint256 := do
  let out ← tx.vout[nOut]?
  let anyoneCanPay := nHashType &&& sighashAnyoneCanPay ≠ 0
  let single := nHashType &&& 0x1f = sighashSingle
  let none_ := nHashType &&& 0x1f = sighashNone
  let (hashPrevouts, hashSequence) ←
    if anyoneCanPay then do
      let first ← tx.vin.head?
      pure (hash256 (serOutPoint first.prevout), hash256 (serUInt32 first.nSequence))
    else
      pure (fromCache cache (·.hashPrevouts) (getPrevoutHash hash256 tx),
        if ¬single ∧ ¬none_ then fromCache cache (·.hashSequence) (getSequenceHash hash256 tx)
        else 0)
  let hashOutputs :=
    if ¬single ∧ ¬none_ then
      fromCache cache (·.hashOutputsOpSender) (getOutputsOpSenderHash hash256 tx)
    else if single then hash256 (serTxOut (getOutputWithoutSenderSig out))
    else 0
  pure (hash256 (serUInt32 nVersion ++ serUint256 hashPrevouts ++ serUint256 hashSequence ++
    serTxOut (getOutputWithoutSenderSig out) ++ serializeScript scriptCode ++ serAmount amount ++
    serUint256 hashOutputs ++ serUInt32 nLockTime ++ serUInt32 nHashType))

/-- `SignatureHash`: `none` where an assertion fails. -/
def signatureHash (scriptCode : CScript) (tx : CTransaction) (nVersion nLockTime : UInt32) (nIn : ℕ)
    (nHashType : UInt32) (amount : CAmount) (sigversion : SigVersion)
    (cache : Option PrecomputedTransactionData) : Option Uint256 := do
  let input ← tx.vin[nIn]?
  let anyoneCanPay := nHashType &&& sighashAnyoneCanPay ≠ 0
  let single := nHashType &&& 0x1f = sighashSingle
  let none_ := nHashType &&& 0x1f = sighashNone
  match sigversion with
  | .witnessV0 =>
      let hashPrevouts :=
        if ¬anyoneCanPay then fromCache cache (·.hashPrevouts) (getPrevoutHash hash256 tx) else 0
      let hashSequence :=
        if ¬anyoneCanPay ∧ ¬single ∧ ¬none_ then
          fromCache cache (·.hashSequence) (getSequenceHash hash256 tx)
        else 0
      let hashOutputs :=
        if ¬single ∧ ¬none_ then fromCache cache (·.hashOutputs) (getOutputsHash hash256 tx)
        else if single then
          match tx.vout[nIn]? with
          | some o => hash256 (serTxOut o)
          | none => 0
        else 0
      pure (hash256 (serUInt32 nVersion ++ serUint256 hashPrevouts ++ serUint256 hashSequence ++
        serOutPoint input.prevout ++ serializeScript scriptCode ++ serAmount amount ++
        serUInt32 input.nSequence ++ serUint256 hashOutputs ++ serUInt32 nLockTime ++
        serUInt32 nHashType))
  | .base =>
      -- `SIGHASH_SINGLE` past the outputs signs the constant one
      if single ∧ tx.vout.length ≤ nIn then pure 1
      else do
        let txTmp := CTransactionSignatureSerializer.ofHashType tx scriptCode nIn nHashType
        let preimage ← txTmp.serialize nVersion nLockTime
        pure (hash256 (preimage ++ serUInt32 nHashType))

/-! ## The cache -/

theorem fromCache_none (field : PrecomputedTransactionData → Uint256) (compute : Uint256) :
    fromCache none field compute = compute := rfl

theorem getPrevoutHash_withoutScriptSigs (tx : CTransaction) :
    getPrevoutHash hash256 tx.withoutScriptSigs = getPrevoutHash hash256 tx := by
  simp only [getPrevoutHash, CTransaction.withoutScriptSigs, List.flatMap_map]
  rfl

theorem getSequenceHash_withoutScriptSigs (tx : CTransaction) :
    getSequenceHash hash256 tx.withoutScriptSigs = getSequenceHash hash256 tx := by
  simp only [getSequenceHash, CTransaction.withoutScriptSigs, List.flatMap_map]
  rfl

theorem signatureHash_withoutScriptSigs (scriptCode : CScript) (tx : CTransaction)
    (nVersion nLockTime : UInt32) (nIn : ℕ) (nHashType : UInt32) (amount : CAmount)
    (sigversion : SigVersion) (cache : Option PrecomputedTransactionData) :
    signatureHash hash256 scriptCode tx.withoutScriptSigs nVersion nLockTime nIn nHashType amount
        sigversion cache =
      signatureHash hash256 scriptCode tx nVersion nLockTime nIn nHashType amount sigversion cache := by
  simp only [signatureHash, getElem?_withoutScriptSigs tx nIn,
    getPrevoutHash_withoutScriptSigs, getSequenceHash_withoutScriptSigs,
    CTransactionSignatureSerializer.serialize_withoutScriptSigs]
  cases tx.vin[nIn]? <;> rfl

theorem signatureHashOutput_withoutScriptSigs (scriptCode : CScript) (tx : CTransaction)
    (nVersion nLockTime : UInt32) (nOut : ℕ) (nHashType : UInt32) (amount : CAmount)
    (cache : Option PrecomputedTransactionData) :
    signatureHashOutput hash256 scriptCode tx.withoutScriptSigs nVersion nLockTime nOut nHashType
        amount cache =
      signatureHashOutput hash256 scriptCode tx nVersion nLockTime nOut nHashType amount cache := by
  have hhead : tx.withoutScriptSigs.vin.head? = tx.vin.head?.map CTxIn.withoutScriptSig :=
    List.head?_map ..
  simp only [signatureHashOutput, hhead, getPrevoutHash_withoutScriptSigs,
    getSequenceHash_withoutScriptSigs]
  cases tx.vin.head? <;> rfl

/-- The signature hashes read of the inputs their outpoints and sequence
numbers only: two transactions that differ in nothing but their `scriptSig`s,
where signatures are put, have the same hashes, of every input and of every
`OP_SENDER` output. -/
theorem signatureHash_eq_of_scriptSigs {tx tx' : CTransaction}
    (hvin : tx.vin.map (fun txin => (txin.prevout, txin.nSequence)) =
      tx'.vin.map fun txin => (txin.prevout, txin.nSequence))
    (hvout : tx.vout = tx'.vout) (scriptCode : CScript) (nVersion nLockTime : UInt32) (n : ℕ)
    (nHashType : UInt32) (amount : CAmount) (sigversion : SigVersion)
    (cache : Option PrecomputedTransactionData) :
    signatureHash hash256 scriptCode tx nVersion nLockTime n nHashType amount sigversion cache =
        signatureHash hash256 scriptCode tx' nVersion nLockTime n nHashType amount sigversion cache ∧
      signatureHashOutput hash256 scriptCode tx nVersion nLockTime n nHashType amount cache =
        signatureHashOutput hash256 scriptCode tx' nVersion nLockTime n nHashType amount cache := by
  -- emptying the `scriptSig`s leaves what the hypotheses say is the same
  have hblank : tx.withoutScriptSigs = tx'.withoutScriptSigs := by
    have hmap : ∀ v : List CTxIn, v.map CTxIn.withoutScriptSig =
        (v.map fun txin => (txin.prevout, txin.nSequence)).map fun p => ⟨p.1, [], p.2⟩ := by
      intro v
      simp [CTxIn.withoutScriptSig, Function.comp_def]
    simp only [CTransaction.withoutScriptSigs, hmap, hvin, hvout]
  constructor
  · rw [← signatureHash_withoutScriptSigs, hblank, signatureHash_withoutScriptSigs]
  · rw [← signatureHashOutput_withoutScriptSigs, hblank, signatureHashOutput_withoutScriptSigs]

/-- The only failure of `SignatureHash` is its assert on `nIn`: it returns
a hash exactly for the inputs of the transaction. -/
theorem signatureHash_isSome_iff (scriptCode : CScript) (tx : CTransaction)
    (nVersion nLockTime : UInt32) (nIn : ℕ) (nHashType : UInt32) (amount : CAmount)
    (sigversion : SigVersion) (cache : Option PrecomputedTransactionData) :
    (signatureHash hash256 scriptCode tx nVersion nLockTime nIn nHashType amount sigversion
      cache).isSome ↔ nIn < tx.vin.length := by
  constructor
  · intro h
    by_contra hout
    have hnone : tx.vin[nIn]? = none := List.getElem?_eq_none (not_lt.mp hout)
    simp [signatureHash, hnone] at h
  intro hin
  have hinput : tx.vin[nIn]? = some tx.vin[nIn] := List.getElem?_eq_getElem hin
  cases sigversion with
  | witnessV0 => simp [signatureHash, hinput]
  | base =>
    simp only [signatureHash, hinput, Option.bind_eq_bind, Option.bind_some]
    split_ifs with hone
    · rfl
    · -- `SIGHASH_SINGLE` past the outputs was answered before the serializer
      have hout : (CTransactionSignatureSerializer.ofHashType tx scriptCode nIn nHashType).fHashSingle =
          true → nIn < tx.vout.length := fun hsingle => by
        simp only [CTransactionSignatureSerializer.ofHashType, beq_iff_eq] at hsingle
        simp only [hsingle, true_and, not_le] at hone
        exact hone
      obtain ⟨preimage, hpre⟩ := Option.isSome_iff_exists.mp
        ((CTransactionSignatureSerializer.ofHashType tx scriptCode nIn nHashType).serialize_isSome hin
          hout nVersion nLockTime)
      simp [hpre]

end Hashes

/-- A stand-in for the hash: the length of the stream. -/
def streamLengthHash (b : List UInt8) : Uint256 := BitVec.ofNat 256 b.length

/-- A transaction of one input and the one output `OP_1 OP_1 OP_SENDER`. -/
def sampleSenderTx : CTransaction :=
  ⟨[⟨⟨0, 0⟩, [], 0xffffffff⟩], [⟨0, [0x51, 0x51, Opcode.opSender]⟩]⟩

/-- `sampleSenderTx` with a `scriptSig` in its input. -/
def signedSampleSenderTx : CTransaction :=
  ⟨[⟨⟨0, 0⟩, [0x01, 0x30], 0xffffffff⟩], [⟨0, [0x51, 0x51, Opcode.opSender]⟩]⟩

theorem signatureHash_eq_of_scriptSigs_sample :
    sampleSenderTx.vin.map (fun txin => (txin.prevout, txin.nSequence)) =
        signedSampleSenderTx.vin.map (fun txin => (txin.prevout, txin.nSequence)) ∧
      sampleSenderTx.vout = signedSampleSenderTx.vout ∧
      (signatureHash streamLengthHash [] sampleSenderTx 2 0 0 1 0 .base none =
          signatureHash streamLengthHash [] signedSampleSenderTx 2 0 0 1 0 .base none ∧
        signatureHashOutput streamLengthHash [] sampleSenderTx 2 0 0 1 0 none =
          signatureHashOutput streamLengthHash [] signedSampleSenderTx 2 0 0 1 0 none) :=
  ⟨rfl, rfl, signatureHash_eq_of_scriptSigs streamLengthHash rfl rfl [] 2 0 0 1 0 .base none⟩

/-- An output as a transaction that deserializes can hold it: a value in
`int64_t` and a script of at most `MAX_SIZE` bytes. -/
def CTxOut.Serializable (o : CTxOut) : Prop :=
  -2 ^ 63 ≤ o.nValue ∧ o.nValue < 2 ^ 63 ∧ o.scriptPubKey.length ≤ maxSize

theorem nValue_outputForOpSenderHash (o : CTxOut) : (outputForOpSenderHash o).nValue = o.nValue := by
  unfold outputForOpSenderHash
  split_ifs <;> rfl

theorem length_outputForOpSenderHash_le (o : CTxOut) :
    (outputForOpSenderHash o).scriptPubKey.length ≤ o.scriptPubKey.length := by
  unfold outputForOpSenderHash
  split_ifs
  · exact length_withoutSenderSig_le _
  · exact le_refl _

theorem CTxOut.Serializable.outputForOpSenderHash {o : CTxOut} (h : o.Serializable) :
    (outputForOpSenderHash o).Serializable := by
  obtain ⟨hlo, hhi, hsize⟩ := h
  rw [CTxOut.Serializable, nValue_outputForOpSenderHash]
  exact ⟨hlo, hhi, (length_outputForOpSenderHash_le o).trans hsize⟩

/-- Replacing the sender signature of an output with one `OP_SENDER` leaves
both forms of it that the output hash reads unchanged. -/
theorem outputForOpSenderHash_of_updateSenderSig {o : CTxOut} {sig : List UInt8} {s' : CScript}
    (hsender : hasOpSender o.scriptPubKey = true) (hsig : sig.length < 2 ^ 32)
    (h : updateSenderSig o.scriptPubKey sig = some s') :
    outputForOpSenderHash ⟨o.nValue, s'⟩ = outputForOpSenderHash o ∧
      getOutputWithoutSenderSig ⟨o.nValue, s'⟩ = getOutputWithoutSenderSig o := by
  have hw : getOutputWithoutSenderSig ⟨o.nValue, s'⟩ = getOutputWithoutSenderSig o := by
    simp only [getOutputWithoutSenderSig, withoutSenderSig_of_updateSenderSig hsig h]
  have hsender' : hasOpSender s' = true := by rw [hasOpSender_of_updateSenderSig hsig h, hsender]
  refine ⟨?_, hw⟩
  simp only [outputForOpSenderHash, hsender', hsender, if_true]
  exact hw

/-! ## The streams are read back -/


theorem serAmount_inj {v₁ v₂ : CAmount} (h₁ : -2 ^ 63 ≤ v₁ ∧ v₁ < 2 ^ 63)
    (h₂ : -2 ^ 63 ≤ v₂ ∧ v₂ < 2 ^ 63) (h : serAmount v₁ = serAmount v₂) : v₁ = v₂ := by
  have hlt : ∀ v : CAmount, (v % 2 ^ 64).toNat < 256 ^ 8 := fun v => by omega
  have hread := congrArg readLE h
  rw [serAmount, serAmount, readLE_leBytes (hlt v₁), readLE_leBytes (hlt v₂)] at hread
  have hlo₁ : @LE.le ℤ _ (-2 ^ 63) v₁ := h₁.1
  have hhi₁ : @LT.lt ℤ _ v₁ (2 ^ 63) := h₁.2
  have hlo₂ : @LE.le ℤ _ (-2 ^ 63) v₂ := h₂.1
  have hhi₂ : @LT.lt ℤ _ v₂ (2 ^ 63) := h₂.2
  show @Eq ℤ v₁ v₂
  omega

theorem serUint256_inj {h₁ h₂ : Uint256} (h : serUint256 h₁ = serUint256 h₂) : h₁ = h₂ := by
  have hlt : ∀ x : Uint256, x.toNat < 256 ^ 32 := fun x => by simpa using x.isLt
  have hread := congrArg readLE h
  rw [serUint256, serUint256, readLE_leBytes (hlt h₁), readLE_leBytes (hlt h₂)] at hread
  exact BitVec.eq_of_toNat_eq hread

/-- An output is read back from the front of a stream. -/
theorem serTxOut_append_inj {o₁ o₂ : CTxOut} (h₁ : o₁.Serializable) (h₂ : o₂.Serializable)
    {r₁ r₂ : List UInt8} (h : serTxOut o₁ ++ r₁ = serTxOut o₂ ++ r₂) : o₁ = o₂ ∧ r₁ = r₂ := by
  obtain ⟨v₁, s₁⟩ := o₁
  obtain ⟨v₂, s₂⟩ := o₂
  simp only [serTxOut, serializeScript, List.append_assoc] at h
  obtain ⟨hv, hrest⟩ := List.append_inj h (by simp [serAmount])
  have hread := congrArg readCompactSize hrest
  rw [readCompactSize_write h₁.2.2, readCompactSize_write h₂.2.2] at hread
  obtain ⟨hlen, hbody⟩ : s₁.length = s₂.length ∧ s₁ ++ r₁ = s₂ ++ r₂ := by simpa using hread
  obtain ⟨rfl, rfl⟩ := List.append_inj hbody hlen
  obtain rfl := serAmount_inj ⟨h₁.1, h₁.2.1⟩ ⟨h₂.1, h₂.2.1⟩ hv
  exact ⟨rfl, rfl⟩

theorem length_serTxOut_pos (o : CTxOut) : 0 < (serTxOut o).length := by
  simp [serTxOut, serAmount]

/-- A list of outputs is read back from its stream. -/
theorem flatMap_serTxOut_inj {l₁ l₂ : List CTxOut} (h₁ : ∀ o ∈ l₁, o.Serializable)
    (h₂ : ∀ o ∈ l₂, o.Serializable) (h : l₁.flatMap serTxOut = l₂.flatMap serTxOut) : l₁ = l₂ := by
  induction l₁ generalizing l₂ with
  | nil =>
      cases l₂ with
      | nil => rfl
      | cons o l₂ =>
          have hlen := congrArg List.length h
          simp only [List.flatMap_nil, List.flatMap_cons, List.length_nil, List.length_append] at hlen
          exact absurd hlen (by have := length_serTxOut_pos o; omega)
  | cons o₁ l₁ ih =>
      cases l₂ with
      | nil =>
          have hlen := congrArg List.length h
          simp only [List.flatMap_nil, List.flatMap_cons, List.length_nil, List.length_append] at hlen
          exact absurd hlen (by have := length_serTxOut_pos o₁; omega)
      | cons o₂ l₂ =>
          rw [List.flatMap_cons, List.flatMap_cons] at h
          obtain ⟨rfl, hrest⟩ :=
            serTxOut_append_inj (h₁ o₁ List.mem_cons_self) (h₂ o₂ List.mem_cons_self) h
          rw [ih (fun o ho => h₁ o (List.mem_cons_of_mem _ ho))
            (fun o ho => h₂ o (List.mem_cons_of_mem _ ho)) hrest]

/-- The outputs hash sits at a fixed distance from the end of the stream of
`SignatureHashOutput`. -/
theorem outputsHash_in_stream (s : List UInt8) (H : Uint256) (nLockTime nHashType : UInt32) :
    ((s ++ serUint256 H ++ serUInt32 nLockTime ++ serUInt32 nHashType).drop
        ((s ++ serUint256 H ++ serUInt32 nLockTime ++ serUInt32 nHashType).length - 40)).take 32 =
      serUint256 H := by
  have hlen : (s ++ serUint256 H ++ serUInt32 nLockTime ++ serUInt32 nHashType).length - 40 =
      s.length := by
    simp [serUint256, serUInt32]
  rw [hlen, List.append_assoc, List.append_assoc, List.drop_left,
    List.take_left' (by simp [serUint256])]

section OutputHash

variable (hash256 : List UInt8 → Uint256)

/-- Two streams of one hash value. -/
def HasCollision : Prop := ∃ a b : List UInt8, a ≠ b ∧ hash256 a = hash256 b

theorem getOutputsOpSenderHash_eq (vin : List CTxIn) (vout : List CTxOut) :
    getOutputsOpSenderHash hash256 ⟨vin, vout⟩ =
      hash256 ((vout.map outputForOpSenderHash).flatMap serTxOut) := by
  simp [getOutputsOpSenderHash, List.flatMap_map]

/-- The output hash reads the outputs only as `GetOutputsOpSenderHash` and
`GetOutputWithoutSenderSig` write them. -/
theorem signatureHashOutput_congr {vin : List CTxIn} {vout₁ vout₂ : List CTxOut}
    (hsender : vout₁.map outputForOpSenderHash = vout₂.map outputForOpSenderHash)
    (hsigned : vout₁.map getOutputWithoutSenderSig = vout₂.map getOutputWithoutSenderSig)
    (scriptCode : CScript) (nVersion nLockTime : UInt32) (nOut : ℕ) (nHashType : UInt32)
    (amount : CAmount) :
    signatureHashOutput hash256 scriptCode ⟨vin, vout₁⟩ nVersion nLockTime nOut nHashType amount
        none =
      signatureHashOutput hash256 scriptCode ⟨vin, vout₂⟩ nVersion nLockTime nOut nHashType amount
        none := by
  have hout : vout₁[nOut]?.map getOutputWithoutSenderSig = vout₂[nOut]?.map getOutputWithoutSenderSig := by
    rw [← List.getElem?_map, ← List.getElem?_map, hsigned]
  have hhash : getOutputsOpSenderHash hash256 ⟨vin, vout₁⟩ = getOutputsOpSenderHash hash256 ⟨vin, vout₂⟩ := by
    rw [getOutputsOpSenderHash_eq, getOutputsOpSenderHash_eq, hsender]
  cases h₁ : vout₁[nOut]? with
  | none =>
      rw [h₁, Option.map_none, eq_comm, Option.map_eq_none_iff] at hout
      simp [signatureHashOutput, h₁, hout]
  | some o₁ =>
      rw [h₁, Option.map_some, eq_comm, Option.map_eq_some_iff] at hout
      obtain ⟨o₂, h₂, hG⟩ := hout
      simp [signatureHashOutput, h₁, h₂, hG, hhash, getPrevoutHash, getSequenceHash]


/-- Replacing the sender signature of an output with one `OP_SENDER` leaves
every output hash of the transaction unchanged, under every hash type. -/
theorem signatureHashOutput_set_updateSenderSig {vin : List CTxIn} {vout : List CTxOut} {j : ℕ}
    {o : CTxOut} (ho : vout[j]? = some o) (hsender : hasOpSender o.scriptPubKey = true)
    {sig : List UInt8} (hsig : sig.length < 2 ^ 32) {s' : CScript}
    (hupdate : updateSenderSig o.scriptPubKey sig = some s') (scriptCode : CScript)
    (nVersion nLockTime : UInt32) (nOut : ℕ) (nHashType : UInt32) (amount : CAmount) :
    signatureHashOutput hash256 scriptCode ⟨vin, vout.set j ⟨o.nValue, s'⟩⟩ nVersion nLockTime nOut
        nHashType amount none =
      signatureHashOutput hash256 scriptCode ⟨vin, vout⟩ nVersion nLockTime nOut nHashType amount
        none := by
  obtain ⟨hF, hG⟩ := outputForOpSenderHash_of_updateSenderSig hsender hsig hupdate
  obtain ⟨hj, rfl⟩ := List.getElem?_eq_some_iff.mp ho
  apply signatureHashOutput_congr
  · rw [List.map_set, hF, ← List.map_set, List.set_getElem_self]
  · rw [List.map_set, hG, ← List.map_set, List.set_getElem_self]

/-- Under `SIGHASH_NONE` the output hash reads of the outputs only the signed
one. -/
theorem signatureHashOutput_of_none {vin : List CTxIn} {vout₁ vout₂ : List CTxOut} {nOut : ℕ}
    (hout : vout₁[nOut]? = vout₂[nOut]?) (scriptCode : CScript) (nVersion nLockTime : UInt32)
    {nHashType : UInt32} (hnone : nHashType &&& 0x1f = sighashNone) (amount : CAmount) :
    signatureHashOutput hash256 scriptCode ⟨vin, vout₁⟩ nVersion nLockTime nOut nHashType amount
        none =
      signatureHashOutput hash256 scriptCode ⟨vin, vout₂⟩ nVersion nLockTime nOut nHashType amount
        none := by
  simp [signatureHashOutput, hout, hnone, getPrevoutHash]

/-- Under a hash type that signs all outputs, two transactions with the same
inputs have the same output hash only if their outputs agree as
`GetOutputsOpSenderHash` writes them, or the hash has a collision. -/
theorem signatureHashOutput_outputs_eq (scriptCode : CScript)
    {vin : List CTxIn} {vout₁ vout₂ : List CTxOut} (hser₁ : ∀ o ∈ vout₁, o.Serializable)
    (hser₂ : ∀ o ∈ vout₂, o.Serializable) (nVersion nLockTime : UInt32) (nOut : ℕ)
    {nHashType : UInt32} (amount : CAmount) (hsingle : nHashType &&& 0x1f ≠ sighashSingle)
    (hnone : nHashType &&& 0x1f ≠ sighashNone)
    (hsome : (signatureHashOutput hash256 scriptCode ⟨vin, vout₁⟩ nVersion nLockTime nOut nHashType
      amount none).isSome)
    (heq : signatureHashOutput hash256 scriptCode ⟨vin, vout₁⟩ nVersion nLockTime nOut nHashType
        amount none =
      signatureHashOutput hash256 scriptCode ⟨vin, vout₂⟩ nVersion nLockTime nOut nHashType amount
        none) :
    vout₁.map outputForOpSenderHash = vout₂.map outputForOpSenderHash ∨ HasCollision hash256 := by
  -- the streams end in the outputs hash, the lock time and the hash type
  suffices key : ∀ s₁ s₂ : List UInt8,
      hash256 (s₁ ++ serUint256 (getOutputsOpSenderHash hash256 ⟨vin, vout₁⟩) ++
          serUInt32 nLockTime ++ serUInt32 nHashType) =
        hash256 (s₂ ++ serUint256 (getOutputsOpSenderHash hash256 ⟨vin, vout₂⟩) ++
          serUInt32 nLockTime ++ serUInt32 nHashType) →
      vout₁.map outputForOpSenderHash = vout₂.map outputForOpSenderHash ∨ HasCollision hash256 by
    have hsome₂ := heq ▸ hsome
    cases h₁ : vout₁[nOut]? with
    | none => simp [signatureHashOutput, h₁] at hsome
    | some o₁ =>
        cases h₂ : vout₂[nOut]? with
        | none => simp [signatureHashOutput, h₂] at hsome₂
        | some o₂ =>
            simp only [signatureHashOutput, h₁, h₂, hsingle, hnone, not_false_eq_true, and_self,
              if_true, fromCache_none] at heq hsome
            split_ifs at heq hsome
            · cases hfirst : vin.head? with
              | none => simp [hfirst] at hsome
              | some first =>
                  simp only [hfirst, Option.bind_eq_bind, Option.bind_some, Option.pure_def, Option.some_inj] at heq
                  exact key _ _ heq
            · simp only [Option.bind_eq_bind, Option.bind_some, Option.pure_def, Option.some_inj, getPrevoutHash,
                getSequenceHash] at heq
              exact key _ _ heq
  intro s₁ s₂ hhash
  by_cases hsame : s₁ ++ serUint256 (getOutputsOpSenderHash hash256 ⟨vin, vout₁⟩) ++
      serUInt32 nLockTime ++ serUInt32 nHashType =
    s₂ ++ serUint256 (getOutputsOpSenderHash hash256 ⟨vin, vout₂⟩) ++ serUInt32 nLockTime ++
      serUInt32 nHashType
  swap
  · exact .inr ⟨_, _, hsame, hhash⟩
  have hstream := congrArg (fun l => (l.drop (l.length - 40)).take 32) hsame
  simp only [outputsHash_in_stream] at hstream
  have houts := serUint256_inj hstream
  rw [getOutputsOpSenderHash_eq, getOutputsOpSenderHash_eq] at houts
  by_cases hflat : (vout₁.map outputForOpSenderHash).flatMap serTxOut =
      (vout₂.map outputForOpSenderHash).flatMap serTxOut
  swap
  · exact .inr ⟨_, _, hflat, houts⟩
  have hmapped : ∀ {vout : List CTxOut}, (∀ o ∈ vout, o.Serializable) →
      ∀ o ∈ vout.map outputForOpSenderHash, o.Serializable := by
    intro vout hser o ho
    obtain ⟨o', ho', rfl⟩ := List.mem_map.mp ho
    exact (hser o' ho').outputForOpSenderHash
  exact .inl (flatMap_serTxOut_inj (hmapped hser₁) (hmapped hser₂) hflat)


/-- `WithoutSenderSig` forgets exactly the sender signature of a script that
`GetScriptOp` reads as at least two opcodes, then its first `OP_SENDER`: what
`UpdateSenderSig` writes there, for any signature that `CScript::operator<<`
pushes whole; itself; and nothing but the last opcode before `OP_SENDER`. So
replacing the sender signature of an output leaves the output hash unchanged
under every hash type, and under a hash type that signs all outputs any other
change of the outputs changes it, unless the hash has a collision. -/
theorem withoutSenderSig_forgets_only_sender_sig {s₁ s₂ c₁ c₂ t₁ t₂ : CScript}
    {pre₁ pre₂ : List CScript} (h₁ : SplitAtOp opSender s₁ pre₁ c₁ t₁) (h₁2 : 2 ≤ pre₁.length)
    (h₂ : SplitAtOp opSender s₂ pre₂ c₂ t₂) (h₂2 : 2 ≤ pre₂.length) {sig : List UInt8}
    (hsig : sig.length < 2 ^ 32) :
    (∃ s', updateSenderSig s₁ sig = some s' ∧ withoutSenderSig s' = withoutSenderSig s₁) ∧
    withoutSenderSig (withoutSenderSig s₁) = withoutSenderSig s₁ ∧
    (withoutSenderSig s₁ = withoutSenderSig s₂ ↔
      pre₁.dropLast = pre₂.dropLast ∧ c₁ ++ t₁ = c₂ ++ t₂) ∧
    (∀ (vin : List CTxIn) (vout : List CTxOut) (j : ℕ) (o : CTxOut) (s' : CScript),
      vout[j]? = some o → hasOpSender o.scriptPubKey = true →
      updateSenderSig o.scriptPubKey sig = some s' →
      ∀ (scriptCode : CScript) (nVersion nLockTime : UInt32) (nOut : ℕ) (nHashType : UInt32)
        (amount : CAmount),
        signatureHashOutput hash256 scriptCode ⟨vin, vout.set j ⟨o.nValue, s'⟩⟩ nVersion nLockTime
            nOut nHashType amount none =
          signatureHashOutput hash256 scriptCode ⟨vin, vout⟩ nVersion nLockTime nOut nHashType
            amount none) ∧
    (∀ (vin : List CTxIn) (vout₁ vout₂ : List CTxOut) (scriptCode : CScript)
      (nVersion nLockTime : UInt32) (nOut : ℕ) (nHashType : UInt32) (amount : CAmount),
      (∀ o ∈ vout₁, o.Serializable) → (∀ o ∈ vout₂, o.Serializable) →
      nHashType &&& 0x1f ≠ sighashSingle → nHashType &&& 0x1f ≠ sighashNone →
      (signatureHashOutput hash256 scriptCode ⟨vin, vout₁⟩ nVersion nLockTime nOut nHashType amount
        none).isSome →
      signatureHashOutput hash256 scriptCode ⟨vin, vout₁⟩ nVersion nLockTime nOut nHashType amount
          none =
        signatureHashOutput hash256 scriptCode ⟨vin, vout₂⟩ nVersion nLockTime nOut nHashType amount
          none →
      vout₁.map outputForOpSenderHash = vout₂.map outputForOpSenderHash ∨
        HasCollision hash256) := by
  have hupdate : updateSenderSig s₁ sig = some (pre₁.dropLast.flatten ++ pushData sig ++ c₁ ++ t₁) := by
    rw [updateSenderSig_of_split h₁, if_pos h₁2]
  refine ⟨⟨_, hupdate, withoutSenderSig_of_updateSenderSig hsig hupdate⟩,
    withoutSenderSig_idem s₁, withoutSenderSig_eq_iff h₁ h₁2 h₂ h₂2, ?_, ?_⟩
  · intro vin vout j o s' ho hsender hs' scriptCode nVersion nLockTime nOut nHashType amount
    exact signatureHashOutput_set_updateSenderSig hash256 ho hsender hsig hs' scriptCode nVersion
      nLockTime nOut nHashType amount
  · intro vin vout₁ vout₂ scriptCode nVersion nLockTime nOut nHashType amount hser₁ hser₂ hsingle
      hnone hsome heq
    exact signatureHashOutput_outputs_eq hash256 scriptCode hser₁ hser₂ nVersion nLockTime nOut
      amount hsingle hnone hsome heq

end OutputHash

/-- `OP_1 OP_1 OP_SENDER`, split at its `OP_SENDER`. -/
theorem splitAtOp_sampleSenderScript :
    SplitAtOp opSender [0x51, 0x51, Opcode.opSender] [[0x51], [0x51]] [Opcode.opSender] [] := by
  have hone : OpChunk 0x51 [0x51] := ⟨[], getOp_of_not_push (by decide)⟩
  refine ⟨rfl, fun c hc => ⟨0x51, by decide, ?_⟩, ⟨[], getOp_of_not_push (by decide)⟩⟩
  rcases List.mem_pair.mp hc with rfl | rfl <;> exact hone

theorem withoutSenderSig_forgets_only_sender_sig_sample :
    (SplitAtOp opSender [0x51, 0x51, Opcode.opSender] [[0x51], [0x51]] [Opcode.opSender] [] ∧
      2 ≤ [[0x51], [0x51]].length ∧ ([] : List UInt8).length < 2 ^ 32) ∧
    ((∃ s', updateSenderSig [0x51, 0x51, Opcode.opSender] [] = some s' ∧
        withoutSenderSig s' = withoutSenderSig [0x51, 0x51, Opcode.opSender]) ∧
      withoutSenderSig (withoutSenderSig [0x51, 0x51, Opcode.opSender]) =
        withoutSenderSig [0x51, 0x51, Opcode.opSender] ∧
      (withoutSenderSig [0x51, 0x51, Opcode.opSender] =
          withoutSenderSig [0x51, 0x51, Opcode.opSender] ↔
        ([[0x51], [0x51]] : List CScript).dropLast = [[0x51], [0x51]].dropLast ∧
          [Opcode.opSender] ++ [] = [Opcode.opSender] ++ []) ∧
      (∀ (vin : List CTxIn) (vout : List CTxOut) (j : ℕ) (o : CTxOut) (s' : CScript),
        vout[j]? = some o → hasOpSender o.scriptPubKey = true →
        updateSenderSig o.scriptPubKey [] = some s' →
        ∀ (scriptCode : CScript) (nVersion nLockTime : UInt32) (nOut : ℕ) (nHashType : UInt32)
          (amount : CAmount),
          signatureHashOutput streamLengthHash scriptCode ⟨vin, vout.set j ⟨o.nValue, s'⟩⟩ nVersion
              nLockTime nOut nHashType amount none =
            signatureHashOutput streamLengthHash scriptCode ⟨vin, vout⟩ nVersion nLockTime nOut
              nHashType amount none) ∧
      (∀ (vin : List CTxIn) (vout₁ vout₂ : List CTxOut) (scriptCode : CScript)
        (nVersion nLockTime : UInt32) (nOut : ℕ) (nHashType : UInt32) (amount : CAmount),
        (∀ o ∈ vout₁, o.Serializable) → (∀ o ∈ vout₂, o.Serializable) →
        nHashType &&& 0x1f ≠ sighashSingle → nHashType &&& 0x1f ≠ sighashNone →
        (signatureHashOutput streamLengthHash scriptCode ⟨vin, vout₁⟩ nVersion nLockTime nOut
          nHashType amount none).isSome →
        signatureHashOutput streamLengthHash scriptCode ⟨vin, vout₁⟩ nVersion nLockTime nOut
            nHashType amount none =
          signatureHashOutput streamLengthHash scriptCode ⟨vin, vout₂⟩ nVersion nLockTime nOut
            nHashType amount none →
        vout₁.map outputForOpSenderHash = vout₂.map outputForOpSenderHash ∨
          HasCollision streamLengthHash)) :=
  ⟨⟨splitAtOp_sampleSenderScript, by decide, by decide⟩,
    withoutSenderSig_forgets_only_sender_sig streamLengthHash splitAtOp_sampleSenderScript
      (by decide) splitAtOp_sampleSenderScript (by decide) (by decide)⟩

/-- A transaction whose second output has the value `v`. -/
def sampleTwoOutputTx (v : CAmount) : CTransaction :=
  ⟨[⟨⟨0, 0⟩, [], 0xffffffff⟩], [⟨0, [0x51, 0x51, Opcode.opSender]⟩, ⟨v, []⟩]⟩

/-- Under `SIGHASH_NONE` the output hash of the first output does not change
with the value of the second: the stream hashed is the same, so no hash
tells the two transactions apart. -/
theorem signatureHashOutput_none_ignores_other_outputs :
    signatureHashOutput streamLengthHash [] (sampleTwoOutputTx 1) 0 0 0 sighashNone 0 none =
        signatureHashOutput streamLengthHash [] (sampleTwoOutputTx 2) 0 0 0 sighashNone 0 none ∧
      (sampleTwoOutputTx 1).vout.map outputForOpSenderHash ≠
        (sampleTwoOutputTx 2).vout.map outputForOpSenderHash := by
  refine ⟨signatureHashOutput_of_none streamLengthHash rfl [] 0 0 (by decide) 0, fun h => ?_⟩
  have hvalues := congrArg (List.map CTxOut.nValue) h
  simp [sampleTwoOutputTx, nValue_outputForOpSenderHash] at hvalues

end Metrix
