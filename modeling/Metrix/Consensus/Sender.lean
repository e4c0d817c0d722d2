import Metrix.Consensus.Converter
import Metrix.Primitives.Serialize

/-! The sender of a contract (`validation.cpp`, `script/standard.cpp`). From
QIP5 on a contract output may name its own sender: an address type, a key
hash and a signature script, then `OP_SENDER`. `ExtractSenderData` reads the
sender's key script and signature script out of such an output;
`CheckOpSender` and `CheckSenderScript` admit them only in contract outputs
and only for a key script that pays a key or a key hash; `CScriptCheck`
verifies the signature script against the key script; and `GetSenderAddress`
gives the converter the key hash of that key script, or else of the coin the
first input spends.

The coins view is the script of the coin `AccessCoin` returns for an
outpoint, and `getHash` is `CTransaction::GetHash`. -/

namespace Metrix

open Opcode

/-- `STANDARD_SENDER_STACK_ITEMS`. -/
def standardSenderStackItems : ℕ := 2

/-- `MAX_STANDARD_SENDER_STACK_ITEM_SIZE`. -/
def maxStandardSenderStackItemSize : ℕ := 80

/-- The solutions `ExtractSenderData` reads: those of `Solver` in contract
consensus, or in policy mode where that matches no template; `none` where it
returns false before reading them. -/
def senderSolutions (outputPubKey : CScript) : Option (List (List UInt8)) :=
  if hasOpSender outputPubKey then
    let r := solver outputPubKey true
    let r := if r.1 = .nonstandard then solver outputPubKey false else r
    if r.1 = .nonstandard ∨ r.2.length < 2 then none else some r.2
  else none

/-- `ExtractSenderData`. The flags say which of the out-parameters
`senderPubKey` and `senderSig` are given; each given one is read from its
solution as a serialized script. `none` where it returns false, also where a
read throws. -/
def extractSenderData (outputPubKey : CScript) (senderPubKey senderSig : Bool) :
    Option (Option CScript × Option CScript) := do
  let vSolutions ← senderSolutions outputPubKey
  let pubKey ← if senderPubKey then some <$> deserializeScript (vSolutions.getD 0 []) else pure none
  let sig ← if senderSig then some <$> deserializeScript (vSolutions.getD 1 []) else pure none
  pure (pubKey, sig)

/-- `CTransaction::HasOpSender`: some output has one `OP_SENDER`. -/
def CTransaction.hasOpSender (tx : CTransaction) : Bool :=
  tx.vout.any fun v => Metrix.hasOpSender v.scriptPubKey

/-- `tx.vin[0].prevout`. A transaction without inputs, which
`CheckTransaction` rejects before any of this runs, reads the null
outpoint. -/
def CTransaction.firstPrevout (tx : CTransaction) : COutPoint :=
  match tx.vin with
  | txin :: _ => txin.prevout
  | [] => ⟨0, COutPoint.nullIndex⟩

/-- `CheckOpSender`. -/
def checkOpSender (qip5Height nHeight : ℕ) (tx : CTransaction) : Bool :=
  if !tx.hasOpSender then true
  else if nHeight < qip5Height then false
  else tx.vout.all fun txout =>
    let hashOpSender := hasOpSender txout.scriptPubKey
    !(hashOpSender && !(hasOpCreate txout.scriptPubKey || hasOpCall txout.scriptPubKey)) &&
      !(hashOpSender && (extractSenderData txout.scriptPubKey false false).isNone)

/-- `CheckSenderScript`; `coinScript` is the script of the coin the first
input spends, and `baseOps` runs the other opcodes with no flags and
`BaseSignatureChecker`. -/
def checkSenderScript (baseOps : OtherOps) (coinScript : CScript) (tx : CTransaction) : Bool :=
  if !isPayToPubkeyHash coinScript && !isPayToPubkey coinScript then false
  else if !tx.hasOpSender then true
  else tx.vout.all fun txout =>
    if hasOpSender txout.scriptPubKey then
      match extractSenderData txout.scriptPubKey true true with
      | some (some senderPubKey, some senderSig) =>
          if !isPayToPubkeyHash senderPubKey && !isPayToPubkey senderPubKey then false
          else
            let r := evalScript false baseOps [] senderSig
            r.1 && r.2.length = standardSenderStackItems &&
              r.2.all fun item => item.length ≤ maxStandardSenderStackItemSize
      | _ => false
    else true

/-- The sender-output branch of `CScriptCheck::operator()`, with flags 0:
`VerifyScript` of the sender signature script against the sender key
script, where `ops` checks signatures on the output's signature hash. -/
def checkSenderOutput (ops : OtherOps) (out : CTxOut) : Bool :=
  match extractSenderData out.scriptPubKey true true with
  | some (some senderPubKey, some senderSig) => verifyScript ops senderSig senderPubKey
  | _ => false

/-- The sender-output loop of `CheckInputs`: a check for every output with
`OP_SENDER`, output `i` against `SignatureHashOutput(tx, i)` (`ops i`). -/
def checkSenderOutputs (ops : ℕ → OtherOps) (tx : CTransaction) : Bool :=
  tx.vout.zipIdx.all fun (out, i) => !hasOpSender out.scriptPubKey || checkSenderOutput (ops i) out

/-- The script `GetSenderAddress` reads the sender from: the sender key
script of output `nOut`, else the output that the first input spends of a
transaction of the block, else the coin in the view; `none` for the
out-of-range reads `tx.vout[nOut]` and `btx->vout[prevout.n]`. -/
def senderScript (getHash : CTransaction → Uint256) (coinScript : COutPoint → CScript)
    (blockTxs : List CTransaction) (tx : CTransaction) (nOut : Option ℕ) : Option CScript := do
  let fromOutput ← match nOut with
    | some n => tx.vout[n]?.map fun out => (extractSenderData out.scriptPubKey true false).bind Prod.fst
    | none => pure none
  match fromOutput with
  | some script => pure script
  | none =>
      let prevout := tx.firstPrevout
      match blockTxs.find? fun btx => getHash btx = prevout.hash with
      | some btx => btx.vout[prevout.n.toNat]?.map CTxOut.scriptPubKey
      | none => pure (coinScript prevout)

/-- The end of `GetSenderAddress`: the key ID of a pay-to-pubkey or
pay-to-pubkey-hash script, and no bytes for any other. -/
def senderKeyID (hash160 : List UInt8 → List UInt8) (script : CScript) : List UInt8 :=
  let txType := (solver script).1
  match extractDestination hash160 script with
  | some (.pkHash keyID) => if txType = .pubkey ∨ txType = .pubkeyhash then keyID else []
  | _ => []

/-- `GetSenderAddress` with a coins view and the block's transactions, as
`ConnectBlock` hands them to the converter. -/
def getSenderAddress (hash160 : List UInt8 → List UInt8) (getHash : CTransaction → Uint256)
    (coinScript : COutPoint → CScript) (blockTxs : List CTransaction) (tx : CTransaction)
    (nOut : Option ℕ) : Option (List UInt8) :=
  (senderScript getHash coinScript blockTxs tx nOut).map (senderKeyID hash160)

/-- The senders the converter of `ConnectBlock` forces:
`dev::Address(GetSenderAddress(...))`, where an undefined read gives no
bytes. -/
def connectBlockSender (hash160 : List UInt8 → List UInt8) (getHash : CTransaction → Uint256)
    (coinScript : COutPoint → CScript) (blockTxs : List CTransaction)
    (toAddress : List UInt8 → Address) (tx : CTransaction) : Option ℕ → Address :=
  fun nOut => toAddress ((getSenderAddress hash160 getHash coinScript blockTxs tx nOut).getD [])

/-! ## What a sender is -/

/-- A script that pays key hash `h`: pay-to-pubkey-hash to `h`, or
pay-to-pubkey to a valid key whose hash is `h`. -/
inductive PaysToKeyHash (hash160 : List UInt8 → List UInt8) : CScript → List UInt8 → Prop
  | pubKeyHash {h : List UInt8} : h.length = 20 → PaysToKeyHash hash160 (payToPubKeyHash h) h
  | pubKey {pk : List UInt8} : pubKeyIsValid pk = true →
      PaysToKeyHash hash160 (pushData pk ++ [opCheckSig]) (hash160 pk)

/-- The sender signature script of `out` supplies a signature by key `k`: run
by the interpreter of the sender-output check, it leaves on the stack a
signature that `signedBy` accepts for `k`. -/
def SuppliesSignature (hash160 : List UInt8 → List UInt8) (rest : OtherOps)
    (signedBy : List UInt8 → List UInt8 → Bool) (out : CTxOut) (k : List UInt8) : Prop :=
  ∃ senderPubKey senderSig,
    extractSenderData out.scriptPubKey true true = some (some senderPubKey, some senderSig) ∧
    ∃ sig ∈ (evalScript false (standardOps hash160 signedBy rest) [] senderSig).2,
      signedBy sig k = true

/-- The transactions of the block that the first input of a transaction may
spend from agree with the coins view: one with the hash of the spent
outpoint has the coin's script at its index. -/
def BlockAgreesWithView (getHash : CTransaction → Uint256) (coinScript : COutPoint → CScript)
    (blockTxs : List CTransaction) (prevout : COutPoint) : Prop :=
  ∀ btx ∈ blockTxs, getHash btx = prevout.hash →
    btx.vout[prevout.n.toNat]?.map CTxOut.scriptPubKey = some (coinScript prevout)

section Sender

variable {hash160 : List UInt8 → List UInt8}

/-! ## Extracting the sender data -/

theorem extractSenderData_of_not_hasOpSender {s : CScript} (h : hasOpSender s = false)
    (senderPubKey senderSig : Bool) : extractSenderData s senderPubKey senderSig = none := by
  simp [extractSenderData, senderSolutions, h]

/-- Reading only the key script gives the key script that reading both
gives. -/
theorem extractSenderData_pubKey {s pk : CScript} {sig : Option CScript}
    (h : extractSenderData s true true = some (some pk, sig)) :
    extractSenderData s true false = some (some pk, none) := by
  cases hs : senderSolutions s with
  | none => simp [extractSenderData, hs] at h
  | some sols =>
      cases hpk : deserializeScript (sols[0]?.getD []) with
      | none => simp [extractSenderData, hs, hpk] at h
      | some pk' =>
          cases hsig : deserializeScript (sols[1]?.getD []) <;>
            simp_all [extractSenderData]

/-! ## The checks -/

theorem checkSenderScript_coin {baseOps : OtherOps} {coinScript : CScript} {tx : CTransaction}
    (h : checkSenderScript baseOps coinScript tx = true) :
    isPayToPubkeyHash coinScript = true ∨ isPayToPubkey coinScript = true := by
  unfold checkSenderScript at h
  by_contra hc
  simp only [not_or, Bool.not_eq_true] at hc
  simp [hc] at h

/-- What `CheckSenderScript` asks of an output with `OP_SENDER`: sender data
whose key script pays a key or a key hash. -/
theorem checkSenderScript_output {baseOps : OtherOps} {coinScript : CScript} {tx : CTransaction}
    (h : checkSenderScript baseOps coinScript tx = true) {out : CTxOut} (hout : out ∈ tx.vout)
    (hsender : hasOpSender out.scriptPubKey = true) :
    ∃ senderPubKey senderSig,
      extractSenderData out.scriptPubKey true true = some (some senderPubKey, some senderSig) ∧
      (isPayToPubkeyHash senderPubKey = true ∨ isPayToPubkey senderPubKey = true) := by
  have htx : tx.hasOpSender = true := List.any_eq_true.mpr ⟨out, hout, hsender⟩
  have hcoin := checkSenderScript_coin h
  have hcoin' : (!isPayToPubkeyHash coinScript && !isPayToPubkey coinScript) = false := by
    rcases hcoin with hc | hc <;> simp [hc]
  rw [checkSenderScript, if_neg (by simp [hcoin']), if_neg (by simp [htx])] at h
  have hcheck := List.all_eq_true.mp h out hout
  rw [if_pos hsender] at hcheck
  split at hcheck
  · rename_i senderPubKey senderSig hext
    refine ⟨senderPubKey, senderSig, hext, ?_⟩
    by_contra hc
    simp only [not_or, Bool.not_eq_true] at hc
    simp [hc] at hcheck
  · cases hcheck

theorem checkSenderOutputs_output {ops : ℕ → OtherOps} {tx : CTransaction}
    (h : checkSenderOutputs ops tx = true) {i : ℕ} {out : CTxOut} (hi : tx.vout[i]? = some out)
    (hsender : hasOpSender out.scriptPubKey = true) : checkSenderOutput (ops i) out = true := by
  have hcheck := List.all_eq_true.mp h (out, i) (List.mk_mem_zipIdx_iff_getElem?.mpr hi)
  simpa [hsender] using hcheck

/-! ## The sender's key -/

theorem paysToKeyHash_of_isPayTo {s : CScript}
    (h : isPayToPubkeyHash s = true ∨ isPayToPubkey s = true) :
    ∃ kh, PaysToKeyHash hash160 s kh := by
  rcases h with h | h
  · obtain ⟨hs, hlen⟩ := eq_payToPubKeyHash h
    rw [hs]
    exact ⟨_, .pubKeyHash hlen⟩
  · obtain ⟨pk, rfl, hpk⟩ := eq_payToPubKey h
    exact ⟨_, .pubKey hpk⟩

theorem length_le_of_pubKeyIsValid {pk : List UInt8} (h : pubKeyIsValid pk = true) :
    33 ≤ pk.length ∧ pk.length ≤ 65 := by
  unfold pubKeyIsValid at h
  split at h
  · split_ifs at h <;> simp at h <;> omega
  · cases h

/-- `GetSenderAddress` reads the key hash a script pays. -/
theorem senderKeyID_of_paysTo {s kh : List UInt8} (h : PaysToKeyHash hash160 s kh) :
    senderKeyID hash160 s = kh := by
  cases h with
  | pubKeyHash hlen =>
      simp [senderKeyID, extractDestination_payToPubKeyHash hash160 hlen,
        solver_payToPubKeyHash hlen]
  | pubKey hpk =>
      have hlen := length_le_of_pubKeyIsValid hpk
      simp [senderKeyID, extractDestination_payToPubKey hash160 hpk,
        solver_payToPubKey hlen.1 hlen.2]

/-- A signature script that passes `VerifyScript` against a script paying
`kh` leaves a signature by a key whose hash is `kh`. -/
theorem verifyScript_signedBy {checkSig : List UInt8 → List UInt8 → Bool} {rest : OtherOps}
    {senderSig pk kh : List UInt8} (hpays : PaysToKeyHash hash160 pk kh)
    (hverify : verifyScript (standardOps hash160 checkSig rest) senderSig pk = true) :
    ∃ k, hash160 k = kh ∧
      ∃ sig ∈ (evalScript false (standardOps hash160 checkSig rest) [] senderSig).2,
        checkSig sig k = true := by
  simp only [verifyScript, Bool.and_eq_true] at hverify
  obtain ⟨⟨-, hok⟩, htop⟩ := hverify
  cases hpays with
  | pubKeyHash hlen =>
      obtain ⟨k, sig, stack', hstack, hk, hsig⟩ := evalScript_payToPubKeyHash hlen rfl hok htop
      exact ⟨k, hk, sig, by simp [hstack], hsig⟩
  | @pubKey key hpk =>
      have hlen := length_le_of_pubKeyIsValid hpk
      obtain ⟨sig, stack', hstack, hsig⟩ := evalScript_payToPubKey hlen.2 rfl hok htop
      exact ⟨key, rfl, sig, by simp [hstack], hsig⟩

/-! ## The script `GetSenderAddress` reads -/

variable {getHash : CTransaction → Uint256} {coinScript : COutPoint → CScript}
  {blockTxs : List CTransaction}

theorem senderScript_of_output {tx : CTransaction} {i : ℕ} {out : CTxOut}
    (hi : tx.vout[i]? = some out) {pk : CScript}
    (h : extractSenderData out.scriptPubKey true false = some (some pk, none)) :
    senderScript getHash coinScript blockTxs tx (some i) = some pk := by
  simp [senderScript, hi, h]

/-- Without sender data the script is the coin the first input spends,
whether read from the block or from the view. -/
theorem senderScript_of_not_hasOpSender {tx : CTransaction} {i : ℕ} {out : CTxOut}
    (hi : tx.vout[i]? = some out) (hsender : hasOpSender out.scriptPubKey = false)
    (hblock : BlockAgreesWithView getHash coinScript blockTxs tx.firstPrevout) :
    senderScript getHash coinScript blockTxs tx (some i) = some (coinScript tx.firstPrevout) := by
  simp only [senderScript, hi, extractSenderData_of_not_hasOpSender hsender, Option.bind_none,
    Option.map_some]
  cases hfind : blockTxs.find? fun btx => getHash btx = tx.firstPrevout.hash with
  | none => rfl
  | some btx =>
      exact hblock btx (List.mem_of_find?_eq_some hfind) (by simpa using List.find?_some hfind)

/-- The sender of an output with `OP_SENDER` that passed the checks: the
hash of a key whose signature the output's signature script supplies. -/
theorem getSenderAddress_of_hasOpSender {rest baseOps : OtherOps}
    {signedBy : List UInt8 → List UInt8 → Bool} {tx : CTransaction} {i : ℕ} {out : CTxOut}
    (hi : tx.vout[i]? = some out) (hsender : hasOpSender out.scriptPubKey = true)
    (hscript : checkSenderScript baseOps (coinScript tx.firstPrevout) tx = true)
    (hcheck : checkSenderOutput (standardOps hash160 signedBy rest) out = true) :
    ∃ k, SuppliesSignature hash160 rest signedBy out k ∧
      getSenderAddress hash160 getHash coinScript blockTxs tx (some i) = some (hash160 k) := by
  obtain ⟨pk, sig, hext, hpk⟩ :=
    checkSenderScript_output hscript (List.mem_of_getElem? hi) hsender
  obtain ⟨kh, hpays⟩ : ∃ kh, PaysToKeyHash hash160 pk kh := paysToKeyHash_of_isPayTo hpk
  rw [checkSenderOutput, hext] at hcheck
  obtain ⟨k, hk, sigv, hmem, hsig⟩ := verifyScript_signedBy hpays hcheck
  refine ⟨k, ⟨pk, sig, hext, sigv, hmem, hsig⟩, ?_⟩
  rw [getSenderAddress, senderScript_of_output hi (extractSenderData_pubKey hext), Option.map_some,
    senderKeyID_of_paysTo hpays, hk]

/-- The sender of an output without `OP_SENDER` that passed the checks: the
key hash of the coin the first input spends. -/
theorem getSenderAddress_of_not_hasOpSender {baseOps : OtherOps} {tx : CTransaction} {i : ℕ}
    {out : CTxOut} (hi : tx.vout[i]? = some out) (hsender : hasOpSender out.scriptPubKey = false)
    (hscript : checkSenderScript baseOps (coinScript tx.firstPrevout) tx = true)
    (hblock : BlockAgreesWithView getHash coinScript blockTxs tx.firstPrevout) :
    ∃ kh, PaysToKeyHash hash160 (coinScript tx.firstPrevout) kh ∧
      getSenderAddress hash160 getHash coinScript blockTxs tx (some i) = some kh := by
  obtain ⟨kh, hpays⟩ : ∃ kh, PaysToKeyHash hash160 (coinScript tx.firstPrevout) kh :=
    paysToKeyHash_of_isPayTo (checkSenderScript_coin hscript)
  refine ⟨kh, hpays, ?_⟩
  rw [getSenderAddress, senderScript_of_not_hasOpSender hi hsender hblock, Option.map_some,
    senderKeyID_of_paysTo hpays]

end Sender

/-- The sender the converter of `ConnectBlock` forces for each contract
output of a transaction that passed `CheckSenderScript` and the sender-output
checks of `CheckInputs`: for an output with one `OP_SENDER`, the hash of a
key whose signature on the output's signature hash the output's signature
script supplies; for any other output, the key hash of the coin the first
input spends. -/
theorem extractionQtumTransactions_sender_authenticated (hash160 : List UInt8 → List UInt8)
    (getHash : CTransaction → Uint256) (coinScript : COutPoint → CScript)
    (blockTxs : List CTransaction) (baseOps other rest : OtherOps)
    (signedBy : ℕ → List UInt8 → List UInt8 → Bool) (toAddress : List UInt8 → Address)
    (txHash : Uint256) (outputSender : Bool) (tx : CTransaction)
    (hscript : checkSenderScript baseOps (coinScript tx.firstPrevout) tx = true)
    (hcheck : checkSenderOutputs (fun i => standardOps hash160 (signedBy i) rest) tx = true)
    (hblock : BlockAgreesWithView getHash coinScript blockTxs tx.firstPrevout)
    {txs : List EthTransaction} {etps : List EthTransactionParams}
    (hext : extractionQtumTransactions outputSender other toAddress txHash
      (connectBlockSender hash160 getHash coinScript blockTxs toAddress tx) tx =
        .ok (some (txs, etps))) :
    ∀ et ∈ txs, ∃ i out, tx.vout[i]? = some out ∧ et.nVout = i.toUInt32 ∧
      (hasOpSender out.scriptPubKey = true → ∃ k,
        SuppliesSignature hash160 rest (signedBy i) out k ∧
        getSenderAddress hash160 getHash coinScript blockTxs tx (some i) = some (hash160 k) ∧
        et.sender = toAddress (hash160 k)) ∧
      (hasOpSender out.scriptPubKey = false → ∃ kh,
        PaysToKeyHash hash160 (coinScript tx.firstPrevout) kh ∧
        getSenderAddress hash160 getHash coinScript blockTxs tx (some i) = some kh ∧
        et.sender = toAddress kh) := by
  intro et het
  obtain ⟨i, out, hi, hnVout, hsenderOf⟩ := mem_extractionLoop hext het
  rw [Nat.zero_add] at hnVout hsenderOf
  refine ⟨i, out, hi, hnVout, ?_, ?_⟩
  · intro hsender
    obtain ⟨k, hk, haddr⟩ := getSenderAddress_of_hasOpSender hi hsender hscript
      (checkSenderOutputs_output hcheck hi hsender)
    exact ⟨k, hk, haddr, by rw [hsenderOf, connectBlockSender, haddr, Option.getD_some]⟩
  · intro hsender
    obtain ⟨kh, hpays, haddr⟩ := getSenderAddress_of_not_hasOpSender hi hsender hscript hblock
    exact ⟨kh, hpays, haddr, by rw [hsenderOf, connectBlockSender, haddr, Option.getD_some]⟩

/-- The compressed key `02 33..33`. -/
def signedSenderKey : List UInt8 := 0x02 :: List.replicate 32 0x33

/-- A creation whose sender is the key hash `signedSenderKey.take 20` and
whose signature script pushes the signature `[0x30]` and `signedSenderKey`. -/
def signedSenderOutput : ContractOutput :=
  ⟨some ([1], signedSenderKey.take 20, serializeScript (pushAll [[0x30], signedSenderKey])),
    [4], [0x40], [0x28], [0x60], none⟩

/-- A transaction with that output only. -/
def signedSenderTx : CTransaction :=
  ⟨[⟨⟨0, 0⟩, [], 0xffffffff⟩], [⟨0, signedSenderOutput.script⟩]⟩

theorem extractionQtumTransactions_signed_sender_output :
    checkSenderScript (standardOps (List.take 20) (fun _ _ => false) fun _ s => (false, s))
        (payToPubKeyHash (List.replicate 20 0x22)) signedSenderTx = true ∧
      checkSenderOutputs (fun _ => standardOps (List.take 20)
        (fun sig k => sig == [0x30] && k == signedSenderKey) fun _ s => (false, s))
        signedSenderTx = true ∧
      BlockAgreesWithView (fun _ => 0) (fun _ => payToPubKeyHash (List.replicate 20 0x22)) []
        signedSenderTx.firstPrevout ∧
      ∃ txs etps, extractionQtumTransactions true (fun _ s => (false, s)) keyIDAddress 0
          (connectBlockSender (List.take 20) (fun _ => 0)
            (fun _ => payToPubKeyHash (List.replicate 20 0x22)) [] keyIDAddress signedSenderTx)
          signedSenderTx = .ok (some (txs, etps)) ∧
        ∀ et ∈ txs, ∃ i out, signedSenderTx.vout[i]? = some out ∧ et.nVout = i.toUInt32 ∧
          (hasOpSender out.scriptPubKey = true → ∃ k,
            SuppliesSignature (List.take 20) (fun _ s => (false, s))
              (fun sig k => sig == [0x30] && k == signedSenderKey) out k ∧
            getSenderAddress (List.take 20) (fun _ => 0)
              (fun _ => payToPubKeyHash (List.replicate 20 0x22)) [] signedSenderTx (some i) =
                some (k.take 20) ∧
            et.sender = keyIDAddress (k.take 20)) ∧
          (hasOpSender out.scriptPubKey = false → ∃ kh,
            PaysToKeyHash (List.take 20) (payToPubKeyHash (List.replicate 20 0x22)) kh ∧
            getSenderAddress (List.take 20) (fun _ => 0)
              (fun _ => payToPubKeyHash (List.replicate 20 0x22)) [] signedSenderTx (some i) =
                some kh ∧
            et.sender = keyIDAddress kh) := by
  have hscript : checkSenderScript (standardOps (List.take 20) (fun _ _ => false)
      fun _ s => (false, s)) (payToPubKeyHash (List.replicate 20 0x22)) signedSenderTx = true := by
    decide +kernel
  have hcheck : checkSenderOutputs (fun _ => standardOps (List.take 20)
      (fun sig k => sig == [0x30] && k == signedSenderKey) fun _ s => (false, s))
      signedSenderTx = true := by
    decide +kernel
  have hblock : BlockAgreesWithView (fun _ => 0) (fun _ => payToPubKeyHash (List.replicate 20 0x22))
      [] signedSenderTx.firstPrevout := by
    simp [BlockAgreesWithView]
  have hin : signedSenderOutput.InRange :=
    ⟨by decide, by decide, by decide, by decide, by decide, by decide, by decide, by decide,
      by decide, by decide⟩
  have hshape : List.Forall₂ (ReadsAs true) signedSenderTx.vout [some signedSenderOutput] :=
    .cons ⟨rfl, hin, fun _ => rfl⟩ .nil
  obtain ⟨txs, htxs⟩ := @extractionQtumTransactions_reads_templates true (fun _ s => (false, s))
    keyIDAddress 0 (connectBlockSender (List.take 20) (fun _ => 0)
      (fun _ => payToPubKeyHash (List.replicate 20 0x22)) [] keyIDAddress signedSenderTx)
    signedSenderTx _ hshape (by decide)
  exact ⟨hscript, hcheck, hblock, txs, _, htxs,
    extractionQtumTransactions_sender_authenticated (List.take 20) (fun _ => 0)
      (fun _ => payToPubKeyHash (List.replicate 20 0x22)) []
      (standardOps (List.take 20) (fun _ _ => false) fun _ s => (false, s)) (fun _ s => (false, s))
      (fun _ s => (false, s)) (fun _ sig k => sig == [0x30] && k == signedSenderKey) keyIDAddress 0
      true signedSenderTx hscript hcheck hblock htxs⟩

/-! ## An output with two `OP_SENDER`s

`HasOpSender` asks for exactly one `OP_SENDER`. An output with two carries a
sender part that no check reads: `CheckOpSender`, `CheckSenderScript` and
`CheckInputs` look only at outputs with one, and `GetSenderAddress` falls back
to the coin the first input spends. -/

/-- A creation naming the key hash `11..11` with an empty signature script,
then `OP_SENDER` twice, version 4, gas limit 64, gas price 40 and one byte of
data. -/
def doubleSenderScript : CScript :=
  pushAll [[1], List.replicate 20 0x11, serializeScript []] ++ opSender :: opSender ::
    (pushAll [[4], [0x40], [0x28], [0x60]] ++ [opCreate])

/-- A transaction spending the coin at `prevout` with that output only. -/
def doubleSenderTx (prevout : COutPoint) : CTransaction :=
  ⟨[⟨prevout, [], 0xffffffff⟩], [⟨0, doubleSenderScript⟩]⟩

theorem evalScript_doubleSender {other : OtherOps} :
    (evalScript true other [] doubleSenderScript).2 =
      [opCreate] :: [[0x60], [0x28], [0x40], [4], serializeScript [], List.replicate 20 0x11, [1]] := by
  rw [evalScript, if_neg (by decide), doubleSenderScript,
    evalLoop_pushAll (by decide) _ (by simp) (by simp; decide),
    evalLoop_sender _ (by simp [maxOpsPerScript]) (by simp; decide),
    evalLoop_sender _ (by simp [maxOpsPerScript]) (by simp; decide),
    evalLoop_pushAll (by decide) _ (by simp) (by simp; decide),
    evalLoop_contract (.inl rfl) _ (by simp) (by simp [maxOpsPerScript])]
  rfl

theorem extractionQtumTransactions_double_sender_unchecked (hash160 : List UInt8 → List UInt8)
    (getHash : CTransaction → Uint256) (baseOps other rest : OtherOps)
    (signedBy : ℕ → List UInt8 → List UInt8 → Bool) (toAddress : List UInt8 → Address)
    (txHash : Uint256) (prevout : COutPoint) (qip5Height nHeight : ℕ) :
    findOp opSender doubleSenderScript = 2 ∧
    checkOpSender qip5Height nHeight (doubleSenderTx prevout) = true ∧
    checkSenderScript baseOps (payToPubKeyHash (List.replicate 20 0x22)) (doubleSenderTx prevout) =
      true ∧
    checkSenderOutputs (fun i => standardOps hash160 (signedBy i) rest) (doubleSenderTx prevout) =
      true ∧
    (extractionQtumTransactions true other toAddress txHash
        (connectBlockSender hash160 getHash (fun _ => payToPubKeyHash (List.replicate 20 0x22)) []
          toAddress (doubleSenderTx prevout))
        (doubleSenderTx prevout)).map (Option.map fun r => r.1.map EthTransaction.sender) =
      .ok (some [toAddress (List.replicate 20 0x22)]) ∧
    ∀ k, ¬SuppliesSignature hash160 rest (signedBy 0) ⟨0, doubleSenderScript⟩ k := by
  have hfind : findOp opSender doubleSenderScript = 2 := by decide +kernel
  have hsender : hasOpSender doubleSenderScript = false := by simp [hasOpSender, hfind]
  have htx : (doubleSenderTx prevout).hasOpSender = false := by
    simp [CTransaction.hasOpSender, doubleSenderTx, hsender]
  have hcreate : (hasOpCreate doubleSenderScript || hasOpCall doubleSenderScript) = true := by
    decide +kernel
  refine ⟨hfind, by simp [checkOpSender, htx], ?_, ?_, ?_, ?_⟩
  · rw [checkSenderScript, if_neg (by decide), if_pos (by simp [htx])]
  · simp [checkSenderOutputs, doubleSenderTx, hsender]
  · -- the sender is the coin's key hash, read past the output's sender part
    have haddr : getSenderAddress hash160 getHash (fun _ => payToPubKeyHash (List.replicate 20 0x22))
        [] (doubleSenderTx prevout) (some 0) = some (List.replicate 20 0x22) := by
      have hout : (doubleSenderTx prevout).vout[0]? = some ⟨0, doubleSenderScript⟩ := rfl
      rw [getSenderAddress, senderScript_of_not_hasOpSender hout hsender
        (by simp [BlockAgreesWithView]), Option.map_some,
        senderKeyID_of_paysTo (.pubKeyHash (by simp))]
    have hvout : (doubleSenderTx prevout).vout = [⟨0, doubleSenderScript⟩] := rfl
    have hrun : extractionQtumTransactions true other toAddress txHash
        (connectBlockSender hash160 getHash (fun _ => payToPubKeyHash (List.replicate 20 0x22)) []
          toAddress (doubleSenderTx prevout)) (doubleSenderTx prevout) =
        .ok (some ([createEthTX txHash opCreate (connectBlockSender hash160 getHash
          (fun _ => payToPubKeyHash (List.replicate 20 0x22)) [] toAddress (doubleSenderTx prevout)
            (some 0)) (connectBlockSender hash160 getHash
          (fun _ => payToPubKeyHash (List.replicate 20 0x22)) [] toAddress (doubleSenderTx prevout)
            none) ⟨4, 64, 40, [0x60], 0⟩ 0 ⟨0, doubleSenderScript⟩], [⟨4, 64, 40, [0x60], 0⟩])) := by
      rw [extractionQtumTransactions, hvout, extractionLoop, if_pos hcreate, receiveStack,
        evalScript_doubleSender]
      simp only [hsender]
      rfl
    rw [hrun]
    simp only [Except.map, Option.map_some, List.map_cons, List.map_nil, createEthTX,
      connectBlockSender, haddr, Option.getD_some]
  · rintro k ⟨pk, sig, hext, -⟩
    rw [extractSenderData_of_not_hasOpSender hsender] at hext
    cases hext

/-- The output with two `OP_SENDER`s at one choice of the parameters: a key's
hash taken as its first twenty bytes, every signature accepted, every other
opcode a no-op and the address of a key hash as `dev::Address` reads it. Even
with every signature accepted the output supplies none, and the contract runs
as the owner of the coin spent. -/
theorem extractionQtumTransactions_double_sender_accepted :
    findOp opSender doubleSenderScript = 2 ∧
    checkOpSender 0 0 (doubleSenderTx ⟨0, 0⟩) = true ∧
    checkSenderScript (fun _ st => (true, st)) (payToPubKeyHash (List.replicate 20 0x22))
        (doubleSenderTx ⟨0, 0⟩) = true ∧
    checkSenderOutputs
        (fun _ => standardOps (List.take 20) (fun _ _ => true) (fun _ st => (true, st)))
        (doubleSenderTx ⟨0, 0⟩) = true ∧
    (extractionQtumTransactions true (fun _ st => (true, st)) keyIDAddress 0
        (connectBlockSender (List.take 20) (fun _ => 0)
          (fun _ => payToPubKeyHash (List.replicate 20 0x22)) [] keyIDAddress
          (doubleSenderTx ⟨0, 0⟩))
        (doubleSenderTx ⟨0, 0⟩)).map (Option.map fun r => r.1.map EthTransaction.sender) =
      .ok (some [keyIDAddress (List.replicate 20 0x22)]) ∧
    ∀ k, ¬SuppliesSignature (List.take 20) (fun _ st => (true, st)) (fun _ _ => true)
      ⟨0, doubleSenderScript⟩ k :=
  extractionQtumTransactions_double_sender_unchecked (List.take 20) (fun _ => 0)
    (fun _ st => (true, st)) (fun _ st => (true, st)) (fun _ st => (true, st))
    (fun _ _ _ => true) keyIDAddress 0 ⟨0, 0⟩ 0 0

end Metrix
