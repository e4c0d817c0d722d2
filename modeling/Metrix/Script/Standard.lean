import Metrix.Primitives.Script

/-! Reading scripts (`script/script.cpp`, `script/standard.cpp`):
`GetScriptOp`, which splits a script into opcodes and pushed data, the
shape tests on whole scripts, `Solver`, which matches a script against the
standard templates and the contract templates of the chain, and
`ExtractDestination`. The hash of a public key is not computed here: it is
the argument `hash160`. -/

namespace Metrix

open Opcode

/-- The little-endian number of a byte string (`ReadLE16`, `ReadLE32`). -/
def readLE : List UInt8 → ℕ
  | [] => 0
  | b :: rest => b.toNat + 256 * readLE rest

/-- The length of the data that push opcode `op` announces and the bytes
after the length field. -/
def pushSize (op : UInt8) (rest : CScript) : Option (ℕ × CScript) :=
  if op < opPushData1 then some (op.toNat, rest)
  else
    let width := if op = opPushData1 then 1 else if op = opPushData2 then 2 else 4
    if width ≤ rest.length then some (readLE (rest.take width), rest.drop width) else none

/-- `GetScriptOp`: the opcode at the head of the script, its push data and
the rest of the script; `none` at the end of the script and when a push runs
past it. -/
def getOp : CScript → Option (UInt8 × List UInt8 × CScript)
  | [] => none
  | op :: rest =>
      if op ≤ opPushData4 then
        match pushSize op rest with
        | none => none
        | some (n, rest) => if n ≤ rest.length then some (op, rest.take n, rest.drop n) else none
      else some (op, [], rest)

theorem pushSize_length {op : UInt8} {rest r : CScript} {n : ℕ}
    (h : pushSize op rest = some (n, r)) : r.length ≤ rest.length := by
  unfold pushSize at h
  dsimp only at h
  -- every branch keeps a suffix of `rest`
  split_ifs at h <;> obtain ⟨-, rfl⟩ := Prod.mk.inj (Option.some_inj.mp h) <;> simp

/-- Every opcode takes at least its own byte, so reading scripts op by op
terminates. -/
theorem getOp_length {s r : CScript} {op : UInt8} {d : List UInt8}
    (h : getOp s = some (op, d, r)) : r.length < s.length := by
  cases s with
  | nil => cases h
  | cons b rest =>
      rw [getOp] at h
      split_ifs at h with hpush
      · cases hs : pushSize b rest with
        | none => rw [hs] at h; cases h
        | some p =>
            obtain ⟨n, rest'⟩ := p
            rw [hs] at h
            dsimp only at h
            split_ifs at h
            simp only [Option.some.injEq, Prod.mk.injEq] at h
            have := pushSize_length hs
            rw [← h.2.2, List.length_drop, List.length_cons]
            omega
      · simp only [Option.some.injEq, Prod.mk.injEq] at h
        rw [← h.2.2, List.length_cons]
        omega

/-- `CScript::IsPushOnly`: every opcode up to the end is a push or a small
number. -/
def isPushOnly (s : CScript) : Bool :=
  match hop : getOp s with
  | none => s.isEmpty
  | some (op, _, rest) =>
      have : rest.length < s.length := getOp_length hop
      op ≤ op16 && isPushOnly rest
termination_by s.length

/-- `CScript::IsPayToScriptHash`: `OP_HASH160 [20 bytes] OP_EQUAL`. -/
def isPayToScriptHash (s : CScript) : Bool :=
  s.length = 23 && s[0]? = some opHash160 && s[1]? = some 0x14 && s[22]? = some opEqual

/-- `CScript::IsPayToPubkey`: a compressed or an uncompressed key, then
`OP_CHECKSIG`. -/
def isPayToPubkey (s : CScript) : Bool :=
  (s.length = 35 && s[0]? = some 33 && s[34]? = some opCheckSig &&
      (s[1]? = some 0x02 || s[1]? = some 0x03)) ||
    (s.length = 67 && s[0]? = some 65 && s[66]? = some opCheckSig && s[1]? = some 0x04)

/-- `CScript::DecodeOP_N`. -/
def decodeOpN (op : UInt8) : UInt8 :=
  if op = op0 then 0 else op - (op1 - 1)

/-- `CScript::IsWitnessProgram`: the version and the program. -/
def isWitnessProgram (s : CScript) : Option (UInt8 × List UInt8) :=
  match s with
  | v :: len :: program =>
      if s.length < 4 ∨ 42 < s.length then none
      else if v ≠ op0 ∧ (v < op1 ∨ op16 < v) then none
      else if len.toNat + 2 = s.length then some (decodeOpN v, program)
      else none
  | _ => none

/-- `CScriptNum::vch_to_uint64`; `none` where it throws, for more than eight
bytes or a negative number. -/
def vchToUInt64 (vch : List UInt8) : Option ℕ :=
  if 8 < vch.length then none
  else match vch.getLast? with
    | none => some 0
    | some last => if last &&& 0x80 ≠ 0 then none else some (readLE vch)

def maxBlockGasLimitDGP : ℕ := 1000000000
def defaultBlockGasLimitDGP : ℕ := 40000000
def standardMinimumGasLimit : ℕ := 10000
def standardMinimumGasPrice : ℕ := 1
def maxBaseScriptSize : ℕ := 10000

/-- `txnouttype`, in the order of the source's enumeration, which is the
order in which `Solver` tries its templates. -/
inductive TxnOutType where
  | nonstandard
  | pubkey
  | pubkeyhash
  | scripthash
  | multisig
  | nullData
  | witnessV0ScriptHash
  | witnessV0KeyHash
  | witnessUnknown
  | createSender
  | callSender
  | create
  | call
deriving DecidableEq, Repr

/-- The templates of `Solver`, each a list of one-byte opcodes. -/
def templates : List (TxnOutType × List UInt8) :=
  [(.pubkey, [opPubKey, opCheckSig]),
   (.pubkeyhash, [opDup, opHash160, opPubKeyHash, opEqualVerify, opCheckSig]),
   (.multisig, [opSmallInteger, opPubKeys, opSmallInteger, opCheckMultiSig]),
   (.createSender, [opAddressType, opAddress, opScriptSig, opSender, opVersion, opGasLimit,
     opGasPrice, opData, opCreate]),
   (.callSender, [opAddressType, opAddress, opScriptSig, opSender, opVersion, opGasLimit,
     opGasPrice, opData, opPubKeyHash, opCall]),
   (.create, [opVersion, opGasLimit, opGasPrice, opData, opCreate]),
   (.call, [opVersion, opGasLimit, opGasPrice, opData, opPubKeyHash, opCall])]

/-- What `Solver` keeps while it matches one template: the solutions so
far, the address type read by `OP_ADDRESS_TYPE` and the root VM of the
version read by `OP_VERSION` (20, an invalid VM, until one is read). -/
structure MatchState where
  sols : List (List UInt8)
  addressType : ℕ
  rootVM : ℕ
deriving DecidableEq, Repr

/-- The outcome of matching one script opcode against one template opcode:
go on, give up this template (`break`), or give up the whole script
(`return TX_NONSTANDARD`). -/
inductive SlotResult where
  | next (st : MatchState)
  | stop
  | nonstandard
deriving DecidableEq, Repr

/-- The gas check of `Solver` for `OP_GAS_LIMIT` and `OP_GAS_PRICE`: at
least `least` when the VM is not the no-exec one, at most `most`. -/
def gasSlot (vch : List UInt8) (least : ℕ) (most : Option ℕ) (st : MatchState) : SlotResult :=
  match vchToUInt64 vch with
  | none => .nonstandard
  | some val =>
      if st.rootVM ≠ 0 ∧ val < least then .nonstandard
      else match most with
        | some m => if m < val then .nonstandard else .next st
        | none => .next st

/-- One step of the template loop of `Solver`: script opcode `opcode1` with
push data `vch1` against template opcode `opcode2`. -/
def matchSlot (contractConsensus allowEmptySenderSig : Bool) (opcode2 opcode1 : UInt8)
    (vch1 : List UInt8) (st : MatchState) : SlotResult :=
  let push := fun (v : List UInt8) => SlotResult.next { st with sols := st.sols ++ [v] }
  if opcode2 = opPubKey then
    if vch1.length < 33 ∨ 65 < vch1.length then .stop else push vch1
  else if opcode2 = opPubKeyHash then
    if vch1.length ≠ 20 then .stop else push vch1
  else if opcode2 = opSmallInteger then
    if opcode1 = op0 ∨ (opcode1 ≥ op1 ∧ opcode1 ≤ op16) then push [decodeOpN opcode1]
    else .stop
  else if opcode2 = opVersion then
    if opcode1 ≤ opPushData4 then
      match vch1.getLast? with
      | none => .nonstandard
      | some last =>
          if 4 < vch1.length ∨ last &&& 0x80 ≠ 0 then .nonstandard
          else
            -- `VersionVM::fromRaw`: the root VM is the top six bits of the first byte
            let raw := readLE vch1
            if raw = 4 ∨ raw = 0 then .next { st with rootVM := raw % 256 / 4 } else .nonstandard
    else .next st
  else if opcode2 = opGasLimit then
    if contractConsensus then gasSlot vch1 1 (some maxBlockGasLimitDGP) st
    else gasSlot vch1 standardMinimumGasLimit (some (defaultBlockGasLimitDGP / 2)) st
  else if opcode2 = opGasPrice then
    if contractConsensus then gasSlot vch1 1 none st
    else gasSlot vch1 standardMinimumGasPrice none st
  else if opcode2 = opData then
    if opcode1 ≤ opPushData4 ∧ vch1 = [] then .stop else .next st
  else if opcode2 = opAddressType then
    match vchToUInt64 vch1 with
    | none => .stop
    | some val => if val < 1 ∨ 5 < val then .stop else .next { st with addressType := val }
  else if opcode2 = opAddress then
    -- the solution is the serialized P2PKH script of the sender
    if st.addressType = 1 ∧ vch1.length = 20 then
      push ((payToPubKeyHash vch1).length.toUInt8 :: payToPubKeyHash vch1)
    else .stop
  else if opcode2 = opScriptSig then
    if opcode1 ≤ opPushData4 then
      if !allowEmptySenderSig ∧ vch1 = [] then .stop
      else if maxBaseScriptSize < vch1.length then .nonstandard
      else push vch1
    else .next st
  else if opcode1 ≠ opcode2 ∨ vch1 ≠ [] then .stop
  else .next st

/-- The inner loop of `OP_PUBKEYS`: take pushes of public-key size. When the
script ends inside the loop the opcode read is `OP_INVALIDOPCODE`, which the
multisig template's next slot rejects. -/
def pubKeysLoop (sols : List (List UInt8)) (opcode1 : UInt8) (vch1 : List UInt8) (s : CScript) :
    List (List UInt8) × UInt8 × List UInt8 × CScript :=
  if 33 ≤ vch1.length ∧ vch1.length ≤ 65 then
    match hop : getOp s with
    | none => (sols ++ [vch1], opInvalidOpcode, [], s)
    | some (opcode1', vch1', s') =>
        have : s'.length < s.length := getOp_length hop
        pubKeysLoop (sols ++ [vch1]) opcode1' vch1' s'
  else (sols, opcode1, vch1, s)
termination_by s.length

/-- The loop of `Solver` over one template; `.next` with the final state
when script and template end together. -/
def matchTemplate (contractConsensus allowEmptySenderSig : Bool) :
    List UInt8 → CScript → MatchState → SlotResult
  | [], s, st => if s = [] then .next st else .stop
  | opcode2 :: tpl, s, st =>
      match getOp s with
      | none => .stop
      | some (opcode1, vch1, s') =>
          if opcode2 = opPubKeys then
            let r := pubKeysLoop st.sols opcode1 vch1 s'
            match tpl with
            | [] => .stop
            | opcode2' :: tpl' =>
                match matchSlot contractConsensus allowEmptySenderSig opcode2' r.2.1 r.2.2.1
                    { st with sols := r.1 } with
                | .next st' => matchTemplate contractConsensus allowEmptySenderSig tpl' r.2.2.2 st'
                | res => res
          else
            match matchSlot contractConsensus allowEmptySenderSig opcode2 opcode1 vch1 st with
            | .next st' => matchTemplate contractConsensus allowEmptySenderSig tpl s' st'
            | res => res

/-- The extra test of a matched multisig template: `1 ≤ m ≤ n` and `n` keys. -/
def multisigWellFormed (sols : List (List UInt8)) : Bool :=
  let m := (sols.headD []).headD 0
  let n := (sols.getLastD []).headD 0
  !(m < 1 || n < 1 || m > n || sols.length - 2 != n.toNat)

/-- The scan of `Solver` over its templates, in order. -/
def scanTemplates (contractConsensus allowEmptySenderSig : Bool) (s : CScript) :
    List (TxnOutType × List UInt8) → TxnOutType × List (List UInt8)
  | [] => (.nonstandard, [])
  | (t, tpl) :: rest =>
      match matchTemplate contractConsensus allowEmptySenderSig tpl s ⟨[], 0, 20⟩ with
      | .next st =>
          if t = .multisig ∧ !multisigWellFormed st.sols then (.nonstandard, [])
          else (t, st.sols)
      | .nonstandard => (.nonstandard, [])
      | .stop => scanTemplates contractConsensus allowEmptySenderSig s rest

/-- `Solver`: the type of a script and its solutions. -/
def solver (s : CScript) (contractConsensus allowEmptySenderSig : Bool := false) :
    TxnOutType × List (List UInt8) :=
  if isPayToScriptHash s then (.scripthash, [(s.drop 2).take 20])
  else match isWitnessProgram s with
    | some (v, program) =>
        if v = 0 ∧ program.length = 20 then (.witnessV0KeyHash, [program])
        else if v = 0 ∧ program.length = 32 then (.witnessV0ScriptHash, [program])
        else if v ≠ 0 then (.witnessUnknown, [[v], program])
        else (.nonstandard, [])
    | none =>
        if s.head? = some opReturn ∧ isPushOnly s.tail then (.nullData, [])
        else scanTemplates contractConsensus allowEmptySenderSig s templates

/-- `CTxDestination`. -/
inductive CTxDestination where
  | noDestination
  | pkHash (keyID : List UInt8)
  | scriptHash (id : List UInt8)
  | witnessV0ScriptHash (hash : List UInt8)
  | witnessV0KeyHash (hash : List UInt8)
  | witnessUnknown (version : UInt8) (program : List UInt8)
deriving DecidableEq, Repr

/-- `CPubKey::IsValid` of a key built from bytes: the length its header
byte announces. -/
def pubKeyIsValid (vch : List UInt8) : Bool :=
  match vch.head? with
  | some h =>
      if h = 2 ∨ h = 3 then vch.length = 33
      else if h = 4 ∨ h = 6 ∨ h = 7 then vch.length = 65
      else false
  | none => false

/-- `ExtractDestination`: the destination of a script of one address. -/
def extractDestination (hash160 : List UInt8 → List UInt8) (s : CScript) :
    Option CTxDestination :=
  let (t, sols) := solver s
  match t with
  | .pubkey => if pubKeyIsValid (sols.headD []) then some (.pkHash (hash160 (sols.headD [])))
      else none
  | .pubkeyhash => some (.pkHash (sols.headD []))
  | .scripthash => some (.scriptHash (sols.headD []))
  | .witnessV0KeyHash => some (.witnessV0KeyHash (sols.headD []))
  | .witnessV0ScriptHash => some (.witnessV0ScriptHash (sols.headD []))
  | .witnessUnknown => some (.witnessUnknown ((sols.headD []).headD 0) (sols.getD 1 []))
  | _ => none

/-! ## The standard shapes -/

theorem toNat_toUInt8_of_lt {n : ℕ} (h : n < 256) : n.toUInt8.toNat = n := by
  rw [Nat.toUInt8_eq, UInt8.toNat_ofNat']
  exact Nat.mod_eq_of_lt h

theorem getOp_pushData_of_lt {b : List UInt8} (hb : b.length < 0x4c) (rest : CScript) :
    getOp (pushData b ++ rest) = some (b.length.toUInt8, b, rest) := by
  have hlen : b.length.toUInt8.toNat = b.length := toNat_toUInt8_of_lt (by omega)
  have hop : b.length.toUInt8 ≤ opPushData4 := by
    rw [UInt8.le_iff_toNat_le, hlen]
    show b.length ≤ 78
    omega
  have hlt : b.length.toUInt8 < opPushData1 := by
    rw [UInt8.lt_iff_toNat_lt, hlen]
    show b.length < 76
    omega
  have hsize : pushSize b.length.toUInt8 (b ++ rest) = some (b.length, b ++ rest) := by
    rw [pushSize, if_pos hlt, hlen]
  rw [pushData_of_lt hb, List.cons_append, getOp, if_pos hop, hsize]
  simp

theorem getOp_of_not_push {op : UInt8} (hop : opPushData4 < op) (rest : CScript) :
    getOp (op :: rest) = some (op, [], rest) := by
  simp [getOp, UInt8.not_le.mpr hop]

theorem leBytes_succ (w n : ℕ) : leBytes (w + 1) n = (n % 256).toUInt8 :: leBytes w (n / 256) := by
  simp only [leBytes, List.range_succ_eq_map, List.map_cons, List.map_map, Nat.pow_zero,
    Nat.div_one]
  refine congrArg _ (List.map_congr_left fun i _ => ?_)
  simp [Nat.pow_succ', Nat.div_div_eq_div_mul]

@[simp] theorem length_leBytes (w n : ℕ) : (leBytes w n).length = w := by
  simp [leBytes]

/-- The length field of a push reads back. -/
theorem readLE_leBytes {w n : ℕ} (h : n < 256 ^ w) : readLE (leBytes w n) = n := by
  induction w generalizing n with
  | zero =>
      have : n = 0 := by simpa using h
      simp [this, leBytes, readLE]
  | succ w ih =>
      have hdiv : n / 256 < 256 ^ w := by
        rw [Nat.div_lt_iff_lt_mul (by omega), ← Nat.pow_succ]
        exact h
      rw [leBytes_succ, readLE, ih hdiv, toNat_toUInt8_of_lt (Nat.mod_lt _ (by omega))]
      omega

theorem getOp_of_pushSize {op : UInt8} (hop : op ≤ opPushData4) {tail rest : CScript}
    {b : List UInt8} (h : pushSize op tail = some (b.length, b ++ rest)) :
    getOp (op :: tail) = some (op, b, rest) := by
  rw [getOp, if_pos hop, h]
  simp

theorem pushSize_leBytes {op : UInt8} (hop : ¬op < opPushData1) {w n : ℕ}
    (hw : (if op = opPushData1 then 1 else if op = opPushData2 then 2 else 4) = w)
    (hn : n < 256 ^ w) (tail : CScript) :
    pushSize op (leBytes w n ++ tail) = some (n, tail) := by
  rw [pushSize, if_neg hop]
  dsimp only
  rw [hw, if_pos (by simp), List.take_left' (length_leBytes w n),
    List.drop_left' (length_leBytes w n), readLE_leBytes hn]

/-- Every push that `CScript::operator<<` writes reads back as one push of the
same bytes. -/
theorem getOp_pushData {b : List UInt8} (hb : b.length < 2 ^ 32) (rest : CScript) :
    ∃ op, op ≤ opPushData4 ∧ getOp (pushData b ++ rest) = some (op, b, rest) := by
  by_cases h1 : b.length < 0x4c
  · exact ⟨_, by
      rw [UInt8.le_iff_toNat_le, toNat_toUInt8_of_lt (by omega)]
      show b.length ≤ 78
      omega, getOp_pushData_of_lt h1 rest⟩
  -- the longer pushes carry their length in one, two or four bytes
  have hlen : ∀ w, b.length < 256 ^ w → ∀ op, ¬op < opPushData1 →
      (if op = opPushData1 then 1 else if op = opPushData2 then 2 else 4) = w →
      op ≤ opPushData4 → getOp (op :: (leBytes w b.length ++ b ++ rest)) = some (op, b, rest) :=
    fun w hw op hop hwidth hle => by
      rw [List.append_assoc]
      exact getOp_of_pushSize hle (pushSize_leBytes hop hwidth hw _)
  by_cases h2 : b.length ≤ 0xff
  · have hone : b.length.toUInt8 :: b = leBytes 1 b.length ++ b := by
      simp [leBytes, Nat.mod_eq_of_lt (show b.length < 256 by omega)]
    refine ⟨opPushData1, by decide, ?_⟩
    simp only [pushData, if_neg h1, if_pos h2, List.cons_append, hone]
    exact hlen 1 (by omega) _ (by decide) (by decide) (by decide)
  by_cases h3 : b.length ≤ 0xffff
  · refine ⟨opPushData2, by decide, ?_⟩
    simp only [pushData, if_neg h1, if_neg h2, if_pos h3, List.cons_append]
    exact hlen 2 (by omega) _ (by decide) (by decide) (by decide)
  · refine ⟨opPushData4, by decide, ?_⟩
    simp only [pushData, if_neg h1, if_neg h2, if_neg h3, List.cons_append]
    exact hlen 4 (by omega) _ (by decide) (by decide) (by decide)

/-- A template opcode that is a real opcode matches only itself. -/
theorem matchSlot_same {op : UInt8} (h : op < opAddressType) (cc ae : Bool) (st : MatchState) :
    matchSlot cc ae op op [] st = .next st := by
  have hne : ∀ q, opAddressType ≤ q → (op = q) = False := fun q hq => by
    apply propext
    refine ⟨fun e => ?_, False.elim⟩
    subst e
    exact absurd h (UInt8.not_lt.mpr hq)
  simp only [matchSlot, hne opPubKey (by decide), hne opPubKeyHash (by decide),
    hne opSmallInteger (by decide), hne opVersion (by decide), hne opGasLimit (by decide),
    hne opGasPrice (by decide), hne opData (by decide), hne opAddressType (by decide),
    hne opAddress (by decide), hne opScriptSig (by decide), if_false, ne_eq, not_true_eq_false,
    false_or]

theorem matchTemplate_same {op : UInt8} (hpush : opPushData4 < op) (hop : op < opAddressType)
    (cc ae : Bool) (tpl : List UInt8) (s : CScript) (st : MatchState) :
    matchTemplate cc ae (op :: tpl) (op :: s) st = matchTemplate cc ae tpl s st := by
  have hne : op ≠ opPubKeys := fun e => absurd hop (by rw [e]; decide)
  rw [matchTemplate, getOp_of_not_push hpush]
  simp only [hne, if_false, matchSlot_same hop]

theorem matchTemplate_push {b : List UInt8} (hb : b.length < 0x4c) {op2 : UInt8}
    (h : op2 ≠ opPubKeys) (cc ae : Bool) (tpl : List UInt8) (rest : CScript) (st : MatchState) :
    matchTemplate cc ae (op2 :: tpl) (pushData b ++ rest) st =
      match matchSlot cc ae op2 b.length.toUInt8 b st with
      | .next st' => matchTemplate cc ae tpl rest st'
      | r => r := by
  rw [matchTemplate, getOp_pushData_of_lt hb]
  simp only [h, if_false]

/-- Pay-to-pubkey with a key of a valid size is the first template. -/
theorem solver_payToPubKey {pk : List UInt8} (h33 : 33 ≤ pk.length) (h65 : pk.length ≤ 65)
    (cc ae : Bool) :
    solver (pushData pk ++ [opCheckSig]) cc ae = (.pubkey, [pk]) := by
  have hpush : pushData pk = pk.length.toUInt8 :: pk := pushData_of_lt (by omega)
  have hlen : pk.length.toUInt8.toNat = pk.length := toNat_toUInt8_of_lt (by omega)
  obtain ⟨b, bs, rfl⟩ : ∃ b bs, pk = b :: bs := List.exists_cons_of_ne_nil (by
    rintro rfl
    simp at h33)
  have hp2sh : isPayToScriptHash (pushData (b :: bs) ++ [opCheckSig]) = false := by
    simp only [isPayToScriptHash, hpush, List.length_append, List.length_cons]
    simp only [List.length_cons] at h33
    simp
    omega
  have hwit : isWitnessProgram (pushData (b :: bs) ++ [opCheckSig]) = none := by
    rw [hpush, List.cons_append, List.cons_append, isWitnessProgram]
    have hv : (b :: bs).length.toUInt8 ≠ op0 ∧ ((b :: bs).length.toUInt8 < op1 ∨
        op16 < (b :: bs).length.toUInt8) := by
      refine ⟨fun e => ?_, Or.inl ?_⟩
      · have := congrArg UInt8.toNat e
        rw [hlen] at this
        simp only [List.length_cons] at this h33
        simp [op0] at this
      · rw [UInt8.lt_iff_toNat_lt, hlen]
        show (b :: bs).length < 81
        omega
    split_ifs <;> rfl
  have hmatch : matchTemplate cc ae [opPubKey, opCheckSig] (pushData (b :: bs) ++ [opCheckSig])
      ⟨[], 0, 20⟩ = .next ⟨[b :: bs], 0, 20⟩ := by
    have hslot : matchSlot cc ae opPubKey (b :: bs).length.toUInt8 (b :: bs) ⟨[], 0, 20⟩ =
        .next ⟨[b :: bs], 0, 20⟩ := by
      simp only [matchSlot, if_true]
      rw [if_neg (by omega)]
      rfl
    rw [matchTemplate_push (by omega) (by decide), hslot]
    simp only
    rw [← List.append_nil [opCheckSig], List.singleton_append,
      matchTemplate_same (by decide) (by decide)]
    rfl
  rw [solver, if_neg (by simp [hp2sh]), hwit]
  have hret : ¬ ((pushData (b :: bs) ++ [opCheckSig]).head? = some opReturn ∧
      isPushOnly (pushData (b :: bs) ++ [opCheckSig]).tail = true) := by
    rintro ⟨hh, -⟩
    rw [hpush] at hh
    have := congrArg UInt8.toNat (Option.some_inj.mp hh)
    rw [hlen] at this
    simp only [List.length_cons] at this h65
    simp [opReturn] at this
    omega
  simp only [hret, if_false, templates, scanTemplates, hmatch]
  rfl

/-- Pay-to-pubkey-hash with a 20-byte key ID is the second template. -/
theorem solver_payToPubKeyHash {keyID : List UInt8} (h20 : keyID.length = 20) (cc ae : Bool) :
    solver (payToPubKeyHash keyID) cc ae = (.pubkeyhash, [keyID]) := by
  have hscript : payToPubKeyHash keyID =
      opDup :: opHash160 :: (pushData keyID ++ [opEqualVerify, opCheckSig]) := by
    simp [payToPubKeyHash]
  have hpush : pushData keyID = keyID.length.toUInt8 :: keyID := pushData_of_lt (by omega)
  -- the pay-to-pubkey template fails at once: `OP_DUP` pushes no key
  have hpk : matchTemplate cc ae [opPubKey, opCheckSig] (payToPubKeyHash keyID) ⟨[], 0, 20⟩ =
      .stop := by
    rw [hscript, matchTemplate, getOp_of_not_push (by decide)]
    simp only [show opPubKey ≠ opPubKeys by decide, if_false, matchSlot, if_true]
    rfl
  have hpkh : matchTemplate cc ae [opDup, opHash160, opPubKeyHash, opEqualVerify, opCheckSig]
      (payToPubKeyHash keyID) ⟨[], 0, 20⟩ = .next ⟨[keyID], 0, 20⟩ := by
    have hslot : matchSlot cc ae opPubKeyHash keyID.length.toUInt8 keyID ⟨[], 0, 20⟩ =
        .next ⟨[keyID], 0, 20⟩ := by
      simp only [matchSlot, show opPubKeyHash ≠ opPubKey by decide, if_false, if_true, h20,
        ne_eq, not_true_eq_false]
      rfl
    rw [hscript, matchTemplate_same (by decide) (by decide),
      matchTemplate_same (by decide) (by decide),
      matchTemplate_push (by omega) (by decide), hslot]
    simp only
    rw [matchTemplate_same (by decide) (by decide), matchTemplate_same (by decide) (by decide)]
    rfl
  have hp2sh : isPayToScriptHash (payToPubKeyHash keyID) = false := by
    simp [isPayToScriptHash, hscript, hpush, h20]
  have hwit : isWitnessProgram (payToPubKeyHash keyID) = none := by
    rw [hscript, isWitnessProgram]
    have hv : opDup ≠ op0 ∧ (opDup < op1 ∨ op16 < opDup) := by decide
    split_ifs <;> rfl
  rw [solver, if_neg (by simp [hp2sh]), hwit]
  have hret : ¬ ((payToPubKeyHash keyID).head? = some opReturn ∧
      isPushOnly (payToPubKeyHash keyID).tail = true) := by
    rintro ⟨hh, -⟩
    rw [hscript] at hh
    exact absurd (Option.some_inj.mp hh) (by decide)
  simp only [hret, if_false, templates, scanTemplates, hpk, hpkh]
  rfl

/-- `ExtractDestination` of pay-to-pubkey with a valid key is the hash of
the key. -/
theorem extractDestination_payToPubKey (hash160 : List UInt8 → List UInt8) {pk : List UInt8}
    (hpk : pubKeyIsValid pk = true) :
    extractDestination hash160 (pushData pk ++ [opCheckSig]) = some (.pkHash (hash160 pk)) := by
  have hlen : 33 ≤ pk.length ∧ pk.length ≤ 65 := by
    unfold pubKeyIsValid at hpk
    split at hpk
    · split_ifs at hpk <;> simp at hpk <;> omega
    · cases hpk
  rw [extractDestination, solver_payToPubKey hlen.1 hlen.2]
  simp [hpk]

/-- `ExtractDestination` of pay-to-pubkey-hash is the key ID. -/
theorem extractDestination_payToPubKeyHash (hash160 : List UInt8 → List UInt8)
    {keyID : List UInt8} (h20 : keyID.length = 20) :
    extractDestination hash160 (payToPubKeyHash keyID) = some (.pkHash keyID) := by
  rw [extractDestination, solver_payToPubKeyHash h20]
  rfl

/-- A script that passes `IsPayToPubkeyHash` is the template with the key ID
it holds. -/
theorem eq_payToPubKeyHash {s : CScript} (h : isPayToPubkeyHash s = true) :
    s = payToPubKeyHash ((s.drop 3).take 20) ∧ ((s.drop 3).take 20).length = 20 := by
  simp only [isPayToPubkeyHash, Bool.and_eq_true, decide_eq_true_eq] at h
  obtain ⟨⟨⟨⟨⟨hlen, h0⟩, h1⟩, h2⟩, h23⟩, h24⟩ := h
  rcases s with _ | ⟨a, _ | ⟨b, _ | ⟨c, rest⟩⟩⟩
  · simp at hlen
  · simp at hlen
  · simp at hlen
  simp only [List.getElem?_cons_zero, List.getElem?_cons_succ, Option.some.injEq] at h0 h1 h2 h23 h24
  subst h0 h1 h2
  -- the key ID is the twenty bytes after the push opcode
  obtain ⟨key, tail, rfl, hkey⟩ : ∃ key tail, rest = key ++ tail ∧ key.length = 20 :=
    ⟨rest.take 20, rest.drop 20, (List.take_append_drop _ _).symm, by simp at hlen ⊢; omega⟩
  simp only [List.length_cons, List.length_append, hkey] at hlen
  obtain ⟨d, e, rfl⟩ := List.length_eq_two.mp (show tail.length = 2 by omega)
  rw [List.getElem?_append_right (by omega), hkey] at h23 h24
  simp only [List.getElem?_cons_zero, List.getElem?_cons_succ, Option.some.injEq, Nat.sub_self,
    show 21 - 20 = 1 from rfl] at h23 h24
  subst h23 h24
  simp only [List.drop_succ_cons, List.drop_zero, List.take_left' hkey]
  refine ⟨?_, hkey⟩
  simp [payToPubKeyHash, pushData_of_lt (show key.length < 0x4c by omega), hkey]

/-- A script of a direct push of `n` bytes and one opcode after them. -/
theorem eq_pushData_append {s : CScript} {n : ℕ} {last : UInt8} (hn : n < 0x4c)
    (hlen : s.length = n + 2) (h0 : s[0]? = some n.toUInt8) (hlast : s[n + 1]? = some last) :
    s = pushData ((s.drop 1).take n) ++ [last] := by
  rcases s with _ | ⟨a, rest⟩
  · simp at hlen
  simp only [List.getElem?_cons_zero, Option.some.injEq, List.getElem?_cons_succ] at h0 hlast
  subst h0
  simp only [List.length_cons] at hlen
  -- the pushed bytes, then the one opcode
  obtain ⟨key, tail, rfl, hkey⟩ : ∃ key tail, rest = key ++ tail ∧ key.length = n :=
    ⟨rest.take n, rest.drop n, (List.take_append_drop _ _).symm, by simp; omega⟩
  rw [List.length_append, hkey] at hlen
  obtain ⟨e, rfl⟩ := List.length_eq_one_iff.mp (show tail.length = 1 by omega)
  rw [List.getElem?_append_right (by omega), hkey, Nat.sub_self] at hlast
  simp only [List.getElem?_cons_zero, Option.some.injEq] at hlast
  subst hlast
  rw [List.drop_one, List.tail_cons, List.take_left' hkey, pushData_of_lt (by omega), hkey]
  simp

/-- A script that passes `IsPayToPubkey` pays a valid key. -/
theorem eq_payToPubKey {s : CScript} (h : isPayToPubkey s = true) :
    ∃ pk, s = pushData pk ++ [opCheckSig] ∧ pubKeyIsValid pk = true := by
  have hhead : ∀ n, ((s.drop 1).take (n + 1)).head? = s[1]? := by
    intro n
    rw [List.head?_take, if_neg (by omega), List.head?_drop]
  simp only [isPayToPubkey, Bool.or_eq_true, Bool.and_eq_true, decide_eq_true_eq] at h
  rcases h with ⟨⟨⟨hlen, h0⟩, hlast⟩, h1⟩ | ⟨⟨⟨hlen, h0⟩, hlast⟩, h1⟩
  · -- a compressed key: header 2 or 3 and 33 bytes
    refine ⟨(s.drop 1).take 33, eq_pushData_append (by decide) hlen h0 hlast, ?_⟩
    rw [pubKeyIsValid, hhead 32]
    rcases h1 with h1 | h1 <;> simp [h1] <;> omega
  · -- an uncompressed key: header 4 and 65 bytes
    refine ⟨(s.drop 1).take 65, eq_pushData_append (by decide) hlen h0 hlast, ?_⟩
    rw [pubKeyIsValid, hhead 64, h1]
    simp
    omega

/-! ## Scripts for destinations -/

/-- `CScript::EncodeOP_N`. -/
def encodeOpN (n : UInt8) : UInt8 := if n = 0 then op0 else op1 + n - 1

/-- `GetScriptForDestination`, by `CScriptVisitor`: the empty script for no
destination. -/
def getScriptForDestination : CTxDestination → CScript
  | .noDestination => []
  | .pkHash keyID => payToPubKeyHash keyID
  | .scriptHash id => [opHash160] ++ pushData id ++ [opEqual]
  | .witnessV0KeyHash hash => [op0] ++ pushData hash
  | .witnessV0ScriptHash hash => [op0] ++ pushData hash
  | .witnessUnknown version program => [encodeOpN version] ++ pushData program

/-- A destination with the sizes its C++ type fixes: 20-byte key and script
hashes, a 32-byte witness script hash, and an unknown witness of version 1
to 16 with a program of 2 to 40 bytes. -/
def CTxDestination.HasSizes : CTxDestination → Prop
  | .noDestination => False
  | .pkHash keyID => keyID.length = 20
  | .scriptHash id => id.length = 20
  | .witnessV0KeyHash hash => hash.length = 20
  | .witnessV0ScriptHash hash => hash.length = 32
  | .witnessUnknown version program =>
      1 ≤ version ∧ version ≤ 16 ∧ 2 ≤ program.length ∧ program.length ≤ 40

/-- The output type of the script of a destination. -/
def CTxDestination.outputType : CTxDestination → TxnOutType
  | .noDestination => .nonstandard
  | .pkHash _ => .pubkeyhash
  | .scriptHash _ => .scripthash
  | .witnessV0KeyHash _ => .witnessV0KeyHash
  | .witnessV0ScriptHash _ => .witnessV0ScriptHash
  | .witnessUnknown _ _ => .witnessUnknown

theorem encodeOpN_spec {v : UInt8} (h1 : 1 ≤ v) (h16 : v ≤ 16) :
    decodeOpN (encodeOpN v) = v ∧ op1 ≤ encodeOpN v ∧ encodeOpN v ≤ op16 := by
  have hv : v ≠ 0 := by
    rintro rfl
    exact absurd h1 (by decide)
  have henc : encodeOpN v = op1 + v - 1 := by rw [encodeOpN, if_neg hv]
  -- the opcode arithmetic is in eight bits, with no wrap for versions 1 to 16
  simp only [UInt8.le_iff_toBitVec_le, UInt8.toBitVec_ofNat] at h1 h16
  have hne : op1 + v - 1 ≠ op0 := by
    simp only [op1, op0, ne_eq, ← UInt8.toBitVec_inj, UInt8.toBitVec_add, UInt8.toBitVec_sub,
      UInt8.toBitVec_ofNat]
    bv_omega
  rw [henc, decodeOpN, if_neg hne]
  simp only [op1, op16, ← UInt8.toBitVec_inj, UInt8.le_iff_toBitVec_le, UInt8.toBitVec_add,
    UInt8.toBitVec_sub, UInt8.toBitVec_ofNat]
  bv_omega

/-- A witness program is read before the templates: a version opcode, then
a push of the program. -/
theorem solver_witnessProgram {op : UInt8} (hop : op = op0 ∨ op1 ≤ op ∧ op ≤ op16)
    {program : List UInt8} (h2 : 2 ≤ program.length) (h40 : program.length ≤ 40) (cc ae : Bool) :
    solver (op :: pushData program) cc ae =
      if decodeOpN op = 0 ∧ program.length = 20 then (.witnessV0KeyHash, [program])
      else if decodeOpN op = 0 ∧ program.length = 32 then (.witnessV0ScriptHash, [program])
      else if decodeOpN op ≠ 0 then (.witnessUnknown, [[decodeOpN op], program])
      else (.nonstandard, []) := by
  have hpush : pushData program = program.length.toUInt8 :: program := pushData_of_lt (by omega)
  have hlen : program.length.toUInt8.toNat = program.length := toNat_toUInt8_of_lt (by omega)
  -- the version opcode is not `OP_HASH160`, so this is not pay-to-script-hash
  have hne : op ≠ opHash160 := by
    rcases hop with rfl | ⟨hlo, hhi⟩
    · decide
    · intro e
      rw [e] at hhi
      exact absurd hhi (by decide)
  have hp2sh : isPayToScriptHash (op :: pushData program) = false := by
    simp [isPayToScriptHash, hne]
  have hversion : ¬(op ≠ op0 ∧ (op < op1 ∨ op16 < op)) := by
    rintro ⟨hne0, hout⟩
    rcases hop with h | ⟨hlo, hhi⟩
    · exact hne0 h
    · rcases hout with h | h
      · exact absurd hlo (UInt8.not_le.mpr h)
      · exact absurd hhi (UInt8.not_le.mpr h)
  have hwit : isWitnessProgram (op :: pushData program) = some (decodeOpN op, program) := by
    rw [hpush, isWitnessProgram, if_neg (by simp; omega), if_neg hversion,
      if_pos (by simp [hlen])]
  rw [solver, if_neg (by simp [hp2sh]), hwit]

/-- Every destination of the five kinds with its sizes is the destination of
its script, and `Solver` gives that script the destination's type. -/
theorem extractDestination_getScriptForDestination (hash160 : List UInt8 → List UInt8)
    (cc ae : Bool) {d : CTxDestination} (hd : d.HasSizes) :
    extractDestination hash160 (getScriptForDestination d) = some d ∧
      (solver (getScriptForDestination d) cc ae).1 = d.outputType := by
  cases d with
  | noDestination => exact hd.elim
  | pkHash keyID =>
      exact ⟨extractDestination_payToPubKeyHash hash160 hd, by
        rw [getScriptForDestination, solver_payToPubKeyHash hd]; rfl⟩
  | scriptHash id =>
      -- `OP_HASH160 [20 bytes] OP_EQUAL` is read by its shape
      have hd' : id.length = 20 := hd
      have hscript : getScriptForDestination (.scriptHash id) = opHash160 :: 0x14 :: (id ++ [opEqual]) := by
        rw [getScriptForDestination, pushData_of_lt (by omega), hd']
        rfl
      have hp2sh : isPayToScriptHash (getScriptForDestination (.scriptHash id)) = true := by
        rw [hscript]
        simp [isPayToScriptHash, hd']
      have hsolver : ∀ cc ae, solver (getScriptForDestination (.scriptHash id)) cc ae =
          (.scripthash, [id]) := by
        intro cc ae
        rw [solver, if_pos hp2sh, hscript]
        simp [List.take_left' hd']
      rw [extractDestination, hsolver, hsolver]
      exact ⟨rfl, rfl⟩
  | witnessV0KeyHash hash =>
      have hd' : hash.length = 20 := hd
      have hsolver : ∀ cc ae, solver (getScriptForDestination (.witnessV0KeyHash hash)) cc ae =
          (.witnessV0KeyHash, [hash]) := by
        intro cc ae
        rw [getScriptForDestination, List.singleton_append,
          solver_witnessProgram (.inl rfl) (by omega) (by omega)]
        simp [decodeOpN, hd']
      rw [extractDestination, hsolver, hsolver]
      exact ⟨rfl, rfl⟩
  | witnessV0ScriptHash hash =>
      have hd' : hash.length = 32 := hd
      have hsolver : ∀ cc ae, solver (getScriptForDestination (.witnessV0ScriptHash hash)) cc ae =
          (.witnessV0ScriptHash, [hash]) := by
        intro cc ae
        rw [getScriptForDestination, List.singleton_append,
          solver_witnessProgram (.inl rfl) (by omega) (by omega)]
        simp [decodeOpN, hd']
      rw [extractDestination, hsolver, hsolver]
      exact ⟨rfl, rfl⟩
  | witnessUnknown version program =>
      obtain ⟨h1, h16, h2, h40⟩ := hd
      obtain ⟨hdecode, hlo, hhi⟩ := encodeOpN_spec h1 h16
      have hv : version ≠ 0 := fun e => absurd h1 (by rw [e]; decide)
      have hsolver : ∀ cc ae, solver (getScriptForDestination (.witnessUnknown version program))
          cc ae = (.witnessUnknown, [[version], program]) := by
        intro cc ae
        rw [getScriptForDestination, List.singleton_append,
          solver_witnessProgram (.inr ⟨hlo, hhi⟩) h2 h40, hdecode]
        simp [hv]
      rw [extractDestination, hsolver, hsolver]
      exact ⟨rfl, rfl⟩

/-- A version-1 witness of 32 bytes, the shape of a taproot output. -/
theorem extractDestination_getScriptForDestination_v1 :
    let d := CTxDestination.witnessUnknown 1 (List.replicate 32 0)
    d.HasSizes ∧ extractDestination id (getScriptForDestination d) = some d ∧
      (solver (getScriptForDestination d)).1 = .witnessUnknown :=
  have hd : (CTxDestination.witnessUnknown 1 (List.replicate 32 0)).HasSizes := by
    simp [CTxDestination.HasSizes]
  ⟨hd, extractDestination_getScriptForDestination id false false hd⟩

end Metrix
