import Metrix.Script.Standard

/-! `EvalScript` (`script/interpreter.cpp`) as the contract code runs it: on
an output script, with `BaseSignatureChecker`, signature version `BASE` and
the contract flags, `SCRIPT_EXEC_BYTE_CODE` and from QIP5 on
`SCRIPT_OUTPUT_SENDER`. Those flags set neither `SCRIPT_VERIFY_MINIMALDATA`
nor `SCRIPT_VERIFY_CONST_SCRIPTCODE`, so a push is taken as it is and
`OP_CODESEPARATOR` is an ordinary opcode.

The model keeps the loop with its limits, the pushes, the small numbers,
`OP_NOP`, the conditionals and the opcodes of contract outputs. What the other
opcodes do (stack operations, arithmetic, hashing, signature checks) is the
argument `other`. Stacks are lists with their top first. -/

namespace Metrix

namespace Opcode

def opIf : UInt8 := 0x63
def opNotIf : UInt8 := 0x64
def opElse : UInt8 := 0x67
def opEndIf : UInt8 := 0x68
def opCheckSigVerify : UInt8 := 0xad

end Opcode

open Opcode

def maxScriptElementSize : ℕ := 128000
def maxOpsPerScript : ℕ := 201
def maxScriptSize : ℕ := 129000
def maxStackSize : ℕ := 1000

/-- The opcodes disabled since CVE-2010-5137, which fail even in a branch
that does not execute. -/
def disabledOpcodes : List UInt8 :=
  [0x7e, 0x7f, 0x80, 0x81, 0x83, 0x84, 0x85, 0x86, 0x8d, 0x8e, 0x95, 0x96, 0x97, 0x98, 0x99]

/-- `CastToBool`: some byte is not zero, negative zero apart. -/
def castToBool : List UInt8 → Bool
  | [] => false
  | [b] => b != 0 && b != 0x80
  | b :: rest => b != 0 || castToBool rest

/-- The main stack and the alt stack. -/
structure Stacks where
  main : List (List UInt8)
  alt : List (List UInt8)

/-- The opcodes this model leaves to an argument: what one does to the two
stacks when it reaches the `switch`, and whether the script goes on. -/
abbrev OtherOps := UInt8 → Stacks → Bool × Stacks

/-- The locals of `EvalScript`'s loop; `vfExec` has its innermost condition
first. -/
structure EvalState where
  stack : List (List UInt8)
  altstack : List (List UInt8)
  vfExec : List Bool
  nOpCount : ℕ

/-- How one opcode ends: on to the next one, or out of `EvalScript` with its
result and the stack as the opcode left it. -/
inductive StepResult where
  | next (st : EvalState)
  | done (ok : Bool) (stack : List (List UInt8))

/-- The body of the loop after the limits: a push when executing, else the
`switch`, which a branch that does not execute reaches only for the
conditionals. `rest` is the script after the opcode: `OP_CREATE` and
`OP_CALL` push the script from themselves to the end and stop. -/
def execOp (outputSender : Bool) (other : OtherOps) (opcode : UInt8) (vch : List UInt8)
    (rest : CScript) (st : EvalState) : StepResult :=
  let fExec := !st.vfExec.contains false
  if fExec ∧ opcode ≤ opPushData4 then .next { st with stack := vch :: st.stack }
  else if ¬(fExec ∨ (opIf ≤ opcode ∧ opcode ≤ opEndIf)) then .next st
  else if opcode = op1Negate ∨ (op1 ≤ opcode ∧ opcode ≤ op16) then
    .next { st with stack := scriptNumSerialize ((opcode.toNat : Int) - 0x50) :: st.stack }
  else if opcode = opNop then .next st
  else if opcode = opIf ∨ opcode = opNotIf then
    if fExec then
      match st.stack with
      | [] => .done false st.stack
      | top :: stack =>
          let fValue := castToBool top
          .next { st with stack, vfExec := (if opcode = opNotIf then !fValue else fValue) :: st.vfExec }
    else .next { st with vfExec := false :: st.vfExec }
  else if opcode = opElse then
    match st.vfExec with
    | [] => .done false st.stack
    | b :: bs => .next { st with vfExec := (!b) :: bs }
  else if opcode = opEndIf then
    match st.vfExec with
    | [] => .done false st.stack
    | _ :: bs => .next { st with vfExec := bs }
  else if opcode = opSender then
    if outputSender then .next st else .done false st.stack
  -- `OP_SPEND` and the contract opcodes end the script with success
  else if opcode = opSpend then .done true st.stack
  else if opcode = opCreate ∨ opcode = opCall then .done true ((opcode :: rest) :: st.stack)
  else
    let r := other opcode ⟨st.stack, st.altstack⟩
    if r.1 then .next { st with stack := r.2.main, altstack := r.2.alt } else .done false r.2.main

/-- One pass of the loop of `EvalScript` for an opcode that parsed: the size
of its push, the count of non-push opcodes, the disabled opcodes, the
opcode itself and then the stack limit. -/
def evalOp (outputSender : Bool) (other : OtherOps) (opcode : UInt8) (vch : List UInt8)
    (rest : CScript) (st : EvalState) : StepResult :=
  let nOpCount := if op16 < opcode then st.nOpCount + 1 else st.nOpCount
  if maxScriptElementSize < vch.length then .done false st.stack
  else if op16 < opcode ∧ maxOpsPerScript < nOpCount then .done false st.stack
  else if opcode ∈ disabledOpcodes then .done false st.stack
  else
    match execOp outputSender other opcode vch rest { st with nOpCount } with
    | .next st' =>
        if maxStackSize < st'.stack.length + st'.altstack.length then .done false st'.stack
        else .next st'
    | r => r

/-- The loop of `EvalScript`: a script that does not parse stops it with
failure, and at the end every conditional must be closed. -/
def evalLoop (outputSender : Bool) (other : OtherOps) (s : CScript) (st : EvalState) :
    Bool × List (List UInt8) :=
  match hop : getOp s with
  | none => (s.isEmpty && st.vfExec.isEmpty, st.stack)
  | some (opcode, vch, rest) =>
      have : rest.length < s.length := getOp_length hop
      match evalOp outputSender other opcode vch rest st with
      | .next st' => evalLoop outputSender other rest st'
      | .done ok stack => (ok, stack)
termination_by s.length

/-- `EvalScript` on the stack `stack`: its result and the stack it leaves. -/
def evalScript (outputSender : Bool) (other : OtherOps) (stack : List (List UInt8))
    (script : CScript) : Bool × List (List UInt8) :=
  if maxScriptSize < script.length then (false, stack)
  else evalLoop outputSender other script ⟨stack, [], [], 0⟩

/-- `CScript() << b1 << b2 << ...`. -/
def pushAll : List (List UInt8) → CScript
  | [] => []
  | b :: bs => pushData b ++ pushAll bs

/-- The opcodes of the standard output scripts, `OP_DUP`, `OP_HASH160`,
`OP_EQUAL(VERIFY)` and `OP_CHECKSIG(VERIFY)`, with `rest` for the others.
`checkSig sig pubKey` is the checker's `CheckSig`; with no verification flags
the encodings of signature and key are not checked. -/
def standardOps (hash160 : List UInt8 → List UInt8) (checkSig : List UInt8 → List UInt8 → Bool)
    (rest : OtherOps) : OtherOps := fun opcode s =>
  if opcode = opDup then
    match s.main with
    | [] => (false, s)
    | x :: _ => (true, { s with main := x :: s.main })
  else if opcode = opHash160 then
    match s.main with
    | [] => (false, s)
    | x :: stack => (true, { s with main := hash160 x :: stack })
  else if opcode = opEqual ∨ opcode = opEqualVerify then
    match s.main with
    | x2 :: x1 :: stack =>
        let fEqual := decide (x1 = x2)
        let pushed := (if fEqual then [1] else []) :: stack
        if opcode = opEqualVerify then
          if fEqual then (true, { s with main := stack }) else (false, { s with main := pushed })
        else (true, { s with main := pushed })
    | _ => (false, s)
  else if opcode = opCheckSig ∨ opcode = opCheckSigVerify then
    match s.main with
    | pubKey :: sig :: stack =>
        let fSuccess := checkSig sig pubKey
        let pushed := (if fSuccess then [1] else []) :: stack
        if opcode = opCheckSigVerify then
          if fSuccess then (true, { s with main := stack }) else (false, { s with main := pushed })
        else (true, { s with main := pushed })
    | _ => (false, s)
  else rest opcode s

/-- `VerifyScript` with no verification flags, as the sender outputs are
checked: the signature script, then the output script on the stack it left,
whose top must be true. -/
def verifyScript (other : OtherOps) (scriptSig scriptPubKey : CScript) : Bool :=
  let r := evalScript false other [] scriptSig
  let r' := evalScript false other r.2 scriptPubKey
  r.1 && r'.1 && (r'.2.head?.map castToBool).getD false

/-! ## Straight-line runs

The contract outputs are pushes, at most one `OP_SENDER` and a contract
opcode, with no conditional: every opcode executes. -/

section Run

variable {outputSender : Bool} {other : OtherOps}

theorem not_mem_disabledOpcodes {opcode : UInt8} (h : opcode ≤ opPushData4) :
    opcode ∉ disabledOpcodes := by
  have hall : ∀ d ∈ disabledOpcodes, opPushData4 < d := by simp [disabledOpcodes, opPushData4]
  exact fun hmem => absurd (hall _ hmem) (UInt8.not_lt.mpr h)

theorem execOp_push {opcode : UInt8} (hop : opcode ≤ opPushData4) (vch : List UInt8)
    (rest : CScript) {st : EvalState} (hexec : false ∉ st.vfExec) :
    execOp outputSender other opcode vch rest st = .next { st with stack := vch :: st.stack } := by
  simp [execOp, hexec, hop]

theorem evalOp_push {opcode : UInt8} (hop : opcode ≤ opPushData4) {vch : List UInt8}
    (hsize : vch.length ≤ maxScriptElementSize) (rest : CScript) {st : EvalState}
    (hexec : false ∉ st.vfExec) :
    evalOp outputSender other opcode vch rest st =
      if maxStackSize < st.stack.length + 1 + st.altstack.length then .done false (vch :: st.stack)
      else .next { st with stack := vch :: st.stack } := by
  have hcount : ¬op16 < opcode := UInt8.not_lt.mpr (UInt8.le_trans hop (by decide))
  simp only [evalOp, hcount, if_false, false_and, Nat.not_lt.mpr hsize, not_mem_disabledOpcodes hop]
  rw [execOp_push hop vch rest hexec]
  rfl

/-- The loop at an opcode that parses: one pass, then the rest of the script. -/
theorem evalLoop_of_getOp {s rest : CScript} {opcode : UInt8} {vch : List UInt8}
    (h : getOp s = some (opcode, vch, rest)) (st : EvalState) :
    evalLoop outputSender other s st =
      match evalOp outputSender other opcode vch rest st with
      | .next st' => evalLoop outputSender other rest st'
      | .done ok stack => (ok, stack) := by
  rw [evalLoop]
  split
  · rename_i heq
    rw [h] at heq
    cases heq
  · rename_i opcode' vch' rest' heq
    rw [h] at heq
    obtain ⟨rfl, rfl, rfl⟩ : opcode = opcode' ∧ vch = vch' ∧ rest = rest' := by simpa using heq
    rfl

theorem evalLoop_pushData_step {b : List UInt8} (hb : b.length ≤ maxScriptElementSize)
    (rest : CScript) {st : EvalState} (hexec : false ∉ st.vfExec) :
    evalLoop outputSender other (pushData b ++ rest) st =
      if maxStackSize < st.stack.length + 1 + st.altstack.length then (false, b :: st.stack)
      else evalLoop outputSender other rest { st with stack := b :: st.stack } := by
  obtain ⟨op, hop, hget⟩ :=
    getOp_pushData (b := b) (by unfold maxScriptElementSize at hb; omega) rest
  rw [evalLoop_of_getOp hget, evalOp_push hop hb rest hexec]
  by_cases hover : maxStackSize < st.stack.length + 1 + st.altstack.length
  · simp only [hover, if_true]
  · simp only [hover, if_false]

theorem evalLoop_pushData {b : List UInt8} (hb : b.length ≤ maxScriptElementSize) (rest : CScript)
    {st : EvalState} (hexec : false ∉ st.vfExec)
    (hdepth : st.stack.length + st.altstack.length < maxStackSize) :
    evalLoop outputSender other (pushData b ++ rest) st =
      evalLoop outputSender other rest { st with stack := b :: st.stack } := by
  rw [evalLoop_pushData_step hb rest hexec, if_neg (by omega)]

/-- A run of pushes puts its items on the stack, the last on top. -/
theorem evalLoop_pushAll {bs : List (List UInt8)} (hb : ∀ b ∈ bs, b.length ≤ maxScriptElementSize)
    (rest : CScript) {st : EvalState} (hexec : false ∉ st.vfExec)
    (hdepth : st.stack.length + st.altstack.length + bs.length ≤ maxStackSize) :
    evalLoop outputSender other (pushAll bs ++ rest) st =
      evalLoop outputSender other rest { st with stack := bs.reverse ++ st.stack } := by
  induction bs generalizing st with
  | nil => rfl
  | cons b bs ih =>
      simp only [List.mem_cons, forall_eq_or_imp] at hb
      simp only [List.length_cons] at hdepth
      have hexec' : false ∉ ({ st with stack := b :: st.stack } : EvalState).vfExec := hexec
      rw [pushAll, List.append_assoc, evalLoop_pushData hb.1 _ hexec (by omega),
        ih hb.2 hexec' (by simp only [List.length_cons]; omega)]
      simp

/-- `OP_SENDER` does nothing once sender outputs are allowed. -/
theorem evalLoop_sender (rest : CScript) {st : EvalState} (hcount : st.nOpCount < maxOpsPerScript)
    (hdepth : st.stack.length + st.altstack.length ≤ maxStackSize) :
    evalLoop true other (opSender :: rest) st =
      evalLoop true other rest { st with nOpCount := st.nOpCount + 1 } := by
  have hstep : evalOp true other opSender [] rest st =
      .next { st with nOpCount := st.nOpCount + 1 } := by
    have hlimit : ¬maxOpsPerScript < st.nOpCount + 1 := by omega
    simp +decide [evalOp, execOp, hlimit, Nat.not_lt.mpr hdepth]
  rw [evalLoop_of_getOp (getOp_of_not_push (by decide) rest), hstep]

/-- `OP_NOP` only counts as an opcode. -/
theorem evalLoop_nop (rest : CScript) {st : EvalState} (hcount : st.nOpCount < maxOpsPerScript)
    (hdepth : st.stack.length + st.altstack.length ≤ maxStackSize) :
    evalLoop outputSender other (opNop :: rest) st =
      evalLoop outputSender other rest { st with nOpCount := st.nOpCount + 1 } := by
  have hstep : evalOp outputSender other opNop [] rest st =
      .next { st with nOpCount := st.nOpCount + 1 } := by
    have hlimit : ¬maxOpsPerScript < st.nOpCount + 1 := by omega
    simp +decide [evalOp, execOp, hlimit, Nat.not_lt.mpr hdepth]
  rw [evalLoop_of_getOp (getOp_of_not_push (by decide) rest), hstep]

/-- `OP_CREATE` and `OP_CALL` stop the script with the rest of it on top. -/
theorem evalLoop_contract {opcode : UInt8} (hc : opcode = opCreate ∨ opcode = opCall)
    (rest : CScript) {st : EvalState} (hexec : false ∉ st.vfExec)
    (hcount : st.nOpCount < maxOpsPerScript) :
    evalLoop outputSender other (opcode :: rest) st = (true, (opcode :: rest) :: st.stack) := by
  have hlimit : ¬maxOpsPerScript < st.nOpCount + 1 := by omega
  rcases hc with rfl | rfl
  all_goals
    rw [evalLoop_of_getOp (getOp_of_not_push (by decide) rest)]
    simp +decide [evalOp, execOp, hexec, hlimit]

/-- The opcodes the loop hands to `other`. -/
def reachesOther (opcode : UInt8) : Prop :=
  op16 < opcode ∧ opcode ≠ opNop ∧ ¬(opIf ≤ opcode ∧ opcode ≤ opEndIf) ∧
    opcode ∉ [opSender, opSpend, opCreate, opCall] ∧ opcode ∉ disabledOpcodes

instance (opcode : UInt8) : Decidable (reachesOther opcode) := by
  unfold reachesOther
  infer_instance

/-- An opcode of `other` that executes: what `other` does, then the stack
limit. -/
theorem evalLoop_other {opcode : UInt8} (hop : reachesOther opcode) (rest : CScript)
    {st : EvalState} (hexec : false ∉ st.vfExec) (hcount : st.nOpCount < maxOpsPerScript) :
    evalLoop outputSender other (opcode :: rest) st =
      match other opcode ⟨st.stack, st.altstack⟩ with
      | (true, s) =>
          if maxStackSize < s.main.length + s.alt.length then (false, s.main)
          else evalLoop outputSender other rest ⟨s.main, s.alt, st.vfExec, st.nOpCount + 1⟩
      | (false, s) => (false, s.main) := by
  obtain ⟨h16, hnop, hif, hown, hdis⟩ := hop
  have hpush : opPushData4 < opcode := UInt8.lt_of_le_of_lt (by decide) h16
  have hlimit : ¬maxOpsPerScript < st.nOpCount + 1 := by omega
  -- the conditionals lie in `OP_IF ..= OP_ENDIF`
  have hne : ∀ c, opIf ≤ c → c ≤ opEndIf → opcode ≠ c := fun c h1 h2 h => hif (by
    subst h
    exact ⟨h1, h2⟩)
  have hsmall : ¬(opcode = op1Negate ∨ (op1 ≤ opcode ∧ opcode ≤ op16)) := by
    rintro (h | ⟨-, h⟩)
    · exact absurd h16 (by rw [h]; decide)
    · exact absurd h16 (UInt8.not_lt.mpr h)
  simp only [List.mem_cons, List.not_mem_nil, or_false, not_or] at hown
  obtain ⟨hsender, hspend, hcreate, hcall⟩ := hown
  rw [evalLoop_of_getOp (getOp_of_not_push hpush rest)]
  simp only [evalOp, execOp, h16, if_true, hlimit, if_false, hdis,
    UInt8.not_le.mpr hpush, and_false, hexec, List.contains_eq_mem, decide_false,
    Bool.not_false, true_or, not_true_eq_false, hsmall, hnop, hne opIf (by decide) (by decide),
    hne opNotIf (by decide) (by decide), hne opElse (by decide) (by decide),
    hne opEndIf (by decide) (by decide), or_self, hsender, hspend, hcreate, hcall]
  rw [if_neg (by simp)]
  generalize other opcode ⟨st.stack, st.altstack⟩ = r
  obtain ⟨ok, s⟩ := r
  cases ok
  · rfl
  · by_cases hover : maxStackSize < s.main.length + s.alt.length
    · simp only [hover, if_true]
    · simp only [hover, if_false, if_true]

theorem evalLoop_nil (st : EvalState) :
    evalLoop outputSender other [] st = (st.vfExec.isEmpty, st.stack) := by
  rw [evalLoop]
  rfl

/-- A run that succeeds went through an opcode of `other` without failing. -/
theorem evalLoop_other_ok {opcode : UInt8} (hop : reachesOther opcode) (rest : CScript)
    {st : EvalState} (hexec : false ∉ st.vfExec) (hcount : st.nOpCount < maxOpsPerScript)
    {r : Bool × List (List UInt8)} (hr : evalLoop outputSender other (opcode :: rest) st = r)
    (hok : r.1 = true) :
    ∃ s, other opcode ⟨st.stack, st.altstack⟩ = (true, s) ∧
      evalLoop outputSender other rest ⟨s.main, s.alt, st.vfExec, st.nOpCount + 1⟩ = r := by
  rw [evalLoop_other hop rest hexec hcount] at hr
  generalize hres : other opcode ⟨st.stack, st.altstack⟩ = res at hr
  obtain ⟨ok, s⟩ := res
  cases ok
  · subst hr
    cases hok
  · dsimp only at hr
    by_cases hover : maxStackSize < s.main.length + s.alt.length
    · rw [if_pos hover] at hr
      subst hr
      cases hok
    · rw [if_neg hover] at hr
      exact ⟨s, rfl, hr⟩

/-- A run that succeeds went through a push without overflowing the stack. -/
theorem evalLoop_pushData_ok {b : List UInt8} (hb : b.length ≤ maxScriptElementSize)
    (rest : CScript) {st : EvalState} (hexec : false ∉ st.vfExec) {r : Bool × List (List UInt8)}
    (hr : evalLoop outputSender other (pushData b ++ rest) st = r) (hok : r.1 = true) :
    evalLoop outputSender other rest { st with stack := b :: st.stack } = r := by
  rw [evalLoop_pushData_step hb rest hexec] at hr
  by_cases hover : maxStackSize < st.stack.length + 1 + st.altstack.length
  · rw [if_pos hover] at hr
    subst hr
    cases hok
  · rwa [if_neg hover] at hr

end Run

section Standard

variable {hash160 : List UInt8 → List UInt8} {checkSig : List UInt8 → List UInt8 → Bool}
  {rest : OtherOps}

/-- What a pay-to-pubkey-hash script that succeeds says of the stack it
started from: a key of that hash on top of a signature the checker accepts
for the key. -/
theorem evalScript_payToPubKeyHash {h : List UInt8} (hh : h.length = 20)
    {stack : List (List UInt8)} {r : Bool × List (List UInt8)}
    (hr : evalScript false (standardOps hash160 checkSig rest) stack (payToPubKeyHash h) = r)
    (hok : r.1 = true) (htop : (r.2.head?.map castToBool).getD false = true) :
    ∃ k sig stack', stack = k :: sig :: stack' ∧ hash160 k = h ∧ checkSig sig k = true := by
  have hscript : payToPubKeyHash h =
      opDup :: opHash160 :: (pushData h ++ [opEqualVerify, opCheckSig]) := by
    simp [payToPubKeyHash]
  have hsize : ¬maxScriptSize < (payToPubKeyHash h).length := by
    simp [payToPubKeyHash, pushData_of_lt (show h.length < 0x4c by omega), hh, maxScriptSize]
  rw [evalScript, if_neg hsize, hscript] at hr
  -- `OP_DUP` needs a key on the stack
  obtain ⟨s1, hs1, hr⟩ := evalLoop_other_ok (by decide) _ (by simp) (by simp [maxOpsPerScript]) hr hok
  obtain _ | ⟨k, stack⟩ := stack
  · simp +decide [standardOps] at hs1
  simp +decide only [standardOps, if_true, Prod.mk.injEq, true_and] at hs1
  subst hs1
  -- `OP_HASH160` replaces the copy by its hash
  obtain ⟨s2, hs2, hr⟩ := evalLoop_other_ok (by decide) _ (by simp) (by simp [maxOpsPerScript]) hr hok
  simp +decide only [standardOps, if_true, if_false, Prod.mk.injEq, true_and] at hs2
  subst hs2
  have hr := evalLoop_pushData_ok (by simp [hh, maxScriptElementSize]) _ (by simp) hr hok
  -- `OP_EQUALVERIFY` fails unless the hashes agree
  obtain ⟨s4, hs4, hr⟩ := evalLoop_other_ok (by decide) _ (by simp) (by simp [maxOpsPerScript]) hr hok
  have hhash : hash160 k = h := by
    by_contra hne
    simp +decide [standardOps, hne] at hs4
  simp +decide only [standardOps, if_true, if_false, hhash, decide_true, Prod.mk.injEq,
    true_and] at hs4
  subst hs4
  -- `OP_CHECKSIG` needs a signature under the key
  obtain ⟨s5, hs5, hr⟩ := evalLoop_other_ok (by decide) _ (by simp) (by simp [maxOpsPerScript]) hr hok
  obtain _ | ⟨sig, stack'⟩ := stack
  · simp +decide [standardOps] at hs5
  simp +decide only [standardOps, if_true, if_false, Prod.mk.injEq, true_and] at hs5
  subst hs5
  rw [evalLoop_nil] at hr
  subst hr
  refine ⟨k, sig, stack', rfl, hhash, ?_⟩
  cases hsig : checkSig sig k <;> simp_all [castToBool]

/-- What a pay-to-pubkey script that succeeds says of the stack it started
from: a signature on top that the checker accepts for the key. -/
theorem evalScript_payToPubKey {pk : List UInt8} (hpk : pk.length ≤ 65)
    {stack : List (List UInt8)} {r : Bool × List (List UInt8)}
    (hr : evalScript false (standardOps hash160 checkSig rest) stack (pushData pk ++ [opCheckSig]) = r)
    (hok : r.1 = true) (htop : (r.2.head?.map castToBool).getD false = true) :
    ∃ sig stack', stack = sig :: stack' ∧ checkSig sig pk = true := by
  have hsize : ¬maxScriptSize < (pushData pk ++ [opCheckSig]).length := by
    simp [pushData_of_lt (show pk.length < 0x4c by omega), maxScriptSize]
    omega
  rw [evalScript, if_neg hsize] at hr
  have hr := evalLoop_pushData_ok (by simp [maxScriptElementSize]; omega) _ (by simp) hr hok
  obtain ⟨s2, hs2, hr⟩ := evalLoop_other_ok (by decide) _ (by simp) (by simp [maxOpsPerScript]) hr hok
  obtain _ | ⟨sig, stack'⟩ := stack
  · simp +decide [standardOps] at hs2
  simp +decide only [standardOps, if_true, if_false, Prod.mk.injEq, true_and] at hs2
  subst hs2
  rw [evalLoop_nil] at hr
  subst hr
  refine ⟨sig, stack', rfl, ?_⟩
  cases hsig : checkSig sig pk <;> simp_all [castToBool]

end Standard

end Metrix
