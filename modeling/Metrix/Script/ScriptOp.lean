import Metrix.Script.Standard

/-! `GetScriptOp` (`script/script.cpp`) as the code runs it: on a script and an
offset `pc` into it, with the bounds checks made on iterator differences.
A `CScript` is a `prevector` whose `difference_type` is `int32_t`, so every
`end - pc` is the difference taken modulo `2 ^ 32` into the signed range.

`getOp` of `Script/Standard.lean` is the reading of a script as a list, which
`Solver` and `EvalScript` use; on what is left of a script shorter than
`2 ^ 31` bytes the two agree. -/

namespace Metrix

open Opcode

/-- `end - pc` for two offsets into a script, the `int32_t` difference of
its iterators. -/
def iterDiff (a b : ℕ) : ℤ := Int.bmod ((a : ℤ) - b) (2 ^ 32)

/-- What `GetScriptOp` leaves: whether it succeeded, `opcodeRet`, `*pvchRet`
and `pc`. -/
structure ScriptOpResult where
  ok : Bool
  opcode : UInt8
  data : List UInt8
  pc : ℕ
deriving DecidableEq, Repr

/-- A failure at offset `pc`: `OP_INVALIDOPCODE` and the data cleared. -/
def ScriptOpResult.failed (pc : ℕ) : ScriptOpResult := ⟨false, opInvalidOpcode, [], pc⟩

/-- The length field of the push opcode `opcode` read at `pc`: the size it
declares and the offset after it, `none` where `GetScriptOp` returns `false`. -/
def readPushSize (script : CScript) (opcode : UInt8) (pc : ℕ) : Option (ℕ × ℕ) :=
  if opcode < opPushData1 then some (opcode.toNat, pc)
  else if opcode = opPushData1 then
    if iterDiff script.length pc < 1 then none else some ((script.getD pc 0).toNat, pc + 1)
  else if opcode = opPushData2 then
    if iterDiff script.length pc < 2 then none
    else some (readLE ((script.drop pc).take 2), pc + 2)
  else
    if iterDiff script.length pc < 4 then none
    else some (readLE ((script.drop pc).take 4), pc + 4)

/-- `GetScriptOp(pc, end, opcodeRet, pvchRet)` with `end` the end of
`script`. -/
def getScriptOp (script : CScript) (pc : ℕ) : ScriptOpResult :=
  if script.length ≤ pc then .failed pc else
  if iterDiff script.length pc < 1 then .failed pc else
  let opcode := script.getD pc 0
  if opcode ≤ opPushData4 then
    match readPushSize script opcode (pc + 1) with
    | none => .failed (pc + 1)
    | some (nSize, pc) =>
        if iterDiff script.length pc < 0 ∨
            (iterDiff script.length pc % 2 ^ 32).toNat < nSize then .failed pc
        else ⟨true, opcode, (script.drop pc).take nSize, pc + nSize⟩
  else ⟨true, opcode, [], pc + 1⟩

/-- A successful result as the opcode, the data and the offset after them. -/
def ScriptOpResult.toOption (r : ScriptOpResult) : Option (UInt8 × List UInt8 × ℕ) :=
  if r.ok then some (r.opcode, r.data, r.pc) else none

theorem toOption_eq_some {r : ScriptOpResult} {op : UInt8} {d : List UInt8} {pc : ℕ} :
    r.toOption = some (op, d, pc) ↔ r = ⟨true, op, d, pc⟩ := by
  obtain ⟨ok, op', d', pc'⟩ := r
  cases ok <;> simp [ScriptOpResult.toOption]

theorem toOption_eq_none {r : ScriptOpResult} : r.toOption = none ↔ r.ok = false := by
  unfold ScriptOpResult.toOption
  split_ifs with h <;> simp [h]

@[simp] theorem failed_ok (pc : ℕ) : (ScriptOpResult.failed pc).ok = false := rfl

@[simp] theorem failed_pc (pc : ℕ) : (ScriptOpResult.failed pc).pc = pc := rfl

/-! ## Iterator differences -/

/-- Below `2 ^ 31` bytes the `int32_t` difference is the number of bytes left. -/
theorem iterDiff_of_le {a b : ℕ} (h : b ≤ a) (hsmall : a - b < 2 ^ 31) :
    iterDiff a b = (a - b : ℕ) := by
  rw [iterDiff, Int.bmod, Int.emod_eq_of_lt (by omega) (by omega), if_pos (by omega)]
  omega

/-- A difference that is not negative never exceeds the bytes really left. -/
theorem iterDiff_le_sub {a b : ℕ} (h : b ≤ a) (h0 : 0 ≤ iterDiff a b) :
    iterDiff a b ≤ (a - b : ℕ) := by
  unfold iterDiff Int.bmod at *
  dsimp only at *
  -- `bmod` is the remainder, or the remainder less `2 ^ 32`
  split_ifs at * <;> omega

theorem iterDiff_lt (a b : ℕ) : iterDiff a b < 2 ^ 31 := by
  unfold iterDiff Int.bmod
  dsimp only
  split_ifs <;> omega

theorem add_le_of_le_iterDiff {a b k : ℕ} (h : b ≤ a) (hk : ¬iterDiff a b < k) : b + k ≤ a := by
  have := iterDiff_le_sub h (by omega)
  omega

/-- The payload check of `GetScriptOp`: a size that passes it fits in what is
left. -/
theorem add_le_of_payload_check {a b n : ℕ} (h : b ≤ a) (h0 : ¬iterDiff a b < 0)
    (hn : ¬(iterDiff a b % 2 ^ 32).toNat < n) : b + n ≤ a := by
  have hle := iterDiff_le_sub h (by omega)
  have hlt := iterDiff_lt a b
  omega

/-! ## `GetScriptOp` never reads past the end -/

theorem readPushSize_pc {script : CScript} {op : UInt8} {pc n pc' : ℕ}
    (h : readPushSize script op pc = some (n, pc')) (hpc : pc ≤ script.length) :
    pc ≤ pc' ∧ pc' ≤ script.length := by
  unfold readPushSize at h
  split_ifs at h <;> cases h
  · exact ⟨le_refl _, hpc⟩
  -- each length field was checked to fit before it was read
  all_goals exact ⟨by omega, add_le_of_le_iterDiff hpc ‹_›⟩

/-- Where a read leaves the offset: never before where it started, never past
the end, and past the opcode when the read succeeds. -/
theorem getScriptOp_pc_bounds (script : CScript) {pc : ℕ} (hpc : pc ≤ script.length) :
    pc ≤ (getScriptOp script pc).pc ∧ (getScriptOp script pc).pc ≤ script.length ∧
      ((getScriptOp script pc).ok = true → pc < (getScriptOp script pc).pc) := by
  unfold getScriptOp
  split_ifs with hend hdiff
  · exact ⟨le_refl pc, hpc, fun h => absurd h Bool.false_ne_true⟩
  · exact ⟨le_refl pc, hpc, fun h => absurd h Bool.false_ne_true⟩
  · dsimp only
    split_ifs with hpush
    · split
      · -- the length field runs past the end: the read fails after the opcode
        exact ⟨Nat.le_succ pc, show pc + 1 ≤ script.length by omega,
          fun h => absurd h Bool.false_ne_true⟩
      · rename_i nSize pc' hread
        have hfield := readPushSize_pc hread (by omega)
        split_ifs with hcheck
        · exact ⟨le_trans (Nat.le_succ pc) hfield.1, hfield.2, fun h => absurd h Bool.false_ne_true⟩
        · -- the data fits: the read ends after it
          rw [not_or] at hcheck
          refine ⟨show pc ≤ pc' + nSize by omega, add_le_of_payload_check hfield.2 hcheck.1 hcheck.2,
            fun _ => show pc < pc' + nSize by omega⟩
    · exact ⟨Nat.le_succ pc, show pc + 1 ≤ script.length by omega, fun _ => Nat.lt_succ_self pc⟩

/-! ## The offsets refine the list reading

On a script with fewer than `2 ^ 31` bytes left, the offset `pc` stands for
the suffix `script.drop pc`, and an offset after a read for the suffix
`getOp` leaves. -/

theorem readLE_take_one_drop {script : CScript} {pc : ℕ} (h : pc < script.length) :
    readLE ((script.drop pc).take 1) = (script.getD pc 0).toNat := by
  rw [List.drop_eq_getElem_cons h, List.take_succ_cons, List.take_zero, List.getD_eq_getElem _ _ h]
  simp [readLE]

/-- Every suffix of a script is what is left after its own offset. -/
theorem drop_length_sub_length_drop (script : CScript) (m : ℕ) :
    script.drop (script.length - (script.drop m).length) = script.drop m := by
  rw [List.length_drop]
  rcases Nat.le_total m script.length with hm | hm
  · rw [Nat.sub_sub_self hm]
  · rw [Nat.sub_eq_zero_of_le hm, Nat.sub_zero, List.drop_length, List.drop_of_length_le hm]

theorem pushSize_drop {op : UInt8} {rest r : CScript} {n : ℕ} (h : pushSize op rest = some (n, r)) :
    ∃ k, r = rest.drop k := by
  unfold pushSize at h
  dsimp only at h
  split_ifs at h <;> obtain ⟨-, rfl⟩ := Prod.mk.inj (Option.some_inj.mp h)
  · exact ⟨0, rfl⟩
  all_goals exact ⟨_, rfl⟩

theorem readPushSize_eq {script : CScript} {pc : ℕ} (hpc : pc ≤ script.length)
    (hrem : script.length - pc < 2 ^ 31) (op : UInt8) :
    readPushSize script op pc =
      (pushSize op (script.drop pc)).map fun r => (r.1, script.length - r.2.length) := by
  have hdiff := iterDiff_of_le hpc hrem
  unfold readPushSize pushSize
  by_cases hdirect : op < opPushData1
  · simp only [if_pos hdirect, Option.map_some, List.length_drop]
    congr 2
    omega
  simp only [if_neg hdirect, hdiff]
  -- the three widths of the length field
  by_cases h1 : op = opPushData1
  · simp only [if_pos h1, List.length_drop]
    by_cases hfit : 1 ≤ script.length - pc
    · rw [if_neg (by omega), if_pos hfit, Option.map_some,
        readLE_take_one_drop (by omega), List.length_drop, List.length_drop]
      congr 2
      omega
    · rw [if_pos (by omega), if_neg hfit, Option.map_none]
  by_cases h2 : op = opPushData2
  · simp only [if_neg h1, if_pos h2, List.length_drop]
    by_cases hfit : 2 ≤ script.length - pc
    · rw [if_neg (by omega), if_pos hfit, Option.map_some, List.length_drop, List.length_drop]
      congr 2
      omega
    · rw [if_pos (by omega), if_neg hfit, Option.map_none]
  · simp only [if_neg h1, if_neg h2, List.length_drop]
    by_cases hfit : 4 ≤ script.length - pc
    · rw [if_neg (by omega), if_pos hfit, Option.map_some, List.length_drop, List.length_drop]
      congr 2
      omega
    · rw [if_pos (by omega), if_neg hfit, Option.map_none]

/-- `GetScriptOp` at an offset reads what `getOp` reads from the suffix there,
when fewer than `2 ^ 31` bytes are left. -/
theorem getScriptOp_eq_getOp {script : CScript} {pc : ℕ} (hpc : pc ≤ script.length)
    (hrem : script.length - pc < 2 ^ 31) :
    (getScriptOp script pc).toOption =
      (getOp (script.drop pc)).map fun r => (r.1, r.2.1, script.length - r.2.2.length) := by
  rcases Nat.eq_or_lt_of_le hpc with hend | hlt
  · rw [getScriptOp, if_pos hend.ge, hend, List.drop_length]
    rfl
  have hdiff := iterDiff_of_le hpc hrem
  rw [getScriptOp, if_neg (by omega), if_neg (by omega), List.drop_eq_getElem_cons hlt,
    ← List.getD_eq_getElem _ 0 hlt, getOp]
  dsimp only
  by_cases hpush : script.getD pc 0 ≤ opPushData4
  · rw [if_pos hpush, if_pos hpush, readPushSize_eq (by omega) (by omega)]
    cases hsize : pushSize (script.getD pc 0) (script.drop (pc + 1)) with
    | none => rfl
    | some p =>
        obtain ⟨n, r⟩ := p
        obtain ⟨k, rfl⟩ := pushSize_drop hsize
        rw [List.drop_drop] at hsize ⊢
        -- the offset after the length field stands for the suffix it leaves
        have hsuffix := drop_length_sub_length_drop script (pc + 1 + k)
        have hL : (script.drop (pc + 1 + k)).length = script.length - (pc + 1 + k) :=
          List.length_drop
        have hdiff' : iterDiff script.length (script.length - (script.drop (pc + 1 + k)).length) =
            ((script.drop (pc + 1 + k)).length : ℕ) := by
          rw [iterDiff_of_le (Nat.sub_le _ _) (by omega)]
          omega
        simp only [Option.map_some, hdiff', hsuffix]
        generalize script.drop (pc + 1 + k) = r at hL ⊢
        have hmod : ((r.length : ℤ) % 2 ^ 32).toNat = r.length := by omega
        by_cases hfits : n ≤ r.length
        · rw [if_neg (by omega), if_pos hfits]
          simp only [ScriptOpResult.toOption, if_true, Option.map_some, List.length_drop,
            Option.some.injEq, Prod.mk.injEq, true_and]
          omega
        · rw [if_pos (by omega), if_neg hfits]
          rfl
  · rw [if_neg hpush, if_neg hpush]
    simp only [ScriptOpResult.toOption, if_true, Option.map_some, List.length_drop]
    rw [Nat.sub_sub_self (by omega)]

/-! ## When the reading fails -/

/-- The width of the length field after a push opcode. -/
def pushFieldWidth (op : UInt8) : ℕ :=
  if op < opPushData1 then 0 else if op = opPushData1 then 1 else if op = opPushData2 then 2 else 4

/-- The size a push opcode declares: the opcode itself for a direct push,
else its length field. -/
def declaredSize (op : UInt8) (rest : CScript) : ℕ :=
  if op < opPushData1 then op.toNat else readLE (rest.take (pushFieldWidth op))

/-- A push whose length field, or whose declared data, runs past the end of
the script. -/
def PushOverruns (op : UInt8) (rest : CScript) : Prop :=
  op ≤ opPushData4 ∧ rest.length < pushFieldWidth op + declaredSize op rest

/-- The list reading fails exactly on a push that overruns the script. -/
theorem getOp_eq_none_iff (op : UInt8) (rest : CScript) :
    getOp (op :: rest) = none ↔ PushOverruns op rest := by
  rw [getOp]
  unfold PushOverruns
  by_cases hpush : op ≤ opPushData4
  · rw [if_pos hpush]
    simp only [hpush, true_and]
    unfold pushSize declaredSize pushFieldWidth
    by_cases hdirect : op < opPushData1
    · simp only [if_pos hdirect, Nat.zero_add]
      split_ifs <;> simp <;> omega
    · simp only [if_neg hdirect]
      -- one, two or four bytes of length field
      generalize (if op = opPushData1 then 1 else if op = opPushData2 then 2 else 4) = w
      by_cases hfield : w ≤ rest.length
      · simp only [if_pos hfield, List.length_drop]
        split_ifs <;> simp <;> omega
      · simp only [if_neg hfield, true_iff]
        omega
  · simp [hpush]

theorem getScriptOp_fails_iff {script : CScript} {pc : ℕ} (hrem : script.length - pc < 2 ^ 31) :
    (getScriptOp script pc).ok = false ↔
      script.length ≤ pc ∨ PushOverruns (script.getD pc 0) (script.drop (pc + 1)) := by
  by_cases hend : script.length ≤ pc
  · simp [getScriptOp, hend]
  have hlt : pc < script.length := Nat.lt_of_not_le hend
  rw [← toOption_eq_none, getScriptOp_eq_getOp hlt.le hrem, Option.map_eq_none_iff,
    List.drop_eq_getElem_cons hlt, ← List.getD_eq_getElem _ 0 hlt, getOp_eq_none_iff]
  simp [hend]

/-! ## Pushes read back -/

theorem length_pushData_le (b : List UInt8) : (pushData b).length ≤ b.length + 5 := by
  unfold pushData
  split_ifs <;> simp <;> omega

/-- The first byte of a push is its length or one of the three long push
opcodes. -/
theorem pushData_eq_cons (b : List UInt8) :
    ∃ op rest, pushData b = op :: rest ∧
      (op = b.length.toUInt8 ∧ b.length < 0x4c ∨ op = opPushData1 ∨ op = opPushData2 ∨
        op = opPushData4) := by
  unfold pushData
  split_ifs with h1
  · exact ⟨_, _, rfl, .inl ⟨rfl, h1⟩⟩
  · exact ⟨_, _, rfl, .inr (.inl rfl)⟩
  · exact ⟨_, _, rfl, .inr (.inr (.inl rfl))⟩
  · exact ⟨_, _, rfl, .inr (.inr (.inr rfl))⟩

theorem getOp_cons_fst {x op : UInt8} {rest r d : List UInt8} (h : getOp (x :: rest) = some (op, d, r)) :
    op = x := by
  rw [getOp] at h
  split_ifs at h
  · split at h
    · cases h
    · split_ifs at h
      exact (Prod.mk.inj (Option.some_inj.mp h)).1.symm
  · exact (Prod.mk.inj (Option.some_inj.mp h)).1.symm

/-- After any prefix, a push written by `CScript::operator<<` reads back as
its bytes, with the offset just past them. -/
theorem getScriptOp_pushData (p b : List UInt8) (hb : b.length + 5 < 2 ^ 31) :
    ∃ op, (op = b.length.toUInt8 ∧ b.length < 0x4c ∨ op = opPushData1 ∨ op = opPushData2 ∨
        op = opPushData4) ∧
      getScriptOp (p ++ pushData b) p.length = ⟨true, op, b, (p ++ pushData b).length⟩ := by
  have hlen := length_pushData_le b
  obtain ⟨op, -, hget⟩ := @getOp_pushData b (by omega) []
  rw [List.append_nil] at hget
  have href := @getScriptOp_eq_getOp (p ++ pushData b) p.length (by simp) (by simp; omega)
  rw [List.drop_left, hget, Option.map_some, List.length_nil, Nat.sub_zero] at href
  obtain ⟨op', rest, hcons, hop⟩ := pushData_eq_cons b
  rw [hcons] at hget
  refine ⟨op, getOp_cons_fst hget ▸ hop, toOption_eq_some.mp href⟩

/-- Pushes and `GetScriptOp` agree. After any prefix, a push of fewer than
`2 ^ 31 - 5` bytes reads back as one of the four push opcodes and its bytes,
leaving `pc` just past it; on every script `pc` never passes the end; and
with fewer than `2 ^ 31` bytes left, the reading fails exactly at the end or
on a push whose length field or data overruns the script. -/
theorem getScriptOp_push_round_trip :
    (∀ (p b : List UInt8), b.length + 5 < 2 ^ 31 →
      ∃ op, (op = b.length.toUInt8 ∧ b.length < 0x4c ∨ op = opPushData1 ∨ op = opPushData2 ∨
          op = opPushData4) ∧
        getScriptOp (p ++ pushData b) p.length = ⟨true, op, b, (p ++ pushData b).length⟩) ∧
    (∀ (script : CScript) (pc : ℕ), pc ≤ script.length →
      (getScriptOp script pc).pc ≤ script.length) ∧
    ∀ (script : CScript) (pc : ℕ), script.length - pc < 2 ^ 31 →
      ((getScriptOp script pc).ok = false ↔
        script.length ≤ pc ∨ PushOverruns (script.getD pc 0) (script.drop (pc + 1))) :=
  ⟨getScriptOp_pushData, fun script _ hpc => (getScriptOp_pc_bounds script hpc).2.1,
    fun _ _ => getScriptOp_fails_iff⟩

theorem getScriptOp_push_round_trip_small :
    (∃ op, (op = [1, 2, 3].length.toUInt8 ∧ [1, 2, 3].length < 0x4c ∨ op = opPushData1 ∨
        op = opPushData2 ∨ op = opPushData4) ∧
      getScriptOp ([opDup] ++ pushData [1, 2, 3]) [opDup].length =
        ⟨true, op, [1, 2, 3], ([opDup] ++ pushData [1, 2, 3]).length⟩) ∧
    ((getScriptOp [opPushData1, 5, 1] 0).ok = false ↔
      [opPushData1, 5, 1].length ≤ 0 ∨
        PushOverruns ([opPushData1, 5, 1].getD 0 0) ([opPushData1, 5, 1].drop (0 + 1))) :=
  ⟨getScriptOp_push_round_trip.1 [opDup] [1, 2, 3] (by decide),
    getScriptOp_push_round_trip.2.2 [opPushData1, 5, 1] 0 (by decide)⟩

/-- A push of `2 ^ 31` bytes: the difference `end - pc` over its `2 ^ 31 + 5`
bytes is negative as an `int32_t`, so `GetScriptOp` fails at its first byte,
where the list reading takes the whole push. -/
theorem getScriptOp_long_push_fails :
    (getScriptOp (pushData (List.replicate (2 ^ 31) 0)) 0).ok = false ∧
      getOp (pushData (List.replicate (2 ^ 31) 0)) =
        some (opPushData4, List.replicate (2 ^ 31) 0, []) := by
  have hlen : (List.replicate (2 ^ 31) (0 : UInt8)).length = 2 ^ 31 := List.length_replicate
  have hpush : pushData (List.replicate (2 ^ 31) 0) =
      opPushData4 :: (leBytes 4 (2 ^ 31) ++ List.replicate (2 ^ 31) 0) := by
    rw [pushData, hlen, if_neg (show ¬2 ^ 31 < 0x4c by omega),
      if_neg (show ¬2 ^ 31 ≤ 0xff by omega), if_neg (show ¬2 ^ 31 ≤ 0xffff by omega),
      List.cons_append]
  have hscript : (pushData (List.replicate (2 ^ 31) (0 : UInt8))).length = 2 ^ 31 + 5 := by
    rw [hpush, List.length_cons, List.length_append, length_leBytes, List.length_replicate]
    omega
  constructor
  · have hdiff : iterDiff (2 ^ 31 + 5) 0 < 1 := by decide
    rw [getScriptOp, hscript, if_neg (show ¬2 ^ 31 + 5 ≤ 0 by omega), if_pos hdiff]
    rfl
  · have hsize : pushSize opPushData4 (leBytes 4 (2 ^ 31) ++ List.replicate (2 ^ 31) 0) =
        some ((List.replicate (2 ^ 31) (0 : UInt8)).length, List.replicate (2 ^ 31) 0 ++ []) := by
      rw [hlen, List.append_nil]
      exact pushSize_leBytes (by decide) (by decide) (by decide) _
    rw [hpush]
    exact getOp_of_pushSize (by decide) hsize

end Metrix
