import Metrix.Consensus.Converter

/-! The sender signature of an `OP_SENDER` output (`CScript::ReplaceParam`,
`UpdateSenderSig` and `WithoutSenderSig` in `script/script.cpp` and
`script/script.h`). `ReplaceParam` reads the script opcode by opcode,
keeping an iterator at the start of each; at the first `OP_SENDER` it
rebuilds the script with the opcode one place before replaced by a push of
the new signature, if at least two opcodes came before. An iterator into the
script is the suffix it points to.

A script that `GetScriptOp` reads as opcodes, none of them `OP_SENDER`, then
an `OP_SENDER`, then the rest, is a `SplitAtOp`; every script in which `Find`
counts an `OP_SENDER` has one such split, and only one. On a split script the
results of `UpdateSenderSig` and `WithoutSenderSig` are read off the split. -/

namespace Metrix

open Opcode

/-- The loop of `ReplaceParam`: `opcodes` holds the suffixes at the start of
each opcode read so far and `pc` the rest of the script. -/
def replaceParamLoop (s : CScript) (findOp : UInt8) (posBefore : ℕ) (vchParam : List UInt8)
    (opcodes : List CScript) (pc : CScript) : Option CScript :=
  match hop : getOp pc with
  | none => none
  | some (opcode, _, rest) =>
      if opcode = findOp then
        if posBefore + 1 < opcodes.length then
          some (s.take (s.length - (opcodes.getD (opcodes.length - 1 - posBefore) []).length) ++
            pushData vchParam ++ opcodes.getD (opcodes.length - posBefore) [])
        else none
      else
        have : rest.length < pc.length := getOp_length hop
        replaceParamLoop s findOp posBefore vchParam (opcodes ++ [rest]) rest
termination_by pc.length

/-- `CScript::ReplaceParam`; a negative `posBefore` fails. -/
def replaceParam (s : CScript) (findOp : UInt8) (posBefore : ℤ) (vchParam : List UInt8) :
    Option CScript :=
  if posBefore < 0 then none else replaceParamLoop s findOp posBefore.toNat vchParam [s] s

/-- `CScript::UpdateSenderSig`: the script with the push before `OP_SENDER`
replaced by `scriptSig`. -/
def updateSenderSig (s : CScript) (scriptSig : List UInt8) : Option CScript :=
  replaceParam s opSender 1 scriptSig

/-- `CScript::WithoutSenderSig`: the sender signature emptied, or the script
itself where `UpdateSenderSig` fails. -/
def withoutSenderSig (s : CScript) : CScript :=
  (updateSenderSig s []).getD s

/-! ## Opcodes as byte strings -/

/-- The bytes after a push opcode that give its length: the length is read
from them alone, whatever follows. -/
theorem pushSize_chunk {op : UInt8} {tail r : CScript} {n : ℕ}
    (h : pushSize op tail = some (n, r)) :
    ∃ field, tail = field ++ r ∧ ∀ t, pushSize op (field ++ t) = some (n, t) := by
  unfold pushSize at h ⊢
  by_cases hsmall : op < opPushData1
  · rw [if_pos hsmall] at h
    obtain ⟨rfl, rfl⟩ := Prod.mk.inj (Option.some_inj.mp h)
    exact ⟨[], rfl, fun t => by rw [if_pos hsmall]; rfl⟩
  · simp only [if_neg hsmall] at h ⊢
    generalize (if op = opPushData1 then 1 else if op = opPushData2 then 2 else 4) = w at h ⊢
    split_ifs at h with hw
    obtain ⟨rfl, rfl⟩ := Prod.mk.inj (Option.some_inj.mp h)
    have hlen : (tail.take w).length = w := List.length_take_of_le hw
    refine ⟨tail.take w, (List.take_append_drop w tail).symm, fun t => ?_⟩
    rw [if_pos (by simp [hlen]), List.take_left' hlen, List.drop_left' hlen]

/-- `c` is one opcode `op` for `GetScriptOp`, read the same whatever follows. -/
def OpChunk (op : UInt8) (c : CScript) : Prop :=
  ∃ data, ∀ t, getOp (c ++ t) = some (op, data, t)

/-- `GetScriptOp` reads only the bytes of the opcode it returns. -/
theorem getOp_chunk {s rest : CScript} {op : UInt8} {data : List UInt8}
    (h : getOp s = some (op, data, rest)) : ∃ c, s = c ++ rest ∧ OpChunk op c := by
  cases s with
  | nil => cases h
  | cons b tail =>
      by_cases hpush : b ≤ opPushData4
      · rw [getOp, if_pos hpush] at h
        split at h
        · cases h
        · rename_i n r hsize
          split_ifs at h with hn
          obtain ⟨rfl, rfl, rfl⟩ : b = op ∧ r.take n = data ∧ r.drop n = rest := by
            simpa using h
          obtain ⟨field, rfl, hfield⟩ := pushSize_chunk hsize
          have hlen : (r.take n).length = n := List.length_take_of_le hn
          refine ⟨b :: (field ++ r.take n), by simp, r.take n, fun t => ?_⟩
          rw [List.cons_append, List.append_assoc]
          exact getOp_of_pushSize hpush (by rw [hlen]; exact hfield _)
      · have hop := UInt8.not_le.mp hpush
        rw [getOp_of_not_push hop] at h
        obtain ⟨rfl, rfl, rfl⟩ : b = op ∧ [] = data ∧ tail = rest := by simpa using h
        exact ⟨[b], rfl, [], getOp_of_not_push hop⟩

/-- Two opcode chunks that start the same bytes are the same opcode. -/
theorem OpChunk.eq_of_append_eq {op₁ op₂ : UInt8} {c₁ c₂ t₁ t₂ : CScript}
    (hc₁ : OpChunk op₁ c₁) (hc₂ : OpChunk op₂ c₂) (h : c₁ ++ t₁ = c₂ ++ t₂) :
    op₁ = op₂ ∧ c₁ = c₂ ∧ t₁ = t₂ := by
  obtain ⟨d₁, hd₁⟩ := hc₁
  obtain ⟨d₂, hd₂⟩ := hc₂
  have hread := hd₁ t₁
  rw [h, hd₂ t₂] at hread
  obtain ⟨rfl, -, rfl⟩ : op₂ = op₁ ∧ d₂ = d₁ ∧ t₂ = t₁ := by simpa using hread
  exact ⟨rfl, List.append_cancel_right h, rfl⟩

/-- Every push that `CScript::operator<<` writes is one opcode, not an
`OP_SENDER`. -/
theorem opChunk_pushData {b : List UInt8} (hb : b.length < 2 ^ 32) :
    ∃ op, op ≠ opSender ∧ OpChunk op (pushData b) := by
  obtain ⟨op, hop, hread⟩ := getOp_pushData hb []
  obtain ⟨c, hc, hchunk⟩ := getOp_chunk hread
  simp only [List.append_nil] at hc
  refine ⟨op, fun e => absurd hop (by rw [e]; decide), ?_⟩
  rw [hc]
  exact hchunk

/-! ## Scripts split at their first `op` -/

/-- Opcodes, none of them `op`. -/
def OpsOtherThan (op : UInt8) (pre : List CScript) : Prop :=
  ∀ c ∈ pre, ∃ op', op' ≠ op ∧ OpChunk op' c

theorem OpsOtherThan.of_cons {op : UInt8} {c : CScript} {pre : List CScript}
    (h : OpsOtherThan op (c :: pre)) : OpsOtherThan op pre :=
  fun c' hc' => h c' (List.mem_cons_of_mem _ hc')

/-- `s` as `GetScriptOp` reads it: the opcodes `pre`, none of them `op`, then
an `op` at `c`, then the rest `t`. -/
structure SplitAtOp (op : UInt8) (s : CScript) (pre : List CScript) (c t : CScript) : Prop where
  eq : s = pre.flatten ++ c ++ t
  other : OpsOtherThan op pre
  found : OpChunk op c

/-- The split of the script after the first opcode. -/
theorem SplitAtOp.tail {op : UInt8} {s x c t : CScript} {pre : List CScript}
    (h : SplitAtOp op s (x :: pre) c t) :
    s = x ++ (pre.flatten ++ c ++ t) ∧ SplitAtOp op (pre.flatten ++ c ++ t) pre c t :=
  ⟨by simp [h.eq], ⟨rfl, h.other.of_cons, h.found⟩⟩

theorem findOp_eq_zero_of_getOp {op : UInt8} {s : CScript} (h : getOp s = none) :
    findOp op s = 0 := by
  rw [findOp]
  split
  · rfl
  · rename_i heq
    rw [h] at heq
    cases heq

theorem findOp_opsOtherThan {op : UInt8} {pre : List CScript} (hpre : OpsOtherThan op pre) (t : CScript) :
    findOp op (pre.flatten ++ t) = findOp op t := by
  induction pre with
  | nil => rfl
  | cons c pre ih =>
      obtain ⟨op', hne, d, hc⟩ := hpre c List.mem_cons_self
      rw [List.flatten_cons, List.append_assoc, findOp_of_getOp (hc _), if_neg hne, Nat.zero_add]
      exact ih hpre.of_cons

/-- `Find` counts the split's `op` and those after it. -/
theorem SplitAtOp.findOp_eq {op : UInt8} {s c t : CScript} {pre : List CScript}
    (h : SplitAtOp op s pre c t) : findOp op s = 1 + findOp op t := by
  obtain ⟨d, hc⟩ := h.found
  rw [h.eq, List.append_assoc, findOp_opsOtherThan h.other, findOp_of_getOp (hc t), if_pos rfl]

/-- A script in which `Find` counts an `op` splits at the first one. -/
theorem exists_splitAtOp {op : UInt8} {s : CScript} (h : findOp op s ≠ 0) :
    ∃ pre c t, SplitAtOp op s pre c t := by
  induction s using findOp.induct with
  | case1 s hnone => exact absurd (findOp_eq_zero_of_getOp hnone) h
  | case2 s op' d rest hget _ ih =>
      obtain ⟨x, rfl, hx⟩ := getOp_chunk hget
      by_cases hop : op' = op
      · subst hop
        exact ⟨[], x, rest, ⟨by simp, fun _ hmem => absurd hmem List.not_mem_nil, hx⟩⟩
      · rw [findOp_of_getOp hget, if_neg hop, Nat.zero_add] at h
        obtain ⟨pre, c, t, hsplit⟩ := ih h
        refine ⟨x :: pre, c, t, ⟨by simp [hsplit.eq], ?_, hsplit.found⟩⟩
        intro c' hc'
        rcases List.mem_cons.mp hc' with rfl | hmem
        · exact ⟨op', hop, hx⟩
        · exact hsplit.other c' hmem

/-- A script splits at its first `op` in one way only. -/
theorem SplitAtOp.unique {op : UInt8} {s c₁ c₂ t₁ t₂ : CScript} {pre₁ pre₂ : List CScript}
    (h₁ : SplitAtOp op s pre₁ c₁ t₁) (h₂ : SplitAtOp op s pre₂ c₂ t₂) :
    pre₁ = pre₂ ∧ c₁ = c₂ ∧ t₁ = t₂ := by
  induction pre₁ generalizing s pre₂ with
  | nil =>
      cases pre₂ with
      | nil =>
          have heq : c₁ ++ t₁ = c₂ ++ t₂ := by simpa [h₂.eq] using h₁.eq.symm
          obtain ⟨-, rfl, rfl⟩ := h₁.found.eq_of_append_eq h₂.found heq
          exact ⟨rfl, rfl, rfl⟩
      | cons x₂ pre₂ =>
          obtain ⟨op₂, hne, hx₂⟩ := h₂.other x₂ List.mem_cons_self
          have heq : c₁ ++ t₁ = x₂ ++ (pre₂.flatten ++ c₂ ++ t₂) := by
            rw [← h₂.tail.1]
            simpa using h₁.eq.symm
          exact absurd (h₁.found.eq_of_append_eq hx₂ heq).1.symm hne
  | cons x₁ pre₁ ih =>
      cases pre₂ with
      | nil =>
          obtain ⟨op₁, hne, hx₁⟩ := h₁.other x₁ List.mem_cons_self
          have heq : c₂ ++ t₂ = x₁ ++ (pre₁.flatten ++ c₁ ++ t₁) := by
            rw [← h₁.tail.1]
            simpa using h₂.eq.symm
          exact absurd (h₂.found.eq_of_append_eq hx₁ heq).1.symm hne
      | cons x₂ pre₂ =>
          obtain ⟨op₁, -, hx₁⟩ := h₁.other x₁ List.mem_cons_self
          obtain ⟨op₂, -, hx₂⟩ := h₂.other x₂ List.mem_cons_self
          obtain ⟨hs₁, hsplit₁⟩ := h₁.tail
          obtain ⟨hs₂, hsplit₂⟩ := h₂.tail
          obtain ⟨-, rfl, hrest⟩ := hx₁.eq_of_append_eq hx₂ (hs₁.symm.trans hs₂)
          rw [← hrest] at hsplit₂
          obtain ⟨rfl, rfl, rfl⟩ := ih hsplit₁ hsplit₂
          exact ⟨rfl, rfl, rfl⟩

/-! ## `ReplaceParam` on a split script -/

section ReplaceParam

variable {s : CScript} {findOp : UInt8} {posBefore : ℕ} {vchParam : List UInt8}

theorem replaceParamLoop_other {op : UInt8} {pc rest : CScript} {data : List UInt8}
    (opcodes : List CScript) (h : getOp pc = some (op, data, rest)) (hne : op ≠ findOp) :
    replaceParamLoop s findOp posBefore vchParam opcodes pc =
      replaceParamLoop s findOp posBefore vchParam (opcodes ++ [rest]) rest := by
  rw [replaceParamLoop]
  split
  · rename_i heq
    rw [h] at heq
    cases heq
  · rename_i op' data' rest' heq
    rw [h] at heq
    obtain ⟨rfl, rfl, rfl⟩ : op = op' ∧ data = data' ∧ rest = rest' := by simpa using heq
    rw [if_neg hne]

theorem replaceParamLoop_found {pc rest : CScript} {data : List UInt8} (opcodes : List CScript)
    (h : getOp pc = some (findOp, data, rest)) :
    replaceParamLoop s findOp posBefore vchParam opcodes pc =
      if posBefore + 1 < opcodes.length then
        some (s.take (s.length - (opcodes.getD (opcodes.length - 1 - posBefore) []).length) ++
          pushData vchParam ++ opcodes.getD (opcodes.length - posBefore) [])
      else none := by
  rw [replaceParamLoop]
  split
  · rename_i heq
    rw [h] at heq
    cases heq
  · rename_i op' data' rest' heq
    rw [h] at heq
    obtain ⟨rfl, rfl, rfl⟩ : findOp = op' ∧ data = data' ∧ rest = rest' := by simpa using heq
    rw [if_pos rfl]

/-- Reading opcodes other than `findOp` only records where each next one
starts. -/
theorem replaceParamLoop_opsOtherThan {pre : List CScript} (hpre : OpsOtherThan findOp pre)
    (opcodes : List CScript) (t : CScript) :
    replaceParamLoop s findOp posBefore vchParam opcodes (pre.flatten ++ t) =
      replaceParamLoop s findOp posBefore vchParam
        (opcodes ++ pre.tails.tail.map (·.flatten ++ t)) t := by
  induction pre generalizing opcodes with
  | nil => simp
  | cons x pre ih =>
      obtain ⟨op, hne, d, hx⟩ := hpre x List.mem_cons_self
      rw [List.flatten_cons, List.append_assoc, replaceParamLoop_other opcodes (hx _) hne,
        ih hpre.of_cons]
      cases pre <;> simp

end ReplaceParam

/-- The start of the `i`-th opcode, counting from 0, among the starts that
`ReplaceParam` records. -/
theorem getD_map_tails {α β : Type} (f : List α → β) (l : List α) {i : ℕ} (hi : i ≤ l.length)
    (d : β) : (l.tails.map f).getD i d = f (l.drop i) := by
  rw [List.getD_eq_getElem?_getD, List.getElem?_map,
    List.getElem?_eq_getElem (by simp only [List.length_tails]; omega), List.getElem_tails]
  rfl

/-- `UpdateSenderSig` on a script split at its first `OP_SENDER`: the last
opcode before it is replaced by a push of the signature, when at least two
opcodes come before. -/
theorem updateSenderSig_of_split {s c t : CScript} {pre : List CScript}
    (h : SplitAtOp opSender s pre c t) (vchParam : List UInt8) :
    updateSenderSig s vchParam =
      if 2 ≤ pre.length then some (pre.dropLast.flatten ++ pushData vchParam ++ c ++ t)
      else none := by
  obtain ⟨d, hc⟩ := h.found
  have hs : s = pre.flatten ++ (c ++ t) := by rw [h.eq, List.append_assoc]
  -- the starts recorded before `OP_SENDER`: of each opcode of `pre`, then of `c`
  have hstarts : [s] ++ pre.tails.tail.map (·.flatten ++ (c ++ t)) =
      pre.tails.map (·.flatten ++ (c ++ t)) := by
    cases pre <;> simp [hs]
  have hloop : replaceParamLoop s opSender 1 vchParam [s] s =
      replaceParamLoop s opSender 1 vchParam (pre.tails.map (·.flatten ++ (c ++ t))) (c ++ t) := by
    rw [← hstarts, ← replaceParamLoop_opsOtherThan h.other, ← hs]
  have hreplace : updateSenderSig s vchParam = replaceParamLoop s opSender 1 vchParam [s] s := by
    rw [updateSenderSig, replaceParam, if_neg (by decide)]
    rfl
  rw [hreplace, hloop, replaceParamLoop_found _ (hc t)]
  simp only [List.length_map, List.length_tails]
  by_cases h2 : 2 ≤ pre.length
  · rw [if_pos (by omega), if_pos h2, getD_map_tails _ _ (by omega),
      getD_map_tails _ _ (by omega)]
    -- the script up to the last opcode of `pre`
    have hfront : s.take (s.length - ((pre.drop (pre.length + 1 - 1 - 1)).flatten ++
        (c ++ t)).length) = pre.dropLast.flatten := by
      have hsplit : s = (pre.take (pre.length - 1)).flatten ++
          ((pre.drop (pre.length - 1)).flatten ++ (c ++ t)) := by
        rw [← List.append_assoc, ← List.flatten_append, List.take_append_drop, hs]
      rw [List.dropLast_eq_take, show pre.length + 1 - 1 - 1 = pre.length - 1 by omega]
      conv_lhs => rw [hsplit]
      rw [List.take_left' (by simp)]
    rw [hfront, show pre.length + 1 - 1 = pre.length by omega, List.drop_length]
    simp
  · rw [if_neg (by omega), if_neg h2]

theorem replaceParamLoop_of_findOp_eq_zero {s : CScript} {findOp : UInt8} {posBefore : ℕ}
    {vchParam : List UInt8} {pc : CScript} (h : Metrix.findOp findOp pc = 0)
    (opcodes : List CScript) : replaceParamLoop s findOp posBefore vchParam opcodes pc = none := by
  induction pc using Metrix.findOp.induct generalizing opcodes with
  | case1 pc hnone =>
      rw [replaceParamLoop]
      split
      · rfl
      · rename_i heq
        rw [hnone] at heq
        cases heq
  | case2 pc op d rest hget _ ih =>
      rw [findOp_of_getOp hget] at h
      have hne : op ≠ findOp := fun e => by simp [e] at h
      rw [replaceParamLoop_other opcodes hget hne]
      exact ih (by simpa [hne] using h) _

/-- `UpdateSenderSig` succeeds only on a script split at its first
`OP_SENDER` with at least two opcodes before it. -/
theorem exists_split_of_updateSenderSig {s s' : CScript} {sig : List UInt8}
    (h : updateSenderSig s sig = some s') :
    ∃ pre c t, SplitAtOp opSender s pre c t ∧ 2 ≤ pre.length ∧
      s' = pre.dropLast.flatten ++ pushData sig ++ c ++ t := by
  by_cases hfind : findOp opSender s = 0
  · rw [updateSenderSig, replaceParam, if_neg (by decide)] at h
    exact absurd h (by
      rw [show (1 : ℤ).toNat = 1 from rfl, replaceParamLoop_of_findOp_eq_zero hfind]
      simp)
  obtain ⟨pre, c, t, hsplit⟩ := exists_splitAtOp hfind
  rw [updateSenderSig_of_split hsplit] at h
  split_ifs at h with h2
  exact ⟨pre, c, t, hsplit, h2, (Option.some_inj.mp h).symm⟩

/-! ## `WithoutSenderSig` -/

section WithoutSenderSig

variable {s c t : CScript} {pre : List CScript}

/-- Replacing the last opcode before the split's `op` by another opcode that
is not `op` keeps the split. -/
theorem SplitAtOp.replaceLast {op : UInt8} (h : SplitAtOp op s pre c t) {x : CScript}
    (hx : ∃ op', op' ≠ op ∧ OpChunk op' x) :
    SplitAtOp op (pre.dropLast.flatten ++ x ++ c ++ t) (pre.dropLast ++ [x]) c t := by
  refine ⟨by simp, fun c' hc' => ?_, h.found⟩
  rcases List.mem_append.mp hc' with hmem | hmem
  · exact h.other c' (List.dropLast_subset _ hmem)
  · rw [List.mem_singleton.mp hmem]
    exact hx

theorem length_dropLast_append {α : Type} {l : List α} (hl : 2 ≤ l.length) (x : α) :
    2 ≤ (l.dropLast ++ [x]).length := by
  simp only [List.length_append, List.length_dropLast, List.length_singleton]
  omega

theorem pushData_nil : pushData [] = [0] := rfl

theorem withoutSenderSig_of_split (h : SplitAtOp opSender s pre c t) (h2 : 2 ≤ pre.length) :
    withoutSenderSig s = pre.dropLast.flatten ++ [0] ++ c ++ t := by
  rw [withoutSenderSig, updateSenderSig_of_split h, if_pos h2, pushData_nil]
  rfl

theorem withoutSenderSig_of_length_lt (h : SplitAtOp opSender s pre c t) (h2 : pre.length < 2) :
    withoutSenderSig s = s := by
  rw [withoutSenderSig, updateSenderSig_of_split h, if_neg (by omega)]
  rfl

theorem withoutSenderSig_of_findOp_eq_zero (h : findOp opSender s = 0) : withoutSenderSig s = s := by
  rw [withoutSenderSig, updateSenderSig, replaceParam, if_neg (by decide)]
  show (replaceParamLoop s opSender 1 [] [s] s).getD s = s
  rw [replaceParamLoop_of_findOp_eq_zero h]
  rfl

/-- The split of `WithoutSenderSig`: the signature slot holds `OP_0`. -/
theorem SplitAtOp.withoutSenderSig (h : SplitAtOp opSender s pre c t) :
    SplitAtOp opSender (pre.dropLast.flatten ++ [0] ++ c ++ t) (pre.dropLast ++ [[0]]) c t :=
  h.replaceLast (pushData_nil ▸ opChunk_pushData (by simp))

/-- The signature pushed in the slot is what `WithoutSenderSig` then
empties. -/
theorem withoutSenderSig_replaceLast (h : SplitAtOp opSender s pre c t) (h2 : 2 ≤ pre.length)
    {sig : List UInt8} (hsig : sig.length < 2 ^ 32) :
    withoutSenderSig (pre.dropLast.flatten ++ pushData sig ++ c ++ t) = withoutSenderSig s := by
  have hsplit := h.replaceLast (opChunk_pushData hsig)
  rw [withoutSenderSig_of_split hsplit (length_dropLast_append h2 _), withoutSenderSig_of_split h h2,
    List.dropLast_concat]

/-- `WithoutSenderSig` is idempotent, on every script. -/
theorem withoutSenderSig_idem (s : CScript) :
    withoutSenderSig (withoutSenderSig s) = withoutSenderSig s := by
  by_cases hfind : findOp opSender s = 0
  · rw [withoutSenderSig_of_findOp_eq_zero hfind, withoutSenderSig_of_findOp_eq_zero hfind]
  obtain ⟨pre, c, t, h⟩ := exists_splitAtOp hfind
  by_cases h2 : 2 ≤ pre.length
  · rw [withoutSenderSig_of_split h h2,
      withoutSenderSig_of_split h.withoutSenderSig (length_dropLast_append h2 _),
      List.dropLast_concat]
  · rw [withoutSenderSig_of_length_lt h (by omega), withoutSenderSig_of_length_lt h (by omega)]

/-- Two scripts with at least two opcodes before their first `OP_SENDER`
lose the same sender signature exactly when they agree but for the last
opcode before it. -/
theorem withoutSenderSig_eq_iff {s₁ s₂ c₁ c₂ t₁ t₂ : CScript} {pre₁ pre₂ : List CScript}
    (h₁ : SplitAtOp opSender s₁ pre₁ c₁ t₁) (h₁2 : 2 ≤ pre₁.length)
    (h₂ : SplitAtOp opSender s₂ pre₂ c₂ t₂) (h₂2 : 2 ≤ pre₂.length) :
    withoutSenderSig s₁ = withoutSenderSig s₂ ↔ pre₁.dropLast = pre₂.dropLast ∧ c₁ ++ t₁ = c₂ ++ t₂ := by
  rw [withoutSenderSig_of_split h₁ h₁2, withoutSenderSig_of_split h₂ h₂2]
  constructor
  · intro heq
    have hsplit₂ := h₂.withoutSenderSig
    rw [← heq] at hsplit₂
    obtain ⟨hpre, rfl, rfl⟩ := h₁.withoutSenderSig.unique hsplit₂
    exact ⟨List.append_cancel_right hpre, rfl⟩
  · rintro ⟨hpre, hrest⟩
    simp only [List.append_assoc] at hrest ⊢
    rw [hpre, hrest]

/-- Replacing the sender signature keeps the one `OP_SENDER`. -/
theorem hasOpSender_of_updateSenderSig {s s' : CScript} {sig : List UInt8}
    (hsig : sig.length < 2 ^ 32) (h : updateSenderSig s sig = some s') :
    hasOpSender s' = hasOpSender s := by
  obtain ⟨pre, c, t, hsplit, -, rfl⟩ := exists_split_of_updateSenderSig h
  have hsplit' := hsplit.replaceLast (opChunk_pushData hsig)
  simp only [hasOpSender, hsplit.findOp_eq, hsplit'.findOp_eq]

/-- What `UpdateSenderSig` writes, `WithoutSenderSig` forgets. -/
theorem withoutSenderSig_of_updateSenderSig {s s' : CScript} {sig : List UInt8}
    (hsig : sig.length < 2 ^ 32) (h : updateSenderSig s sig = some s') :
    withoutSenderSig s' = withoutSenderSig s := by
  obtain ⟨pre, c, t, hsplit, h2, rfl⟩ := exists_split_of_updateSenderSig h
  exact withoutSenderSig_replaceLast hsplit h2 hsig

/-- Every opcode takes a byte, so emptying the signature slot never
lengthens the script. -/
theorem length_withoutSenderSig_le (s : CScript) : (withoutSenderSig s).length ≤ s.length := by
  by_cases hfind : findOp opSender s = 0
  · rw [withoutSenderSig_of_findOp_eq_zero hfind]
  obtain ⟨pre, c, t, h⟩ := exists_splitAtOp hfind
  by_cases h2 : 2 ≤ pre.length
  · have hne : pre ≠ [] := List.ne_nil_of_length_pos (by omega)
    obtain ⟨op, -, d, hlast⟩ := h.other (pre.getLast hne) (List.getLast_mem hne)
    have hpos : 0 < (pre.getLast hne).length := by simpa using getOp_length (hlast [])
    have hs : s = pre.dropLast.flatten ++ pre.getLast hne ++ c ++ t := by
      rw [h.eq]
      conv_lhs => rw [← List.dropLast_append_getLast hne]
      simp
    rw [withoutSenderSig_of_split h h2]
    conv_rhs => rw [hs]
    simp only [List.length_append, List.length_singleton]
    omega
  · rw [withoutSenderSig_of_length_lt h (by omega)]

end WithoutSenderSig

end Metrix
