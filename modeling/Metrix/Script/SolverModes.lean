import Metrix.Script.Standard

/-! The two modes of `Solver`: the mempool mode, `contractConsensus = false`,
and the consensus mode used at the template stage. They differ only in the
bounds on the gas limit and the gas price, where the mempool's bounds are the
tighter ones; so every script the mempool solves is solved the same way for
consensus. -/

namespace Metrix

open Opcode

/-- The gas test gives up or goes on with the state it was given. -/
theorem gasSlot_cases (vch : List UInt8) (least : ℕ) (most : Option ℕ) (st : MatchState) :
    gasSlot vch least most st = .nonstandard ∨ gasSlot vch least most st = .next st := by
  unfold gasSlot
  split
  · exact .inl rfl
  · split
    · exact .inl rfl
    · split
      · split
        · exact .inl rfl
        · exact .inr rfl
      · exact .inr rfl

/-- A gas value that passes a lower bound and an upper bound passes looser
ones. -/
theorem gasSlot_weaken {vch : List UInt8} {least least' : ℕ} {most most' : Option ℕ}
    {st : MatchState} (hleast : least' ≤ least)
    (hmost : ∀ m', most' = some m' → ∃ m, most = some m ∧ m ≤ m')
    (h : gasSlot vch least most st = .next st) : gasSlot vch least' most' st = .next st := by
  unfold gasSlot at h ⊢
  cases hval : vchToUInt64 vch with
  | none => simp [hval] at h
  | some val =>
      simp only [hval] at h ⊢
      split_ifs at h with hlow
      have hlow' : ¬(st.rootVM ≠ 0 ∧ val < least') := fun ⟨h0, hv⟩ => hlow ⟨h0, by omega⟩
      rw [if_neg hlow']
      cases most' with
      | none => rfl
      | some m' =>
          obtain ⟨m, rfl, hm⟩ := hmost m' rfl
          simp only at h ⊢
          split_ifs at h with hm'
          rw [if_neg (by omega)]

/-- Away from the gas slots the mode is not read. -/
theorem matchSlot_of_not_gas {allowEmptySenderSig : Bool} {opcode2 : UInt8}
    (hlimit : opcode2 ≠ opGasLimit) (hprice : opcode2 ≠ opGasPrice) (cc cc' : Bool)
    (opcode1 : UInt8) (vch1 : List UInt8) (st : MatchState) :
    matchSlot cc allowEmptySenderSig opcode2 opcode1 vch1 st =
      matchSlot cc' allowEmptySenderSig opcode2 opcode1 vch1 st := by
  simp only [matchSlot, if_neg hlimit, if_neg hprice]

theorem matchSlot_gasLimit (cc allowEmptySenderSig : Bool) (opcode1 : UInt8)
    (vch1 : List UInt8) (st : MatchState) :
    matchSlot cc allowEmptySenderSig opGasLimit opcode1 vch1 st =
      if cc then gasSlot vch1 1 (some maxBlockGasLimitDGP) st
      else gasSlot vch1 standardMinimumGasLimit (some (defaultBlockGasLimitDGP / 2)) st := by
  rw [matchSlot, if_neg (by decide), if_neg (by decide), if_neg (by decide), if_neg (by decide),
    if_pos rfl]

theorem matchSlot_gasPrice (cc allowEmptySenderSig : Bool) (opcode1 : UInt8)
    (vch1 : List UInt8) (st : MatchState) :
    matchSlot cc allowEmptySenderSig opGasPrice opcode1 vch1 st =
      if cc then gasSlot vch1 1 none st else gasSlot vch1 standardMinimumGasPrice none st := by
  rw [matchSlot, if_neg (by decide), if_neg (by decide), if_neg (by decide), if_neg (by decide),
    if_neg (by decide), if_pos rfl]

/-- One step of the template loop: where the mempool mode does not give up,
the consensus mode takes the same step. -/
theorem matchSlot_consensus (allowEmptySenderSig : Bool) (opcode2 opcode1 : UInt8)
    (vch1 : List UInt8) (st : MatchState)
    (h : matchSlot false allowEmptySenderSig opcode2 opcode1 vch1 st ≠ .nonstandard) :
    matchSlot true allowEmptySenderSig opcode2 opcode1 vch1 st =
      matchSlot false allowEmptySenderSig opcode2 opcode1 vch1 st := by
  by_cases hlimit : opcode2 = opGasLimit
  -- The gas limit: at least 1 and at most `MAX_BLOCK_GAS_LIMIT_DGP`, against
  -- at least `STANDARD_MINIMUM_GAS_LIMIT` and at most half the default block.
  · subst hlimit
    simp only [matchSlot_gasLimit, Bool.false_eq_true, if_false, if_true] at h ⊢
    rcases gasSlot_cases vch1 standardMinimumGasLimit (some (defaultBlockGasLimitDGP / 2)) st
      with hg | hg
    · exact absurd hg h
    · rw [hg]
      exact gasSlot_weaken (by decide) (fun m' hm' => ⟨_, rfl, by cases hm'; decide⟩) hg
  by_cases hprice : opcode2 = opGasPrice
  -- The gas price: at least 1 against at least `STANDARD_MINIMUM_GAS_PRICE`.
  · subst hprice
    simp only [matchSlot_gasPrice, Bool.false_eq_true, if_false, if_true] at h ⊢
    rcases gasSlot_cases vch1 standardMinimumGasPrice none st with hg | hg
    · exact absurd hg h
    · rw [hg]
      exact gasSlot_weaken (by decide) (fun _ hm' => absurd hm' (by simp)) hg
  · exact matchSlot_of_not_gas hlimit hprice true false opcode1 vch1 st

/-- A step and the rest of the loop after it: where the mempool mode does
not give up, the consensus mode agrees on the step, and on the rest by
`hrest`. -/
theorem slot_then_consensus {ae : Bool} {opcode2 opcode1 : UInt8} {vch1 : List UInt8}
    {st : MatchState} {rest rest' : MatchState → SlotResult}
    (hrest : ∀ st', rest st' ≠ .nonstandard → rest' st' = rest st')
    (h : (match matchSlot false ae opcode2 opcode1 vch1 st with
      | .next st' => rest st'
      | res => res) ≠ .nonstandard) :
    (match matchSlot true ae opcode2 opcode1 vch1 st with
      | .next st' => rest' st'
      | res => res) =
      (match matchSlot false ae opcode2 opcode1 vch1 st with
        | .next st' => rest st'
        | res => res) := by
  cases hslot : matchSlot false ae opcode2 opcode1 vch1 st with
  | next st' =>
      rw [hslot] at h
      rw [matchSlot_consensus ae opcode2 opcode1 vch1 st (by rw [hslot]; simp), hslot]
      exact hrest st' h
  | stop => rw [matchSlot_consensus ae opcode2 opcode1 vch1 st (by rw [hslot]; simp), hslot]
  | nonstandard => rw [hslot] at h; exact absurd rfl h

/-- The loop over one template: where the mempool mode does not give up, the
consensus mode ends the same way. By induction on the template's length, for
`OP_PUBKEYS` takes two of its opcodes in one pass. -/
theorem matchTemplate_consensus (allowEmptySenderSig : Bool) (n : ℕ) :
    ∀ (tpl : List UInt8), tpl.length ≤ n → ∀ (s : CScript) (st : MatchState),
      matchTemplate false allowEmptySenderSig tpl s st ≠ .nonstandard →
        matchTemplate true allowEmptySenderSig tpl s st =
          matchTemplate false allowEmptySenderSig tpl s st := by
  induction n with
  | zero =>
      intro tpl htpl s st _
      rw [List.length_eq_zero_iff.mp (Nat.le_zero.mp htpl)]
      rfl
  | succ n ih =>
      intro tpl htpl s st h
      match tpl with
      | [] => rfl
      | opcode2 :: tpl =>
          simp only [matchTemplate] at h ⊢
          cases hop : getOp s with
          | none => rfl
          | some r =>
              obtain ⟨opcode1, vch1, s'⟩ := r
              simp only [hop] at h ⊢
              by_cases hpk : opcode2 = opPubKeys
              · simp only [hpk, if_true] at h ⊢
                match tpl with
                | [] => rfl
                | opcode2' :: tpl' =>
                    exact slot_then_consensus (fun st' h' =>
                      ih tpl' (by simp at htpl; omega) _ st' h') h
              · simp only [hpk, if_false] at h ⊢
                exact slot_then_consensus (fun st' h' =>
                  ih tpl (by simp at htpl; omega) s' st' h') h

/-- The scan over the templates: where the mempool mode finds a type, the
consensus mode finds the same type and solutions. -/
theorem scanTemplates_consensus (allowEmptySenderSig : Bool) (s : CScript)
    (tpls : List (TxnOutType × List UInt8))
    (h : (scanTemplates false allowEmptySenderSig s tpls).1 ≠ .nonstandard) :
    scanTemplates true allowEmptySenderSig s tpls = scanTemplates false allowEmptySenderSig s tpls := by
  induction tpls with
  | nil => rfl
  | cons tp rest ih =>
      obtain ⟨t, tpl⟩ := tp
      have hmt := matchTemplate_consensus allowEmptySenderSig tpl.length tpl le_rfl s ⟨[], 0, 20⟩
      simp only [scanTemplates] at h ⊢
      cases hm : matchTemplate false allowEmptySenderSig tpl s ⟨[], 0, 20⟩ with
      | next st => rw [hmt (by rw [hm]; simp), hm]
      | stop =>
          rw [hm] at h
          rw [hmt (by rw [hm]; simp), hm]
          exact ih h
      | nonstandard => simp [hm] at h

/-- Mempool policy is contained in consensus: a script that `Solver` finds
standard in the mempool mode has the same type and solutions in the
consensus mode. -/
theorem solver_consensus_eq_of_mempool_standard (s : CScript) (allowEmptySenderSig : Bool)
    (h : (solver s false allowEmptySenderSig).1 ≠ .nonstandard) :
    solver s true allowEmptySenderSig = solver s false allowEmptySenderSig := by
  -- Before the templates `Solver` does not read the mode.
  unfold solver at h ⊢
  by_cases hp2sh : isPayToScriptHash s = true
  · rw [if_pos hp2sh, if_pos hp2sh]
  simp only [if_neg hp2sh] at h ⊢
  cases hw : isWitnessProgram s with
  | some r => rfl
  | none =>
      simp only [hw] at h ⊢
      by_cases hnull : s.head? = some opReturn ∧ isPushOnly s.tail = true
      · rw [if_pos hnull, if_pos hnull]
      simp only [if_neg hnull] at h ⊢
      exact scanTemplates_consensus allowEmptySenderSig s templates h

/-- A call of the contract at the zero address with the EVM version, gas
limit 250000, gas price 40 and one byte of data. -/
def sampleContractCall : CScript :=
  [0x01, 0x04, 0x03, 0x90, 0xd0, 0x03, 0x01, 0x28, 0x01, 0x00, 0x14] ++
    List.replicate 20 0 ++ [opCall]

theorem solver_consensus_eq_on_call :
    (solver sampleContractCall false false).1 = .call ∧
      solver sampleContractCall true false = solver sampleContractCall false false :=
  have h : (solver sampleContractCall false false).1 = .call := by decide
  ⟨h, solver_consensus_eq_of_mempool_standard sampleContractCall false (by rw [h]; decide)⟩

end Metrix
