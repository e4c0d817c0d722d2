import Metrix.Qtum.Condensing

/-! Value conservation of the condensing transaction. The loops of
`CondensingTX` are related to closed forms: `calculatePlusAndMinus` to the
sums of the transfers into and out of each address, `selectionVin` to the
UTXO map, `createNewBalances` to one opening balance per address. The
conservation theorem then compares two sums over the addresses the transfers
touch. The `dev::u256` arithmetic of the code wraps; the theorems assume the
values involved stay below `2 ^ 63`, which also makes `CAmount(b)` exact. -/

namespace Metrix.CondensingTX

open SortedMap

/-- The addresses the transfers touch, payers and payees. -/
def touched (transfers : List TransferInfo) : List Address :=
  transfers.flatMap fun ti => [ti.fromAddr, ti.toAddr]

/-- What the transfers pay into `a`. -/
def plusNat (transfers : List TransferInfo) (a : Address) : ℕ :=
  (transfers.map fun ti => if ti.toAddr = a then ti.value.toNat else 0).sum

/-- What the transfers take out of `a`. -/
def minusNat (transfers : List TransferInfo) (a : Address) : ℕ :=
  (transfers.map fun ti => if ti.fromAddr = a then ti.value.toNat else 0).sum

@[simp] theorem mem_touched_cons {a : Address} {ti : TransferInfo} {ts : List TransferInfo} :
    a ∈ touched (ti :: ts) ↔ a = ti.fromAddr ∨ a = ti.toAddr ∨ a ∈ touched ts := by
  simp [touched]

/-! ## `calculatePlusAndMinus` -/

/-- The payer half of a step adds `v` to the minus of `k`. -/
theorem find?_addMinus (pm : SortedMap Address PlusAndMinus) (k a : Address) (v : U256) :
    (addMinus pm k v).find? a =
      if a = k then some (((pm.find? a).getD (0, 0)).1, ((pm.find? a).getD (0, 0)).2 + v)
      else pm.find? a := by
  unfold addMinus
  by_cases hak : a = k
  · subst hak
    cases pm.find? a <;> simp
  · cases pm.find? k <;> simp [hak]

/-- The payee half of a step adds `v` to the plus of `k`. -/
theorem find?_addPlus (pm : SortedMap Address PlusAndMinus) (k a : Address) (v : U256) :
    (addPlus pm k v).find? a =
      if a = k then some (((pm.find? a).getD (0, 0)).1 + v, ((pm.find? a).getD (0, 0)).2)
      else pm.find? a := by
  unfold addPlus
  by_cases hak : a = k
  · subst hak
    cases pm.find? a <;> simp
  · cases pm.find? k <;> simp [hak]

/-- One transfer adds its value to the payee's plus and the payer's minus,
starting from zero for an address seen for the first time. -/
theorem find?_plusMinusStep (pm : SortedMap Address PlusAndMinus) (ti : TransferInfo)
    (a : Address) :
    (plusMinusStep pm ti).find? a =
      if a = ti.fromAddr ∨ a = ti.toAddr then
        some (((pm.find? a).getD (0, 0)).1 + (if ti.toAddr = a then ti.value else 0),
          ((pm.find? a).getD (0, 0)).2 + (if ti.fromAddr = a then ti.value else 0))
      else pm.find? a := by
  unfold plusMinusStep
  rw [find?_addPlus, find?_addMinus]
  by_cases hf : a = ti.fromAddr <;> by_cases ht : a = ti.toAddr
  · subst hf
    simp [← ht]
  · subst hf
    simp [ht, Ne.symm ht]
  · subst ht
    simp [hf, Ne.symm hf]
  · simp [hf, ht]

@[simp] theorem plusNat_nil (a : Address) : plusNat [] a = 0 := rfl

@[simp] theorem minusNat_nil (a : Address) : minusNat [] a = 0 := rfl

theorem plusNat_cons (ti : TransferInfo) (ts : List TransferInfo) (a : Address) :
    plusNat (ti :: ts) a = (if ti.toAddr = a then ti.value.toNat else 0) + plusNat ts a := by
  simp [plusNat]

theorem minusNat_cons (ti : TransferInfo) (ts : List TransferInfo) (a : Address) :
    minusNat (ti :: ts) a = (if ti.fromAddr = a then ti.value.toNat else 0) + minusNat ts a := by
  simp [minusNat]

theorem plusNat_eq_zero {ts : List TransferInfo} {a : Address} (h : a ∉ touched ts) :
    plusNat ts a = 0 := by
  induction ts with
  | nil => rfl
  | cons ti rest ih =>
      rw [mem_touched_cons, not_or, not_or] at h
      rw [plusNat_cons, ih h.2.2, if_neg (Ne.symm h.2.1)]

theorem minusNat_eq_zero {ts : List TransferInfo} {a : Address} (h : a ∉ touched ts) :
    minusNat ts a = 0 := by
  induction ts with
  | nil => rfl
  | cons ti rest ih =>
      rw [mem_touched_cons, not_or, not_or] at h
      rw [minusNat_cons, ih h.2.2, if_neg (Ne.symm h.1)]

/-- A value read back through `toNat` is the word itself. -/
theorem ofNat_ite_toNat (c : Prop) [Decidable c] (v : U256) :
    BitVec.ofNat 256 (if c then v.toNat else 0) = if c then v else 0 := by
  split_ifs <;> simp

/-- After the loop, an address the transfers touch holds its starting pair
plus everything paid into and out of it, modulo `2 ^ 256`; other addresses
keep their entry. -/
theorem find?_foldl_plusMinusStep (transfers : List TransferInfo)
    (pm : SortedMap Address PlusAndMinus) (a : Address) :
    (transfers.foldl plusMinusStep pm).find? a =
      if a ∈ touched transfers then
        some (((pm.find? a).getD (0, 0)).1 + BitVec.ofNat 256 (plusNat transfers a),
          ((pm.find? a).getD (0, 0)).2 + BitVec.ofNat 256 (minusNat transfers a))
      else pm.find? a := by
  induction transfers generalizing pm with
  | nil => simp [touched]
  | cons ti rest ih =>
      rw [List.foldl_cons, ih, find?_plusMinusStep, plusNat_cons, minusNat_cons,
        BitVec.ofNat_add, BitVec.ofNat_add, ofNat_ite_toNat, ofNat_ite_toNat]
      -- the transfer at the head touches `a` or not, and so does the rest
      by_cases hhead : a = ti.fromAddr ∨ a = ti.toAddr <;> by_cases hrest : a ∈ touched rest
      · simp [hhead, hrest, BitVec.add_assoc]
      · rcases hhead with h | h <;> subst h <;>
          simp [hrest, eq_comm, plusNat_eq_zero hrest, minusNat_eq_zero hrest]
      · have hhead' : ¬ a = ti.fromAddr ∧ ¬ a = ti.toAddr := not_or.mp hhead
        simp [hhead', hrest, Ne.symm hhead'.1, Ne.symm hhead'.2]
      · have hhead' : ¬ a = ti.fromAddr ∧ ¬ a = ti.toAddr := not_or.mp hhead
        simp [hhead', hrest]

/-! ## `selectionVin` -/

section Selection

variable {state : QtumState} {t : QtumTransaction} {vins : SortedMap Address Vin}
  {a k : Address} {v : Vin}

/-- Where an entry after a copy comes from. -/
theorem find?_copyVin (h : (copyVin state vins k).find? a = some v) :
    vins.find? a = some v ∨ (a = k ∧ state.utxo a = some v) := by
  unfold copyVin at h
  rcases hk : state.utxo k with _ | w
  · rw [hk] at h
    exact Or.inl h
  · rw [hk, find?_insert] at h
    split_ifs at h with hak
    · cases h
      exact Or.inr ⟨hak, hak ▸ hk⟩
    · exact Or.inl h

/-- The origin of a Vin in the map: what `selectionVin` can put there. -/
def FromSelection (state : QtumState) (t : QtumTransaction) (a : Address) (v : Vin) : Prop :=
  state.utxo a = some v ∨ (a = t.sender ∧ v = callingVin t)

theorem find?_fetchPayerVin (h : (fetchPayerVin state t vins k).find? a = some v) :
    vins.find? a = some v ∨ (a = k ∧ FromSelection state t a v) := by
  unfold fetchPayerVin at h
  split_ifs at h with hc hs
  · exact Or.inl h
  · rw [find?_insert] at h
    split_ifs at h with hak
    · cases h
      exact Or.inr ⟨hak, Or.inr ⟨hak.trans hs.1, rfl⟩⟩
    · exact (find?_copyVin h).imp_right fun h' => ⟨h'.1, Or.inl h'.2⟩
  · exact (find?_copyVin h).imp_right fun h' => ⟨h'.1, Or.inl h'.2⟩

theorem find?_fetchPayeeVin (h : (fetchPayeeVin state vins k).find? a = some v) :
    vins.find? a = some v ∨ (a = k ∧ state.utxo a = some v) := by
  unfold fetchPayeeVin at h
  split_ifs at h
  · exact Or.inl h
  · exact find?_copyVin h

/-- Every Vin that `selectionVin` adds belongs to a touched address and is
that address's UTXO entry or the calling output. -/
theorem find?_foldl_selectionStep {ts : List TransferInfo}
    (h : (ts.foldl (selectionStep state t) vins).find? a = some v) :
    vins.find? a = some v ∨ (a ∈ touched ts ∧ FromSelection state t a v) := by
  induction ts generalizing vins with
  | nil => exact Or.inl h
  | cons ti rest ih =>
      rcases ih h with h1 | ⟨hmem, hsel⟩
      · rw [selectionStep] at h1
        rcases find?_fetchPayeeVin h1 with h2 | ⟨rfl, hu⟩
        · rcases find?_fetchPayerVin h2 with h3 | ⟨rfl, hsel⟩
          · exact Or.inl h3
          · exact Or.inr ⟨by simp, hsel⟩
        · exact Or.inr ⟨by simp, Or.inl hu⟩
      · exact Or.inr ⟨by simp [hmem], hsel⟩

end Selection

/-! ## `createNewBalances` -/

/-- The opening balance an address gets from the Vin found for it. -/
def openingValue (d : Finset Address) (a : Address) : Option Vin → U256
  | some v => if spendable d a v then v.value else 0
  | none => 0

@[simp] theorem openingValue_none (d : Finset Address) (a : Address) :
    openingValue d a none = 0 := rfl

@[simp] theorem openingValue_some (d : Finset Address) (a : Address) (v : Vin) :
    openingValue d a (some v) = if spendable d a v then v.value else 0 := rfl

theorem openingBalance_fst (d : Finset Address) (a : Address) (vins : SortedMap Address Vin) :
    (openingBalance d a vins).1 = openingValue d a (vins.find? a) := by
  unfold openingBalance
  cases vins.find? a <;> rfl

theorem find?_openingBalance_snd (d : Finset Address) (a b : Address)
    (vins : SortedMap Address Vin) :
    (openingBalance d a vins).2.find? b =
      if b = a then some ((vins.find? a).getD default) else vins.find? b := by
  unfold openingBalance
  cases h : vins.find? a with
  | none => simp
  | some w =>
      by_cases hb : b = a
      · subst hb
        simp [h]
      · simp [hb]

/-- What a completed run of the `createNewBalances` loop over the entries `L`
did, taking `vins` to `vins'` and `bal` to `bal'`: every entry got its
opening balance plus what it receives minus what it pays, the payment was
covered, and its Vin entry now exists. -/
structure BalancesDone (d : Finset Address) (L : List (Address × PlusAndMinus))
    (vins vins' : SortedMap Address Vin) (bal bal' : SortedMap Address U256) : Prop where
  vins_other : ∀ b ∉ L.map Prod.fst, vins'.find? b = vins.find? b
  bal_other : ∀ b ∉ L.map Prod.fst, bal'.find? b = bal.find? b
  vins_entry : ∀ e ∈ L, vins'.find? e.1 = some ((vins.find? e.1).getD default)
  covered : ∀ e ∈ L, ¬ openingValue d e.1 (vins.find? e.1) + e.2.1 < e.2.2
  bal_entry : ∀ e ∈ L,
    bal'.find? e.1 = some (openingValue d e.1 (vins.find? e.1) + e.2.1 - e.2.2)

/-- A loop that reports success has done every entry. The induction follows
the loop; each entry changes the two maps at its own key only, so later
entries read the Vin that `selectionVin` left. -/
theorem newBalancesLoop_done {d : Finset Address} {L : List (Address × PlusAndMinus)}
    (hL : (L.map Prod.fst).Nodup) {vins : SortedMap Address Vin} {bal : SortedMap Address U256}
    (h : (newBalancesLoop d L vins bal).1 = true) :
    BalancesDone d L vins (newBalancesLoop d L vins bal).2.1 bal
      (newBalancesLoop d L vins bal).2.2 := by
  induction L generalizing vins bal with
  | nil => exact ⟨fun _ _ => rfl, fun _ _ => rfl, by simp, by simp, by simp⟩
  | cons e rest ih =>
      obtain ⟨a, p, m⟩ := e
      rw [List.map_cons, List.nodup_cons] at hL
      unfold newBalancesLoop at h ⊢
      dsimp only at h ⊢
      rw [openingBalance_fst] at h ⊢
      split_ifs at h ⊢ with hlt
      have hrest := ih hL.2 h
      -- the keys of `rest` differ from `a`, so the first step is invisible to them
      have hne : ∀ e' ∈ rest, e'.1 ≠ a := fun e' he' heq =>
        hL.1 (by simpa [heq] using List.mem_map_of_mem (f := Prod.fst) he')
      have hvins : ∀ e' ∈ rest, (openingBalance d a vins).2.find? e'.1 = vins.find? e'.1 :=
        fun e' he' => by rw [find?_openingBalance_snd, if_neg (hne e' he')]
      refine ⟨?_, ?_, ?_, ?_, ?_⟩
      · intro b hb
        rw [List.map_cons, List.mem_cons, not_or] at hb
        rw [hrest.vins_other b hb.2, find?_openingBalance_snd, if_neg hb.1]
      · intro b hb
        rw [List.map_cons, List.mem_cons, not_or] at hb
        rw [hrest.bal_other b hb.2, find?_insert, if_neg hb.1]
      · intro e' he'
        rcases List.mem_cons.mp he' with rfl | he'
        · rw [hrest.vins_other _ hL.1, find?_openingBalance_snd, if_pos rfl]
        · rw [hrest.vins_entry e' he', hvins e' he']
      · intro e' he'
        rcases List.mem_cons.mp he' with rfl | he'
        · exact hlt
        · rw [← hvins e' he']
          exact hrest.covered e' he'
      · intro e' he'
        rcases List.mem_cons.mp he' with rfl | he'
        · rw [hrest.bal_other _ hL.1, find?_insert, if_pos rfl]
        · rw [hrest.bal_entry e' he', hvins e' he']

/-! ## `createVout` -/

/-- The output `createVout` writes for a positive balance. -/
def balanceOut (toCAmount : U256 → CAmount) (state : QtumState) (e : Address × U256) : CTxOut :=
  ⟨toCAmount e.2, voutScript state e.1⟩

/-- Without reaching the limit, the loop writes one output per positive
balance, in key order. -/
theorem voutLoop_outs {toCAmount : U256 → CAmount} {state : QtumState}
    {L : List (Address × U256)} {count : ℕ} {outs : List CTxOut}
    {nVouts : SortedMap Address UInt32}
    (h : (voutLoop toCAmount state L count outs nVouts).2.2 = false) :
    (voutLoop toCAmount state L count outs nVouts).1 =
      outs ++ (L.filter fun e => 0 < e.2).map (balanceOut toCAmount state) := by
  induction L generalizing count outs nVouts with
  | nil => simp [voutLoop]
  | cons e rest ih =>
      obtain ⟨a, b⟩ := e
      unfold voutLoop at h ⊢
      by_cases hb : 0 < b
      · simp only [hb, if_true] at h ⊢
        split_ifs at h ⊢ with hmax
        rw [ih h, List.filter_cons_of_pos (by simpa using hb)]
        simp [balanceOut]
      · simp only [hb, if_false] at h ⊢
        split_ifs at h ⊢ with hmax
        rw [ih h, List.filter_cons_of_neg (by simpa using hb)]

/-! ## Sums over the touched addresses -/

theorem sum_plusNat {T : List TransferInfo} {S : Finset Address} (hS : ∀ a ∈ touched T, a ∈ S) :
    ∑ a ∈ S, plusNat T a = (T.map (·.value.toNat)).sum := by
  induction T with
  | nil => simp
  | cons ti rest ih =>
      simp only [plusNat_cons, Finset.sum_add_distrib, Finset.sum_ite_eq, List.map_cons,
        List.sum_cons]
      rw [ih (fun a ha => hS a (by simp [ha])), if_pos (hS _ (by simp [eq_comm]))]

theorem sum_minusNat {T : List TransferInfo} {S : Finset Address} (hS : ∀ a ∈ touched T, a ∈ S) :
    ∑ a ∈ S, minusNat T a = (T.map (·.value.toNat)).sum := by
  induction T with
  | nil => simp
  | cons ti rest ih =>
      simp only [minusNat_cons, Finset.sum_add_distrib, Finset.sum_ite_eq, List.map_cons,
        List.sum_cons]
      rw [ih (fun a ha => hS a (by simp [ha])), if_pos (hS _ (by simp))]

theorem plusNat_le (T : List TransferInfo) (a : Address) :
    plusNat T a ≤ (T.map (·.value.toNat)).sum := by
  induction T with
  | nil => simp
  | cons ti rest ih =>
      rw [plusNat_cons, List.map_cons, List.sum_cons]
      split_ifs <;> omega

theorem minusNat_le (T : List TransferInfo) (a : Address) :
    minusNat T a ≤ (T.map (·.value.toNat)).sum := by
  induction T with
  | nil => simp
  | cons ti rest ih =>
      rw [minusNat_cons, List.map_cons, List.sum_cons]
      split_ifs <;> omega

/-- The outputs for positive balances carry the balances, once each balance
converts exactly. -/
theorem sum_balanceOut {toCAmount : U256 → CAmount} {state : QtumState}
    (hconv : ∀ n : U256, n.toNat < 2 ^ 63 → toCAmount n = n.toNat)
    {L : List (Address × U256)} (hsmall : ∀ e ∈ L, e.2.toNat < 2 ^ 63) :
    (((L.filter fun e => 0 < e.2).map (balanceOut toCAmount state)).map (·.nValue)).sum =
      ((L.map fun e => e.2.toNat).sum : ℤ) := by
  induction L with
  | nil => simp
  | cons e rest ih =>
      have hrest := ih (fun e' he' => hsmall e' (List.mem_cons_of_mem _ he'))
      by_cases hb : 0 < e.2
      · rw [List.filter_cons_of_pos (by simpa using hb)]
        simp only [List.map_cons, List.sum_cons, hrest, balanceOut,
          hconv e.2 (hsmall e List.mem_cons_self)]
      · rw [List.filter_cons_of_neg (by simpa using hb), hrest]
        have hz : e.2 = 0 := by
          rw [BitVec.lt_def] at hb
          exact BitVec.eq_of_toNat_eq (by simp at hb ⊢; omega)
        simp [hz]

/-! ## The condensing transaction -/

/-- A non-empty transaction comes from a successful `createNewBalances`: it
spends what `createVins` lists and pays what `createVout` writes, and the
object is the one `createVout` leaves. -/
theorem createCondensingTX_of_ne_empty {toCAmount : U256 → CAmount} {state : QtumState}
    {c : CondensingTX} (h : (createCondensingTX toCAmount state c).1 ≠ CTransaction.empty) :
    ((c.selectionVin state).calculatePlusAndMinus.createNewBalances).1 = true ∧
      (createCondensingTX toCAmount state c).1 =
        ⟨(c.selectionVin state).calculatePlusAndMinus.createNewBalances.2.createVins,
          ((c.selectionVin state).calculatePlusAndMinus.createNewBalances.2.createVout
            toCAmount state).1⟩ ∧
      (createCondensingTX toCAmount state c).2 =
        ((c.selectionVin state).calculatePlusAndMinus.createNewBalances.2.createVout
          toCAmount state).2 := by
  unfold createCondensingTX at h ⊢
  dsimp only at h ⊢
  split_ifs at h ⊢ with hok hempty
  · exact absurd rfl h
  · exact absurd rfl h
  · simp only [Bool.not_eq_true', Bool.not_eq_false] at hok
    exact ⟨hok, rfl, rfl⟩

/-! ## Opening balances -/

/-- The value of the UTXO entry of `a`, zero when it has none. -/
def utxoValue (state : QtumState) (a : Address) : ℕ :=
  ((state.utxo a).map (·.value.toNat)).getD 0

/-- All the value the condensing transaction can see: the transfers, the
calling output and the UTXO entries of the touched addresses. -/
def condensingBudget (state : QtumState) (transfers : List TransferInfo)
    (t : QtumTransaction) : ℕ :=
  (transfers.map (·.value.toNat)).sum + t.value.toNat +
    ∑ a ∈ (touched transfers).toFinset, utxoValue state a

section Opening

variable (state : QtumState) (transfers : List TransferInfo) (t : QtumTransaction)
  (d : Finset Address)

/-- The Vins that `selectionVin` collects on a fresh object. -/
def selectedVins : SortedMap Address Vin :=
  transfers.foldl (selectionStep state t) SortedMap.empty

/-- The opening balance of `a` in `createNewBalances` on a fresh object. -/
def openingOf (a : Address) : U256 :=
  openingValue d a ((selectedVins state transfers t).find? a)

theorem find?_selectedVins {a : Address} {v : Vin}
    (h : (selectedVins state transfers t).find? a = some v) :
    a ∈ touched transfers ∧ FromSelection state t a v := by
  rcases find?_foldl_selectionStep h with h' | h'
  · simp at h'
  · exact h'

/-- An opening balance is at most the address's UTXO value, plus the
calling output for the sender. -/
theorem openingOf_le (a : Address) :
    (openingOf state transfers t d a).toNat ≤
      utxoValue state a + if a = t.sender then t.value.toNat else 0 := by
  unfold openingOf
  rcases hv : (selectedVins state transfers t).find? a with _ | v
  · simp
  · have hle : (openingValue d a (some v)).toNat ≤ v.value.toNat := by
      rw [openingValue_some]
      split_ifs <;> simp
    rcases (find?_selectedVins state transfers t hv).2 with hu | ⟨rfl, rfl⟩
    · have hval : utxoValue state a = v.value.toNat := by simp [utxoValue, hu]
      omega
    · rw [if_pos rfl]
      simp only [callingVin] at hle ⊢
      omega

/-- Together the opening balances stay within the UTXO values and the
calling output. -/
theorem sum_openingOf_le :
    ∑ a ∈ (touched transfers).toFinset, (openingOf state transfers t d a).toNat ≤
      (∑ a ∈ (touched transfers).toFinset, utxoValue state a) + t.value.toNat := by
  calc ∑ a ∈ (touched transfers).toFinset, (openingOf state transfers t d a).toNat
      ≤ ∑ a ∈ (touched transfers).toFinset,
          (utxoValue state a + if a = t.sender then t.value.toNat else 0) :=
        Finset.sum_le_sum fun a _ => openingOf_le state transfers t d a
    _ = (∑ a ∈ (touched transfers).toFinset, utxoValue state a) +
          if t.sender ∈ (touched transfers).toFinset then t.value.toNat else 0 := by
        rw [Finset.sum_add_distrib, Finset.sum_ite_eq']
    _ ≤ _ := by split_ifs <;> omega

end Opening

/-! ## New balances -/

section Balances

variable (state : QtumState) (transfers : List TransferInfo) (t : QtumTransaction)
  (d : Finset Address)

/-- The map `calculatePlusAndMinus` builds on a fresh object. -/
def plusMinusOf : SortedMap Address PlusAndMinus :=
  transfers.foldl plusMinusStep SortedMap.empty

theorem find?_plusMinusOf (a : Address) :
    (plusMinusOf transfers).find? a =
      if a ∈ touched transfers then
        some (BitVec.ofNat 256 (plusNat transfers a), BitVec.ofNat 256 (minusNat transfers a))
      else none := by
  simp [plusMinusOf, find?_foldl_plusMinusStep]

theorem not_mem_keys_plusMinusOf {a : Address} (h : a ∉ touched transfers) :
    a ∉ (plusMinusOf transfers).entries.map Prod.fst := by
  rw [← keys, ← find?_eq_none_iff, find?_plusMinusOf, if_neg h]

theorem mem_plusMinusOf {a : Address} (h : a ∈ touched transfers) :
    (a, (BitVec.ofNat 256 (plusNat transfers a), BitVec.ofNat 256 (minusNat transfers a))) ∈
      (plusMinusOf transfers).entries := by
  rw [← find?_eq_some_iff, find?_plusMinusOf, if_pos h]

/-- The loop of `createNewBalances` on a fresh object. -/
def balancesRun : Bool × SortedMap Address Vin × SortedMap Address U256 :=
  newBalancesLoop d (plusMinusOf transfers).entries (selectedVins state transfers t) SortedMap.empty

variable {state transfers t d}

theorem balancesRun_done (hok : (balancesRun state transfers t d).1 = true) :
    BalancesDone d (plusMinusOf transfers).entries (selectedVins state transfers t)
      (balancesRun state transfers t d).2.1 SortedMap.empty (balancesRun state transfers t d).2.2 :=
  newBalancesLoop_done (plusMinusOf transfers).keys_nodup hok

/-- The new balance of a touched address. -/
theorem find?_balancesRun {a : Address} (hok : (balancesRun state transfers t d).1 = true)
    (ha : a ∈ touched transfers) :
    (balancesRun state transfers t d).2.2.find? a =
        some (openingOf state transfers t d a + BitVec.ofNat 256 (plusNat transfers a) -
          BitVec.ofNat 256 (minusNat transfers a)) ∧
      ¬ openingOf state transfers t d a + BitVec.ofNat 256 (plusNat transfers a) <
        BitVec.ofNat 256 (minusNat transfers a) :=
  ⟨(balancesRun_done hok).bal_entry _ (mem_plusMinusOf transfers ha),
    (balancesRun_done hok).covered _ (mem_plusMinusOf transfers ha)⟩

theorem find?_balancesRun_of_not_mem {a : Address}
    (hok : (balancesRun state transfers t d).1 = true) (ha : a ∉ touched transfers) :
    (balancesRun state transfers t d).2.2.find? a = none := by
  rw [(balancesRun_done hok).bal_other a (not_mem_keys_plusMinusOf transfers ha)]
  rfl

/-- After the loop every touched address has a Vin: the selected one, or
the zero Vin that the condition inserted. -/
theorem find?_balancesRun_vins {a : Address} (hok : (balancesRun state transfers t d).1 = true)
    (ha : a ∈ touched transfers) :
    (balancesRun state transfers t d).2.1.find? a =
      some (((selectedVins state transfers t).find? a).getD default) :=
  (balancesRun_done hok).vins_entry _ (mem_plusMinusOf transfers ha)

theorem find?_balancesRun_vins_of_not_mem {a : Address}
    (hok : (balancesRun state transfers t d).1 = true) (ha : a ∉ touched transfers) :
    (balancesRun state transfers t d).2.1.find? a = none := by
  rw [(balancesRun_done hok).vins_other a (not_mem_keys_plusMinusOf transfers ha)]
  rcases hv : (selectedVins state transfers t).find? a with _ | v
  · rfl
  · exact absurd (find?_selectedVins state transfers t hv).1 ha

/-- Below the budget no word wraps: a new balance is the opening balance
plus what the address receives minus what it pays, in `ℕ`. -/
theorem toNat_balance {a : Address} (hbound : condensingBudget state transfers t < 2 ^ 63)
    (ha : a ∈ touched transfers)
    (hcov : ¬ openingOf state transfers t d a + BitVec.ofNat 256 (plusNat transfers a) <
      BitVec.ofNat 256 (minusNat transfers a)) :
    (openingOf state transfers t d a + BitVec.ofNat 256 (plusNat transfers a) -
        BitVec.ofNat 256 (minusNat transfers a)).toNat + minusNat transfers a =
      (openingOf state transfers t d a).toNat + plusNat transfers a ∧
      (openingOf state transfers t d a).toNat + plusNat transfers a < 2 ^ 63 := by
  have hsum := sum_openingOf_le state transfers t d
  have hsingle : (openingOf state transfers t d a).toNat ≤
      ∑ b ∈ (touched transfers).toFinset, (openingOf state transfers t d b).toNat :=
    Finset.single_le_sum (f := fun b => (openingOf state transfers t d b).toNat)
      (fun _ _ => Nat.zero_le _) (List.mem_toFinset.mpr ha)
  have hplus := plusNat_le transfers a
  have hminus := minusNat_le transfers a
  unfold condensingBudget at hbound
  have hfit : (openingOf state transfers t d a).toNat + plusNat transfers a < 2 ^ 63 := by omega
  have hp : (BitVec.ofNat 256 (plusNat transfers a)).toNat = plusNat transfers a := by
    rw [BitVec.toNat_ofNat]
    exact Nat.mod_eq_of_lt (by omega)
  have hm : (BitVec.ofNat 256 (minusNat transfers a)).toNat = minusNat transfers a := by
    rw [BitVec.toNat_ofNat]
    exact Nat.mod_eq_of_lt (by omega)
  have hadd : (openingOf state transfers t d a + BitVec.ofNat 256 (plusNat transfers a)).toNat =
      (openingOf state transfers t d a).toNat + plusNat transfers a := by
    rw [BitVec.toNat_add, hp]
    exact Nat.mod_eq_of_lt (by omega)
  have hle := BitVec.not_lt.mp hcov
  rw [BitVec.le_def, hadd, hm] at hle
  refine ⟨?_, hfit⟩
  rw [BitVec.toNat_sub_of_le (BitVec.not_lt.mp hcov), hadd, hm]
  omega

end Balances

/-! ## Conservation -/

section Conservation

variable {state : QtumState} {transfers : List TransferInfo} {t : QtumTransaction}
  {d : Finset Address}

/-- The new balances add up to the opening balances: the transfers pay into
the touched addresses exactly what they take out of them. -/
theorem sumBy_balancesRun (hbound : condensingBudget state transfers t < 2 ^ 63)
    (hok : (balancesRun state transfers t d).1 = true) :
    (balancesRun state transfers t d).2.2.sumBy (fun _ b => b.toNat) =
      ∑ a ∈ (touched transfers).toFinset, (openingOf state transfers t d a).toNat := by
  have hkeys : (balancesRun state transfers t d).2.2.keys.toFinset = (touched transfers).toFinset :=
    keys_toFinset_eq fun a => by
      by_cases ha : a ∈ touched transfers
      · simp [(find?_balancesRun hok ha).1, ha]
      · simp [find?_balancesRun_of_not_mem hok ha, ha]
  rw [sumBy_eq_sum, hkeys]
  have hterm : ∀ a ∈ (touched transfers).toFinset,
      ((balancesRun state transfers t d).2.2.find? a).elim 0 (fun b => b.toNat) +
          minusNat transfers a =
        (openingOf state transfers t d a).toNat + plusNat transfers a := by
    intro a ha
    have ha' := List.mem_toFinset.mp ha
    obtain ⟨hfind, hcov⟩ := find?_balancesRun hok ha'
    rw [hfind]
    exact (toNat_balance hbound ha' hcov).1
  have hsum := Finset.sum_congr rfl hterm
  have hin : ∀ a ∈ touched transfers, a ∈ (touched transfers).toFinset :=
    fun a ha => List.mem_toFinset.mpr ha
  rw [Finset.sum_add_distrib, Finset.sum_add_distrib, sum_minusNat hin, sum_plusNat hin] at hsum
  omega

/-- The Vins that the transaction spends add up to the opening balances:
`createVins` tests the same condition as `createNewBalances`, and the zero
Vins inserted by that condition carry nothing. -/
theorem sum_spent_balancesRun (hok : (balancesRun state transfers t d).1 = true) :
    ((((balancesRun state transfers t d).2.1.entries.filter fun e => spentBy d e).map
        (·.2.value.toNat)).sum) =
      ∑ a ∈ (touched transfers).toFinset, (openingOf state transfers t d a).toNat := by
  have hkeys : (balancesRun state transfers t d).2.1.keys.toFinset = (touched transfers).toFinset :=
    keys_toFinset_eq fun a => by
      by_cases ha : a ∈ touched transfers
      · simp [find?_balancesRun_vins hok ha, ha]
      · simp [find?_balancesRun_vins_of_not_mem hok ha, ha]
  rw [sum_map_filter]
  change (balancesRun state transfers t d).2.1.sumBy
      (fun a v => if decide (spentBy d (a, v)) then v.value.toNat else 0) = _
  rw [sumBy_eq_sum, hkeys]
  refine Finset.sum_congr rfl fun a ha => ?_
  rw [find?_balancesRun_vins hok (List.mem_toFinset.mp ha)]
  unfold openingOf
  rcases (selectedVins state transfers t).find? a with _ | v
  · simp [spentBy, default]
  · by_cases hv : v.value = 0
    · simp [spentBy, hv]
    · have hpos : 0 < v.value := by
        have : v.value.toNat ≠ 0 := fun h => hv (BitVec.eq_of_toNat_eq (by simpa using h))
        rw [BitVec.lt_def]
        simpa using Nat.pos_of_ne_zero this
      by_cases hs : spendable d a v <;> simp_all [spentBy, spendable]

/-- Every new balance is below `2 ^ 63`, so it converts to `CAmount` exactly. -/
theorem balancesRun_small (hbound : condensingBudget state transfers t < 2 ^ 63)
    (hok : (balancesRun state transfers t d).1 = true) :
    ∀ e ∈ (balancesRun state transfers t d).2.2.entries, e.2.toNat < 2 ^ 63 := by
  intro e he
  have hfind := find?_eq_some_iff.mpr he
  by_cases ha : e.1 ∈ touched transfers
  · obtain ⟨hbal, hcov⟩ := find?_balancesRun hok ha
    rw [hfind, Option.some_inj] at hbal
    have hfit := toNat_balance hbound ha hcov
    rw [← hbal] at hfit
    omega
  · rw [find?_balancesRun_of_not_mem hok ha] at hfind
    cases hfind

/-- Value conservation of the condensing transaction. When all the value the
transaction can see stays below `2 ^ 63`, a non-empty condensing transaction
that did not reach the output limit spends the Vins that `createVins` lists,
pays out exactly their total, and pays it in positive outputs. -/
theorem createCondensingTX_conserves_value (toCAmount : U256 → CAmount)
    (hconv : ∀ n : U256, n.toNat < 2 ^ 63 → toCAmount n = n.toNat)
    (state : QtumState) (transfers : List TransferInfo) (t : QtumTransaction)
    (d : Finset Address) (hbound : condensingBudget state transfers t < 2 ^ 63)
    (hne : (createCondensingTX toCAmount state (mk' transfers t d)).1 ≠ CTransaction.empty)
    (hlim : (createCondensingTX toCAmount state (mk' transfers t d)).2.reachedVoutLimit = false) :
    (createCondensingTX toCAmount state (mk' transfers t d)).1.vin =
        (createCondensingTX toCAmount state (mk' transfers t d)).2.spentVins.map
          (fun e => spendInput e.2) ∧
      ((createCondensingTX toCAmount state (mk' transfers t d)).1.vout.map (·.nValue)).sum =
        (((createCondensingTX toCAmount state (mk' transfers t d)).2.spentVins.map
          (·.2.value.toNat)).sum : ℤ) ∧
      ∀ o ∈ (createCondensingTX toCAmount state (mk' transfers t d)).1.vout, 0 < o.nValue := by
  obtain ⟨hok, htx, hobj⟩ := createCondensingTX_of_ne_empty hne
  -- on a fresh object every loop starts from empty maps
  change (balancesRun state transfers t d).1 = true at hok
  have hvl : (voutLoop toCAmount state (balancesRun state transfers t d).2.2.entries 0 []
      SortedMap.empty).2.2 = false := by
    rw [hobj] at hlim
    simp only [reachedVoutLimit, createVout, Bool.or_eq_false_iff] at hlim
    exact hlim.1
  have houts : (createCondensingTX toCAmount state (mk' transfers t d)).1.vout =
      ((balancesRun state transfers t d).2.2.entries.filter fun e => 0 < e.2).map
        (balanceOut toCAmount state) := by
    rw [htx]
    exact (voutLoop_outs hvl).trans (List.nil_append _)
  have hspent : (createCondensingTX toCAmount state (mk' transfers t d)).2.spentVins =
      (balancesRun state transfers t d).2.1.entries.filter fun e => spentBy d e := by
    rw [hobj]
    rfl
  have hsmall := balancesRun_small hbound hok
  refine ⟨by rw [htx, hspent]; rfl, ?_, ?_⟩
  · have hnat : ((balancesRun state transfers t d).2.2.entries.map fun e => e.2.toNat).sum =
        (((balancesRun state transfers t d).2.1.entries.filter fun e => spentBy d e).map
          (·.2.value.toNat)).sum := by
      rw [sum_spent_balancesRun hok, ← sumBy_balancesRun hbound hok]
      rfl
    rw [houts, sum_balanceOut hconv hsmall, hspent]
    have hcast := congrArg (Nat.cast : ℕ → ℤ) hnat
    simp only [Nat.cast_list_sum, List.map_map] at hcast
    exact hcast
  · intro o ho
    rw [houts, List.mem_map] at ho
    obtain ⟨e, he, rfl⟩ := ho
    rw [List.mem_filter, decide_eq_true_eq] at he
    rw [balanceOut, hconv e.2 (hsmall e he.1)]
    have hpos : 0 < e.2.toNat := by simpa [BitVec.lt_def] using he.2
    show (0 : ℤ) < (e.2.toNat : ℤ)
    exact_mod_cast hpos

/-- A call sending 5 to the live contract `2`, which holds 7 and passes 3 on
to `3`: the sender's calling output and the contract's UTXO are spent, and
their 12 are paid back as 9 to the contract and 3 to `3`. -/
theorem createCondensingTX_call_and_forward :
    (∀ n : U256, n.toNat < 2 ^ 63 → (fun n : U256 => (n.toNat : ℤ)) n = n.toNat) ∧
    condensingBudget ⟨fun a => if a = 2 then some ⟨0, 1, 7, 1⟩ else none, fun a => a = 2⟩
      [⟨1, 2, 5⟩, ⟨2, 3, 3⟩] ⟨1, 5, 1, 0⟩ < 2 ^ 63 ∧
    (createCondensingTX (fun n => (n.toNat : ℤ))
      ⟨fun a => if a = 2 then some ⟨0, 1, 7, 1⟩ else none, fun a => a = 2⟩
      (mk' [⟨1, 2, 5⟩, ⟨2, 3, 3⟩] ⟨1, 5, 1, 0⟩ ∅)).1 ≠ CTransaction.empty ∧
    (createCondensingTX (fun n => (n.toNat : ℤ))
      ⟨fun a => if a = 2 then some ⟨0, 1, 7, 1⟩ else none, fun a => a = 2⟩
      (mk' [⟨1, 2, 5⟩, ⟨2, 3, 3⟩] ⟨1, 5, 1, 0⟩ ∅)).2.reachedVoutLimit = false ∧
    ((createCondensingTX (fun n => (n.toNat : ℤ))
      ⟨fun a => if a = 2 then some ⟨0, 1, 7, 1⟩ else none, fun a => a = 2⟩
      (mk' [⟨1, 2, 5⟩, ⟨2, 3, 3⟩] ⟨1, 5, 1, 0⟩ ∅)).1.vout.map (·.nValue)).sum = 12 := by
  have hconv : ∀ n : U256, n.toNat < 2 ^ 63 → (fun n : U256 => (n.toNat : ℤ)) n = n.toNat :=
    fun _ _ => rfl
  have hbound : condensingBudget ⟨fun a => if a = 2 then some ⟨0, 1, 7, 1⟩ else none,
      fun a => a = 2⟩ [⟨1, 2, 5⟩, ⟨2, 3, 3⟩] ⟨1, 5, 1, 0⟩ < 2 ^ 63 := by decide
  have hne : (createCondensingTX (fun n => (n.toNat : ℤ))
      ⟨fun a => if a = 2 then some ⟨0, 1, 7, 1⟩ else none, fun a => a = 2⟩
      (mk' [⟨1, 2, 5⟩, ⟨2, 3, 3⟩] ⟨1, 5, 1, 0⟩ ∅)).1 ≠ CTransaction.empty := by decide
  have hlim : (createCondensingTX (fun n => (n.toNat : ℤ))
      ⟨fun a => if a = 2 then some ⟨0, 1, 7, 1⟩ else none, fun a => a = 2⟩
      (mk' [⟨1, 2, 5⟩, ⟨2, 3, 3⟩] ⟨1, 5, 1, 0⟩ ∅)).2.reachedVoutLimit = false := by decide
  obtain ⟨-, hout, -⟩ := createCondensingTX_conserves_value _ hconv _ _ _ _ hbound hne hlim
  refine ⟨hconv, hbound, hne, hlim, hout.trans ?_⟩
  decide

/-- Without a bound the words wrap. Two contracts hold `2 ^ 255` each, the
first pays the second all of it and a third pays the first 1: the second's
new balance `2 ^ 256` wraps to 0 and no output pays it, so the transaction
spends `2 ^ 256 + 1` and pays out 1. -/
theorem createCondensingTX_wraps_balance :
    let r := createCondensingTX (fun n => (n.toNat : ℤ))
      ⟨fun a => if a = 1 ∨ a = 2 then some ⟨0, 0, BitVec.ofNat 256 (2 ^ 255), 1⟩
        else if a = 3 then some ⟨0, 0, 1, 1⟩ else none, fun _ => false⟩
      (mk' [⟨1, 2, BitVec.ofNat 256 (2 ^ 255)⟩, ⟨3, 1, 1⟩] ⟨9, 0, 0, 0⟩ ∅)
    r.1 ≠ CTransaction.empty ∧ r.2.reachedVoutLimit = false ∧
      (r.1.vout.map (·.nValue)).sum = 1 ∧ ((r.2.spentVins.map (·.2.value.toNat)).sum : ℤ) = 2 ^ 256 + 1 := by
  decide

end Conservation

end Metrix.CondensingTX
