import Metrix.Consensus.Merkle

/-! Partial Merkle trees (`CPartialMerkleTree` in `merkleblock.h` and
`merkleblock.cpp`). The constructor walks the tree depth first and stores a
bit for each node it visits, set when a matched txid lies below it, and a
hash for each node it does not descend into; `ExtractMatches` walks the same
tree reading the bits and hashes back. The hash of a pair is a parameter, the
one `ComputeMerkleRoot` uses; `uint256()` is the default value. -/

namespace Metrix

/-- The members of a `CPartialMerkleTree`. -/
structure CPartialMerkleTree (α : Type) where
  nTransactions : ℕ
  vBits : List Bool
  vHash : List α
  fBad : Bool
  deriving DecidableEq, Repr

/-- The local state of `TraverseAndExtract`: its two counters, the output
vectors `vMatch` and `vnIndex`, and the tree's `fBad`. -/
structure ExtractState (α : Type) where
  nBitsUsed : ℕ
  nHashUsed : ℕ
  vMatch : List α
  vnIndex : List ℕ
  fBad : Bool
  deriving DecidableEq, Repr

/-- What `ExtractMatches` leaves its caller: the root it returns, the vectors
`vMatch` and `vnIndex`, and the tree's `fBad`. -/
structure ExtractResult (α : Type) where
  hashMerkleRoot : α
  vMatch : List α
  vnIndex : List ℕ
  fBad : Bool
  deriving DecidableEq, Repr

/-- The serialized fields: `nTransactions`, `vHash` and `vBits` packed into
bytes. -/
structure SerializedTree (α : Type) where
  nTransactions : ℕ
  vHash : List α
  vBytes : List UInt8
  deriving DecidableEq, Repr

/-- `CalcTreeWidth`: the number of nodes at `height`. -/
def calcTreeWidth (nTransactions height : ℕ) : ℕ :=
  (nTransactions + (1 <<< height) - 1) >>> height

/-- The loop `while (CalcTreeWidth(nHeight) > 1) nHeight++;` of the
constructor and of `ExtractMatches`, with fuel. -/
def heightLoop (nTransactions : ℕ) : ℕ → ℕ → ℕ
  | 0, nHeight => nHeight
  | fuel + 1, nHeight =>
      if calcTreeWidth nTransactions nHeight > 1 then heightLoop nTransactions fuel (nHeight + 1)
      else nHeight

/-- The height of the tree; `nTransactions` rounds of the loop are enough. -/
def treeHeight (nTransactions : ℕ) : ℕ := heightLoop nTransactions nTransactions 0

/-- The txids below the node `(height, pos)`: the range of the loop in
`TraverseAndBuild`. -/
def nodeTxids (nTransactions height pos : ℕ) : List ℕ :=
  List.range' (pos <<< height) (min ((pos + 1) <<< height) nTransactions - pos <<< height)

section PartialMerkle

variable {α : Type} [Inhabited α] (hash : α → α → α)

/-- `CalcHash`: the hash of the node `(height, pos)`, the left child again
for a missing right one. -/
def calcHash (nTransactions : ℕ) (vTxid : List α) : ℕ → ℕ → α
  | 0, pos => vTxid.getD pos default
  | height + 1, pos =>
      let left := calcHash nTransactions vTxid height (pos * 2)
      let right :=
        if pos * 2 + 1 < calcTreeWidth nTransactions height then
          calcHash nTransactions vTxid height (pos * 2 + 1)
        else left
      hash left right

/-- `fParentOfMatch` in `TraverseAndBuild`: a matched txid below the node. -/
def parentOfMatch (nTransactions : ℕ) (vMatch : List Bool) (height pos : ℕ) : Bool :=
  (nodeTxids nTransactions height pos).any (vMatch.getD · false)

/-- `TraverseAndBuild`: the bits and the hashes it appends to `vBits` and
`vHash` for the node `(height, pos)`. -/
def traverseAndBuild (nTransactions : ℕ) (vTxid : List α) (vMatch : List Bool) :
    ℕ → ℕ → List Bool × List α
  | 0, pos => ([parentOfMatch nTransactions vMatch 0 pos], [calcHash hash nTransactions vTxid 0 pos])
  | height + 1, pos =>
      let fParentOfMatch := parentOfMatch nTransactions vMatch (height + 1) pos
      if fParentOfMatch then
        let left := traverseAndBuild nTransactions vTxid vMatch height (pos * 2)
        let right :=
          if pos * 2 + 1 < calcTreeWidth nTransactions height then
            traverseAndBuild nTransactions vTxid vMatch height (pos * 2 + 1)
          else ([], [])
        (fParentOfMatch :: left.1 ++ right.1, left.2 ++ right.2)
      else ([fParentOfMatch], [calcHash hash nTransactions vTxid (height + 1) pos])

/-- The constructor `CPartialMerkleTree(vTxid, vMatch)`. -/
def CPartialMerkleTree.ofTxids (vTxid : List α) (vMatch : List Bool) : CPartialMerkleTree α :=
  let built := traverseAndBuild hash vTxid.length vTxid vMatch (treeHeight vTxid.length) 0
  { nTransactions := vTxid.length, vBits := built.1, vHash := built.2, fBad := false }

variable [DecidableEq α]

/-- The branch of `TraverseAndExtract` that uses the next stored hash. -/
def extractHash (t : CPartialMerkleTree α) (height pos : ℕ) (fParentOfMatch : Bool)
    (s : ExtractState α) : α × ExtractState α :=
  if hh : s.nHashUsed < t.vHash.length then
    let h := t.vHash[s.nHashUsed]
    let s := { s with nHashUsed := s.nHashUsed + 1 }
    (h, if height = 0 ∧ fParentOfMatch = true then
        { s with vMatch := s.vMatch ++ [h], vnIndex := s.vnIndex ++ [pos] }
      else s)
  else (default, { s with fBad := true })

/-- `TraverseAndExtract`: the hash of the node `(height, pos)`, reading the
bits and hashes from the counters on. -/
def traverseAndExtract (t : CPartialMerkleTree α) : ℕ → ℕ → ExtractState α → α × ExtractState α
  | height, pos, s =>
    if hb : s.nBitsUsed < t.vBits.length then
      let fParentOfMatch := t.vBits[s.nBitsUsed]
      let s := { s with nBitsUsed := s.nBitsUsed + 1 }
      match height with
      | 0 => extractHash t 0 pos fParentOfMatch s
      | height + 1 =>
          if fParentOfMatch then
            let left := traverseAndExtract t height (pos * 2) s
            if pos * 2 + 1 < calcTreeWidth t.nTransactions height then
              let right := traverseAndExtract t height (pos * 2 + 1) left.2
              (hash left.1 right.1,
                if right.1 = left.1 then { right.2 with fBad := true } else right.2)
            else (hash left.1 left.1, left.2)
          else extractHash t (height + 1) pos fParentOfMatch s
    else (default, { s with fBad := true })

/-- `dgpMaxBlockSize * WITNESS_SCALE_FACTOR / MIN_TRANSACTION_WEIGHT`, the
product in 32 bits. -/
def maxTransactions (dgpMaxBlockSize : UInt32) : ℕ := (dgpMaxBlockSize * 4).toNat / 240

/-- `ExtractMatches`. `vMatch` is cleared and `vnIndex` is not. -/
def CPartialMerkleTree.extractMatches (dgpMaxBlockSize : UInt32) (t : CPartialMerkleTree α)
    (vnIndex : List ℕ) : ExtractResult α :=
  if t.nTransactions = 0 then ⟨default, [], vnIndex, t.fBad⟩
  else if t.nTransactions > maxTransactions dgpMaxBlockSize then ⟨default, [], vnIndex, t.fBad⟩
  else if t.vHash.length > t.nTransactions then ⟨default, [], vnIndex, t.fBad⟩
  else if t.vBits.length < t.vHash.length then ⟨default, [], vnIndex, t.fBad⟩
  else
    let r := traverseAndExtract hash t (treeHeight t.nTransactions) 0 ⟨0, 0, [], vnIndex, t.fBad⟩
    let failed : ExtractResult α := ⟨default, r.2.vMatch, r.2.vnIndex, r.2.fBad⟩
    if r.2.fBad then failed
    else if (r.2.nBitsUsed + 7) / 8 ≠ (t.vBits.length + 7) / 8 then failed
    else if r.2.nHashUsed ≠ t.vHash.length then failed
    else ⟨r.1, r.2.vMatch, r.2.vnIndex, r.2.fBad⟩

end PartialMerkle

/-! ## Widths and heights -/

theorem calcTreeWidth_eq (n height : ℕ) : calcTreeWidth n height = (n + 2 ^ height - 1) / 2 ^ height := by
  simp [calcTreeWidth, Nat.shiftLeft_eq, Nat.shiftRight_eq_div_pow]

/-- A node exists when the first txid below it does. -/
theorem lt_calcTreeWidth_iff {n height pos : ℕ} :
    pos < calcTreeWidth n height ↔ pos * 2 ^ height < n := by
  have hpow := Nat.two_pow_pos height
  rw [calcTreeWidth_eq, ← Nat.add_one_le_iff, Nat.le_div_iff_mul_le hpow, Nat.add_mul, one_mul]
  omega

theorem calcTreeWidth_le_one_iff {n height : ℕ} : calcTreeWidth n height ≤ 1 ↔ n ≤ 2 ^ height := by
  rw [← not_lt, lt_calcTreeWidth_iff, one_mul, not_lt]

theorem calcTreeWidth_pos_iff {n height : ℕ} : 0 < calcTreeWidth n height ↔ 0 < n := by
  rw [lt_calcTreeWidth_iff, zero_mul]

/-- The width of a level is half the one below, rounded up. -/
theorem calcTreeWidth_succ (n height : ℕ) :
    calcTreeWidth n (height + 1) = (calcTreeWidth n height + 1) / 2 := by
  have hpow := Nat.two_pow_pos height
  rw [calcTreeWidth_eq, calcTreeWidth_eq, ← Nat.add_div_right _ hpow, Nat.div_div_eq_div_mul,
    ← pow_succ]
  congr 1
  rw [pow_succ]
  omega

theorem mul_two_lt_calcTreeWidth {n height pos : ℕ} (hpos : pos < calcTreeWidth n (height + 1)) :
    pos * 2 < calcTreeWidth n height := by
  rw [lt_calcTreeWidth_iff] at hpos ⊢
  rwa [mul_assoc, ← pow_succ']

/-- `nHeight` is the first height with at most one node. -/
def IsTreeHeight (n nHeight : ℕ) : Prop :=
  calcTreeWidth n nHeight ≤ 1 ∧ ∀ i < nHeight, 1 < calcTreeWidth n i

theorem heightLoop_isTreeHeight (n : ℕ) : ∀ fuel nHeight,
    (∀ i < nHeight, 1 < calcTreeWidth n i) → n ≤ 2 ^ (nHeight + fuel) →
      IsTreeHeight n (heightLoop n fuel nHeight)
  | 0, _, hbelow, hn => ⟨calcTreeWidth_le_one_iff.mpr hn, hbelow⟩
  | fuel + 1, nHeight, hbelow, hn => by
      unfold heightLoop
      split_ifs with hwide
      · apply heightLoop_isTreeHeight n fuel (nHeight + 1)
        · intro i hi
          rcases Nat.lt_succ_iff_lt_or_eq.mp hi with hi | rfl
          exacts [hbelow i hi, hwide]
        · rwa [Nat.add_right_comm, Nat.add_assoc]
      · exact ⟨by omega, hbelow⟩

theorem isTreeHeight_treeHeight (n : ℕ) : IsTreeHeight n (treeHeight n) :=
  heightLoop_isTreeHeight n n 0 (fun _ hi => absurd hi (Nat.not_lt_zero _))
    (by rw [zero_add]; exact Nat.lt_two_pow_self.le)

/-! ## The txids below a node -/

theorem nodeTxids_eq (n height pos : ℕ) :
    nodeTxids n height pos =
      List.range' (pos * 2 ^ height) (min ((pos + 1) * 2 ^ height) n - pos * 2 ^ height) := by
  simp [nodeTxids, Nat.shiftLeft_eq]

theorem nodeTxids_zero {n pos : ℕ} (hpos : pos < n) : nodeTxids n 0 pos = [pos] := by
  rw [nodeTxids_eq, pow_zero, mul_one, mul_one, show min (pos + 1) n - pos = 1 by omega]
  rfl

theorem range'_split {a b c : ℕ} (hab : a ≤ b) (hbc : b ≤ c) :
    List.range' a (c - a) = List.range' a (b - a) ++ List.range' b (c - b) := by
  have h := @List.range'_append a (b - a) (c - b) 1
  rw [show a + 1 * (b - a) = b by omega, show b - a + (c - b) = c - a by omega] at h
  exact h.symm

/-- The txids below a node are those below its left child, then those below
its right child if it has one. -/
theorem nodeTxids_succ (n height pos : ℕ) :
    nodeTxids n (height + 1) pos = nodeTxids n height (pos * 2) ++
      if pos * 2 + 1 < calcTreeWidth n height then nodeTxids n height (pos * 2 + 1) else [] := by
  have hlo : pos * 2 ^ (height + 1) = pos * 2 * 2 ^ height := by ring
  have hhi : (pos + 1) * 2 ^ (height + 1) = pos * 2 * 2 ^ height + 2 ^ height + 2 ^ height := by ring
  have hmid : (pos * 2 + 1) * 2 ^ height = pos * 2 * 2 ^ height + 2 ^ height := by ring
  have hmid' : (pos * 2 + 1 + 1) * 2 ^ height = pos * 2 * 2 ^ height + 2 ^ height + 2 ^ height := by
    ring
  split_ifs with hright <;> rw [lt_calcTreeWidth_iff, hmid] at hright <;>
    simp only [nodeTxids_eq, hlo, hhi, hmid, hmid'] <;>
    generalize pos * 2 * 2 ^ height = lo at hright ⊢ <;>
    generalize 2 ^ height = w at hright ⊢
  · rw [range'_split (show lo ≤ lo + w by omega) (show lo + w ≤ min (lo + w + w) n by omega),
      min_eq_left hright.le]
  · rw [List.append_nil]
    congr 2
    omega

theorem length_nodeTxids (n height pos : ℕ) :
    (nodeTxids n height pos).length = min ((pos + 1) * 2 ^ height) n - pos * 2 ^ height := by
  rw [nodeTxids_eq, List.length_range']

theorem nodeTxids_ne_nil {n height pos : ℕ} (hpos : pos < calcTreeWidth n height) :
    nodeTxids n height pos ≠ [] := by
  rw [lt_calcTreeWidth_iff] at hpos
  rw [← List.length_pos_iff, length_nodeTxids, Nat.add_mul, one_mul]
  have := Nat.two_pow_pos height
  omega

/-- Below the root are all the txids. -/
theorem nodeTxids_root {n height : ℕ} (hn : n ≤ 2 ^ height) :
    nodeTxids n height 0 = List.range n := by
  rw [nodeTxids_eq, zero_mul, zero_add, one_mul, min_eq_right hn, Nat.sub_zero,
    List.range_eq_range']

/-! ## Node hashes -/

section Hashes

variable {α : Type} [Inhabited α] {hash : α → α → α}

theorem calcHash_succ (n : ℕ) (vTxid : List α) (height pos : ℕ) :
    calcHash hash n vTxid (height + 1) pos =
      hash (calcHash hash n vTxid height (pos * 2))
        (if pos * 2 + 1 < calcTreeWidth n height then calcHash hash n vTxid height (pos * 2 + 1)
          else calcHash hash n vTxid height (pos * 2)) := rfl

omit [Inhabited α] in
/-- The rounds of `ComputeMerkleRoot` are as wide as the levels of the tree. -/
theorem length_iterate_merkleLevel (vTxid : List α) (height : ℕ) :
    ((merkleLevel hash)^[height] vTxid).length = calcTreeWidth vTxid.length height := by
  induction height with
  | zero => simp [calcTreeWidth_eq]
  | succ height ih =>
      rw [Function.iterate_succ_apply', length_merkleLevel, ih, calcTreeWidth_succ]

/-- `CalcHash` is the hash at `pos` of the round `height` of `ComputeMerkleRoot`. -/
theorem calcHash_eq_getD (vTxid : List α) : ∀ height pos, pos < calcTreeWidth vTxid.length height →
    calcHash hash vTxid.length vTxid height pos = ((merkleLevel hash)^[height] vTxid).getD pos default
  | 0, _, _ => rfl
  | height + 1, pos, hpos => by
      have hleft := mul_two_lt_calcTreeWidth hpos
      have hlen : ((merkleLevel hash)^[height] vTxid).length = calcTreeWidth vTxid.length height :=
        length_iterate_merkleLevel vTxid height
      rw [calcHash_succ, Function.iterate_succ_apply',
        getD_merkleLevel hash default (by rw [hlen]; omega), hlen, Nat.mul_comm 2 pos,
        calcHash_eq_getD vTxid height (pos * 2) hleft]
      split_ifs with hright
      · rw [calcHash_eq_getD vTxid height (pos * 2 + 1) hright]
      · rfl

/-- The hash of the root is the Merkle root of the txids. -/
theorem calcHash_treeHeight [DecidableEq α] {vTxid : List α} (hne : vTxid ≠ []) :
    calcHash hash vTxid.length vTxid (treeHeight vTxid.length) 0 = (computeMerkleRoot hash vTxid).1 := by
  obtain ⟨hle, hbelow⟩ := isTreeHeight_treeHeight vTxid.length
  have hpos : 0 < calcTreeWidth vTxid.length (treeHeight vTxid.length) :=
    calcTreeWidth_pos_iff.mpr (List.length_pos_of_ne_nil hne)
  have hlen : ((merkleLevel hash)^[treeHeight vTxid.length] vTxid).length =
      calcTreeWidth vTxid.length (treeHeight vTxid.length) :=
    length_iterate_merkleLevel vTxid _
  have hloop := computeMerkleRootLoop_fst_eq_iterate hash (treeHeight vTxid.length) vTxid false
    (by rwa [hlen]) fun i hi => by rw [length_iterate_merkleLevel]; exact hbelow i hi
  obtain ⟨root, hroot⟩ := List.length_eq_one_iff.mp (show _ = 1 by rw [hlen]; omega)
  simp only [computeMerkleRoot, calcHash_eq_getD vTxid _ 0 hpos, hloop, hroot]
  rfl

/-- Under an injective pairing, two nodes of one height with one hash have the
same first txid. -/
theorem getD_eq_of_calcHash_eq (hinj : ∀ a b c d, hash a b = hash c d → a = c ∧ b = d)
    (n : ℕ) (vTxid : List α) : ∀ height p q, p < calcTreeWidth n height → q < calcTreeWidth n height →
      calcHash hash n vTxid height p = calcHash hash n vTxid height q →
        vTxid.getD (p * 2 ^ height) default = vTxid.getD (q * 2 ^ height) default
  | 0, _, _, _, _, heq => by rw [pow_zero, mul_one, mul_one]; exact heq
  | height + 1, p, q, hp, hq, heq => by
      rw [calcHash_succ, calcHash_succ] at heq
      have hfirst := getD_eq_of_calcHash_eq hinj n vTxid height (p * 2) (q * 2)
        (mul_two_lt_calcTreeWidth hp) (mul_two_lt_calcTreeWidth hq) (hinj _ _ _ _ heq).1
      rwa [mul_assoc, mul_assoc, ← pow_succ'] at hfirst

/-- With distinct txids and an injective pairing, different nodes of one
height have different hashes: the check `right == left` of
`TraverseAndExtract` never fires on a tree that was built. -/
theorem calcHash_ne (hinj : ∀ a b c d, hash a b = hash c d → a = c ∧ b = d) {vTxid : List α}
    (hnodup : vTxid.Nodup) {height p q : ℕ} (hp : p < calcTreeWidth vTxid.length height)
    (hq : q < calcTreeWidth vTxid.length height) (hpq : p ≠ q) :
    calcHash hash vTxid.length vTxid height p ≠ calcHash hash vTxid.length vTxid height q := by
  intro heq
  have hfirst := getD_eq_of_calcHash_eq hinj _ vTxid height p q hp hq heq
  rw [lt_calcTreeWidth_iff] at hp hq
  rw [List.getD_eq_getElem _ _ hp, List.getD_eq_getElem _ _ hq, hnodup.getElem_inj_iff] at hfirst
  exact hpq (Nat.eq_of_mul_eq_mul_right (Nat.two_pow_pos height) hfirst)

end Hashes

/-! ## Building -/

/-- The matched txids below a node, in increasing order. -/
def matchedPositions (n : ℕ) (vMatch : List Bool) (height pos : ℕ) : List ℕ :=
  (nodeTxids n height pos).filter (vMatch.getD · false)

/-- The state after reading `nBits` bits and `nHash` hashes that report the
txids `matched` at `positions`. -/
def ExtractState.consume {α : Type} (s : ExtractState α) (nBits nHash : ℕ) (matched : List α)
    (positions : List ℕ) : ExtractState α :=
  { s with
    nBitsUsed := s.nBitsUsed + nBits
    nHashUsed := s.nHashUsed + nHash
    vMatch := s.vMatch ++ matched
    vnIndex := s.vnIndex ++ positions }

section Consume

variable {α : Type} {s : ExtractState α}

@[simp] theorem ExtractState.consume_fBad (nBits nHash : ℕ) (matched : List α) (positions : List ℕ) :
    (s.consume nBits nHash matched positions).fBad = s.fBad := rfl

@[simp] theorem ExtractState.consume_nBitsUsed (nBits nHash : ℕ) (matched : List α)
    (positions : List ℕ) : (s.consume nBits nHash matched positions).nBitsUsed = s.nBitsUsed + nBits :=
  rfl

@[simp] theorem ExtractState.consume_nHashUsed (nBits nHash : ℕ) (matched : List α)
    (positions : List ℕ) : (s.consume nBits nHash matched positions).nHashUsed = s.nHashUsed + nHash :=
  rfl

theorem ExtractState.consume_consume (a b a' b' : ℕ) (m m' : List α) (p p' : List ℕ) :
    (s.consume a b m p).consume a' b' m' p' = s.consume (a + a') (b + b') (m ++ m') (p ++ p') := by
  simp [ExtractState.consume, Nat.add_assoc, List.append_assoc]

end Consume

section Build

variable {α : Type} [Inhabited α] {hash : α → α → α} {n : ℕ} {vTxid : List α} {vMatch : List Bool}

theorem parentOfMatch_zero {pos : ℕ} (hpos : pos < n) :
    parentOfMatch n vMatch 0 pos = vMatch.getD pos false := by
  simp [parentOfMatch, nodeTxids_zero hpos]

theorem matchedPositions_zero {pos : ℕ} (hpos : pos < n) :
    matchedPositions n vMatch 0 pos = if vMatch.getD pos false then [pos] else [] := by
  rw [matchedPositions, nodeTxids_zero hpos, List.filter_singleton]
  cases vMatch.getD pos false <;> rfl

theorem matchedPositions_succ (height pos : ℕ) :
    matchedPositions n vMatch (height + 1) pos = matchedPositions n vMatch height (pos * 2) ++
      if pos * 2 + 1 < calcTreeWidth n height then matchedPositions n vMatch height (pos * 2 + 1)
      else [] := by
  rw [matchedPositions, nodeTxids_succ, List.filter_append]
  split_ifs <;> rfl

theorem matchedPositions_eq_nil {height pos : ℕ} (hf : parentOfMatch n vMatch height pos = false) :
    matchedPositions n vMatch height pos = [] :=
  List.filter_eq_nil_iff.mpr (List.any_eq_false.mp hf)

theorem traverseAndBuild_zero (pos : ℕ) :
    traverseAndBuild hash n vTxid vMatch 0 pos =
      ([parentOfMatch n vMatch 0 pos], [calcHash hash n vTxid 0 pos]) := rfl

theorem traverseAndBuild_of_not_parent {height pos : ℕ}
    (hf : parentOfMatch n vMatch (height + 1) pos = false) :
    traverseAndBuild hash n vTxid vMatch (height + 1) pos =
      ([false], [calcHash hash n vTxid (height + 1) pos]) := by
  simp [traverseAndBuild, hf]

theorem traverseAndBuild_of_lt {height pos : ℕ} (hf : parentOfMatch n vMatch (height + 1) pos = true)
    (hright : pos * 2 + 1 < calcTreeWidth n height) :
    traverseAndBuild hash n vTxid vMatch (height + 1) pos =
      (true :: (traverseAndBuild hash n vTxid vMatch height (pos * 2)).1 ++
          (traverseAndBuild hash n vTxid vMatch height (pos * 2 + 1)).1,
        (traverseAndBuild hash n vTxid vMatch height (pos * 2)).2 ++
          (traverseAndBuild hash n vTxid vMatch height (pos * 2 + 1)).2) := by
  simp [traverseAndBuild, hf, hright]

theorem traverseAndBuild_of_not_lt {height pos : ℕ} (hf : parentOfMatch n vMatch (height + 1) pos = true)
    (hright : ¬pos * 2 + 1 < calcTreeWidth n height) :
    traverseAndBuild hash n vTxid vMatch (height + 1) pos =
      (true :: (traverseAndBuild hash n vTxid vMatch height (pos * 2)).1,
        (traverseAndBuild hash n vTxid vMatch height (pos * 2)).2) := by
  simp [traverseAndBuild, hf, hright]

/-- At least one bit for every hash. -/
theorem length_traverseAndBuild_snd_le_fst : ∀ height pos,
    (traverseAndBuild hash n vTxid vMatch height pos).2.length ≤
      (traverseAndBuild hash n vTxid vMatch height pos).1.length
  | 0, _ => le_rfl
  | height + 1, pos => by
      cases hf : parentOfMatch n vMatch (height + 1) pos with
      | false => simp [traverseAndBuild_of_not_parent hf]
      | true =>
          have hl := length_traverseAndBuild_snd_le_fst height (pos * 2)
          by_cases hright : pos * 2 + 1 < calcTreeWidth n height
          · have hr := length_traverseAndBuild_snd_le_fst height (pos * 2 + 1)
            rw [traverseAndBuild_of_lt hf hright]
            simp only [List.length_cons, List.length_append]
            omega
          · rw [traverseAndBuild_of_not_lt hf hright]
            simp only [List.length_cons]
            omega

/-- At most one hash for every txid below the node. -/
theorem length_traverseAndBuild_snd_le : ∀ height pos, pos < calcTreeWidth n height →
    (traverseAndBuild hash n vTxid vMatch height pos).2.length ≤ (nodeTxids n height pos).length
  | 0, _, hpos => List.length_pos_iff.mpr (nodeTxids_ne_nil hpos)
  | height + 1, pos, hpos => by
      have hleft := mul_two_lt_calcTreeWidth hpos
      have hl := length_traverseAndBuild_snd_le height (pos * 2) hleft
      cases hf : parentOfMatch n vMatch (height + 1) pos with
      | false =>
          rw [traverseAndBuild_of_not_parent hf]
          exact List.length_pos_iff.mpr (nodeTxids_ne_nil hpos)
      | true =>
          rw [nodeTxids_succ]
          by_cases hright : pos * 2 + 1 < calcTreeWidth n height
          · have hr := length_traverseAndBuild_snd_le height (pos * 2 + 1) hright
            rw [traverseAndBuild_of_lt hf hright, if_pos hright, List.length_append, List.length_append]
            omega
          · rw [traverseAndBuild_of_not_lt hf hright, if_neg hright, List.append_nil]
            exact hl

end Build

/-! ## Extracting -/

section Extract

variable {α : Type} [Inhabited α] [DecidableEq α] {hash : α → α → α} {t : CPartialMerkleTree α}
  {s : ExtractState α}

omit [DecidableEq α] in
theorem extractHash_of_getElem? {x : α} (hx : t.vHash[s.nHashUsed]? = some x) (height pos : ℕ)
    (fParentOfMatch : Bool) :
    extractHash t height pos fParentOfMatch s =
      (x, if height = 0 ∧ fParentOfMatch = true then s.consume 0 1 [x] [pos] else s.consume 0 1 [] []) := by
  obtain ⟨hlt, heq⟩ := List.getElem?_eq_some_iff.mp hx
  simp [extractHash, hlt, heq, ExtractState.consume]

/-- One step of `TraverseAndExtract`, by the bit at `nBitsUsed`: with no bit
left the tree is bad, a leaf or an unmatched node reads a hash, and a matched
inner node descends into its children. The case lemmas below all unfold the
definition through this one. -/
theorem traverseAndExtract_eq (height pos : ℕ) (s : ExtractState α) :
    traverseAndExtract hash t height pos s =
      match t.vBits[s.nBitsUsed]?, height with
      | none, _ => (default, { s with fBad := true })
      | some f, 0 => extractHash t 0 pos f (s.consume 1 0 [] [])
      | some false, height + 1 => extractHash t (height + 1) pos false (s.consume 1 0 [] [])
      | some true, height + 1 =>
          let left := traverseAndExtract hash t height (pos * 2) (s.consume 1 0 [] [])
          if pos * 2 + 1 < calcTreeWidth t.nTransactions height then
            let right := traverseAndExtract hash t height (pos * 2 + 1) left.2
            (hash left.1 right.1, if right.1 = left.1 then { right.2 with fBad := true } else right.2)
          else (hash left.1 left.1, left.2) := by
  rw [traverseAndExtract]
  by_cases hlt : s.nBitsUsed < t.vBits.length
  · rw [dif_pos hlt, List.getElem?_eq_getElem hlt]
    cases height <;> cases t.vBits[s.nBitsUsed] <;> simp [ExtractState.consume]
  · rw [dif_neg hlt, List.getElem?_eq_none (by omega)]

theorem traverseAndExtract_of_getElem?_eq_none (hb : t.vBits[s.nBitsUsed]? = none) (height pos : ℕ) :
    traverseAndExtract hash t height pos s = (default, { s with fBad := true }) := by
  rw [traverseAndExtract_eq, hb]

theorem traverseAndExtract_zero {f : Bool} (hb : t.vBits[s.nBitsUsed]? = some f) (pos : ℕ) :
    traverseAndExtract hash t 0 pos s = extractHash t 0 pos f (s.consume 1 0 [] []) := by
  rw [traverseAndExtract_eq, hb]

theorem traverseAndExtract_succ_of_false (hb : t.vBits[s.nBitsUsed]? = some false) (height pos : ℕ) :
    traverseAndExtract hash t (height + 1) pos s =
      extractHash t (height + 1) pos false (s.consume 1 0 [] []) := by
  rw [traverseAndExtract_eq, hb]

theorem traverseAndExtract_succ_of_lt (hb : t.vBits[s.nBitsUsed]? = some true) {height pos : ℕ}
    (hright : pos * 2 + 1 < calcTreeWidth t.nTransactions height) :
    traverseAndExtract hash t (height + 1) pos s =
      let left := traverseAndExtract hash t height (pos * 2) (s.consume 1 0 [] [])
      let right := traverseAndExtract hash t height (pos * 2 + 1) left.2
      (hash left.1 right.1, if right.1 = left.1 then { right.2 with fBad := true } else right.2) := by
  rw [traverseAndExtract_eq, hb]
  exact if_pos hright

theorem traverseAndExtract_succ_of_not_lt (hb : t.vBits[s.nBitsUsed]? = some true) {height pos : ℕ}
    (hright : ¬pos * 2 + 1 < calcTreeWidth t.nTransactions height) :
    traverseAndExtract hash t (height + 1) pos s =
      let left := traverseAndExtract hash t height (pos * 2) (s.consume 1 0 [] [])
      (hash left.1 left.1, left.2) := by
  rw [traverseAndExtract_eq, hb]
  exact if_neg hright

/-- Reading back what `TraverseAndBuild` wrote for a node, from any place in
`vBits` and `vHash`: the node's hash, with its bits and hashes consumed and
its matched txids reported in order. The induction is on the height; the
right child is read where the left one ends. -/
theorem traverseAndExtract_traverseAndBuild (hinj : ∀ a b c d, hash a b = hash c d → a = c ∧ b = d)
    {vTxid : List α} (hnodup : vTxid.Nodup) (vMatch : List Bool)
    (ht : t.nTransactions = vTxid.length) :
    ∀ height pos, pos < calcTreeWidth vTxid.length height →
    ∀ (preB postB : List Bool) (preH postH : List α) (s : ExtractState α),
      t.vBits = preB ++ (traverseAndBuild hash vTxid.length vTxid vMatch height pos).1 ++ postB →
      t.vHash = preH ++ (traverseAndBuild hash vTxid.length vTxid vMatch height pos).2 ++ postH →
      s.nBitsUsed = preB.length → s.nHashUsed = preH.length →
      traverseAndExtract hash t height pos s =
        (calcHash hash vTxid.length vTxid height pos,
          s.consume (traverseAndBuild hash vTxid.length vTxid vMatch height pos).1.length
            (traverseAndBuild hash vTxid.length vTxid vMatch height pos).2.length
            ((matchedPositions vTxid.length vMatch height pos).map (vTxid.getD · default))
            (matchedPositions vTxid.length vMatch height pos))
  | 0, pos, hpos, preB, postB, preH, postH, s, hB, hH, hsB, hsH => by
      have hlt : pos < vTxid.length := by simpa using lt_calcTreeWidth_iff.mp hpos
      rw [traverseAndBuild_zero] at hB hH ⊢
      have hbit : t.vBits[s.nBitsUsed]? = some (parentOfMatch vTxid.length vMatch 0 pos) := by
        simp [hB, hsB]
      have hhash : t.vHash[(s.consume 1 0 [] []).nHashUsed]? =
          some (calcHash hash vTxid.length vTxid 0 pos) := by simp [hH, hsH]
      rw [traverseAndExtract_zero hbit, extractHash_of_getElem? hhash,
        parentOfMatch_zero hlt, matchedPositions_zero hlt]
      cases vMatch.getD pos false <;> simp [ExtractState.consume_consume, calcHash]
  | height + 1, pos, hpos, preB, postB, preH, postH, s, hB, hH, hsB, hsH => by
      have hleft := mul_two_lt_calcTreeWidth hpos
      cases hf : parentOfMatch vTxid.length vMatch (height + 1) pos with
      | false =>
          rw [traverseAndBuild_of_not_parent hf] at hB hH ⊢
          have hbit : t.vBits[s.nBitsUsed]? = some false := by simp [hB, hsB]
          have hhash : t.vHash[(s.consume 1 0 [] []).nHashUsed]? =
              some (calcHash hash vTxid.length vTxid (height + 1) pos) := by simp [hH, hsH]
          rw [traverseAndExtract_succ_of_false hbit, extractHash_of_getElem? hhash,
            matchedPositions_eq_nil hf]
          simp [ExtractState.consume_consume]
      | true =>
          have hl := traverseAndExtract_traverseAndBuild hinj hnodup vMatch ht height (pos * 2) hleft
          by_cases hright : pos * 2 + 1 < calcTreeWidth vTxid.length height
          · have hr := traverseAndExtract_traverseAndBuild hinj hnodup vMatch ht height (pos * 2 + 1)
              hright
            have hne := calcHash_ne hinj hnodup hright hleft (by omega)
            rw [traverseAndBuild_of_lt hf hright] at hB hH ⊢
            rw [calcHash_succ, if_pos hright, matchedPositions_succ, if_pos hright]
            generalize traverseAndBuild hash vTxid.length vTxid vMatch height (pos * 2) = L at hl hB hH ⊢
            generalize traverseAndBuild hash vTxid.length vTxid vMatch height (pos * 2 + 1) = R
              at hr hB hH ⊢
            have hbit : t.vBits[s.nBitsUsed]? = some true := by simp [hB, hsB]
            have hl' := hl (preB ++ [true]) (R.1 ++ postB) preH (R.2 ++ postH) (s.consume 1 0 [] [])
              (by simp [hB]) (by simp [hH]) (by simp [hsB]) (by simp [hsH])
            have hr' := hr (preB ++ [true] ++ L.1) postB (preH ++ L.2) postH
              ((s.consume 1 0 [] []).consume L.1.length L.2.length
                ((matchedPositions vTxid.length vMatch height (pos * 2)).map (vTxid.getD · default))
                (matchedPositions vTxid.length vMatch height (pos * 2)))
              (by simp [hB]) (by simp [hH]) (by simp [hsB]; omega) (by simp [hsH])
            rw [traverseAndExtract_succ_of_lt hbit (by rwa [ht])]
            simp only [hl', hr', if_neg hne]
            simp [ExtractState.consume_consume]
            congr 1
            omega
          · rw [traverseAndBuild_of_not_lt hf hright] at hB hH ⊢
            rw [calcHash_succ, if_neg hright, matchedPositions_succ, if_neg hright]
            generalize traverseAndBuild hash vTxid.length vTxid vMatch height (pos * 2) = L at hl hB hH ⊢
            have hbit : t.vBits[s.nBitsUsed]? = some true := by simp [hB, hsB]
            have hl' := hl (preB ++ [true]) postB preH postH (s.consume 1 0 [] [])
              (by simp [hB]) (by simp [hH]) (by simp [hsB]) (by simp [hsH])
            rw [traverseAndExtract_succ_of_not_lt hbit (by rwa [ht])]
            simp only [hl']
            simp [ExtractState.consume_consume]
            congr 1
            omega

omit [DecidableEq α] in
theorem extractHash_le_length (height pos : ℕ) (fParentOfMatch : Bool)
    (hh : s.nHashUsed ≤ t.vHash.length) :
    (extractHash t height pos fParentOfMatch s).2.nBitsUsed = s.nBitsUsed ∧
      (extractHash t height pos fParentOfMatch s).2.nHashUsed ≤ t.vHash.length := by
  unfold extractHash
  split_ifs <;> simp <;> omega

/-- The counters of `TraverseAndExtract` never pass the ends of `vBits` and
`vHash`, on any tree: every bit and hash it reads is in range. -/
theorem traverseAndExtract_le_length (t : CPartialMerkleTree α) (height : ℕ) :
    ∀ pos (s : ExtractState α), s.nBitsUsed ≤ t.vBits.length → s.nHashUsed ≤ t.vHash.length →
      (traverseAndExtract hash t height pos s).2.nBitsUsed ≤ t.vBits.length ∧
        (traverseAndExtract hash t height pos s).2.nHashUsed ≤ t.vHash.length := by
  induction height with
  | zero =>
      intro pos s hb hh
      cases hbit : t.vBits[s.nBitsUsed]? with
      | none => rw [traverseAndExtract_of_getElem?_eq_none hbit]; exact ⟨hb, hh⟩
      | some f =>
          have hlt := (List.getElem?_eq_some_iff.mp hbit).1
          have h := extractHash_le_length (s := s.consume 1 0 [] []) 0 pos f (by simpa using hh)
          rw [traverseAndExtract_zero hbit]
          simp only [ExtractState.consume_nBitsUsed] at h
          omega
  | succ height ih =>
      intro pos s hb hh
      cases hbit : t.vBits[s.nBitsUsed]? with
      | none => rw [traverseAndExtract_of_getElem?_eq_none hbit]; exact ⟨hb, hh⟩
      | some f =>
          have hlt := (List.getElem?_eq_some_iff.mp hbit).1
          have hleft := ih (pos * 2) (s.consume 1 0 [] []) (by simp; omega) (by simpa using hh)
          cases f with
          | false =>
              have h := extractHash_le_length (s := s.consume 1 0 [] []) (height + 1) pos false
                (by simpa using hh)
              rw [traverseAndExtract_succ_of_false hbit]
              simp only [ExtractState.consume_nBitsUsed] at h
              omega
          | true =>
              by_cases hright : pos * 2 + 1 < calcTreeWidth t.nTransactions height
              · have hr := ih (pos * 2 + 1) _ hleft.1 hleft.2
                rw [traverseAndExtract_succ_of_lt hbit hright]
                dsimp only
                split_ifs <;> exact hr
              · rw [traverseAndExtract_succ_of_not_lt hbit hright]
                exact hleft

end Extract

/-! ## Serialization -/

/-- A round of the writing loop: `vBytes[p / 8] |= vBits[p] << (p % 8)`. -/
def packBit (vBits : List Bool) (vBytes : List UInt8) (p : ℕ) : List UInt8 :=
  vBytes.modify (p / 8) (· ||| (vBits.getD p false).toUInt8 <<< (p % 8).toUInt8)

/-- The bytes of `vBits`, bit `p` at bit `p % 8` of byte `p / 8`. -/
def packBits (vBits : List Bool) : List UInt8 :=
  (List.range vBits.length).foldl (packBit vBits) (List.replicate ((vBits.length + 7) / 8) 0)

/-- The bits read back from `vBytes`, eight a byte. -/
def unpackBits (vBytes : List UInt8) : List Bool :=
  (List.range (vBytes.length * 8)).map fun p =>
    vBytes.getD (p / 8) 0 &&& (1 : UInt8) <<< (p % 8).toUInt8 != 0

/-- Writing a tree. -/
def CPartialMerkleTree.serialize {α : Type} (t : CPartialMerkleTree α) : SerializedTree α :=
  ⟨t.nTransactions, t.vHash, packBits t.vBits⟩

/-- Reading a tree: the bits of every byte, and `fBad` cleared. -/
def SerializedTree.deserialize {α : Type} (s : SerializedTree α) : CPartialMerkleTree α :=
  ⟨s.nTransactions, unpackBits s.vBytes, s.vHash, false⟩

/-! ## Reading back what was written -/

theorem and_one_shiftLeft_ne_zero (x : UInt8) {k : ℕ} (hk : k < 8) :
    (x &&& (1 : UInt8) <<< k.toUInt8 != 0) = x.toNat.testBit k := by
  have hshift : ((1 : UInt8) <<< k.toUInt8).toNat = 2 ^ k := by
    rw [UInt8.toNat_shiftLeft, Nat.toUInt8, UInt8.toNat_ofNat', Nat.mod_eq_of_lt (by omega : k < 2 ^ 8),
      Nat.mod_eq_of_lt hk, show (1 : UInt8).toNat = 1 from rfl, Nat.one_shiftLeft,
      Nat.mod_eq_of_lt (Nat.pow_lt_pow_right (by norm_num) hk)]
  have hne : (x &&& (1 : UInt8) <<< k.toUInt8 != 0) = decide (x.toNat &&& 2 ^ k ≠ 0) := by
    rw [Bool.eq_iff_iff, bne_iff_ne, decide_eq_true_iff, Ne, ← UInt8.toNat_inj, UInt8.toNat_and, hshift]
    rfl
  rw [hne, Nat.and_two_pow]
  cases x.toNat.testBit k <;> simp

theorem testBit_or_toUInt8_shiftLeft (x : UInt8) (b : Bool) {i k : ℕ} (hi : i < 8) (hk : k < 8) :
    (x ||| b.toUInt8 <<< i.toUInt8).toNat.testBit k = (x.toNat.testBit k || b && decide (i = k)) := by
  have hbit : ∀ b : Bool, ∀ i k : Fin 8,
      (b.toUInt8 <<< i.val.toUInt8).toNat.testBit k = (b && decide (i.val = k.val)) := by decide
  rw [UInt8.toNat_or, Nat.testBit_or, hbit b ⟨i, hi⟩ ⟨k, hk⟩]

theorem getD_modify_self {α : Type} {l : List α} {i : ℕ} (hi : i < l.length) (f : α → α) (d : α) :
    (l.modify i f).getD i d = f (l.getD i d) := by
  simp [List.getD_eq_getElem?_getD, hi]

theorem getD_modify_of_ne {α : Type} (l : List α) {i j : ℕ} (hij : i ≠ j) (f : α → α) (d : α) :
    (l.modify i f).getD j d = l.getD j d := by
  simp only [List.getD_eq_getElem?_getD, List.getElem?_modify, if_neg hij]
  cases l[j]? <;> rfl

theorem length_foldl_packBit (vBits : List Bool) :
    ∀ (ps : List ℕ) (vBytes : List UInt8), (ps.foldl (packBit vBits) vBytes).length = vBytes.length
  | [], _ => rfl
  | p :: ps, vBytes => by
      rw [List.foldl_cons, length_foldl_packBit vBits ps, packBit, List.length_modify]

theorem length_packBits (vBits : List Bool) : (packBits vBits).length = (vBits.length + 7) / 8 := by
  rw [packBits, length_foldl_packBit, List.length_replicate]

/-- After the first `m` rounds of the writing loop, bit `k` of byte `j` is bit
`8 * j + k` of `vBits` if that one was written, and clear otherwise. -/
theorem testBit_foldl_packBit (vBits : List Bool) : ∀ m ≤ vBits.length, ∀ j k, k < 8 →
    (((List.range m).foldl (packBit vBits) (List.replicate ((vBits.length + 7) / 8) 0)).getD j 0).toNat.testBit k =
      (decide (8 * j + k < m) && vBits.getD (8 * j + k) false)
  | 0, _, j, k, _ => by
      simp [List.getD_eq_getElem?_getD, List.getElem?_replicate]
      split_ifs <;> simp
  | m + 1, hm, j, k, hk => by
      have ih := testBit_foldl_packBit vBits m (by omega) j k hk
      have hlen : ((List.range m).foldl (packBit vBits)
          (List.replicate ((vBits.length + 7) / 8) 0)).length = (vBits.length + 7) / 8 := by
        rw [length_foldl_packBit, List.length_replicate]
      rw [List.range_succ, List.foldl_append, List.foldl_cons, List.foldl_nil, packBit]
      generalize (List.range m).foldl (packBit vBits) (List.replicate ((vBits.length + 7) / 8) 0) = B
        at ih hlen
      by_cases hwrite : 8 * j + k = m
      · -- the round writes this very bit
        subst hwrite
        rw [show (8 * j + k) / 8 = j by omega, getD_modify_self (by omega),
          testBit_or_toUInt8_shiftLeft _ _ (Nat.mod_lt _ (by norm_num)) hk, ih]
        simp [show (8 * j + k) % 8 = k by omega]
      · have hbefore : decide (8 * j + k < m + 1) = decide (8 * j + k < m) := by
          simp only [decide_eq_decide]
          omega
        rw [hbefore, ← ih]
        by_cases hbyte : m / 8 = j
        · rw [hbyte, getD_modify_self (by omega),
            testBit_or_toUInt8_shiftLeft _ _ (Nat.mod_lt _ (by norm_num)) hk]
          simp [show ¬m % 8 = k by omega]
        · rw [getD_modify_of_ne _ hbyte]

/-- Reading the bytes gives the bits back, padded with clear bits to a whole
number of bytes. -/
theorem unpackBits_packBits (vBits : List Bool) :
    unpackBits (packBits vBits) =
      vBits ++ List.replicate ((vBits.length + 7) / 8 * 8 - vBits.length) false := by
  apply List.ext_getElem
  · simp only [unpackBits, List.length_map, List.length_range, length_packBits, List.length_append,
      List.length_replicate]
    omega
  · intro p hp _
    have hbit := testBit_foldl_packBit vBits vBits.length le_rfl (p / 8) (p % 8) (Nat.mod_lt _ (by norm_num))
    rw [Nat.div_add_mod] at hbit
    simp only [unpackBits, List.getElem_map, List.getElem_range]
    rw [and_one_shiftLeft_ne_zero _ (Nat.mod_lt _ (by norm_num)), packBits, hbit, List.getElem_append]
    split_ifs with hlt <;> simp [hlt]

example : packBits [true, false, true, true, false, false, false, false, true] = [13, 1] := by decide

/-- A tree read back after it was written: the bits padded to whole bytes,
`fBad` cleared. -/
theorem deserialize_serialize {α : Type} (t : CPartialMerkleTree α) :
    t.serialize.deserialize =
      { t with
        vBits := t.vBits ++ List.replicate ((t.vBits.length + 7) / 8 * 8 - t.vBits.length) false
        fBad := false } := by
  simp [CPartialMerkleTree.serialize, SerializedTree.deserialize, unpackBits_packBits]

/-! ## The round trip -/

section RoundTrip

variable {α : Type} [Inhabited α] [DecidableEq α] {hash : α → α → α}

/-- `ExtractMatches` on a tree that holds the bits and hashes the constructor
writes for `vTxid`, the bits followed by at most the padding of their last
byte: the Merkle root and the matched txids with their positions. -/
theorem extractMatches_of_traverseAndBuild (hinj : ∀ a b c d, hash a b = hash c d → a = c ∧ b = d)
    {vTxid : List α} (hne : vTxid ≠ []) (hnodup : vTxid.Nodup) (vMatch : List Bool)
    {dgpMaxBlockSize : UInt32} (hmax : vTxid.length ≤ maxTransactions dgpMaxBlockSize)
    {t : CPartialMerkleTree α} (ht : t.nTransactions = vTxid.length) (pad : List Bool)
    (hbits : t.vBits =
      (traverseAndBuild hash vTxid.length vTxid vMatch (treeHeight vTxid.length) 0).1 ++ pad)
    (hpad : ((traverseAndBuild hash vTxid.length vTxid vMatch (treeHeight vTxid.length) 0).1.length + 7) / 8 =
      (t.vBits.length + 7) / 8)
    (hhash : t.vHash = (traverseAndBuild hash vTxid.length vTxid vMatch (treeHeight vTxid.length) 0).2)
    (hbad : t.fBad = false) (vnIndex : List ℕ) :
    t.extractMatches hash dgpMaxBlockSize vnIndex =
      ⟨(computeMerkleRoot hash vTxid).1,
        ((List.range vTxid.length).filter (vMatch.getD · false)).map (vTxid.getD · default),
        vnIndex ++ (List.range vTxid.length).filter (vMatch.getD · false), false⟩ := by
  have hlen := List.length_pos_of_ne_nil hne
  have hheight := isTreeHeight_treeHeight vTxid.length
  have hroot : 0 < calcTreeWidth vTxid.length (treeHeight vTxid.length) :=
    calcTreeWidth_pos_iff.mpr hlen
  have hall : vTxid.length ≤ 2 ^ treeHeight vTxid.length := calcTreeWidth_le_one_iff.mp hheight.1
  have htxids : (traverseAndBuild hash vTxid.length vTxid vMatch (treeHeight vTxid.length) 0).2.length ≤
      (nodeTxids vTxid.length (treeHeight vTxid.length) 0).length :=
    length_traverseAndBuild_snd_le _ 0 hroot
  rw [nodeTxids_root hall, List.length_range] at htxids
  have hbits_le : (traverseAndBuild hash vTxid.length vTxid vMatch (treeHeight vTxid.length) 0).2.length ≤
      (traverseAndBuild hash vTxid.length vTxid vMatch (treeHeight vTxid.length) 0).1.length :=
    length_traverseAndBuild_snd_le_fst _ 0
  have htrav := traverseAndExtract_traverseAndBuild hinj hnodup vMatch ht (treeHeight vTxid.length) 0 hroot
    [] pad [] [] ⟨0, 0, [], vnIndex, false⟩ (by simp [hbits]) (by simp [hhash]) rfl rfl
  rw [matchedPositions, nodeTxids_root hall, calcHash_treeHeight hne] at htrav
  unfold CPartialMerkleTree.extractMatches
  rw [if_neg (by omega), if_neg (by omega), if_neg (by rw [hhash, ht]; omega),
    if_neg (by rw [hbits, hhash, List.length_append]; omega)]
  simp only [ht, hbad, htrav]
  simp [ExtractState.consume, hpad, hhash]

/-- A partial Merkle tree built from distinct txids, as it is and after it was
written and read back, gives from `ExtractMatches` the Merkle root of the
txids with the matched txids and their positions, in increasing order; the
pairing is modelled as injective. On every tree the traversal of
`ExtractMatches` keeps its counters within `vBits` and `vHash`. -/
theorem partialMerkleTree_round_trip (hinj : ∀ a b c d, hash a b = hash c d → a = c ∧ b = d)
    {vTxid : List α} (hne : vTxid ≠ []) (hnodup : vTxid.Nodup) {dgpMaxBlockSize : UInt32}
    (hmax : vTxid.length ≤ maxTransactions dgpMaxBlockSize) {vMatch : List Bool}
    (hlen : vMatch.length = vTxid.length) (vnIndex : List ℕ) :
    (let tree := CPartialMerkleTree.ofTxids hash vTxid vMatch
      let positions := (List.range vMatch.length).filter (vMatch.getD · false)
      let expected : ExtractResult α :=
        ⟨(computeMerkleRoot hash vTxid).1, positions.map (vTxid.getD · default), vnIndex ++ positions,
          false⟩
      tree.extractMatches hash dgpMaxBlockSize vnIndex = expected ∧
        tree.serialize.deserialize.extractMatches hash dgpMaxBlockSize vnIndex = expected) ∧
    ∀ (t : CPartialMerkleTree α) (vnIndex : List ℕ),
      let s := (traverseAndExtract hash t (treeHeight t.nTransactions) 0 ⟨0, 0, [], vnIndex, t.fBad⟩).2
      s.nBitsUsed ≤ t.vBits.length ∧ s.nHashUsed ≤ t.vHash.length := by
  refine ⟨?_, fun t vnIndex => traverseAndExtract_le_length t _ 0 _ (Nat.zero_le _) (Nat.zero_le _)⟩
  dsimp only
  rw [hlen]
  refine ⟨extractMatches_of_traverseAndBuild hinj hne hnodup vMatch hmax rfl []
    (List.append_nil _).symm rfl rfl rfl vnIndex, ?_⟩
  rw [deserialize_serialize]
  exact extractMatches_of_traverseAndBuild hinj hne hnodup vMatch hmax rfl _ rfl
    (by simp only [List.length_append, List.length_replicate, CPartialMerkleTree.ofTxids]; omega)
    rfl rfl vnIndex

end RoundTrip

/-- Three txids with the middle one matched: the tree of height two keeps the
leaves of the left pair and the hash of the right node. -/
theorem partialMerkleTree_round_trip_three :
    (∀ a b c d, oddPair a b = oddPair c d → a = c ∧ b = d) ∧ [0, 2, 4] ≠ [] ∧ [0, 2, 4].Nodup ∧
      [0, 2, 4].length ≤ maxTransactions 8000000 ∧ [false, true, false].length = [0, 2, 4].length ∧
      ((let tree := CPartialMerkleTree.ofTxids oddPair [0, 2, 4] [false, true, false]
        let positions := (List.range [false, true, false].length).filter ([false, true, false].getD · false)
        let expected : ExtractResult ℕ :=
          ⟨(computeMerkleRoot oddPair [0, 2, 4]).1, positions.map ([0, 2, 4].getD · default),
            [] ++ positions, false⟩
        tree.extractMatches oddPair 8000000 [] = expected ∧
          tree.serialize.deserialize.extractMatches oddPair 8000000 [] = expected) ∧
      ∀ (t : CPartialMerkleTree ℕ) (vnIndex : List ℕ),
        let s := (traverseAndExtract oddPair t (treeHeight t.nTransactions) 0
          ⟨0, 0, [], vnIndex, t.fBad⟩).2
        s.nBitsUsed ≤ t.vBits.length ∧ s.nHashUsed ≤ t.vHash.length) :=
  ⟨oddPair_inj, by decide, by decide, by decide, rfl,
    partialMerkleTree_round_trip oddPair_inj (by decide) (by decide) (by decide) rfl []⟩

end Metrix
