import Metrix.Primitives.ArithUint256
import Metrix.Primitives.Compact

/-! `GetBlockProof` (`chain.cpp`): the work a block of target `T` adds to
the chain, `2 ^ 256 / (T + 1)`. The code cannot hold `2 ^ 256`, so it
computes `(~T / (T + 1)) + 1` in 256 bits. The target is decoded by
`arith_uint256::SetCompact` on the limbs, which agrees with the `BitVec 256`
reading of `Primitives/Compact.lean`; no compact value decodes to
`2 ^ 256 - 1`, so `T + 1` never wraps and the division never throws. -/

namespace Metrix

open BaseUint Limbs

/-- `arith_uint256::SetCompact` on the limbs: `*this = nWord` with the word
shifted down for a size of at most three, and `*this <<= 8 * (nSize - 3)`
after it otherwise. -/
def setCompactLimbs (nCompact : UInt32) : ArithUint256 :=
  let nSize := (nCompact >>> 24).toNat
  let nWord := nCompact &&& 0x007fffff
  if nSize ≤ 3 then ofUInt64 (nWord >>> (8 * (3 - nSize)).toUInt32).toUInt64
  else ofUInt64 nWord.toUInt64 <<< (8 * (nSize - 3))

/-- `GetBlockProof`: zero for a negative, overflowing or zero target, and
`~bnTarget / (bnTarget + 1) + 1` otherwise. -/
def getBlockProof (nBits : UInt32) : Except String ArithUint256 :=
  let bnTarget := setCompactLimbs nBits
  if setCompactNegative nBits || setCompactOverflow nBits || bnTarget.equalTo 0 then
    .ok (ofUInt64 0)
  else do
    let q ← (~~~bnTarget).div (bnTarget + ofUInt64 1)
    return q + ofUInt64 1

/-- The targets that `GetBlockProof` gives work to: no sign, no overflow,
and not zero. -/
def TargetValid (nBits : UInt32) : Prop :=
  setCompactNegative nBits = false ∧ setCompactOverflow nBits = false ∧
    (setCompact nBits).toNat ≠ 0

instance : DecidablePred TargetValid := fun _ => inferInstanceAs (Decidable (_ ∧ _ ∧ _))

/-! ## The decoded target -/

/-- The limbs `SetCompact` writes hold the value of the `BitVec 256` model. -/
theorem toNat_setCompactLimbs (nCompact : UInt32) :
    (setCompactLimbs nCompact).toNat = (setCompact nCompact).toNat := by
  have hsize : (nCompact >>> 24).toNat = nCompact.toNat / 2 ^ 24 := by
    rw [UInt32.toNat_shiftRight]
    simp [Nat.shiftRight_eq_div_pow]
  have hword : (nCompact &&& 0x007fffff).toNat = nCompact.toNat % 2 ^ 23 := by
    rw [UInt32.toNat_and]
    show nCompact.toNat &&& (2 ^ 23 - 1) = _
    rw [Nat.and_two_pow_sub_one_eq_mod]
  have hwlt : nCompact.toNat % 2 ^ 23 < 2 ^ 23 := Nat.mod_lt _ (by decide)
  unfold setCompactLimbs setCompact
  dsimp only
  rw [hsize]
  split
  · -- a size of at most three: the word shifted down within 32 bits
    have hshift : 8 * (3 - nCompact.toNat / 2 ^ 24) < 32 := by omega
    have hdown : nCompact.toNat % 2 ^ 23 / 2 ^ (8 * (3 - nCompact.toNat / 2 ^ 24)) < 2 ^ 256 :=
      lt_of_le_of_lt (Nat.div_le_self _ _) (by omega)
    rw [toNat_ofUInt64, UInt32.toNat_toUInt64, UInt32.toNat_shiftRight, toNat_toUInt32_of_lt hshift,
      Nat.mod_eq_of_lt hshift, hword, Nat.shiftRight_eq_div_pow, BitVec.toNat_ofNat,
      Nat.mod_eq_of_lt hdown]
  · rw [toNat_shiftLeft, toNat_ofUInt64, UInt32.toNat_toUInt64, hword, BitVec.toNat_shiftLeft,
      BitVec.toNat_ofNat, Nat.mod_eq_of_lt (by omega : nCompact.toNat % 2 ^ 23 < 2 ^ 256),
      Nat.shiftLeft_eq]

/-- No compact value decodes to `2 ^ 256 - 1`: a size of at most three keeps
the value below `2 ^ 23`, and a larger one moves the word up by whole bytes,
which leaves the value even. -/
theorem setCompact_toNat_ne_max (nCompact : UInt32) : (setCompact nCompact).toNat ≠ 2 ^ 256 - 1 := by
  unfold setCompact
  dsimp only
  split
  · have hsmall : nCompact.toNat % 2 ^ 23 / 2 ^ (8 * (3 - nCompact.toNat / 2 ^ 24)) < 2 ^ 23 :=
      lt_of_le_of_lt (Nat.div_le_self _ _) (Nat.mod_lt _ (by decide))
    rw [BitVec.toNat_ofNat, Nat.mod_eq_of_lt (lt_trans hsmall (by decide))]
    omega
  · rename_i hsize
    rw [BitVec.toNat_shiftLeft, BitVec.toNat_ofNat, Nat.shiftLeft_eq]
    have heven : 2 ∣ nCompact.toNat % 2 ^ 23 % 2 ^ 256 * 2 ^ (8 * (nCompact.toNat / 2 ^ 24 - 3)) %
        2 ^ 256 :=
      (Nat.dvd_mod_iff (dvd_pow_self 2 (by decide))).mpr
        (Dvd.dvd.mul_left (dvd_pow_self 2 (by omega)) _)
    omega

/-! ## The work of a block -/

/-- `2 ^ 256 / (t + 1)` as the code computes it without `2 ^ 256`:
`(2 ^ 256 - 1 - t) / (t + 1) + 1`. -/
theorem div_complement_add_one {n t : ℕ} (ht : t + 1 ≤ n) : (n - 1 - t) / (t + 1) + 1 = n / (t + 1) := by
  have hsplit : n = n - 1 - t + (t + 1) := by omega
  conv_rhs => rw [hsplit]
  rw [Nat.add_div_right _ (Nat.succ_pos t)]

/-- `GetBlockProof` never throws, and returns `2 ^ 256 / (T + 1)` for a valid
target and zero for any other. -/
theorem getBlockProof_map_toNat (nBits : UInt32) :
    (getBlockProof nBits).map toNat =
      .ok (if TargetValid nBits then 2 ^ 256 / ((setCompact nBits).toNat + 1) else 0) := by
  have hT := toNat_setCompactLimbs nBits
  have hmax := setCompact_toNat_ne_max nBits
  have hlt := (setCompact nBits).isLt
  have hzero : (setCompactLimbs nBits).equalTo 0 = true ↔ (setCompact nBits).toNat = 0 := by
    rw [equalTo_iff, hT]
    rfl
  unfold getBlockProof
  dsimp only
  by_cases hskip : (setCompactNegative nBits || setCompactOverflow nBits ||
      (setCompactLimbs nBits).equalTo 0) = true
  · -- a negative, overflowing or zero target has no work
    have hinvalid : ¬TargetValid nBits := by
      rintro ⟨hneg, hover, hne⟩
      rw [hneg, hover, Bool.false_or, Bool.false_or, hzero] at hskip
      exact hne hskip
    rw [if_pos hskip, if_neg hinvalid]
    show Except.ok (ofUInt64 0 : ArithUint256).toNat = _
    rw [toNat_ofUInt64]
    rfl
  · simp only [Bool.or_eq_true, not_or, Bool.not_eq_true] at hskip
    obtain ⟨⟨hneg, hover⟩, heq⟩ := hskip
    have hne : (setCompact nBits).toNat ≠ 0 := fun h => by
      rw [← hzero] at h
      rw [h] at heq
      exact Bool.noConfusion heq
    rw [if_neg (by simp [hneg, hover, heq]), if_pos ⟨hneg, hover, hne⟩]
    -- the divisor `T + 1` does not wrap, so the quotient is exact
    have hsum : (setCompactLimbs nBits + ofUInt64 1).toNat = (setCompact nBits).toNat + 1 := by
      rw [toNat_add, toNat_ofUInt64, hT]
      exact Nat.mod_eq_of_lt (by simp; omega)
    have hdiv := div_map_toNat (~~~setCompactLimbs nBits) (setCompactLimbs nBits + ofUInt64 1)
    rw [hsum, if_neg (Nat.succ_ne_zero _), toNat_complement, hT] at hdiv
    cases hq : (~~~setCompactLimbs nBits).div (setCompactLimbs nBits + ofUInt64 1) with
    | error e =>
        rw [hq] at hdiv
        simp [Except.map] at hdiv
    | ok q =>
        rw [hq] at hdiv
        have hqv : q.toNat = (2 ^ (32 * 8) - 1 - (setCompact nBits).toNat) /
            ((setCompact nBits).toNat + 1) := by
          injection hdiv
        have hqlt : q.toNat + 1 < 2 ^ (32 * 8) := by
          rw [hqv]
          have := Nat.div_le_self (2 ^ (32 * 8) - 1 - (setCompact nBits).toNat)
            ((setCompact nBits).toNat + 1)
          omega
        show Except.ok (q + ofUInt64 1).toNat = _
        rw [toNat_add, toNat_ofUInt64, UInt64.toNat_one, Nat.mod_eq_of_lt hqlt, hqv,
          div_complement_add_one (by simp; omega)]

/-- The work of a block is exact and, between valid targets, a smaller
target never gives less work. -/
theorem getBlockProof_exact (nBits : UInt32) :
    (getBlockProof nBits).map BaseUint.toNat =
        .ok (if TargetValid nBits then 2 ^ 256 / ((setCompact nBits).toNat + 1) else 0) ∧
      ∀ nBits', TargetValid nBits → TargetValid nBits' →
        (setCompact nBits).toNat ≤ (setCompact nBits').toNat →
        ∃ p p', getBlockProof nBits = .ok p ∧ getBlockProof nBits' = .ok p' ∧ p'.toNat ≤ p.toNat := by
  refine ⟨getBlockProof_map_toNat nBits, fun nBits' hvalid hvalid' hle => ?_⟩
  have h := getBlockProof_map_toNat nBits
  have h' := getBlockProof_map_toNat nBits'
  rw [if_pos hvalid] at h
  rw [if_pos hvalid'] at h'
  cases hp : getBlockProof nBits with
  | error e => rw [hp] at h; simp [Except.map] at h
  | ok p =>
      cases hp' : getBlockProof nBits' with
      | error e => rw [hp'] at h'; simp [Except.map] at h'
      | ok p' =>
          rw [hp] at h
          rw [hp'] at h'
          have hv : p.toNat = 2 ^ 256 / ((setCompact nBits).toNat + 1) := by injection h
          have hv' : p'.toNat = 2 ^ 256 / ((setCompact nBits').toNat + 1) := by injection h'
          refine ⟨p, p', rfl, rfl, ?_⟩
          rw [hv, hv']
          exact Nat.div_le_div_left (by omega) (Nat.succ_pos _)

theorem getBlockProof_exact_genesis :
    TargetValid 0x1d00ffff ∧ ∃ p p', getBlockProof 0x1d00ffff = .ok p ∧
      getBlockProof 0x1d00ffff = .ok p' ∧ p'.toNat ≤ p.toNat :=
  ⟨by decide, (getBlockProof_exact 0x1d00ffff).2 0x1d00ffff (by decide) (by decide) le_rfl⟩

end Metrix
