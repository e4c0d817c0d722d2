import Metrix.Primitives.Compact
import Metrix.Consensus.Stake

/-! The proof-of-stake kernel (`CheckStakeKernelHash` in `pos.cpp`). The
target of `nBits` is weighted by the value of the staked output, less the
Metrix adjustment of a tenth of it for each unit of
`(nBits ^ GetCompact(prevout.hash)) % 10`, in `arith_uint256`, whose
`operator*=` wraps modulo `2^256`. The kernel hash, the double SHA-256 of
the stake modifier, the times and the staked outpoint, is a parameter: it
does not depend on the value staked. -/

namespace Metrix

/-- `consensus.posLimit` of the main chain. -/
def posLimitMain : BitVec 256 := BitVec.ofNat 256 (2 ^ 224 - 1)

/-- `consensus.QIP9PosLimit`. -/
def qip9PosLimit : BitVec 256 := BitVec.ofNat 256 (2 ^ 205 - 1)

/-- The weighted value `nValueIn` of `CheckStakeKernelHash`: the value less
`nValueInAdjustment * nValueIn / 10`, the division truncating. The
`unsigned int` adjustment is converted to `int64_t`, so the product is an
`int64_t` one, taken modulo `2^64` into the signed range; for a value in
`MoneyRange` the subtraction stays in range. -/
def stakeWeight (nBits : UInt32) (prevoutHash : Uint256) (prevoutValue : CAmount) : CAmount :=
  let nValueInAdjustment := ((nBits ^^^ getCompact prevoutHash) % 10).toNat
  if 0 < nValueInAdjustment then
    prevoutValue - Int.tdiv (Int.bmod (nValueInAdjustment * prevoutValue) (2 ^ 64)) 10
  else prevoutValue

/-- `bnTarget` after `bnTarget *= bnWeight`. -/
def weightedTarget (nBits : UInt32) (prevout : COutPoint) (prevoutValue : CAmount) : BitVec 256 :=
  setCompact nBits * arith256OfInt64 (stakeWeight nBits prevout.hash prevoutValue)

/-- `CheckStakeKernelHash`: the block is not older than the staked output,
and the kernel hash is at most the weighted target. -/
def checkStakeKernelHash (kernelHash : Uint256 → UInt32 → COutPoint → UInt32 → Uint256)
    (nStakeModifier : Uint256) (nBits blockFromTime : UInt32) (prevoutValue : CAmount)
    (prevout : COutPoint) (nTimeBlock : UInt32) : Bool :=
  if nTimeBlock < blockFromTime then false
  else !decide (weightedTarget nBits prevout prevoutValue <
    kernelHash nStakeModifier blockFromTime prevout nTimeBlock)

/-- The weighted target reads only the hash of the staked outpoint. -/
theorem weightedTarget_outpoint (nBits : UInt32) (hash : Uint256) (n : UInt32) (v : CAmount) :
    weightedTarget nBits ⟨hash, n⟩ v = weightedTarget nBits ⟨hash, 0⟩ v := rfl

/-- The kernel check at a weighted target `w`: the hash is at most `w`. -/
theorem checkStakeKernelHash_iff (kernelHash : Uint256 → UInt32 → COutPoint → UInt32 → Uint256)
    (nStakeModifier : Uint256) {nBits blockFromTime nTimeBlock : UInt32} (prevoutValue : CAmount)
    (prevout : COutPoint) (htime : blockFromTime ≤ nTimeBlock) :
    checkStakeKernelHash kernelHash nStakeModifier nBits blockFromTime prevoutValue prevout
        nTimeBlock = true ↔
      kernelHash nStakeModifier blockFromTime prevout nTimeBlock ≤
        weightedTarget nBits prevout prevoutValue := by
  rw [checkStakeKernelHash, if_neg (UInt32.not_lt.mpr htime)]
  simp [BitVec.not_lt]

set_option maxRecDepth 4000 in
/-- Just below the main chain's limit the weighted target wraps.
`nBits = 0x1d00fff6` decodes to `0xfff6 * 2^208`, under `posLimit`, and for
an outpoint of hash 0 the adjustment is `nBits % 10 = 0`. A stake of
`2^32 - 1` base units weights the target to nearly `2^256`; a stake of
`2^48`, well within the money range, to `0xfff6 * 2^256`, which wraps to 0.
Every positive kernel hash up to the first target meets the kernel with the
smaller stake and misses it with the larger. -/
theorem checkStakeKernelHash_not_monotone
    (kernelHash : Uint256 → UInt32 → COutPoint → UInt32 → Uint256) (nStakeModifier : Uint256)
    {blockFromTime nTimeBlock : UInt32} (n : UInt32) (htime : blockFromTime ≤ nTimeBlock)
    (hpos : 0 < kernelHash nStakeModifier blockFromTime ⟨0, n⟩ nTimeBlock)
    (hle : kernelHash nStakeModifier blockFromTime ⟨0, n⟩ nTimeBlock ≤
      setCompact 0x1d00fff6 * BitVec.ofNat 256 (2 ^ 32 - 1)) :
    setCompact 0x1d00fff6 ≤ posLimitMain ∧ (2 ^ 48 : CAmount) ≤ maxMoney ∧
      checkStakeKernelHash kernelHash nStakeModifier 0x1d00fff6 blockFromTime (2 ^ 32 - 1)
        ⟨0, n⟩ nTimeBlock = true ∧
      checkStakeKernelHash kernelHash nStakeModifier 0x1d00fff6 blockFromTime (2 ^ 48)
        ⟨0, n⟩ nTimeBlock = false := by
  have hsmall : weightedTarget 0x1d00fff6 ⟨0, 0⟩ (2 ^ 32 - 1) =
      setCompact 0x1d00fff6 * BitVec.ofNat 256 (2 ^ 32 - 1) := by decide
  have hlarge : weightedTarget 0x1d00fff6 ⟨0, 0⟩ (2 ^ 48) = 0 := by decide
  refine ⟨by decide, by decide, ?_, ?_⟩
  · rw [checkStakeKernelHash_iff _ _ _ _ htime, weightedTarget_outpoint, hsmall]
    exact hle
  · rw [Bool.eq_false_iff, ne_eq, checkStakeKernelHash_iff _ _ _ _ htime, weightedTarget_outpoint,
      hlarge]
    exact BitVec.not_le.mpr hpos

theorem checkStakeKernelHash_not_monotone_at_one :
    (0 : UInt32) ≤ 0 ∧ (0 : Uint256) < 1 ∧
      (1 : Uint256) ≤ setCompact 0x1d00fff6 * BitVec.ofNat 256 (2 ^ 32 - 1) ∧
      (setCompact 0x1d00fff6 ≤ posLimitMain ∧ (2 ^ 48 : CAmount) ≤ maxMoney ∧
        checkStakeKernelHash (fun _ _ _ _ => 1) 0 0x1d00fff6 0 (2 ^ 32 - 1) ⟨0, 0⟩ 0 = true ∧
        checkStakeKernelHash (fun _ _ _ _ => 1) 0 0x1d00fff6 0 (2 ^ 48) ⟨0, 0⟩ 0 = false) :=
  ⟨by decide, by decide, by decide,
    checkStakeKernelHash_not_monotone (fun _ _ _ _ => 1) 0 0 (by decide) (by decide)
      (by decide)⟩

end Metrix
