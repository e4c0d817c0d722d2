import Metrix.Primitives.Transaction

/-! Blocks (`primitives/block.h`), by the header field that marks proof of
stake and the transactions. -/

namespace Metrix

/-- `CBlock`: `prevoutStake` of the header and `vtx`. -/
structure CBlock where
  prevoutStake : COutPoint
  vtx : List CTransaction
deriving DecidableEq, Repr

/-- `CBlockHeader::IsProofOfStake`. -/
def CBlock.isProofOfStake (b : CBlock) : Bool :=
  !b.prevoutStake.isNull

/-- `CBlockHeader::IsProofOfWork`. -/
def CBlock.isProofOfWork (b : CBlock) : Bool :=
  !b.isProofOfStake

end Metrix
