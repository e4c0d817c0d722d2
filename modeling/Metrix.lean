import Metrix.Lib.SortedMap
import Metrix.Primitives.Script
import Metrix.Primitives.Transaction
import Metrix.Qtum.State
import Metrix.Qtum.Condensing
import Metrix.Qtum.Conservation
import Metrix.Qtum.Bookkeeping
import Metrix.Primitives.Block
import Metrix.Qtum.DGP
import Metrix.Consensus.Reward
import Metrix.Script.Standard
import Metrix.Consensus.DGPTransactions
import Metrix.Script.Interpreter
import Metrix.Consensus.Converter
import Metrix.Primitives.Serialize
import Metrix.Consensus.Sender
import Metrix.Lib.AListSum
import Metrix.Coins.Coin
import Metrix.Coins.Cache
import Metrix.Coins.Refinement
import Metrix.Lib.UpdateAll
import Metrix.Lib.Simulation
import Metrix.Coins.Block
import Metrix.Coins.Disconnect
import Metrix.Coins.Compressor
import Metrix.Lib.ListSlice
import Metrix.Util.Money
import Metrix.Consensus.Stake
import Metrix.Qtum.Transfers
import Metrix.Primitives.Compact
import Metrix.Consensus.Kernel
import Metrix.Qtum.DGPParams
import Metrix.Consensus.Merkle
import Metrix.Script.SignatureEncoding
import Metrix.Script.SolverModes
import Metrix.Script.SenderSig
import Metrix.Script.SigHash
import Metrix.Script.ScriptNum
import Metrix.Chain.SkipList
import Metrix.Lib.XorFold
import Metrix.Util.Bech32
import Metrix.Qtum.StorageResults
import Metrix.Consensus.PartialMerkle
import Metrix.Chain.VersionBits
import Metrix.Consensus.ByteCodeExec
import Metrix.Script.ScriptOp
import Metrix.Lib.Limbs
import Metrix.Primitives.ArithUint256
import Metrix.Chain.BlockProof
import Metrix.Consensus.Pow
import Metrix.Lib.Radix
import Metrix.Util.Base58
import Metrix.Net.RollingBloom
import Metrix.Lib.BitString
import Metrix.Lib.Rlp
import Metrix.Util.StrEncodings
import Metrix.Util.KeyIO
import Metrix.Net.AddrMan
import Metrix.Net.AddrManIds
import Metrix.Net.AddrManInvariant
import Metrix.Net.AddrManOps
import Metrix.Net.AddrManCheck
