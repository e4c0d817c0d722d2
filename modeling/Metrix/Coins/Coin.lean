import Metrix.Script.Interpreter
import Metrix.Primitives.Transaction

/-! Coins (`coins.h`): an unspent output with the height and the kind of the
transaction that created it. A coin with a null output is spent; that is how
a cleared coin and an emptied cache entry look. A plain map from outpoints
to unspent coins is what the coins database stores and what a view of the
coins shows. -/

namespace Metrix

open Opcode

/-- `CScript::IsUnspendable`: a script that starts with `OP_RETURN` or is
longer than `MAX_SCRIPT_SIZE`. -/
def isUnspendable (s : CScript) : Bool :=
  s.head? = some opReturn || decide (maxScriptSize < s.length)

/-- `CTxOut::IsNull`. -/
def CTxOut.isNull (o : CTxOut) : Bool := o.nValue = -1

/-- `Coin`; the height is the 30-bit field `nHeight`. -/
structure Coin where
  out : CTxOut
  fCoinBase : Bool
  fCoinStake : Bool
  nHeight : BitVec 30
deriving DecidableEq, Repr

namespace Coin

/-- `Coin()`, and a coin after `Coin::Clear()`: a null output, no flags,
height 0. -/
def empty : Coin := ⟨⟨-1, []⟩, false, false, 0⟩

/-- `Coin::IsSpent`. -/
def isSpent (c : Coin) : Bool := c.out.isNull

@[simp] theorem isSpent_empty : empty.isSpent = true := rfl

end Coin

/-- The unspent coin at each outpoint. -/
abbrev CoinsMap := COutPoint → Option Coin

/-- The faults of the coins views and their callers: the assertion of
`AddCoin` that its coin is unspent, its `std::logic_error` for a new coin over
an unspent one, the `std::logic_error` of `BatchWrite` for a `FRESH` entry
over an unspent one, and the assertion of `UpdateCoins` that every input
was there to spend. -/
inductive CoinsFault where
  | addSpentCoin
  | overwriteUnspent
  | freshMisapplied
  | spendMissing
deriving DecidableEq, Repr

end Metrix
