import Metrix.Coins.Cache

/-! The coins side of connecting and disconnecting a block (`validation.cpp`,
`coins.cpp`). `UpdateCoins` moves the coins of a transaction's inputs into its
undo record and adds its outputs; `ConnectBlock` keeps the records of every
transaction after the coinbase. `DisconnectBlock` goes through the block from
its last transaction: it spends each transaction's outputs again, checking
them against the block, and puts the coins of the inputs back from the undo
record with `ApplyTxInUndo`. The transaction hash is the argument `getHash`;
the address index, the stake index and the state roots that `DisconnectBlock`
also updates are not modelled. -/

namespace Metrix

/-- `MAX_OUTPUTS_PER_BLOCK`: `dgpMaxBlockWeight` over
`MIN_TRANSACTION_OUTPUT_WEIGHT`, four times the 9 bytes of an empty output. -/
def maxOutputsPerBlock : ℕ := 8000000 / (4 * 9)

/-- `DisconnectResult`. -/
inductive DisconnectResult where
  | ok
  | unclean
  | failed
deriving DecidableEq, Repr

/-- A step's result followed by the rest's: `DISCONNECT_FAILED` ends the
loop, and an `UNCLEAN` step makes the whole unclean. -/
def DisconnectResult.andThen : DisconnectResult → DisconnectResult → DisconnectResult
  | .failed, _ => .failed
  | .ok, r => r
  | .unclean, .failed => .failed
  | .unclean, _ => .unclean

/-- `Coin(tx.vout[i], nHeight, fCoinbase, fCoinstake)`; the height is kept
in the 30 bits of `nHeight`. -/
def txCoin (tx : CTransaction) (nHeight : ℕ) (out : CTxOut) : Coin :=
  ⟨out, tx.isCoinBase, tx.isCoinStake, BitVec.ofNat 30 nHeight⟩

@[simp] theorem txCoin_out (tx : CTransaction) (nHeight : ℕ) (out : CTxOut) :
    (txCoin tx nHeight out).out = out := rfl

/-- `COutPoint(txid, i)` of the output `p = (vout[i], i)`. -/
def outputPoint (txid : Uint256) (p : CTxOut × ℕ) : COutPoint := ⟨txid, p.2.toUInt32⟩

section Operations

variable (usage : Coin → ℕ) (getHash : CTransaction → Uint256)

/-- The loop of `AddCoins` (with `check` false) over `(output, index)` pairs:
each added at `(txid, i)`, with `possible_overwrite` for a coinbase only. -/
def addOutputs (txid : Uint256) (tx : CTransaction) (nHeight : ℕ) (s : CoinsStack)
    (ps : List (CTxOut × ℕ)) : Except CoinsFault CoinsStack :=
  ps.foldlM (fun s p => s.addCoin usage (outputPoint txid p) (txCoin tx nHeight p.1) tx.isCoinBase) s

/-- `AddCoins`. -/
def addCoins (s : CoinsStack) (tx : CTransaction) (nHeight : ℕ) : Except CoinsFault CoinsStack :=
  addOutputs usage (getHash tx) tx nHeight s tx.vout.zipIdx

/-- The spending loop of `UpdateCoins`: each input's coin moved into the undo
record. `assert(is_spent)` is the fault `spendMissing`. -/
def spendInputs : CoinsStack → List CTxIn → Except CoinsFault (CoinsStack × List Coin)
  | s, [] => .ok (s, [])
  | s, txin :: vin =>
      match s.spendCoin usage txin.prevout with
      | (some coin, s') => (spendInputs s' vin).map fun r => (r.1, coin :: r.2)
      | (none, _) => .error .spendMissing

/-- `UpdateCoins`: the inputs spent unless it is a coinbase, then the outputs
added; also the undo record. -/
def updateCoins (s : CoinsStack) (tx : CTransaction) (nHeight : ℕ) :
    Except CoinsFault (CoinsStack × List Coin) := do
  let (s', txundo) ← if tx.isCoinBase then pure (s, []) else spendInputs usage s tx.vin
  let s'' ← addCoins usage getHash s' tx nHeight
  pure (s'', txundo)

/-- `UpdateCoins` of the transactions in order, with the undo record of each. -/
def updateCoinsAll : CoinsStack → List CTransaction → ℕ →
    Except CoinsFault (CoinsStack × List (List Coin))
  | s, [], _ => .ok (s, [])
  | s, tx :: vtx, nHeight => do
      let (s', txundo) ← updateCoins usage getHash s tx nHeight
      let (s'', vtxundo) ← updateCoinsAll s' vtx nHeight
      pure (s'', txundo :: vtxundo)

/-- The coins part of `ConnectBlock`: `UpdateCoins` of every transaction, and
`blockundo.vtxundo`, the undo records of all but the first. -/
def connectBlockCoins (s : CoinsStack) (vtx : List CTransaction) (nHeight : ℕ) :
    Except CoinsFault (CoinsStack × List (List Coin)) :=
  (updateCoinsAll usage getHash s vtx nHeight).map fun r => (r.1, r.2.tail)

/-- The loop of `AccessByTxid` from output `n` with `fuel` outputs left below
`MAX_OUTPUTS_PER_BLOCK`: the first unspent coin, or the empty coin. -/
def accessByTxidFrom (txid : Uint256) : ℕ → ℕ → CoinsStack → Coin × CoinsStack
  | 0, _, s => (Coin.empty, s)
  | fuel + 1, n, s =>
      match s.accessCoin usage ⟨txid, n.toUInt32⟩ with
      | (alternate, s') =>
          if alternate.isSpent then accessByTxidFrom txid fuel (n + 1) s' else (alternate, s')

/-- `AccessByTxid`. -/
def accessByTxid (s : CoinsStack) (txid : Uint256) : Coin × CoinsStack :=
  accessByTxidFrom usage txid maxOutputsPerBlock 0 s

/-- The end of `ApplyTxInUndo`: `AddCoin` of the undo coin, with
`possible_overwrite` where a coin was there. -/
def addUndoCoin (s : CoinsStack) (out : COutPoint) (undo : Coin) (fClean : Bool) :
    Except CoinsFault (DisconnectResult × CoinsStack) :=
  (s.addCoin usage out undo !fClean).map fun s' => (if fClean then .ok else .unclean, s')

/-- `ApplyTxInUndo`. A record of height 0 takes its height and `fCoinBase`,
but not `fCoinStake`, from another unspent output of the same transaction, and
fails where there is none. -/
def applyTxInUndo (undo : Coin) (s : CoinsStack) (out : COutPoint) :
    Except CoinsFault (DisconnectResult × CoinsStack) :=
  match s.haveCoin usage out with
  | (haveOut, s1) =>
      if undo.nHeight = 0 then
        match accessByTxid usage s1 out.hash with
        | (alternate, s2) =>
            if alternate.isSpent then .ok (.failed, s2)
            else addUndoCoin usage s2 out
              { undo with nHeight := alternate.nHeight, fCoinBase := alternate.fCoinBase } !haveOut
      else addUndoCoin usage s1 out undo !haveOut

/-- Whether the coin spent at an output is the one the block created there. -/
def coinMatches (tx : CTransaction) (nHeight : ℕ) (out : CTxOut) : Option Coin → Bool
  | some coin => out == coin.out && nHeight == coin.nHeight.toNat &&
      tx.isCoinBase == coin.fCoinBase && tx.isCoinStake == coin.fCoinStake
  | none => false

/-- The output check of `DisconnectBlock` for one transaction over
`(output, index)` pairs: each spendable output spent, and whether each was
there as the block created it. -/
def spendOutputs (txid : Uint256) (tx : CTransaction) (nHeight : ℕ) :
    CoinsStack → List (CTxOut × ℕ) → Bool × CoinsStack
  | s, [] => (true, s)
  | s, p :: ps =>
      if isUnspendable p.1.scriptPubKey then spendOutputs txid tx nHeight s ps
      else
        match s.spendCoin usage (outputPoint txid p) with
        | (coin, s') =>
            match spendOutputs txid tx nHeight s' ps with
            | (clean, s'') => (coinMatches tx nHeight p.1 coin && clean, s'')

/-- The restore loop of `DisconnectBlock` over `(input, undo coin)` pairs,
the last input first. -/
def restoreInputs : CoinsStack → List (CTxIn × Coin) →
    Except CoinsFault (DisconnectResult × CoinsStack)
  | s, [] => .ok (.ok, s)
  | s, (txin, undo) :: rest => do
      let (res, s1) ← applyTxInUndo usage undo s txin.prevout
      if res = .failed then pure (.failed, s1)
      else
        let (res', s2) ← restoreInputs s1 rest
        pure (res.andThen res', s2)

/-- One transaction of the loop of `DisconnectBlock`, at index `i` of the
block: its outputs checked and spent, then, after the coinbase, its inputs
restored from `vtxundo[i-1]`. -/
def disconnectTx (vtxundo : List (List Coin)) (nHeight : ℕ) (s : CoinsStack)
    (tx : CTransaction) (i : ℕ) : Except CoinsFault (DisconnectResult × CoinsStack) :=
  match spendOutputs usage (getHash tx) tx nHeight s tx.vout.zipIdx with
  | (outputsClean, s1) =>
      let res : DisconnectResult := if outputsClean then .ok else .unclean
      if i = 0 then .ok (res, s1)
      else
        -- the size check of `DisconnectBlock` keeps `i - 1` in range
        let txundo := vtxundo.getD (i - 1) []
        if txundo.length ≠ tx.vin.length then .ok (.failed, s1)
        else (restoreInputs usage s1 (tx.vin.zip txundo).reverse).map fun r => (res.andThen r.1, r.2)

/-- The loop of `DisconnectBlock` over `(transaction, index)` pairs. -/
def disconnectLoop (vtxundo : List (List Coin)) (nHeight : ℕ) :
    CoinsStack → List (CTransaction × ℕ) → Except CoinsFault (DisconnectResult × CoinsStack)
  | s, [] => .ok (.ok, s)
  | s, (tx, i) :: rest => do
      let (res, s1) ← disconnectTx usage getHash vtxundo nHeight s tx i
      if res = .failed then pure (.failed, s1)
      else
        let (res', s2) ← disconnectLoop vtxundo nHeight s1 rest
        pure (res.andThen res', s2)

/-- The coins part of `DisconnectBlock`: the sizes of block and undo data
checked, then the transactions undone from the last one. -/
def disconnectBlock (s : CoinsStack) (vtx : List CTransaction) (vtxundo : List (List Coin))
    (nHeight : ℕ) : Except CoinsFault (DisconnectResult × CoinsStack) :=
  if vtxundo.length + 1 ≠ vtx.length then .ok (.failed, s)
  else disconnectLoop usage getHash vtxundo nHeight s vtx.zipIdx.reverse

end Operations

end Metrix
