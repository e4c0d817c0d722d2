import Metrix.Coins.Coin
import Metrix.Lib.AListSum

/-! `CCoinsViewCache` (`coins.cpp`): a layer of cached coin entries over the
view below it. An entry is `DIRTY` when it may differ from the view below and
`FRESH` when the view below has no unspent coin for it, so that spending it
can drop it. Caches are stacked over the coins database (`CCoinsViewDB`),
which stores unspent coins only; a layer asks the one below with `GetCoin`
and hands its entries down with `BatchWrite` when flushed.

`DynamicMemoryUsage` of a coin is the argument `usage`. `Coin::Clear`
releases the script's memory (`CScript::clear`), so a cleared coin uses
none. -/

namespace Metrix

/-- `CCoinsCacheEntry`: a coin and the `DIRTY` and `FRESH` flags. -/
structure CCoinsCacheEntry where
  coin : Coin
  dirty : Bool
  fresh : Bool
deriving DecidableEq, Repr

/-- What an entry shows: its coin, unless it is spent. -/
def CCoinsCacheEntry.view (e : CCoinsCacheEntry) : Option Coin :=
  if e.coin.isSpent then none else some e.coin

/-- `CCoinsMap`. -/
abbrev CCoinsMap := AList fun _ : COutPoint => CCoinsCacheEntry

/-- A `CCoinsViewCache`: `cacheCoins` and `cachedCoinsUsage`. -/
structure CCoinsViewCache where
  cacheCoins : CCoinsMap
  cachedCoinsUsage : ℕ

/-- A new cache, and a cache after `Flush`. -/
def CCoinsViewCache.empty : CCoinsViewCache := ⟨∅, 0⟩

/-- What layer `c` shows over the view `below`: its entry's coin where it has
an entry, else what `below` shows. -/
def CCoinsViewCache.view (c : CCoinsViewCache) (below : CoinsMap) : CoinsMap := fun o =>
  match c.cacheCoins.lookup o with
  | some e => e.view
  | none => below o

/-- A stack of caches over the coins database, the top layer first. -/
structure CoinsStack where
  layers : List CCoinsViewCache
  db : CoinsMap

/-- What the layers show over the database. -/
def layersView (db : CoinsMap) : List CCoinsViewCache → CoinsMap
  | [] => db
  | c :: cs => c.view (layersView db cs)

/-- What the top of the stack shows. -/
def CoinsStack.view (s : CoinsStack) : CoinsMap := layersView s.db s.layers

section Operations

variable (usage : Coin → ℕ)

/-- `FetchCoin` of the top of `layers`: its entry for `o`, loaded from the
view below when it has none; at the bottom the database's coin, as a clean
entry. Also the layers as the loads leave them. -/
def fetchCoin (db : CoinsMap) : List CCoinsViewCache → COutPoint →
    Option CCoinsCacheEntry × List CCoinsViewCache
  | [], o => ((db o).map fun coin => ⟨coin, false, false⟩, [])
  | c :: cs, o =>
      match c.cacheCoins.lookup o with
      | some e => (some e, c :: cs)
      | none =>
          match fetchCoin db cs o with
          -- `base->GetCoin` answers only for an unspent coin, so the copy is
          -- never `FRESH`
          | (some e, cs') =>
              if e.coin.isSpent then (none, c :: cs')
              else
                (some ⟨e.coin, false, false⟩,
                  ⟨c.cacheCoins.insert o ⟨e.coin, false, false⟩, c.cachedCoinsUsage + usage e.coin⟩
                    :: cs')
          | (none, cs') => (none, c :: cs')

namespace CoinsStack

/-- `GetCoin`: the coin at `o` when it is unspent. -/
def getCoin (s : CoinsStack) (o : COutPoint) : Option Coin × CoinsStack :=
  let r := fetchCoin usage s.db s.layers o
  (r.1.bind CCoinsCacheEntry.view, ⟨r.2, s.db⟩)

/-- `HaveCoin`. -/
def haveCoin (s : CoinsStack) (o : COutPoint) : Bool × CoinsStack :=
  let r := fetchCoin usage s.db s.layers o
  (r.1.any fun e => !e.coin.isSpent, ⟨r.2, s.db⟩)

/-- `AccessCoin`: the entry's coin, or the empty coin. -/
def accessCoin (s : CoinsStack) (o : COutPoint) : Coin × CoinsStack :=
  let r := fetchCoin usage s.db s.layers o
  ((r.1.map CCoinsCacheEntry.coin).getD Coin.empty, ⟨r.2, s.db⟩)

/-- `AddCoin` into the top layer. The entry is created without looking
below; without `possible_overwrite` it is `FRESH` unless it was dirty. -/
def addCoin (s : CoinsStack) (o : COutPoint) (coin : Coin) (possibleOverwrite : Bool) :
    Except CoinsFault CoinsStack :=
  match s.layers with
  | [] => .ok s
  | c :: cs =>
      if coin.isSpent then .error .addSpentCoin
      else if isUnspendable coin.out.scriptPubKey then .ok s
      else
        -- `emplace`: the entry there, or a new one with a spent coin and no flags;
        -- the counter drops the usage of an entry that was there
        let old : CCoinsCacheEntry := (c.cacheCoins.lookup o).getD ⟨Coin.empty, false, false⟩
        let usage0 := if (c.cacheCoins.lookup o).isSome then c.cachedCoinsUsage - usage old.coin
          else c.cachedCoinsUsage
        if !possibleOverwrite && !old.coin.isSpent then .error .overwriteUnspent
        else
          let fresh := !possibleOverwrite && !old.dirty
          .ok ⟨⟨c.cacheCoins.insert o ⟨coin, true, old.fresh || fresh⟩, usage0 + usage coin⟩ :: cs,
            s.db⟩

/-- `SpendCoin` in the top layer: the coin moved out, where there was an
entry. A `FRESH` entry is dropped, any other cleared and marked dirty. -/
def spendCoin (s : CoinsStack) (o : COutPoint) : Option Coin × CoinsStack :=
  match fetchCoin usage s.db s.layers o with
  | (some e, c :: cs) =>
      let usage' := c.cachedCoinsUsage - usage e.coin
      if e.fresh then (some e.coin, ⟨⟨c.cacheCoins.erase o, usage'⟩ :: cs, s.db⟩)
      else
        (some e.coin, ⟨⟨c.cacheCoins.insert o ⟨Coin.empty, true, false⟩, usage'⟩ :: cs, s.db⟩)
  | (_, layers) => (none, ⟨layers, s.db⟩)

end CoinsStack

namespace CCoinsViewCache

/-- `Uncache`: drop the entry for `o` if it has no flags. -/
def uncache (c : CCoinsViewCache) (o : COutPoint) : CCoinsViewCache :=
  match c.cacheCoins.lookup o with
  | some e => if !e.dirty && !e.fresh then ⟨c.cacheCoins.erase o, c.cachedCoinsUsage - usage e.coin⟩
      else c
  | none => c

/-- One entry of `CCoinsViewCache::BatchWrite`: the child's entry `ce` for
`o` written into this cache. -/
def batchWriteEntry (p : CCoinsViewCache) (o : COutPoint) (ce : CCoinsCacheEntry) :
    Except CoinsFault CCoinsViewCache :=
  if !ce.dirty then .ok p
  else
    match p.cacheCoins.lookup o with
    | none =>
        -- a `FRESH` spent entry has nothing to tell the parent
        if ce.fresh && ce.coin.isSpent then .ok p
        else .ok ⟨p.cacheCoins.insert o ⟨ce.coin, true, ce.fresh⟩, p.cachedCoinsUsage + usage ce.coin⟩
    | some pe =>
        if ce.fresh && !pe.coin.isSpent then .error .freshMisapplied
        else if pe.fresh && ce.coin.isSpent then
          .ok ⟨p.cacheCoins.erase o, p.cachedCoinsUsage - usage pe.coin⟩
        else
          .ok ⟨p.cacheCoins.insert o ⟨ce.coin, true, pe.fresh⟩,
            p.cachedCoinsUsage - usage pe.coin + usage ce.coin⟩

/-- `CCoinsViewCache::BatchWrite` of a child's entries. -/
def batchWrite (p : CCoinsViewCache) (mapCoins : CCoinsMap) : Except CoinsFault CCoinsViewCache :=
  mapCoins.entries.foldlM (fun p e => p.batchWriteEntry usage e.1 e.2) p

end CCoinsViewCache

/-- `CCoinsViewDB::BatchWrite`: each dirty entry written, a spent one as an
erasure. -/
def dbBatchWrite (db : CoinsMap) (mapCoins : CCoinsMap) : CoinsMap :=
  mapCoins.entries.foldl
    (fun db e => if e.2.dirty then Function.update db e.1 e.2.view else db) db

/-- `Flush` of the top of `layers`: its entries written into the layer below,
or into the database, and the layer emptied. -/
def flushTop (layers : List CCoinsViewCache) (db : CoinsMap) :
    Except CoinsFault (List CCoinsViewCache × CoinsMap) :=
  match layers with
  | [] => .ok ([], db)
  | [c] => .ok ([CCoinsViewCache.empty], dbBatchWrite db c.cacheCoins)
  | c :: p :: cs => do
      let p' ← p.batchWrite usage c.cacheCoins
      pure (CCoinsViewCache.empty :: p' :: cs, db)

/-- `Flush` of layer `j` from the top. -/
def flushAt : ℕ → List CCoinsViewCache → CoinsMap →
    Except CoinsFault (List CCoinsViewCache × CoinsMap)
  | 0, layers, db => flushTop usage layers db
  | _ + 1, [], db => .ok ([], db)
  | j + 1, c :: cs, db => do
      let (cs', db') ← flushAt j cs db
      pure (c :: cs', db')

/-- `Uncache` in layer `j` from the top. -/
def uncacheAt (o : COutPoint) : ℕ → List CCoinsViewCache → List CCoinsViewCache
  | _, [] => []
  | 0, c :: cs => c.uncache usage o :: cs
  | j + 1, c :: cs => c :: uncacheAt o j cs

@[simp] theorem uncacheAt_nil (o : COutPoint) (j : ℕ) : uncacheAt usage o j [] = [] := by
  cases j <;> rfl

/-- The operations on a stack of caches: those of the top layer, `Uncache`
and `Flush` of any layer, and a new layer pushed on top or the top flushed
and removed. -/
inductive CoinsOp where
  | addCoin (o : COutPoint) (coin : Coin) (possibleOverwrite : Bool)
  | spendCoin (o : COutPoint)
  | getCoin (o : COutPoint)
  | haveCoin (o : COutPoint)
  | accessCoin (o : COutPoint)
  | uncache (layer : ℕ) (o : COutPoint)
  | flush (layer : ℕ)
  | push
  | pop
deriving DecidableEq, Repr

namespace CoinsStack

/-- One operation on the stack. Popping the last cache flushes it: a view
always has a cache on top. -/
def step (s : CoinsStack) : CoinsOp → Except CoinsFault CoinsStack
  | .addCoin o coin possibleOverwrite => s.addCoin usage o coin possibleOverwrite
  | .spendCoin o => .ok (s.spendCoin usage o).2
  | .getCoin o => .ok (s.getCoin usage o).2
  | .haveCoin o => .ok (s.haveCoin usage o).2
  | .accessCoin o => .ok (s.accessCoin usage o).2
  | .uncache j o => .ok ⟨uncacheAt usage o j s.layers, s.db⟩
  | .flush j => do
      let (layers, db) ← flushAt usage j s.layers s.db
      pure ⟨layers, db⟩
  | .push => .ok ⟨CCoinsViewCache.empty :: s.layers, s.db⟩
  | .pop => do
      let (layers, db) ← flushTop usage s.layers s.db
      match layers with
      | _ :: p :: cs => pure ⟨p :: cs, db⟩
      | layers => pure ⟨layers, db⟩

/-- A sequence of operations. -/
def run (s : CoinsStack) (ops : List CoinsOp) : Except CoinsFault CoinsStack :=
  ops.foldlM (step usage) s

end CoinsStack

end Operations

/-- The operations on a plain map of coins. `none` for an `AddCoin` that no
caller makes: of a spent coin, or without `possible_overwrite` over an
unspent coin. -/
def CoinsOp.onMap (m : CoinsMap) : CoinsOp → Option CoinsMap
  | .addCoin o coin possibleOverwrite =>
      if coin.isSpent then none
      else if isUnspendable coin.out.scriptPubKey then some m
      else if !possibleOverwrite && (m o).isSome then none
      else some (Function.update m o (some coin))
  | .spendCoin o => some (Function.update m o none)
  | _ => some m

/-- A sequence of operations on a plain map. -/
def CoinsOp.runOnMap (m : CoinsMap) (ops : List CoinsOp) : Option CoinsMap :=
  ops.foldlM CoinsOp.onMap m

end Metrix
