import Metrix.Lib.Rlp
import Metrix.Qtum.State

/-! The results database of contract receipts (`qtum/storageresults.cpp`).
Receipts added under a transaction hash wait in a cache until
`commitResults` writes each vector, as seventeen parallel vectors in one RLP
list, under a key not yet stored, and `readResult` reads the vectors back by
position. The LevelDB store is a function of the key, the hash itself (its
hex string is one-to-one), to the stored value, the bytes of the RLP stream.
RLP lives in a library outside this repository. It enters as a codec of
vectors for each element type the receipts use (`<<` of a vector and
`toVector<T>()`) and as the list stream (`RLPStream(17)` with `out()`, and
`RLP(value)[i]`); the results assume that each codec reads back the vectors
it writes and that each position of the stream reads back the item written
there. The positions written and read are the source's. -/

namespace Metrix

/-- `dev::eth::TransactionException`, an enumeration of small nonnegative
codes. -/
structure TransactionException where
  code : ℕ
  code_lt : code < 2 ^ 31
deriving DecidableEq, Repr

instance : Inhabited TransactionException := ⟨⟨0, by decide⟩⟩

/-- `uint32_t(static_cast<int>(e))`. -/
def TransactionException.toUInt32 (e : TransactionException) : UInt32 := e.code.toUInt32

/-- `static_cast<dev::eth::TransactionException>` of a `uint32_t`; past the
codes of the enumeration the cast has no meaning, the code 0 here. -/
def TransactionException.ofUInt32 (u : UInt32) : TransactionException :=
  if h : u.toNat < 2 ^ 31 then ⟨u.toNat, h⟩ else default

/-- `dev::eth::LogEntry`. -/
structure LogEntry where
  address : Address
  topics : List Uint256
  data : List UInt8
deriving DecidableEq, Repr

/-- `TransactionReceiptInfo`; `fromAddr` and `toAddr` are the fields `from` and `to`. -/
structure TransactionReceiptInfo where
  blockHash : Uint256
  blockNumber : UInt32
  transactionHash : Uint256
  transactionIndex : UInt32
  outputIndex : UInt32
  fromAddr : Address
  toAddr : Address
  cumulativeGasUsed : UInt64
  gasUsed : UInt64
  contractAddress : Address
  logs : List LogEntry
  excepted : TransactionException
  exceptedMessage : String
  stateRoot : Uint256
  utxoRoot : Uint256
  createdContracts : List (Address × List UInt8)
  destructedContracts : List Address
deriving DecidableEq, Repr, Inhabited

/-- `logEntriesSerialize`. -/
abbrev LogEntriesSerialize := List (Address × (List Uint256 × List UInt8))

/-- `TransactionReceiptInfoSerialized`: the seventeen parallel vectors. -/
structure TransactionReceiptInfoSerialized where
  blockHashes : List Uint256
  blockNumbers : List UInt32
  transactionHashes : List Uint256
  transactionIndexes : List UInt32
  outputIndexes : List UInt32
  senders : List Address
  receivers : List Address
  cumulativeGasUsed : List U256
  gasUsed : List U256
  contractAddresses : List Address
  logs : List LogEntriesSerialize
  excepted : List UInt32
  exceptedMessage : List String
  stateRoots : List Uint256
  utxoRoots : List Uint256
  createdContracts : List (List (Address × List UInt8))
  destructedContracts : List (List Address)

/-- `StorageResults::logEntriesSerialization`. -/
def logEntriesSerialization (logs : List LogEntry) : LogEntriesSerialize :=
  logs.map fun i => (i.address, (i.topics, i.data))

/-- `StorageResults::logEntriesDeserialize`. -/
def logEntriesDeserialize (logs : LogEntriesSerialize) : List LogEntry :=
  logs.map fun i => ⟨i.1, i.2.1, i.2.2⟩

/-- The loop of `commitResults` that pushes the fields of each receipt onto
the vectors; the gas counts widen to `dev::u256`. -/
def serializeReceipts (result : List TransactionReceiptInfo) : TransactionReceiptInfoSerialized where
  blockHashes := result.map (·.blockHash)
  blockNumbers := result.map (·.blockNumber)
  transactionHashes := result.map (·.transactionHash)
  transactionIndexes := result.map (·.transactionIndex)
  outputIndexes := result.map (·.outputIndex)
  senders := result.map (·.fromAddr)
  receivers := result.map (·.toAddr)
  cumulativeGasUsed := result.map fun r => BitVec.ofNat 256 r.cumulativeGasUsed.toNat
  gasUsed := result.map fun r => BitVec.ofNat 256 r.gasUsed.toNat
  contractAddresses := result.map (·.contractAddress)
  logs := result.map fun r => logEntriesSerialization r.logs
  excepted := result.map fun r => r.excepted.toUInt32
  exceptedMessage := result.map (·.exceptedMessage)
  stateRoots := result.map (·.stateRoot)
  utxoRoots := result.map (·.utxoRoot)
  createdContracts := result.map (·.createdContracts)
  destructedContracts := result.map (·.destructedContracts)

/-- The loop of `readResult`: one receipt for each block hash, every other
vector read at the same index (past the end of a shorter vector the C++ read
is undefined, the default value here), the gas counts narrowed to
`uint64_t`. -/
def deserializeReceipts (tris : TransactionReceiptInfoSerialized) : List TransactionReceiptInfo :=
  (List.range tris.blockHashes.length).map fun j =>
    { blockHash := tris.blockHashes.getD j default
      blockNumber := tris.blockNumbers.getD j default
      transactionHash := tris.transactionHashes.getD j default
      transactionIndex := tris.transactionIndexes.getD j default
      outputIndex := tris.outputIndexes.getD j default
      fromAddr := tris.senders.getD j default
      toAddr := tris.receivers.getD j default
      cumulativeGasUsed := (tris.cumulativeGasUsed.getD j default).toNat.toUInt64
      gasUsed := (tris.gasUsed.getD j default).toNat.toUInt64
      contractAddress := tris.contractAddresses.getD j default
      logs := logEntriesDeserialize (tris.logs.getD j default)
      excepted := TransactionException.ofUInt32 (tris.excepted.getD j default)
      exceptedMessage := tris.exceptedMessage.getD j default
      stateRoot := tris.stateRoots.getD j default
      utxoRoot := tris.utxoRoots.getD j default
      createdContracts := tris.createdContracts.getD j default
      destructedContracts := tris.destructedContracts.getD j default }

theorem TransactionException.ofUInt32_toUInt32 (e : TransactionException) :
    TransactionException.ofUInt32 e.toUInt32 = e := by
  have hcode : e.toUInt32.toNat = e.code := by
    have hmod : e.toUInt32.toNat = e.code % 2 ^ 32 := UInt32.toNat_ofNat'
    have := e.code_lt
    omega
  rw [TransactionException.ofUInt32, dif_pos (by rw [hcode]; exact e.code_lt)]
  simp only [hcode]

theorem logEntriesDeserialize_serialization (logs : List LogEntry) :
    logEntriesDeserialize (logEntriesSerialization logs) = logs := by
  simp [logEntriesDeserialize, logEntriesSerialization, Function.comp_def]

/-- A gas count widened to `dev::u256` is below its modulus. -/
theorem toNat_ofNat_toNat (x : UInt64) : (BitVec.ofNat 256 x.toNat).toNat = x.toNat := by
  rw [BitVec.toNat_ofNat]
  exact Nat.mod_eq_of_lt (lt_trans x.toNat_lt (by norm_num))

/-- Reading the vectors back by position gives every receipt back, field by
field. -/
theorem deserializeReceipts_serializeReceipts (result : List TransactionReceiptInfo) :
    deserializeReceipts (serializeReceipts result) = result := by
  apply List.ext_getElem (by simp [deserializeReceipts, serializeReceipts])
  intro j h₁ h₂
  simp [-BitVec.toNat_ofNat, deserializeReceipts, serializeReceipts, List.getD_eq_getElem?_getD, h₂,
    toNat_ofNat_toNat, logEntriesDeserialize_serialization, TransactionException.ofUInt32_toUInt32]

/-- `StorageResults`: the LevelDB store by key, holding values of `Value`
(the bytes of an RLP stream in the node), and the cache of receipts not yet
committed, whose keys are distinct as `unordered_map::insert` keeps them. -/
structure StorageResults (Value : Type) where
  db : Uint256 → Option Value
  cache : List (Uint256 × List TransactionReceiptInfo)
  cache_nodup : (cache.map Prod.fst).Nodup

namespace StorageResults

variable {Value : Type}

/-- `addResult`: `insert` keeps an entry already cached under the hash. -/
def addResult (s : StorageResults Value) (hashTx : Uint256) (result : List TransactionReceiptInfo) :
    StorageResults Value :=
  if h : hashTx ∈ s.cache.map Prod.fst then s
  else
    { s with
      cache := s.cache ++ [(hashTx, result)]
      cache_nodup := by
        rw [List.map_append, List.nodup_append]
        refine ⟨s.cache_nodup, List.nodup_singleton _, ?_⟩
        simp only [List.map_cons, List.map_nil, List.mem_singleton]
        rintro a ha b rfl rfl
        exact h ha }

/-- `clearCacheResult`. -/
def clearCacheResult (s : StorageResults Value) : StorageResults Value :=
  { s with cache := [], cache_nodup := List.nodup_nil }

/-- `deleteResults`, by the hashes of the transactions: each is erased from
the cache and from the store. -/
def deleteResults (s : StorageResults Value) (hashes : List Uint256) : StorageResults Value :=
  hashes.foldl (fun s hashTx =>
    { db := Function.update s.db hashTx none
      cache := s.cache.filter (·.1 ≠ hashTx)
      cache_nodup := s.cache_nodup.sublist (List.filter_sublist.map _) }) s

/-- The RLP codecs of vectors of the element types of
`TransactionReceiptInfoSerialized`, into items of `R`. -/
structure ReceiptCodecs (R : Type) where
  h256 : Rlp.VectorCodec R Uint256
  uint32 : Rlp.VectorCodec R UInt32
  h160 : Rlp.VectorCodec R Address
  u256 : Rlp.VectorCodec R U256
  logs : Rlp.VectorCodec R LogEntriesSerialize
  string : Rlp.VectorCodec R String
  createdContracts : Rlp.VectorCodec R (List (Address × List UInt8))
  destructedContracts : Rlp.VectorCodec R (List Address)

/-- Every codec reads back the vectors it writes. -/
structure ReceiptCodecs.RoundTrip {R : Type} (c : ReceiptCodecs R) : Prop where
  h256 : c.h256.RoundTrip
  uint32 : c.uint32.RoundTrip
  h160 : c.h160.RoundTrip
  u256 : c.u256.RoundTrip
  logs : c.logs.RoundTrip
  string : c.string.RoundTrip
  createdContracts : c.createdContracts.RoundTrip
  destructedContracts : c.destructedContracts.RoundTrip

section Rlp

variable {R : Type} (c : ReceiptCodecs R) (stream : Rlp.ListStream R Value)

/-- The write of `commitResults`: `dev::RLPStream streamRLP(17)`, the
seventeen vectors pushed by `<<` in the source's order, and `out()`. -/
def rlpWrite (tris : TransactionReceiptInfoSerialized) : Value :=
  stream.out
    [c.h256.enc tris.blockHashes, c.uint32.enc tris.blockNumbers,
      c.h256.enc tris.transactionHashes, c.uint32.enc tris.transactionIndexes,
      c.uint32.enc tris.outputIndexes, c.h160.enc tris.senders, c.h160.enc tris.receivers,
      c.u256.enc tris.cumulativeGasUsed, c.u256.enc tris.gasUsed, c.h160.enc tris.contractAddresses,
      c.logs.enc tris.logs, c.uint32.enc tris.excepted, c.string.enc tris.exceptedMessage,
      c.h256.enc tris.stateRoots, c.h256.enc tris.utxoRoots,
      c.createdContracts.enc tris.createdContracts,
      c.destructedContracts.enc tris.destructedContracts]

/-- The reads of `readResult`: `state[i].toVector<T>()` at the source's
positions. -/
def rlpRead (value : Value) : TransactionReceiptInfoSerialized where
  blockHashes := c.h256.dec (stream.item value 0)
  blockNumbers := c.uint32.dec (stream.item value 1)
  transactionHashes := c.h256.dec (stream.item value 2)
  transactionIndexes := c.uint32.dec (stream.item value 3)
  outputIndexes := c.uint32.dec (stream.item value 4)
  senders := c.h160.dec (stream.item value 5)
  receivers := c.h160.dec (stream.item value 6)
  cumulativeGasUsed := c.u256.dec (stream.item value 7)
  gasUsed := c.u256.dec (stream.item value 8)
  contractAddresses := c.h160.dec (stream.item value 9)
  logs := c.logs.dec (stream.item value 10)
  excepted := c.uint32.dec (stream.item value 11)
  exceptedMessage := c.string.dec (stream.item value 12)
  stateRoots := c.h256.dec (stream.item value 13)
  utxoRoots := c.h256.dec (stream.item value 14)
  createdContracts := c.createdContracts.dec (stream.item value 15)
  destructedContracts := c.destructedContracts.dec (stream.item value 16)

variable {c stream}

/-- Each vector is read at the position it was written to, by the codec of
its element type, so the stored vectors read back. -/
theorem rlpRead_rlpWrite (hc : c.RoundTrip) (hs : stream.RoundTrip)
    (tris : TransactionReceiptInfoSerialized) : rlpRead c stream (rlpWrite c stream tris) = tris := by
  cases tris
  simp [rlpRead, rlpWrite, hs.item_out, hc.h256.dec_enc, hc.uint32.dec_enc, hc.h160.dec_enc,
    hc.u256.dec_enc, hc.logs.dec_enc, hc.string.dec_enc, hc.createdContracts.dec_enc,
    hc.destructedContracts.dec_enc]

variable (c stream)

/-- One entry of the loop of `commitResults`: written only where `Get`
finds nothing. -/
def commitEntry (db : Uint256 → Option Value) (entry : Uint256 × List TransactionReceiptInfo) :
    Uint256 → Option Value :=
  if db entry.1 = none then Function.update db entry.1 (some (rlpWrite c stream (serializeReceipts entry.2)))
  else db

/-- `commitResults`. -/
def commitResults (s : StorageResults Value) : StorageResults Value :=
  if s.cache.length ≠ 0 then
    { db := s.cache.foldl (commitEntry c stream) s.db, cache := [], cache_nodup := List.nodup_nil }
  else s

/-- `readResult`: the receipts read are pushed onto `_result`. -/
def readResult (s : StorageResults Value) (key : Uint256) (result : List TransactionReceiptInfo) :
    Bool × List TransactionReceiptInfo :=
  match s.db key with
  | some value => (true, result ++ deserializeReceipts (rlpRead c stream value))
  | none => (false, result)

/-- `getResult`: the cached vector, or the stored one, then cached. -/
def getResult (s : StorageResults Value) (hashTx : Uint256) :
    StorageResults Value × List TransactionReceiptInfo :=
  match s.cache.lookup hashTx with
  | some result => (s, result)
  | none =>
      let (found, result) := readResult c stream s hashTx []
      if found then (s.addResult hashTx result, result) else (s, result)

theorem commitEntry_of_ne (db : Uint256 → Option Value) {entry : Uint256 × List TransactionReceiptInfo}
    {key : Uint256} (hne : entry.1 ≠ key) : commitEntry c stream db entry key = db key := by
  unfold commitEntry
  split_ifs
  · exact Function.update_of_ne (Ne.symm hne) _ _
  · rfl

/-- A key already stored keeps its value through the loop of `commitResults`. -/
theorem foldl_commitEntry_of_some {key : Uint256} {v : Value} :
    ∀ (entries : List (Uint256 × List TransactionReceiptInfo)) (db : Uint256 → Option Value),
      db key = some v → entries.foldl (commitEntry c stream) db key = some v
  | [], _, h => h
  | entry :: entries, db, h => by
      rw [List.foldl_cons]
      apply foldl_commitEntry_of_some entries
      by_cases he : entry.1 = key
      · rw [commitEntry, if_neg (by rw [he, h]; exact Option.some_ne_none v)]
        exact h
      · rw [commitEntry_of_ne c stream db he, h]

/-- An entry of the cache under a key not yet stored is written there. -/
theorem foldl_commitEntry_of_mem {key : Uint256} {result : List TransactionReceiptInfo} :
    ∀ {entries : List (Uint256 × List TransactionReceiptInfo)}, (entries.map Prod.fst).Nodup →
      (key, result) ∈ entries → ∀ db : Uint256 → Option Value, db key = none →
        entries.foldl (commitEntry c stream) db key = some (rlpWrite c stream (serializeReceipts result))
  | [], _, hmem, _, _ => absurd hmem List.not_mem_nil
  | entry :: entries, hnodup, hmem, db, hnone => by
      rw [List.map_cons, List.nodup_cons] at hnodup
      rw [List.foldl_cons]
      rcases List.mem_cons.mp hmem with rfl | hmem'
      · -- the entry itself: written now, kept after
        apply foldl_commitEntry_of_some
        rw [commitEntry, if_pos hnone, Function.update_self]
      · have hne : entry.1 ≠ key := fun he =>
          hnodup.1 (he ▸ List.mem_map_of_mem (f := Prod.fst) hmem')
        exact foldl_commitEntry_of_mem hnodup.2 hmem' _ (by rw [commitEntry_of_ne c stream db hne, hnone])

/-- After `commitResults`, `readResult` gives back each cached vector whose
key was not yet stored. -/
theorem readResult_commitResults (hc : c.RoundTrip) (hs : stream.RoundTrip) {s : StorageResults Value}
    {hashTx : Uint256} {result : List TransactionReceiptInfo} (hmem : (hashTx, result) ∈ s.cache)
    (hdb : s.db hashTx = none) :
    readResult c stream (commitResults c stream s) hashTx [] = (true, result) := by
  have hlen : s.cache.length ≠ 0 := fun h => by
    rw [List.length_eq_zero_iff] at h
    rw [h] at hmem
    exact List.not_mem_nil hmem
  rw [commitResults, if_pos hlen, readResult]
  simp only [foldl_commitEntry_of_mem c stream s.cache_nodup hmem s.db hdb, rlpRead_rlpWrite hc hs,
    deserializeReceipts_serializeReceipts, List.nil_append]

theorem mem_cache_addResult {s : StorageResults Value} {entry : Uint256 × List TransactionReceiptInfo}
    (hmem : entry ∈ s.cache) (hashTx : Uint256) (result : List TransactionReceiptInfo) :
    entry ∈ (s.addResult hashTx result).cache := by
  unfold addResult
  split
  · exact hmem
  · exact List.mem_append_left _ hmem

theorem mem_cache_addResult_self {s : StorageResults Value} {hashTx : Uint256}
    (h : hashTx ∉ s.cache.map Prod.fst) (result : List TransactionReceiptInfo) :
    (hashTx, result) ∈ (s.addResult hashTx result).cache := by
  rw [addResult, dif_neg h]
  exact List.mem_append_right _ (List.mem_singleton_self _)

@[simp] theorem db_addResult (s : StorageResults Value) (hashTx : Uint256)
    (result : List TransactionReceiptInfo) : (s.addResult hashTx result).db = s.db := by
  unfold addResult
  split <;> rfl

/-- Later additions keep a cached entry and the store. -/
theorem foldl_addResult (later : List (Uint256 × List TransactionReceiptInfo)) :
    ∀ (s : StorageResults Value) {entry : Uint256 × List TransactionReceiptInfo}, entry ∈ s.cache →
      entry ∈ (later.foldl (fun s e => s.addResult e.1 e.2) s).cache ∧
        (later.foldl (fun s e => s.addResult e.1 e.2) s).db = s.db := by
  induction later with
  | nil => exact fun _ _ hmem => ⟨hmem, rfl⟩
  | cons e later ih =>
      intro s entry hmem
      obtain ⟨hmem', hdb⟩ := ih (s.addResult e.1 e.2) (mem_cache_addResult hmem e.1 e.2)
      exact ⟨hmem', by rw [List.foldl_cons, hdb, db_addResult]⟩

/-- Receipts added under a hash neither stored nor cached come back from
`readResult` and from `getResult` after `commitResults`, whatever is added
after them. -/
theorem readResult_commitResults_addResult (hc : c.RoundTrip) (hs : stream.RoundTrip)
    (s : StorageResults Value) (hashTx : Uint256) (result : List TransactionReceiptInfo) (hdb : s.db hashTx = none)
    (hcache : hashTx ∉ s.cache.map Prod.fst) (later : List (Uint256 × List TransactionReceiptInfo)) :
    let s' := commitResults c stream
      (later.foldl (fun s e => s.addResult e.1 e.2) (s.addResult hashTx result))
    readResult c stream s' hashTx [] = (true, result) ∧ (getResult c stream s' hashTx).2 = result := by
  obtain ⟨hmem, hdb'⟩ := foldl_addResult later (s.addResult hashTx result)
    (mem_cache_addResult_self hcache result)
  have hread := readResult_commitResults c stream hc hs hmem (by rw [hdb', db_addResult, hdb])
  refine ⟨hread, ?_⟩
  -- the cache is empty after the commit, so `getResult` reads the store
  have hempty : (commitResults c stream (later.foldl (fun s e => s.addResult e.1 e.2)
      (s.addResult hashTx result))).cache = [] := by
    unfold commitResults
    split
    · rfl
    · rename_i h
      simp only [ne_eq, not_not, List.length_eq_zero_iff] at h
      rw [h] at hmem
      exact absurd hmem List.not_mem_nil
  simp only [getResult, hempty, List.lookup_nil, hread, if_true]

end Rlp

end StorageResults

/-- RLP's codecs of the receipts' element types, built from those of
numbers, byte strings, pairs and lists: a hash, a gas count and a word as
their numbers, an address as its number, the logs of a receipt as a list
whose entries each list an address, its topics and its data. -/
def rlpReceiptCodecs : StorageResults.ReceiptCodecs RlpItem where
  h256 := (Rlp.ItemCodec.bitVec 256).vector
  uint32 := Rlp.ItemCodec.uint32.vector
  h160 := (Rlp.ItemCodec.fin (2 ^ 160)).vector
  u256 := (Rlp.ItemCodec.bitVec 256).vector
  logs := ((Rlp.ItemCodec.fin (2 ^ 160)).pair
    ((Rlp.ItemCodec.bitVec 256).list.pair Rlp.ItemCodec.bytes)).list.vector
  string := Rlp.ItemCodec.string.vector
  createdContracts := ((Rlp.ItemCodec.fin (2 ^ 160)).pair Rlp.ItemCodec.bytes).list.vector
  destructedContracts := (Rlp.ItemCodec.fin (2 ^ 160)).list.vector

theorem rlpReceiptCodecs_roundTrip : rlpReceiptCodecs.RoundTrip :=
  ⟨Rlp.ItemCodec.vector_roundTrip _, Rlp.ItemCodec.vector_roundTrip _,
    Rlp.ItemCodec.vector_roundTrip _, Rlp.ItemCodec.vector_roundTrip _,
    Rlp.ItemCodec.vector_roundTrip _, Rlp.ItemCodec.vector_roundTrip _,
    Rlp.ItemCodec.vector_roundTrip _, Rlp.ItemCodec.vector_roundTrip _⟩

/-- An empty store and cache, RLP's codecs and list, and one receipt. -/
theorem readResult_commitResults_addResult_empty :
    rlpReceiptCodecs.RoundTrip ∧ Rlp.stream.RoundTrip ∧
      (⟨fun _ => none, [], List.nodup_nil⟩ : StorageResults RlpItem).db 0 = none ∧
      (0 : Uint256) ∉ (⟨fun _ => none, [], List.nodup_nil⟩ : StorageResults RlpItem).cache.map Prod.fst ∧
      StorageResults.readResult rlpReceiptCodecs Rlp.stream
        (StorageResults.commitResults rlpReceiptCodecs Rlp.stream
          ((⟨fun _ => none, [], List.nodup_nil⟩ : StorageResults RlpItem).addResult 0 [default]))
        0 [] = (true, [default]) :=
  ⟨rlpReceiptCodecs_roundTrip, Rlp.stream_roundTrip, rfl, List.not_mem_nil,
    (StorageResults.readResult_commitResults_addResult rlpReceiptCodecs Rlp.stream
      rlpReceiptCodecs_roundTrip Rlp.stream_roundTrip ⟨fun _ => none, [], List.nodup_nil⟩ 0 [default]
      rfl List.not_mem_nil []).1⟩

end Metrix
