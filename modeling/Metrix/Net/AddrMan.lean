import Mathlib
import Metrix.Lib.SortedMap
import Metrix.Primitives.Serialize
import Metrix.Script.SigHash

/-! The stochastic address manager of `addrman.h` and `addrman.cpp`. The
tables `vvTried` and `vvNew` are indexed by a bucket and a position, `-1`
(here `none`) marking an empty cell; `mapInfo` is an ordered map from ids to
entries, and `mapAddr` finds the id of a network address. The network layer
(`CNetAddr::GetGroup`, `CService::GetKey`, `IsRoutable`, `IsValid`) and the
double SHA-256 of `CHashWriter` are parameters. Random draws of
`insecure_rand` and the adjusted clock are arguments of each call; a call
reads the clock once. An assertion that fails is an error carrying its
text. -/

namespace Metrix.AddrMan

/-- `ADDRMAN_TRIED_BUCKET_COUNT`. -/
def triedBucketCount : ℕ := 256

/-- `ADDRMAN_NEW_BUCKET_COUNT`. -/
def newBucketCount : ℕ := 1024

/-- `ADDRMAN_BUCKET_SIZE`. -/
def bucketSize : ℕ := 64

/-- `ADDRMAN_TRIED_BUCKETS_PER_GROUP`. -/
def triedBucketsPerGroup : ℕ := 8

/-- `ADDRMAN_NEW_BUCKETS_PER_SOURCE_GROUP`. -/
def newBucketsPerSourceGroup : ℕ := 64

/-- `ADDRMAN_NEW_BUCKETS_PER_ADDRESS`. -/
def newBucketsPerAddress : ℤ := 8

/-- `ADDRMAN_HORIZON_DAYS`. -/
def horizonDays : ℤ := 30

/-- `ADDRMAN_RETRIES`. -/
def retries : ℤ := 3

/-- `ADDRMAN_MAX_FAILURES`. -/
def maxFailures : ℤ := 10

/-- `ADDRMAN_MIN_FAIL_DAYS`. -/
def minFailDays : ℤ := 7

/-- `ADDRMAN_REPLACEMENT_HOURS`. -/
def replacementHours : ℤ := 4

/-- `ADDRMAN_GETADDR_MAX_PCT`. -/
def getAddrMaxPct : ℕ := 23

/-- `ADDRMAN_GETADDR_MAX`. -/
def getAddrMax : ℕ := 2500

/-- `ADDRMAN_SET_TRIED_COLLISION_SIZE`. -/
def setTriedCollisionSize : ℕ := 10

/-- `ADDRMAN_TEST_WINDOW`. -/
def testWindow : ℤ := 40 * 60

/-! ## Addresses and entries -/

/-- `CService`: a network address `CNetAddr` and a port. -/
structure CService (N : Type) where
  ip : N
  port : UInt16
deriving DecidableEq, Repr

/-- `CAddress`: a service with its service bits and its last-seen time. -/
structure CAddress (N : Type) extends CService N where
  nServices : UInt64
  nTime : UInt32
deriving DecidableEq, Repr

/-- `CAddrInfo`. `nRandomPos` is an `int` whose default `-1` is overwritten
by `Create` before it is read; an entry made by `operator[]` for a missing
id keeps it, and only `Check_` would read it, after rejecting that entry by
its reference count. The model keeps the position as a natural number, `0`
in that entry. -/
structure CAddrInfo (N : Type) extends CAddress N where
  nLastTry : ℤ := 0
  nLastCountAttempt : ℤ := 0
  source : N
  nLastSuccess : ℤ := 0
  nAttempts : ℤ := 0
  nRefCount : ℤ := 0
  fInTried : Bool := false
  nRandomPos : ℕ := 0
deriving Repr

/-- `CAddrInfo()`: the entry `operator[]` inserts for a missing id, with the
default `CAddress` time `100000000`. -/
def CAddrInfo.empty [Inhabited N] : CAddrInfo N :=
  { ip := default, port := 0, nServices := 0, nTime := 100000000, source := default }

/-- The `int64_t` stored into an `unsigned int` time. -/
def truncTime (t : ℤ) : UInt32 :=
  UInt32.ofNat (t % 2 ^ 32).toNat

/-- `CAddrInfo::IsTerrible`. -/
def CAddrInfo.isTerrible (info : CAddrInfo N) (nNow : ℤ) : Bool :=
  -- never remove things tried in the last minute
  if info.nLastTry ≠ 0 ∧ info.nLastTry ≥ nNow - 60 then false
  else if (info.nTime.toNat : ℤ) > nNow + 10 * 60 then true
  else if info.nTime = 0 ∨ nNow - info.nTime.toNat > horizonDays * 24 * 60 * 60 then true
  else if info.nLastSuccess = 0 ∧ info.nAttempts ≥ retries then true
  else if nNow - info.nLastSuccess > minFailDays * 24 * 60 * 60 ∧ info.nAttempts ≥ maxFailures then true
  else false

/-! ## Buckets -/

/-- What the manager reads of the network layer and of the hash. -/
structure NetEnv (N : Type) where
  /-- `CService::GetKey`. -/
  getKey : CService N → List UInt8
  /-- `CNetAddr::GetGroup`. -/
  getGroup : N → List UInt8
  /-- `CNetAddr::IsRoutable`. -/
  isRoutable : N → Bool
  /-- `CNetAddr::IsValid`. -/
  isValid : N → Bool
  /-- `CHashWriter::GetHash`, double SHA-256. -/
  hash256 : List UInt8 → Uint256

/-- A `std::vector<unsigned char>` on the stream. -/
def serBytes (v : List UInt8) : List UInt8 :=
  writeCompactSize v.length ++ v

section Buckets

variable {N : Type} (E : NetEnv N)

/-- `GetCheapHash` of the hash of a stream. -/
def cheapHash (bytes : List UInt8) : ℕ :=
  (E.hash256 bytes).toNat % 2 ^ 64

/-- `CAddrInfo::GetTriedBucket`. -/
def getTriedBucket (nKey : Uint256) (addr : CService N) : Fin triedBucketCount :=
  let hash1 := cheapHash E (serUint256 nKey ++ serBytes (E.getKey addr))
  let hash2 := cheapHash E (serUint256 nKey ++ serBytes (E.getGroup addr.ip) ++
    leBytes 8 (hash1 % triedBucketsPerGroup))
  ⟨hash2 % triedBucketCount, Nat.mod_lt _ (by decide)⟩

/-- `CAddrInfo::GetNewBucket` with the source `src`. -/
def getNewBucket (nKey : Uint256) (addr : CService N) (src : N) : Fin newBucketCount :=
  let vchSourceGroupKey := E.getGroup src
  let hash1 := cheapHash E (serUint256 nKey ++ serBytes (E.getGroup addr.ip) ++
    serBytes vchSourceGroupKey)
  let hash2 := cheapHash E (serUint256 nKey ++ serBytes vchSourceGroupKey ++
    leBytes 8 (hash1 % newBucketsPerSourceGroup))
  ⟨hash2 % newBucketCount, Nat.mod_lt _ (by decide)⟩

/-- `CAddrInfo::GetBucketPosition`. -/
def getBucketPosition (nKey : Uint256) (fNew : Bool) (nBucket : ℕ) (addr : CService N) :
    Fin bucketSize :=
  let hash1 := cheapHash E (serUint256 nKey ++ [if fNew then 'N'.toUInt8 else 'K'.toUInt8] ++
    leBytes 4 nBucket ++ serBytes (E.getKey addr))
  ⟨hash1 % bucketSize, Nat.mod_lt _ (by decide)⟩

/-- The tried cell of an address. -/
def triedCell (nKey : Uint256) (addr : CService N) : Fin triedBucketCount × Fin bucketSize :=
  (getTriedBucket E nKey addr, getBucketPosition E nKey false (getTriedBucket E nKey addr) addr)

end Buckets

/-! ## The manager -/

/-- The cells of a table, bucket by bucket, as the loops of `Check_` visit them. -/
def cells (nBuckets : ℕ) : List (Fin nBuckets × Fin bucketSize) :=
  List.finRange nBuckets ×ˢ List.finRange bucketSize

/-- `INT_MAX`: `nIdCount` is an `int`. -/
def intMax : ℕ := 2 ^ 31 - 1

/-- `CAddrMan`, without its lock and random source. -/
structure CAddrMan (N : Type) [LinearOrder N] where
  nIdCount : ℕ
  nIdCount_le : nIdCount ≤ intMax
  mapInfo : SortedMap ℕ (CAddrInfo N)
  mapAddr : SortedMap N ℕ
  vRandom : List ℕ
  nTried : ℤ
  vvTried : Fin triedBucketCount × Fin bucketSize → Option ℕ
  nNew : ℤ
  vvNew : Fin newBucketCount × Fin bucketSize → Option ℕ
  nLastGood : ℤ
  mTriedCollisions : Finset ℕ
  nKey : Uint256

section Manager

variable {N : Type} [LinearOrder N] [Inhabited N] (E : NetEnv N)

/-- `CAddrMan()`: `Clear()` with the key it draws. -/
def init (nKey : Uint256) : CAddrMan N where
  nIdCount := 0
  nIdCount_le := Nat.zero_le _
  mapInfo := SortedMap.empty
  mapAddr := SortedMap.empty
  vRandom := []
  nTried := 0
  vvTried := fun _ => none
  nNew := 0
  vvNew := fun _ => none
  -- initially at 1 so that "never" is strictly worse
  nLastGood := 1
  mTriedCollisions := ∅
  nKey := nKey

namespace CAddrMan

/-- A write through the reference `mapInfo[nId]` to an entry that exists. -/
@[simp] def modifyInfo (st : CAddrMan N) (nId : ℕ) (f : CAddrInfo N → CAddrInfo N) : CAddrMan N :=
  { st with mapInfo := st.mapInfo.modify nId f }

/-- `CAddrMan::Find`: the id and the entry of a network address. -/
def find (st : CAddrMan N) (addr : N) : Option (ℕ × CAddrInfo N) := do
  let nId ← st.mapAddr.find? addr
  let info ← st.mapInfo.find? nId
  pure (nId, info)

/-- `CAddrMan::Create`: a fresh id at the end of `vRandom`. At `INT_MAX` the
`nIdCount++` overflows the `int`, which is undefined. -/
def create (st : CAddrMan N) (addr : CAddress N) (addrSource : N) :
    Except String (ℕ × CAddrMan N) :=
  let nId := st.nIdCount
  if h : nId < intMax then
    .ok (nId, { st with
      nIdCount := nId + 1
      nIdCount_le := h
      mapInfo := st.mapInfo.insert nId
        { toCAddress := addr, source := addrSource, nRandomPos := st.vRandom.length }
      mapAddr := st.mapAddr.insert addr.ip nId
      vRandom := st.vRandom ++ [nId] })
  else .error "nIdCount++ overflows int"

/-- `CAddrMan::SwapRandom`. -/
def swapRandom (st : CAddrMan N) (nRndPos1 nRndPos2 : ℕ) : Except String (CAddrMan N) :=
  if nRndPos1 = nRndPos2 then .ok st
  else if ¬(nRndPos1 < st.vRandom.length ∧ nRndPos2 < st.vRandom.length) then
    .error "assert(nRndPos1 < vRandom.size() && nRndPos2 < vRandom.size())"
  else
    let nId1 := st.vRandom.getD nRndPos1 0
    let nId2 := st.vRandom.getD nRndPos2 0
    if st.mapInfo.find? nId1 = none then .error "assert(mapInfo.count(nId1) == 1)"
    else if st.mapInfo.find? nId2 = none then .error "assert(mapInfo.count(nId2) == 1)"
    else
      let st := (st.modifyInfo nId1 fun i => { i with nRandomPos := nRndPos2 }).modifyInfo nId2
        fun i => { i with nRandomPos := nRndPos1 }
      .ok { st with vRandom := (st.vRandom.set nRndPos1 nId2).set nRndPos2 nId1 }

/-- `CAddrMan::Delete`. -/
def delete (st : CAddrMan N) (nId : ℕ) : Except String (CAddrMan N) :=
  match st.mapInfo.find? nId with
  | none => .error "assert(mapInfo.count(nId) != 0)"
  | some info =>
    if info.fInTried then .error "assert(!info.fInTried)"
    else if info.nRefCount ≠ 0 then .error "assert(info.nRefCount == 0)"
    else do
      let st ← st.swapRandom info.nRandomPos (st.vRandom.length - 1)
      pure { st with
        vRandom := st.vRandom.dropLast
        mapAddr := st.mapAddr.erase info.ip
        mapInfo := st.mapInfo.erase nId
        nNew := st.nNew - 1 }

/-- `CAddrMan::ClearNew`. Reading a missing id through `operator[]` gives an
entry with reference count 0, which fails the assertion. -/
def clearNew (st : CAddrMan N) (cell : Fin newBucketCount × Fin bucketSize) :
    Except String (CAddrMan N) :=
  match st.vvNew cell with
  | none => .ok st
  | some nIdDelete =>
    match st.mapInfo.find? nIdDelete with
    | none => .error "assert(infoDelete.nRefCount > 0)"
    | some infoDelete =>
      if ¬0 < infoDelete.nRefCount then .error "assert(infoDelete.nRefCount > 0)"
      else
        let st := { st.modifyInfo nIdDelete (fun i => { i with nRefCount := i.nRefCount - 1 }) with
          vvNew := Function.update st.vvNew cell none }
        if infoDelete.nRefCount - 1 = 0 then st.delete nIdDelete else .ok st

end CAddrMan

/-- One iteration of the loop of `MakeTried` that takes `nId` out of the new
buckets: the cell of `bucket` at the entry's position there, and the entry's
reference count. -/
def removeFromNewStep (nKey : Uint256) (addr : CService N) (nId : ℕ)
    (acc : (Fin newBucketCount × Fin bucketSize → Option ℕ) × ℤ) (bucket : Fin newBucketCount) :
    (Fin newBucketCount × Fin bucketSize → Option ℕ) × ℤ :=
  let pos := getBucketPosition E nKey true bucket addr
  if acc.1 (bucket, pos) = some nId then (Function.update acc.1 (bucket, pos) none, acc.2 - 1)
  else acc

/-- The loop of `MakeTried` that takes `nId` out of every new bucket. -/
def removeFromNew (nKey : Uint256) (addr : CService N) (nId : ℕ)
    (vvNew : Fin newBucketCount × Fin bucketSize → Option ℕ) (nRefCount : ℤ) :
    (Fin newBucketCount × Fin bucketSize → Option ℕ) × ℤ :=
  (List.finRange newBucketCount).foldl (removeFromNewStep E nKey addr nId) (vvNew, nRefCount)

namespace CAddrMan

/-- The eviction in `MakeTried`: the tried entry at `cell` goes back to the
new table, at its own new bucket, clearing whatever is there. -/
def evictTried (st : CAddrMan N) (cell : Fin triedBucketCount × Fin bucketSize) (nIdEvict : ℕ) :
    Except String (CAddrMan N) :=
  match st.mapInfo.find? nIdEvict with
  | none => .error "assert(mapInfo.count(nIdEvict) == 1)"
  | some infoOld => do
    -- remove the to-be-evicted item from the tried set
    let st := { st.modifyInfo nIdEvict (fun i => { i with fInTried := false }) with
      vvTried := Function.update st.vvTried cell none
      nTried := st.nTried - 1 }
    let nUBucket := getNewBucket E st.nKey infoOld.toCService infoOld.source
    let nUBucketPos := getBucketPosition E st.nKey true nUBucket infoOld.toCService
    let st ← st.clearNew (nUBucket, nUBucketPos)
    if st.vvNew (nUBucket, nUBucketPos) ≠ none then
      .error "assert(vvNew[nUBucket][nUBucketPos] == -1)"
    else
      pure { st.modifyInfo nIdEvict (fun i => { i with nRefCount := 1 }) with
        vvNew := Function.update st.vvNew (nUBucket, nUBucketPos) (some nIdEvict)
        nNew := st.nNew + 1 }

/-- `CAddrMan::MakeTried` of the entry `info` of `nId`. -/
def makeTried (st : CAddrMan N) (info : CAddrInfo N) (nId : ℕ) : Except String (CAddrMan N) := do
  let removed := removeFromNew E st.nKey info.toCService nId st.vvNew info.nRefCount
  let st := { st.modifyInfo nId (fun i => { i with nRefCount := removed.2 }) with
    vvNew := removed.1
    nNew := st.nNew - 1 }
  if removed.2 ≠ 0 then .error "assert(info.nRefCount == 0)"
  else
    let cell := triedCell E st.nKey info.toCService
    let st : CAddrMan N ← match st.vvTried cell with
      | none => pure st
      | some nIdEvict => st.evictTried E cell nIdEvict
    if st.vvTried cell ≠ none then .error "assert(vvTried[nKBucket][nKBucketPos] == -1)"
    else
      pure { st.modifyInfo nId (fun i => { i with fInTried := true }) with
        vvTried := Function.update st.vvTried cell (some nId)
        nTried := st.nTried + 1 }

end CAddrMan

/-- The search of `Good_` for a new bucket holding `nId` at the entry's
position there, starting at bucket `nRnd`. -/
def findNewBucket (nKey : Uint256) (addr : CService N) (nId : ℕ)
    (vvNew : Fin newBucketCount × Fin bucketSize → Option ℕ) (nRnd : ℕ) :
    Option (Fin newBucketCount) :=
  (List.range newBucketCount).findSome? fun n =>
    let nB : Fin newBucketCount := ⟨(n + nRnd) % newBucketCount, Nat.mod_lt _ (by decide)⟩
    if vvNew (nB, getBucketPosition E nKey true nB addr) = some nId then some nB else none

namespace CAddrMan

/-- `CAddrMan::Good_`, with `nRnd` the draw of `randrange(ADDRMAN_NEW_BUCKET_COUNT)`. -/
def good (st : CAddrMan N) (addr : CService N) (testBeforeEvict : Bool) (nTime : ℤ) (nRnd : ℕ) :
    Except String (CAddrMan N) :=
  let st := { st with nLastGood := nTime }
  match st.find addr.ip with
  | none => .ok st
  | some (nId, info) =>
    -- the exact same service, port included
    if info.toCService ≠ addr then .ok st
    else
      let info := { info with nLastSuccess := nTime, nLastTry := nTime, nAttempts := 0 }
      let st := st.modifyInfo nId fun _ => info
      if info.fInTried then .ok st
      else match findNewBucket E st.nKey info.toCService nId st.vvNew nRnd with
        | none => .ok st
        | some _ =>
          let cell := triedCell E st.nKey info.toCService
          if testBeforeEvict ∧ st.vvTried cell ≠ none then
            .ok (if st.mTriedCollisions.card < setTriedCollisionSize then
              { st with mTriedCollisions := insert nId st.mTriedCollisions } else st)
          else st.makeTried E info nId

/-- The end of `Add_`, shared by a known and a created entry `nId`: enter it
in its new bucket for `source`, overwriting a terrible or multiply referenced
entry there, or delete it again if it is in no bucket. -/
def addToNew (st : CAddrMan N) (source : N) (nId : ℕ) (pinfo : CAddrInfo N) (fNew : Bool)
    (nNow : ℤ) : Except String (Bool × CAddrMan N) :=
  let nUBucket := getNewBucket E st.nKey pinfo.toCService source
  let cell := (nUBucket, getBucketPosition E st.nKey true nUBucket pinfo.toCService)
  if st.vvNew cell = some nId then .ok (fNew, st)
  else
    let (fInsert, st) : Bool × CAddrMan N := match st.vvNew cell with
      | none => (true, st)
      | some nIdExisting =>
        let (infoExisting, mapInfo) := st.mapInfo.getOrInsert nIdExisting CAddrInfo.empty
        (infoExisting.isTerrible nNow || (infoExisting.nRefCount > 1 && pinfo.nRefCount == 0),
          { st with mapInfo })
    if fInsert then do
      let st ← st.clearNew cell
      pure (fNew, { st.modifyInfo nId (fun i => { i with nRefCount := i.nRefCount + 1 }) with
        vvNew := Function.update st.vvNew cell (some nId) })
    else if pinfo.nRefCount = 0 then do
      let st ← st.delete nId
      pure (fNew, st)
    else .ok (fNew, st)

/-- `CAddrMan::Add_`, with `nNow` the adjusted time and `rnd` the draw of
`randrange(nFactor)`. -/
def add (st : CAddrMan N) (addr : CAddress N) (source : N) (nTimePenalty : ℤ) (nNow : ℤ)
    (rnd : ℕ) : Except String (Bool × CAddrMan N) :=
  if ¬E.isRoutable addr.ip then .ok (false, st)
  else
    -- a source's self-announcement carries no penalty
    let nTimePenalty := if addr.ip = source then 0 else nTimePenalty
    match st.find addr.ip with
    | some (nId, pinfo) =>
      -- periodically update nTime
      let fCurrentlyOnline := nNow - addr.nTime.toNat < 24 * 60 * 60
      let nUpdateInterval : ℤ := if fCurrentlyOnline then 60 * 60 else 24 * 60 * 60
      let pinfo := if addr.nTime ≠ 0 ∧ (pinfo.nTime = 0 ∨
          (pinfo.nTime.toNat : ℤ) < addr.nTime.toNat - nUpdateInterval - nTimePenalty) then
        { pinfo with nTime := truncTime (max 0 (addr.nTime.toNat - nTimePenalty)) } else pinfo
      let pinfo := { pinfo with nServices := pinfo.nServices ||| addr.nServices }
      let st := st.modifyInfo nId fun _ => pinfo
      -- do not update if no new information is present
      if addr.nTime = 0 ∨ (pinfo.nTime ≠ 0 ∧ addr.nTime ≤ pinfo.nTime) then .ok (false, st)
      else if pinfo.fInTried then .ok (false, st)
      else if pinfo.nRefCount = newBucketsPerAddress then .ok (false, st)
      else
        -- previous nRefCount == N: 2^N times harder to increase it
        let nFactor := 2 ^ pinfo.nRefCount.toNat
        if nFactor > 1 ∧ rnd % nFactor ≠ 0 then .ok (false, st)
        else st.addToNew E source nId pinfo false nNow
    | none => do
      let (nId, st) ← st.create addr source
      let st := st.modifyInfo nId fun i =>
        { i with nTime := truncTime (max 0 ((i.nTime.toNat : ℤ) - nTimePenalty)) }
      let st := { st with nNew := st.nNew + 1 }
      match st.mapInfo.find? nId with
      | some pinfo => st.addToNew E source nId pinfo true nNow
      | none => .ok (true, st)

/-- `CAddrMan::Attempt_`. -/
def attempt (st : CAddrMan N) (addr : CService N) (fCountFailure : Bool) (nTime : ℤ) :
    CAddrMan N :=
  match st.find addr.ip with
  | none => st
  | some (nId, info) =>
    if info.toCService ≠ addr then st
    else st.modifyInfo nId fun i =>
      let i := { i with nLastTry := nTime }
      if fCountFailure ∧ i.nLastCountAttempt < st.nLastGood then
        { i with nLastCountAttempt := nTime, nAttempts := i.nAttempts + 1 }
      else i

/-- `CAddrMan::Connected_`. -/
def connected (st : CAddrMan N) (addr : CService N) (nTime : ℤ) : CAddrMan N :=
  match st.find addr.ip with
  | none => st
  | some (nId, info) =>
    if info.toCService ≠ addr then st
    else if nTime - info.nTime.toNat > 20 * 60 then
      st.modifyInfo nId fun i => { i with nTime := truncTime nTime }
    else st

/-- `CAddrMan::SetServices_`. -/
def setServices (st : CAddrMan N) (addr : CService N) (nServices : UInt64) : CAddrMan N :=
  match st.find addr.ip with
  | none => st
  | some (nId, info) =>
    if info.toCService ≠ addr then st
    else st.modifyInfo nId fun i => { i with nServices := nServices }

/-- One iteration of `ResolveCollisions_`, for the collision `id_new`:
whether to erase it, after the `Good_` that may move it into the tried
table (`nRnd` is that call's draw). -/
def resolveCollision (st : CAddrMan N) (nNow : ℤ) (nRnd : ℕ) (idNew : ℕ) :
    Except String (CAddrMan N) := do
  let (eraseCollision, st) ← match st.mapInfo.find? idNew with
    | none => pure (true, st)
    | some infoNew =>
      let cell := triedCell E st.nKey infoNew.toCService
      if ¬E.isValid infoNew.ip then pure (true, st)
      else match st.vvTried cell with
        | none => do
          -- the collision is not a collision any more
          let st ← st.good E infoNew.toCService false nNow nRnd
          pure (true, st)
        | some idOld =>
          let (infoOld, mapInfo) := st.mapInfo.getOrInsert idOld CAddrInfo.empty
          let st := { st with mapInfo }
          if nNow - infoOld.nLastSuccess < replacementHours * (60 * 60) then pure (true, st)
          else if nNow - infoOld.nLastTry < replacementHours * (60 * 60) then
            -- give the address at least 60 seconds to connect
            if nNow - infoOld.nLastTry > 60 then do
              let st ← st.good E infoNew.toCService false nNow nRnd
              pure (true, st)
            else pure (false, st)
          else if nNow - infoNew.nLastSuccess > testWindow then do
            let st ← st.good E infoNew.toCService false nNow nRnd
            pure (true, st)
          else pure (false, st)
  pure (if eraseCollision then { st with mTriedCollisions := st.mTriedCollisions.erase idNew }
    else st)

/-- `CAddrMan::ResolveCollisions_`: the collisions in increasing order; the
`Good_` calls it makes add none. `nRnd idNew` is the draw of the call for
`idNew`. -/
def resolveCollisions (st : CAddrMan N) (nNow : ℤ) (nRnd : ℕ → ℕ) : Except String (CAddrMan N) :=
  (st.mTriedCollisions.sort (· ≤ ·)).foldlM (fun st idNew => st.resolveCollision E nNow (nRnd idNew) idNew) st

/-- The loop of `GetAddr_` from position `n`: swap a random later entry to
`n` and take it unless it is terrible, until `nNodes` are taken. -/
def getAddrLoop (nNow : ℤ) (rnd : ℕ → ℕ) (nNodes : ℕ) :
    List ℕ → List (CAddress N) × CAddrMan N → Except String (List (CAddress N) × CAddrMan N)
  | [], acc => .ok acc
  | n :: ns, (vAddr, st) =>
    if vAddr.length ≥ nNodes then .ok (vAddr, st)
    else do
      let st ← st.swapRandom n (rnd n % (st.vRandom.length - n) + n)
      match st.mapInfo.find? (st.vRandom.getD n 0) with
      | none => .error "assert(mapInfo.count(vRandom[n]) == 1)"
      | some ai =>
        getAddrLoop nNow rnd nNodes ns
          (if ai.isTerrible nNow then vAddr else vAddr ++ [ai.toCAddress], st)

/-- `CAddrMan::GetAddr_`, with `rnd n` the draw of iteration `n`. -/
def getAddr (st : CAddrMan N) (nNow : ℤ) (rnd : ℕ → ℕ) :
    Except String (List (CAddress N) × CAddrMan N) :=
  let nNodes := min (getAddrMaxPct * st.vRandom.length / 100) getAddrMax
  getAddrLoop nNow rnd nNodes (List.range st.vRandom.length) ([], st)

end CAddrMan

/-! ## The public calls -/

/-- A call of the manager with its arguments, the clock it reads and the
draws it makes. `Select_` returns a copy of an entry and writes nothing. -/
inductive Op (N : Type) where
  | add (addr : CAddress N) (source : N) (nTimePenalty : ℤ) (nNow : ℤ) (rnd : ℕ)
  | good (addr : CService N) (testBeforeEvict : Bool) (nTime : ℤ) (nRnd : ℕ)
  | attempt (addr : CService N) (fCountFailure : Bool) (nTime : ℤ)
  | connected (addr : CService N) (nTime : ℤ)
  | setServices (addr : CService N) (nServices : UInt64)
  | resolveCollisions (nNow : ℤ) (nRnd : ℕ → ℕ)
  | select (newOnly : Bool)
  | getAddr (nNow : ℤ) (rnd : ℕ → ℕ)

/-- Whether a call is `Add_`, the one call that creates entries. -/
def Op.isAdd : Op N → Bool
  | .add .. => true
  | _ => false

/-- The manager after one call. -/
def step (st : CAddrMan N) : Op N → Except String (CAddrMan N)
  | .add addr source nTimePenalty nNow rnd =>
    (st.add E addr source nTimePenalty nNow rnd).map Prod.snd
  | .good addr testBeforeEvict nTime nRnd => st.good E addr testBeforeEvict nTime nRnd
  | .attempt addr fCountFailure nTime => .ok (st.attempt addr fCountFailure nTime)
  | .connected addr nTime => .ok (st.connected addr nTime)
  | .setServices addr nServices => .ok (st.setServices addr nServices)
  | .resolveCollisions nNow nRnd => st.resolveCollisions E nNow nRnd
  | .select _ => .ok st
  | .getAddr nNow rnd => (st.getAddr nNow rnd).map Prod.snd

/-- The manager after a sequence of calls. -/
def run (st : CAddrMan N) (ops : List (Op N)) : Except String (CAddrMan N) :=
  ops.foldlM (step E) st

/-! ## The consistency check -/

/-- The checks of `Check_` on one entry of `mapInfo`, collecting the tried
ids and the reference counts of the new ones. `mapAddr[info]` reads `0` for
an address with no entry. -/
def checkEntry (st : CAddrMan N) (acc : Finset ℕ × SortedMap ℕ ℤ) (entry : ℕ × CAddrInfo N) :
    Except ℤ (Finset ℕ × SortedMap ℕ ℤ) := do
  let (n, info) := entry
  let acc ← if info.fInTried then do
      if info.nLastSuccess = 0 then throw (-1)
      if info.nRefCount ≠ 0 then throw (-2)
      pure (insert n acc.1, acc.2)
    else do
      if info.nRefCount < 0 ∨ info.nRefCount > newBucketsPerAddress then throw (-3)
      if info.nRefCount = 0 then throw (-4)
      pure (acc.1, acc.2.insert n info.nRefCount)
  if (st.mapAddr.find? info.ip).getD 0 ≠ n then throw (-5)
  if ¬(info.nRandomPos < st.vRandom.length ∧ st.vRandom.getD info.nRandomPos 0 = n) then throw (-14)
  if info.nLastTry < 0 then throw (-6)
  if info.nLastSuccess < 0 then throw (-8)
  pure acc

/-- The checks of `Check_` on one cell of the tried table. -/
def checkTriedCell (st : CAddrMan N) (setTried : Finset ℕ)
    (cell : Fin triedBucketCount × Fin bucketSize) : Except ℤ (Finset ℕ) :=
  match st.vvTried cell with
  | none => pure setTried
  | some x => do
    if x ∉ setTried then throw (-11)
    let info := (st.mapInfo.find? x).getD CAddrInfo.empty
    if getTriedBucket E st.nKey info.toCService ≠ cell.1 then throw (-17)
    if getBucketPosition E st.nKey false cell.1 info.toCService ≠ cell.2 then throw (-18)
    pure (setTried.erase x)

/-- The checks of `Check_` on one cell of the new table, counting down the
references of its entry. -/
def checkNewCell (st : CAddrMan N) (mapNew : SortedMap ℕ ℤ)
    (cell : Fin newBucketCount × Fin bucketSize) : Except ℤ (SortedMap ℕ ℤ) :=
  match st.vvNew cell with
  | none => pure mapNew
  | some x =>
    match mapNew.find? x with
    | none => throw (-12)
    | some c => do
      let info := (st.mapInfo.find? x).getD CAddrInfo.empty
      if getBucketPosition E st.nKey true cell.1 info.toCService ≠ cell.2 then throw (-19)
      pure (if c - 1 = 0 then mapNew.erase x else mapNew.insert x (c - 1))

/-- `CAddrMan::Check_` as a computation that stops at the first failed check. -/
def checkRun (st : CAddrMan N) : Except ℤ Unit := do
  if (st.vRandom.length : ℤ) ≠ st.nTried + st.nNew then throw (-7)
  let (setTried, mapNew) ← st.mapInfo.entries.foldlM (checkEntry st) (∅, SortedMap.empty)
  if (setTried.card : ℤ) ≠ st.nTried then throw (-9)
  if (mapNew.size : ℤ) ≠ st.nNew then throw (-10)
  let setTried ← (cells triedBucketCount).foldlM (checkTriedCell E st) setTried
  let mapNew ← (cells newBucketCount).foldlM (checkNewCell E st) mapNew
  if setTried.card ≠ 0 then throw (-13)
  if mapNew.size ≠ 0 then throw (-15)
  if st.nKey = 0 then throw (-16)

/-- `CAddrMan::Check_`: an error code, or zero. -/
def check (st : CAddrMan N) : ℤ :=
  match checkRun E st with
  | .ok () => 0
  | .error err => err

end Manager

end Metrix.AddrMan
