import Metrix.Consensus.DGPTransactions

/-! The parameters that `QtumDGP` reads from the governance contracts
(`qtum/qtumDGP.cpp`), in the default mode, where each is the answer of a
contract call (`dgpevm`). The call is a parameter: the output bytes of
`CallContract(contract, data, Address(), 0, gasLimit)`. The answer is read as
32-byte big-endian words, each converted by `dev::toUint64`; that helper
lives in a library outside this repository and is a parameter here, of which
the results assume only that a word below `2^64` is converted exactly.
`getBlockSize` keeps the low 32 bits of the converted value. The governance
winner reads the
record of a governor, four words, by index without looking at how many came
back; reading past the record is undefined behaviour, `none` here. -/

namespace Metrix

/-- `DGPContract`. -/
def dgpContract : Address := 0x88

/-- The output of `CallContract` for a contract, call data and gas limit. -/
abbrev CallContract := Address → List UInt8 → UInt64 → List UInt8

/-- `DEFAULT_GAS_LIMIT_DGP_OP_SEND`, the gas limit `initStorages` calls with
by default. -/
def defaultGasLimitDGPOpSend : UInt64 := 250000

/-- `DEFAULT_GAS_LIMIT_DGP_WINNER_OP_SEND`. -/
def defaultGasLimitDGPWinnerOpSend : UInt64 := 500000

/-- The `i`-th 32-byte word of an answer as `dev::u256(dev::h256(...))`:
big-endian. -/
def answerWord (output : List UInt8) (i : ℕ) : ℕ :=
  readLE ((output.drop (32 * i)).take 32).reverse

/-- `dev::toUint64` of a `dev::u256` word. -/
abbrev ToUint64 := ℕ → UInt64

/-- What the results assume of `dev::toUint64`: a word that fits in 64 bits
is converted exactly. What it does with a larger word is left open. -/
def ToUint64Exact (toUint64 : ToUint64) : Prop :=
  ∀ w, w < 2 ^ 64 → (toUint64 w).toNat = w

section Getters

variable (toUint64 : ToUint64)

/-- `parseDataUint64Vector`: each whole word, converted. -/
def parseDataUint64Vector (output : List UInt8) : List UInt64 :=
  (List.range (output.length / 32)).map fun i => toUint64 (answerWord output i)

/-- `parseDataOneUint64` into a value that starts at 0: an answer of one word,
converted. -/
def parseDataOneUint64 (output : List UInt8) : UInt64 :=
  if output.length = 32 then toUint64 (answerWord output 0) else 0

/-- `parseDataOneAddress` into `dev::Address(0)`: the last 20 bytes of an
answer of one word, converted as `keyIDAddress` converts a key ID. -/
def parseDataOneAddress (output : List UInt8) : Address :=
  if output.length = 32 then keyIDAddress ((output.drop 12).take 20) else 0

/-- `parseDataVectorAddress`: the last 20 bytes of each whole word. -/
def parseDataVectorAddress (output : List UInt8) : List Address :=
  (List.range (output.length / 32)).map fun i => keyIDAddress ((output.drop (32 * i + 12)).take 20)

/-- `getUint64FromDGP`: no call at height 0. -/
def getUint64FromDGP (callContract : CallContract) (blockHeight : ℕ) (contract : Address)
    (data : List UInt8) : UInt64 :=
  if 0 < blockHeight then parseDataOneUint64 toUint64 (callContract contract data defaultGasLimitDGPOpSend)
  else 0

/-- `getUint64VectorFromDGP`. -/
def getUint64VectorFromDGP (callContract : CallContract) (blockHeight : ℕ) (contract : Address)
    (data : List UInt8) : List UInt64 :=
  if 0 < blockHeight then
    parseDataUint64Vector toUint64 (callContract contract data defaultGasLimitDGPOpSend)
  else []

/-- `getAddressFromDGP`. -/
def getAddressFromDGP (callContract : CallContract) (blockHeight : ℕ) (contract : Address)
    (data : List UInt8) (defaultGasLimit : UInt64) : Address :=
  if 0 < blockHeight then parseDataOneAddress (callContract contract data defaultGasLimit) else 0

/-- `getAddressVectorFromDGP`. -/
def getAddressVectorFromDGP (callContract : CallContract) (blockHeight : ℕ) (contract : Address)
    (data : List UInt8) : List Address :=
  if 0 < blockHeight then parseDataVectorAddress (callContract contract data defaultGasLimitDGPOpSend)
  else []

/-! ## The range-checked parameters -/

/-- The range test of the getters: `value` when `min ≤ value ≤ max`, the
default otherwise. -/
def inRangeOr {α : Type} [LE α] [DecidableLE α] (value min max default : α) : α :=
  if value ≤ max ∧ min ≤ value then value else default

/-- A getter of one `uint64_t` parameter: the answer of `DGPContract` to
`selector`, range-checked. -/
def dgpUint64Param (callContract : CallContract) (blockHeight : ℕ) (selector : List UInt8)
    (min max default : UInt64) : UInt64 :=
  inRangeOr (getUint64FromDGP toUint64 callContract blockHeight dgpContract selector) min max default

/-- `getBlockSize`: the `uint64_t` answer is stored in an `uint32_t` before
the range test. -/
def getBlockSize (callContract : CallContract) (blockHeight : ℕ) : UInt32 :=
  let blockSize : UInt32 :=
    (getUint64FromDGP toUint64 callContract blockHeight dgpContract [0x92, 0xac, 0x3c, 0x62]).toUInt32
  inRangeOr blockSize 500000 32000000 2000000

/-- `getMinGasPrice`. -/
def getMinGasPrice (callContract : CallContract) (blockHeight : ℕ) : UInt64 :=
  dgpUint64Param toUint64 callContract blockHeight [0x3f, 0xb5, 0x88, 0x19] 1 10000000 5000

/-- `getBlockGasLimit`. -/
def getBlockGasLimit (callContract : CallContract) (blockHeight : ℕ) : UInt64 :=
  dgpUint64Param toUint64 callContract blockHeight [0x2c, 0xc8, 0x37, 0x7d] 1000000 1000000000 40000000

/-- `DGPFeeRates`. -/
structure DGPFeeRates where
  minRelayTxFee : UInt64
  incrementalRelayFee : UInt64
  dustRelayFee : UInt64
deriving DecidableEq, Repr

/-- `getFeeRates`: three words, each range-checked on its own; the defaults
unless exactly three came back. -/
def getFeeRates (callContract : CallContract) (blockHeight : ℕ) : DGPFeeRates :=
  match getUint64VectorFromDGP toUint64 callContract blockHeight dgpContract [0xd6, 0xf6, 0xac, 0x1d] with
  | [minRelay, incremental, dust] =>
      ⟨inRangeOr minRelay 100000 100000000000 1000000000,
        inRangeOr incremental 100000 100000000000 1000000000,
        inRangeOr dust 100000 300000000000 3000000000⟩
  | _ => ⟨1000000000, 1000000000, 3000000000⟩

/-- `getGovernanceCollateral`: the answer when positive. -/
def getGovernanceCollateral (callContract : CallContract) (blockHeight : ℕ) : UInt64 :=
  let collateral := getUint64FromDGP toUint64 callContract blockHeight dgpContract [0x3e, 0xfa, 0xfc, 0xd9]
  if 0 < collateral then collateral else 750000000000000

/-! ## The governance winner -/

/-- The call data `e3eece26`, twelve zero bytes and the governor's address:
the query of its record. -/
def governorRecordData (governor : Address) : List UInt8 :=
  [0xe3, 0xee, 0xce, 0x26] ++ List.replicate 12 0 ++ governor.asBytes

/-- The record of a governor: registration block, last ping, collateral and
last reward. -/
def governorRecord (callContract : CallContract) (blockHeight : ℕ) (governor : Address) :
    List UInt64 :=
  getUint64VectorFromDGP toUint64 callContract blockHeight governanceDGP (governorRecordData governor)

/-- The eligibility test of `getGovernanceWinner` on a record, in `uint64_t`
(the height, an `int64_t`, is converted to it): `none` when it reads past
the record. -/
def governorEligible (height : ℤ) (dgpCollateral : UInt64) (v : List UInt64) : Option Bool := do
  let govBlockHeight ← v[0]?
  let govlastPing ← v[1]?
  let govCollateral ← v[2]?
  let govLastReward ← v[3]?
  let h := UInt64.ofInt height
  pure (decide (govBlockHeight + 1920 ≤ h) && decide (govLastReward + 1920 ≤ h) &&
    dgpCollateral == govCollateral && decide (govBlockHeight + 15 ≤ h) &&
    decide (h ≤ govlastPing + 28800))

/-- The loop over the active governors: the first eligible one. -/
def firstEligibleGovernor (callContract : CallContract) (blockHeight : ℕ) (height : ℤ)
    (dgpCollateral : UInt64) : List Address → Option (Option Address)
  | [] => some none
  | g :: rest => do
      let ok ← governorEligible height dgpCollateral (governorRecord toUint64 callContract blockHeight g)
      if ok then pure (some g)
      else firstEligibleGovernor callContract blockHeight height dgpCollateral rest

/-- `QtumDGP::getGovernanceWinner` on the chain `chain` with tip height
`tipHeight`: `none` when it reads past a governor's record. -/
def getGovernanceWinner (callContract : CallContract) (chain : ChainName) (tipHeight : ℤ)
    (blockHeight : ℕ) : Option Address := do
  let defaultGasLimit : UInt64 :=
    match chain with
    | .main =>
        if tipHeight < 110001 then defaultGasLimitDGPOpSend
        else if 110000 < tipHeight ∧ tipHeight < 137001 then defaultGasLimitDGPWinnerOpSend
        else defaultBlockGasLimitDGP.toUInt64
    | .testnet =>
        if tipHeight < 187001 then defaultGasLimitDGPOpSend
        else if 187000 < tipHeight ∧ tipHeight < 200001 then defaultGasLimitDGPWinnerOpSend
        else defaultBlockGasLimitDGP.toUInt64
    | .regtest => defaultBlockGasLimitDGP.toUInt64
  let startGovMaturity : Bool :=
    match chain with
    | .main => 170000 < tipHeight ∧ tipHeight < 199999
    | .testnet => 245000 < tipHeight ∧ tipHeight < 254999
    | .regtest => false
  let winnerEligibileFix : Bool :=
    match chain with
    | .main => 200000 < tipHeight
    | .testnet => 255000 < tipHeight
    | .regtest => true
  let value := getAddressFromDGP callContract blockHeight governanceDGP [0xaa, 0xbe, 0x2f, 0xe3]
    defaultGasLimit
  let value ← if startGovMaturity ∧ value ≠ 0 then do
      let registration ← (governorRecord toUint64 callContract blockHeight value)[0]?
      pure (if UInt64.ofInt tipHeight < registration + 1920 then 0 else value)
    else pure value
  if winnerEligibileFix then
    if value ≠ 0 then do
      let dgpCollateral := getGovernanceCollateral toUint64 callContract blockHeight
      let ok ← governorEligible tipHeight dgpCollateral (governorRecord toUint64 callContract blockHeight value)
      if ok then pure value
      else
        let found ← firstEligibleGovernor toUint64 callContract blockHeight tipHeight dgpCollateral
          (getAddressVectorFromDGP callContract blockHeight governanceDGP [0x88, 0x37, 0x03, 0xc2])
        pure (found.getD 0)
    else pure 0
  else pure value

end Getters

/-! ## Reading past a record -/

/-- A record of fewer than four words is read past. -/
theorem governorEligible_eq_none_of_length_lt {v : List UInt64} (hv : v.length < 4)
    (height : ℤ) (dgpCollateral : UInt64) : governorEligible height dgpCollateral v = none := by
  have h3 : v[3]? = none := List.getElem?_eq_none (by omega)
  simp [governorEligible, h3]

/-- The record has one word for each whole 32 bytes of the answer. -/
theorem length_governorRecord (toUint64 : ToUint64) (callContract : CallContract) {blockHeight : ℕ}
    (hh : 0 < blockHeight) (governor : Address) :
    (governorRecord toUint64 callContract blockHeight governor).length =
      (callContract governanceDGP (governorRecordData governor) defaultGasLimitDGPOpSend).length
        / 32 := by
  simp [governorRecord, getUint64VectorFromDGP, hh, parseDataUint64Vector]

/-- On the main chain from block 200001 on, the eligibility fix reads the
record of the contract's winner. When that call fails or runs out of gas,
its answer is short, and `getGovernanceWinner` reads past the record. -/
theorem getGovernanceWinner_reads_past_short_record {toUint64 : ToUint64} {callContract : CallContract}
    {tipHeight : ℤ} (htip : 200000 < tipHeight) {blockHeight : ℕ} (hh : 0 < blockHeight)
    {winner : Address}
    (hwinner : getAddressFromDGP callContract blockHeight governanceDGP [0xaa, 0xbe, 0x2f, 0xe3]
      defaultBlockGasLimitDGP.toUInt64 = winner) (hne : winner ≠ 0)
    (hshort : (callContract governanceDGP (governorRecordData winner)
      defaultGasLimitDGPOpSend).length < 128) :
    getGovernanceWinner toUint64 callContract .main tipHeight blockHeight = none := by
  -- From block 137001 on the winner is queried with the block gas limit,
  -- and the maturity check of blocks 170001 to 199998 is over.
  have hgas : ¬tipHeight < 110001 ∧ ¬(110000 < tipHeight ∧ tipHeight < 137001) := by omega
  have hmature : ¬(170000 < tipHeight ∧ tipHeight < 199999) := by omega
  have hrecord : governorEligible tipHeight (getGovernanceCollateral toUint64 callContract blockHeight)
      (governorRecord toUint64 callContract blockHeight winner) = none :=
    governorEligible_eq_none_of_length_lt (by rw [length_governorRecord _ _ hh]; omega) _ _
  simp [getGovernanceWinner, hgas.1, hgas.2, hmature, htip, hwinner, hne, hrecord]

/-- The answer of a contract that returns the words `ws`: each its 32
big-endian bytes. -/
def encodeWords (ws : List ℕ) : List UInt8 :=
  ws.flatMap fun w => (leBytes 32 w).reverse

@[simp] theorem length_encodeWords (ws : List ℕ) : (encodeWords ws).length = 32 * ws.length := by
  induction ws with
  | nil => rfl
  | cons w ws ih => simp [encodeWords] at ih ⊢; omega

/-- The first word of an answer reads back. -/
theorem answerWord_encodeWords_zero {w : ℕ} (hw : w < 2 ^ 256) (ws : List ℕ) :
    answerWord (encodeWords (w :: ws)) 0 = w := by
  have htake : (encodeWords (w :: ws)).take 32 = (leBytes 32 w).reverse := by
    rw [encodeWords, List.flatMap_cons, List.take_left' (by simp)]
  rw [answerWord, Nat.mul_zero, List.drop_zero, htake, List.reverse_reverse]
  exact readLE_leBytes (by norm_num; exact hw)

/-- `parseDataOneUint64` converts an answer of one word. -/
theorem parseDataOneUint64_encodeWords (toUint64 : ToUint64) {w : ℕ} (hw : w < 2 ^ 256) :
    parseDataOneUint64 toUint64 (encodeWords [w]) = toUint64 w := by
  rw [parseDataOneUint64, if_pos (by simp), answerWord_encodeWords_zero hw]

/-! ## The range tests -/

section Answer

variable {toUint64 : ToUint64} {callContract : CallContract} {blockHeight : ℕ} {w : ℕ}

/-- `getUint64FromDGP` on an answer of one word that fits in 64 bits. -/
theorem toNat_getUint64FromDGP (htoUint64 : ToUint64Exact toUint64) (hh : 0 < blockHeight)
    {contract : Address} {data : List UInt8} (hw : w < 2 ^ 64)
    (hcall : callContract contract data defaultGasLimitDGPOpSend = encodeWords [w]) :
    (getUint64FromDGP toUint64 callContract blockHeight contract data).toNat = w := by
  rw [getUint64FromDGP, if_pos hh, hcall, parseDataOneUint64_encodeWords toUint64 (by omega)]
  exact htoUint64 w hw

/-- The block size of a word that fits in 64 bits is its low 32 bits when
those are in the range, and the default otherwise: `getBlockSize` stores
the value in an `uint32_t` before it tests the range. -/
theorem toNat_getBlockSize (htoUint64 : ToUint64Exact toUint64) (hh : 0 < blockHeight)
    (hw : w < 2 ^ 64)
    (hcall : callContract dgpContract [0x92, 0xac, 0x3c, 0x62] defaultGasLimitDGPOpSend =
      encodeWords [w]) :
    (getBlockSize toUint64 callContract blockHeight).toNat =
      if 500000 ≤ w % 2 ^ 32 ∧ w % 2 ^ 32 ≤ 32000000 then w % 2 ^ 32 else 2000000 := by
  have hv := toNat_getUint64FromDGP htoUint64 hh hw hcall
  have hlow : (getUint64FromDGP toUint64 callContract blockHeight dgpContract
      [0x92, 0xac, 0x3c, 0x62]).toUInt32.toNat = w % 2 ^ 32 := by
    rw [UInt64.toNat_toUInt32, hv]
  unfold getBlockSize inRangeOr
  simp only [UInt32.le_iff_toNat_le, hlow]
  by_cases hin : 500000 ≤ w % 2 ^ 32 ∧ w % 2 ^ 32 ≤ 32000000
  · rw [if_pos ⟨hin.2, hin.1⟩, if_pos hin, hlow]
  · rw [if_neg (fun h => hin ⟨h.2, h.1⟩), if_neg hin]
    rfl

end Answer

/-- A block size past 32 bits aliases a block size in range, whatever
`dev::toUint64` does past 64 bits. The word `2^32 + 1000000`, above the
maximum, is taken as the block size 1000000 and not refused for the
default. -/
theorem dgp_params_alias_out_of_range_words {toUint64 : ToUint64}
    (htoUint64 : ToUint64Exact toUint64) {callContract : CallContract} {blockHeight : ℕ}
    (hh : 0 < blockHeight)
    (hsize : callContract dgpContract [0x92, 0xac, 0x3c, 0x62] defaultGasLimitDGPOpSend =
      encodeWords [2 ^ 32 + 1000000]) :
    32000000 < 2 ^ 32 + 1000000 ∧ getBlockSize toUint64 callContract blockHeight = 1000000 := by
  refine ⟨by norm_num, UInt32.toNat_inj.mp ?_⟩
  rw [toNat_getBlockSize htoUint64 hh (by norm_num) hsize]
  rfl

/-- One conversion that is exact below `2^64`: it saturates above. -/
def saturatingToUint64 : ToUint64 := fun w => UInt64.ofNat (min w (2 ^ 64 - 1))

theorem toUint64Exact_saturating : ToUint64Exact saturatingToUint64 := by
  intro w hw
  rw [saturatingToUint64, UInt64.toNat_ofNat', Nat.min_eq_left (by omega), Nat.mod_eq_of_lt hw]

/-- A contract that answers the block size `2^32 + 1000000`, and nothing to
other queries. -/
def aliasingDGP : CallContract := fun _ data _ =>
  if data = [0x92, 0xac, 0x3c, 0x62] then encodeWords [2 ^ 32 + 1000000] else []

theorem dgp_params_alias_at_height_one :
    ToUint64Exact saturatingToUint64 ∧ 32000000 < 2 ^ 32 + 1000000 ∧
      getBlockSize saturatingToUint64 aliasingDGP 1 = 1000000 :=
  ⟨toUint64Exact_saturating, dgp_params_alias_out_of_range_words toUint64Exact_saturating
    Nat.one_pos rfl⟩

/-- A governance contract whose winner query answers the address 0x42 and
whose other queries fail with an empty answer. -/
def failingRecordDGP : CallContract := fun _ data _ =>
  if data = [0xaa, 0xbe, 0x2f, 0xe3] then encodeWords [0x42] else []

theorem getGovernanceWinner_reads_past_empty_record :
    getAddressFromDGP failingRecordDGP 1 governanceDGP [0xaa, 0xbe, 0x2f, 0xe3]
        defaultBlockGasLimitDGP.toUInt64 = 0x42 ∧ (0x42 : Address) ≠ 0 ∧
      (failingRecordDGP governanceDGP (governorRecordData 0x42)
        defaultGasLimitDGPOpSend).length < 128 ∧
      getGovernanceWinner saturatingToUint64 failingRecordDGP .main 200001 1 = none :=
  ⟨by decide, by decide, by decide,
    @getGovernanceWinner_reads_past_short_record saturatingToUint64 failingRecordDGP 200001
      (by norm_num) 1 Nat.one_pos 0x42 (by decide) (by decide) (by decide)⟩

end Metrix
