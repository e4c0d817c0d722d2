import Metrix.Coins.Coin
import Metrix.Consensus.Reward

/-! The reward of a proof-of-stake block (`GetCoinAge` and `GetBlockSubsidy`
in `validation.cpp`). Each input of the coinstake adds its
value times its age in seconds, counted in cents, in `arith_uint256`; the age
is capped by a maturity that falls with the input's value. The total, in coin
days and cut to its low 64 bits, is multiplied by the yearly rate of
`getSubsidyRate` in `uint64_t` and narrowed to a `CAmount`. The coins tip is the function
`AccessCoin` computes on it. -/

namespace Metrix

/-- `COINBASE_MATURITY`. -/
def coinbaseMaturity : ℤ := 960

/-- `CENT`. -/
def cent : CAmount := 1000000

/-- `arith_uint256(uint64_t(n))` of a 64-bit integer. -/
def arith256OfInt64 (n : ℤ) : BitVec 256 := (BitVec.ofInt 64 n).setWidth 256

/-- `a * b` of an `arith_uint256` and an `int64_t`, which C++ resolves to
`operator*(const base_uint&, uint32_t)`: `b` is cut to 32 bits. -/
def mulUInt32 (a : BitVec 256) (b : ℤ) : BitVec 256 := a * (BitVec.ofInt 32 b).setWidth 256

/-- `nMaxCoinMaturity` of `GetCoinAge`: thirty times the coinbase maturity,
less one for each million coins above the first million, and twice the
coinbase maturity above thirty million coins. The division truncates, and
the values are positive there. -/
def maxCoinMaturity (nValueIn : CAmount) : ℤ :=
  if 30000000 * coin < nValueIn then 2 * coinbaseMaturity
  else if 1000000 * coin < nValueIn then (30 - nValueIn / coin / 1000000) * coinbaseMaturity
  else 30 * coinbaseMaturity

/-- What one input adds to `bnCentSecond`: nothing below the coinbase
maturity, else `arith_uint256(nValueIn) * nCoinTime / CENT`. -/
def inputCentSeconds (nPowTargetSpacing nHeight : ℤ) (c : Coin) : BitVec 256 :=
  let nCoinMaturity := min (nHeight - c.nHeight.toNat) (maxCoinMaturity c.out.nValue)
  if nCoinMaturity < coinbaseMaturity then 0
  else mulUInt32 (arith256OfInt64 c.out.nValue) (nCoinMaturity * nPowTargetSpacing) /
    arith256OfInt64 cent

/-- `GetCoinAge`: `none` for a coinbase, else the coin days of the inputs,
`GetLow64` of `bnCentSecond * CENT / COIN / (24 * 60 * 60)`. -/
def getCoinAge (nPowTargetSpacing nHeight : ℤ) (coins : COutPoint → Coin) (tx : CTransaction) :
    Option UInt64 :=
  if tx.isCoinBase then none
  else
    let bnCentSecond := tx.vin.foldl
      (fun acc txin => acc + inputCentSeconds nPowTargetSpacing nHeight (coins txin.prevout)) 0
    let bnCoinDay := mulUInt32 bnCentSecond cent / arith256OfInt64 coin / arith256OfInt64 (24 * 60 * 60)
    some (UInt64.ofNat bnCoinDay.toNat)

/-- The subsidy of a coinstake before the money-supply check: `nCoinAge *
nSubsidyRate * 33 / (365 * 33 + 8)` in `uint64_t`, narrowed to `int64_t`, and
ninety percent of it, the division truncating. The quotient is below `2^51`,
so `nSubsidy * 90` is the `int64_t` product (`toInt_toInt64_div_lt`). A
block's height is never negative, so the `uint64_t` comparisons of
`GetSubsidyRate` read it as a natural number. -/
def stakeSubsidy (nPowTargetSpacing nHeight : ℤ) (coins : COutPoint → Coin) (tx : CTransaction) :
    CAmount :=
  match getCoinAge nPowTargetSpacing nHeight coins tx with
  | some nCoinAge =>
      let nSubsidyRate := getSubsidyRate nHeight.toNat * UInt64.ofInt cent
      let nSubsidy : CAmount := (nCoinAge * nSubsidyRate * 33 / (365 * 33 + 8)).toInt64.toInt
      Int.tdiv (nSubsidy * 90) 100
  | none => 0

/-- The narrowed quotient of `stakeSubsidy` is not negative and below
`2^51`, so ninety times it stays below `2^63`. -/
theorem toInt_toInt64_div_lt (x : UInt64) :
    0 ≤ (x / (365 * 33 + 8)).toInt64.toInt ∧ (x / (365 * 33 + 8)).toInt64.toInt < 2 ^ 51 := by
  have hq : (x / (365 * 33 + 8)).toNat < 2 ^ 51 := by
    rw [UInt64.toNat_div]
    have := x.toNat_lt
    simp only [show (365 * 33 + 8 : UInt64).toNat = 12053 from rfl]
    omega
  -- below `2^63` the word reads as itself
  have hint : (x / (365 * 33 + 8)).toInt64.toInt = ((x / (365 * 33 + 8)).toNat : ℤ) := by
    show (x / (365 * 33 + 8)).toBitVec.toInt = _
    rw [BitVec.toInt_eq_toNat_cond, if_pos (by simp only [UInt64.toNat_toBitVec] at *; omega)]
    rfl
  rw [hint]
  omega

/-- `GetBlockSubsidy` for the transaction `tx` (a null pointer is `none`)
over a chain tip of money supply `nMoneySupply`. -/
def getBlockSubsidy (nPowTargetSpacing nLastPOWBlock : ℤ) (coins : COutPoint → Coin)
    (nMoneySupply : CAmount) (nHeight : ℤ) (tx : Option CTransaction) : CAmount :=
  let nSubsidy : Option CAmount :=
    if (tx.map CTransaction.isCoinStake).getD false then
      some (stakeSubsidy nPowTargetSpacing nHeight coins (tx.getD CTransaction.empty))
    else if nHeight ≤ nLastPOWBlock then none
    else some 0
  match nSubsidy with
  | none => 3600000 * coin
  | some nSubsidy => if maxMoney < nMoneySupply + nSubsidy then 0 else nSubsidy

/-! ## The maturity cap -/

/-- The cap falls below the coinbase maturity for exactly one amount in the
money range: thirty million coins, the last amount of the middle branch,
where it is `(30 - 30) * COINBASE_MATURITY`. -/
theorem maxCoinMaturity_lt_coinbaseMaturity_iff {v : CAmount} (h0 : 0 < v) (hv : v ≤ maxMoney) :
    maxCoinMaturity v < coinbaseMaturity ↔ v = 30000000 * coin := by
  have h0 : @LT.lt ℤ _ 0 v := h0
  have hv : @LE.le ℤ _ v 3000000000000000000 := hv
  unfold maxCoinMaturity coinbaseMaturity coin
  show _ ↔ @Eq ℤ v (30000000 * 100000000)
  split_ifs with hhigh hmid
  · have hhigh : @LT.lt ℤ _ 3000000000000000 v := hhigh
    constructor <;> intro h <;> omega
  · have hle : ¬@LT.lt ℤ _ 3000000000000000 v := hhigh
    have hmid : @LT.lt ℤ _ 100000000000000 v := hmid
    constructor <;> intro h <;> omega
  · have hlow : ¬@LT.lt ℤ _ 100000000000000 v := hmid
    constructor <;> intro h <;> omega

theorem maxCoinMaturity_thirty_million_coins :
    0 < 30000000 * coin ∧ 30000000 * coin ≤ maxMoney ∧
      maxCoinMaturity (30000000 * coin) < coinbaseMaturity :=
  ⟨by decide, by decide, (maxCoinMaturity_lt_coinbaseMaturity_iff (by decide) (by decide)).mpr rfl⟩

/-! ## The subsidy in `uint64_t` -/

/-- A coin of 29 billion coins, within the money range, at height 10000. -/
def largeStakeCoin : Coin := ⟨⟨2900000000000000000, []⟩, false, false, 10000⟩

/-- A coinstake spending it. -/
def largeCoinStake : CTransaction :=
  ⟨[⟨⟨1, 0⟩, [], 0xffffffff⟩], [⟨0, []⟩, ⟨0, [1]⟩]⟩

/-- Staked at full maturity, 1920 blocks deep on the main chain's 90-second
spacing, the coin is 58 billion coin days old, and `nCoinAge * nSubsidyRate *
33` exceeds `2^64`: the block subsidy is the wrapped product's share,
51765563234165, where the formula gives 1429187754086118. -/
theorem getBlockSubsidy_wraps :
    getCoinAge 90 11920 (fun _ => largeStakeCoin) largeCoinStake = some 58000000000 ∧
      2 ^ 64 ≤ 58000000000 * 10000000 * 33 ∧
      Int.tdiv (58000000000 * 10000000 * 33 / 12053 * 90) 100 = 1429187754086118 ∧
      getBlockSubsidy 90 5000 (fun _ => largeStakeCoin) 2900000000000000000 11920
        (some largeCoinStake) = 51765563234165 := by
  refine ⟨?_, by norm_num, ?_, ?_⟩ <;> decide

/-- Whatever the coin age, the stake subsidy, wrapped or not, is an amount in
`MoneyRange`: below ninety percent of `2^51`. -/
theorem stakeSubsidy_moneyRange (nPowTargetSpacing nHeight : ℤ) (coins : COutPoint → Coin)
    (tx : CTransaction) : moneyRange (stakeSubsidy nPowTargetSpacing nHeight coins tx) := by
  unfold stakeSubsidy
  split
  · rename_i nCoinAge _
    dsimp only
    obtain ⟨h0, hlt⟩ := toInt_toInt64_div_lt
      (nCoinAge * (getSubsidyRate nHeight.toNat * UInt64.ofInt cent) * 33)
    generalize (nCoinAge * (getSubsidyRate nHeight.toNat * UInt64.ofInt cent) * 33 /
      (365 * 33 + 8)).toInt64.toInt = q at h0 hlt ⊢
    rw [Int.tdiv_eq_ediv_of_nonneg (show (0 : ℤ) ≤ q * 90 by omega)]
    show (0 : ℤ) ≤ q * 90 / 100 ∧ @LE.le ℤ _ (q * 90 / 100) (30000000000 * 100000000)
    omega
  · decide

/-- `GetBlockSubsidy` returns an amount in `MoneyRange` for every height,
coin view, money supply and transaction: the proof-of-work reward, the stake
subsidy, or zero. -/
theorem getBlockSubsidy_moneyRange (nPowTargetSpacing nLastPOWBlock : ℤ) (coins : COutPoint → Coin)
    (nMoneySupply : CAmount) (nHeight : ℤ) (tx : Option CTransaction) :
    moneyRange (getBlockSubsidy nPowTargetSpacing nLastPOWBlock coins nMoneySupply nHeight tx) := by
  unfold getBlockSubsidy
  split_ifs
  all_goals dsimp only
  · -- the stake subsidy, or zero where it would pass the cap
    split_ifs
    · decide
    · exact stakeSubsidy_moneyRange nPowTargetSpacing nHeight coins _
  · decide
  · split_ifs <;> decide

end Metrix
