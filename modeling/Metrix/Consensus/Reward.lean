import Metrix.Qtum.DGP

/-! The block reward rules (`validation.cpp`): the yearly subsidy rate, the
governor and budget subsidies, and `CheckReward`, which bounds what the
coinbase or coinstake of a block may pay. `GetBlockSubsidy` reads the coin
age of the stake and the money supply of the chain, and
`GetMPoSOutputScripts` the past blocks; both are given to the model as the
values `CheckReward` obtains from them. -/

namespace Metrix

/-- Blocks per year of `GetSubsidyRate`: 365.25 days of 90-second blocks. -/
def nBlocksPerYear : ℕ := 350640

/-- `GetSubsidyRate`, in percent per year. The thresholds count months of
blocks as the source writes them, and the third step divides by 1. -/
def getSubsidyRate (nHeight : ℕ) : UInt64 :=
  let r : UInt64 := 10
  let r := if nHeight > 2 * 12 * nBlocksPerYear then r / 2 else r
  let r := if nHeight > 6 * 12 * nBlocksPerYear then r / 2 else r
  if nHeight > 12 * 12 * nBlocksPerYear then r / 1 else r

/-- `GetGovernorSubsidy`: two days of the yearly rate on the collateral, less
the tenth that goes to the budget. The first product is `uint64_t`; the rest
is `CAmount` arithmetic, whose division truncates. -/
def getGovernorSubsidy (nHeight : ℕ) (nCollateral : UInt64) : CAmount :=
  let nPerYear : CAmount := (nCollateral * getSubsidyRate nHeight / 100).toInt64.toInt
  let nPerDay := (nPerYear * 33).tdiv (365 * 33 + 8)
  let nSubsidy := nPerDay * 2
  (nSubsidy * 90).tdiv 100

/-- The chain `gArgs.GetChainName()` names. -/
inductive ChainName where
  | main
  | testnet
  | regtest
deriving DecidableEq, Repr

/-- The height after which `GetBudgetSubsidy` no longer adds the extra 90%
of the first release. -/
def ChainName.budgetForkHeight : ChainName → ℕ
  | .main => 38000
  | .testnet => 90000
  | .regtest => 0

/-- `GetBudgetSubsidy`: a tenth of the block and governor subsidies. -/
def getBudgetSubsidy (chain : ChainName) (blockSubsidy governorSubsidy : CAmount)
    (nHeight : ℕ) : CAmount :=
  let nSubsidyFromBlock := (blockSubsidy * 100).tdiv 90
  let nSubsidyFromGov := (governorSubsidy * 100).tdiv 90
  if nHeight > chain.budgetForkHeight then
    (nSubsidyFromBlock - blockSubsidy) + (nSubsidyFromGov - governorSubsidy)
  else nSubsidyFromBlock + nSubsidyFromGov

/-- The fields of `Consensus::Params` that `CheckReward` reads. -/
structure RewardParams where
  nFirstMPoSBlock : ℤ
  nMPoSRewardRecipients : ℤ

/-- What `CheckReward` obtains from outside its arguments: `GetBlockSubsidy`
for the block, the governance collateral of the DGP, the scripts of
`GetMPoSOutputScripts` (`none` when it fails) and the chain. -/
structure RewardEnv where
  blockSubsidy : CAmount
  nCollateral : UInt64
  mposScripts : Option (List CScript)
  chain : ChainName

/-- Take each output of the first list out of the second, the first equal
one each time (`std::find` and `erase`); `none` when one is missing. -/
def takeOutputs : List CTxOut → List CTxOut → Option (List CTxOut)
  | [], vs => some vs
  | o :: rest, vs => if o ∈ vs then takeOutputs rest (vs.erase o) else none

/-- A DGP payment check of `CheckReward`: when the coinstake calls `addr`
with `data`, the first such output may pay at most `cap`, and `cap` is added
to the allowance whatever that output pays. -/
def dgpAllowance (vout : List CTxOut) (addr data : List UInt8) (cap : CAmount)
    (reason : String) : Except String CAmount :=
  match getDGPVout vout addr data with
  | some (out, _) => if out.nValue > cap then .error reason else .ok cap
  | none => .ok 0

/-- The MPoS part of `CheckReward`: with more than one reward recipient,
each MPoS script must be paid its share of the reward less gas refunds. -/
def checkMPoS (params : RewardParams) (env : RewardEnv) (nHeight : ℕ)
    (blockReward gasRefunds : CAmount) (vTempVouts : List CTxOut) : Except String Unit :=
  let nPrevHeight : ℤ := nHeight - 1
  let rewardRecipients :=
    if nPrevHeight ≥ params.nFirstMPoSBlock then params.nMPoSRewardRecipients else 1
  if rewardRecipients < 1 then .error "CheckReward(): invalid reward recipients"
  else if rewardRecipients = 1 then .ok ()
  else if blockReward < gasRefunds then .error "bad-cs-gas-greater-than-reward"
  else
    let splitReward := (blockReward - gasRefunds).tdiv rewardRecipients
    match env.mposScripts with
    | none => .error "CheckReward(): cannot create the list of MPoS output scripts"
    | some scripts =>
        match takeOutputs (scripts.map fun s => ⟨splitReward, s⟩) vTempVouts with
        | none => .error "bad-cs-mpos-missing"
        | some _ => .ok ()

/-- `CheckReward`, with the reject reason of each failure (the message for
the two that only log an error). -/
def checkReward (params : RewardParams) (env : RewardEnv) (block : CBlock) (nHeight : ℕ)
    (nFees gasRefunds nActualStakeReward : CAmount) (vouts : List CTxOut) :
    Except String Unit := do
  let offset := if block.isProofOfStake then 1 else 0
  let rewardTx := block.vtx[offset]?.getD CTransaction.empty
  let some vTempVouts := takeOutputs vouts rewardTx.vout
    | throw "bad-gas-refund-missing"
  if block.isProofOfWork then
    if (← rewardTx.getValueOut) > nFees + env.blockSubsidy then throw "bad-cb-amount"
  else
    let governorReward := getGovernorSubsidy nHeight env.nCollateral
    let budgetPayment := getBudgetSubsidy env.chain env.blockSubsidy governorReward nHeight
    let blockReward := env.blockSubsidy + nFees
    let gov ← dgpAllowance rewardTx.vout governanceDGP.asBytes govRewardSelector
      governorReward "bad-gv-amount"
    let bgt ← dgpAllowance rewardTx.vout budgetDGP.asBytes budgetSelector
      budgetPayment "bad-bgt-amount"
    if nActualStakeReward > blockReward + gov + bgt then throw "bad-cs-amount"
    checkMPoS params env nHeight blockReward gasRefunds vTempVouts

/-! ## What `CheckReward` enforces on a coinstake -/

section Stake

variable {params : RewardParams} {env : RewardEnv} {block : CBlock} {nHeight : ℕ}
  {nFees gasRefunds nActualStakeReward : CAmount} {vouts : List CTxOut}

end Stake

/-- A coinstake at height 100000 of the main chain that leaves its governor
output unpaid: from a stake of 10000 coins, the staker output takes back the
stake with a block subsidy of 1000 coins and the governor's subsidy, the
governor call pays 0 and the budget call its share. -/
def unpaidGovernorCoinstake : CTransaction :=
  ⟨[⟨⟨1, 0⟩, [], 0xffffffff⟩],
    [⟨0, []⟩,
      ⟨10000 * coin + 1000 * coin + getGovernorSubsidy 100000 750000000000000,
        payToPubKeyHash (List.replicate 20 7)⟩,
      ⟨0, dgpCallScript 4 250000 40
        (govRewardSelector ++ List.replicate 12 0 ++ (0x42 : Address).asBytes) governanceDGP⟩,
      ⟨getBudgetSubsidy .main (1000 * coin) (getGovernorSubsidy 100000 750000000000000) 100000,
        dgpCallScript 4 250000 40 budgetSelector budgetDGP⟩]⟩

/-- The stake reward of `unpaidGovernorCoinstake`, its value out less the
stake: the block subsidy, the governor's subsidy and the budget's share. -/
def unpaidGovernorStakeReward : CAmount :=
  1000 * coin + getGovernorSubsidy 100000 750000000000000 +
    getBudgetSubsidy .main (1000 * coin) (getGovernorSubsidy 100000 750000000000000) 100000

/-- `CheckReward` accepts the block of `unpaidGovernorCoinstake` with the
stake reward `ConnectBlock` computes, `GetValueOut() - GetValueIn()`, and the
net payout to the outputs that are not DGP calls exceeds the block subsidy
and the fees by the governor's subsidy. -/
theorem checkReward_accepts_unpaid_governor :
    checkReward ⟨0x7FFFFFFF, 10⟩ ⟨1000 * coin, 750000000000000, none, .main⟩
        ⟨⟨1, 0⟩, [⟨[⟨⟨0, 0xffffffff⟩, [], 0xffffffff⟩], [⟨0, []⟩]⟩, unpaidGovernorCoinstake]⟩
        100000 0 0 unpaidGovernorStakeReward [] = .ok () ∧
      unpaidGovernorCoinstake.getValueOut = .ok (10000 * coin + unpaidGovernorStakeReward) ∧
      ((unpaidGovernorCoinstake.vout.filter fun o =>
          !(isDGPContractCall o.scriptPubKey governanceDGP.asBytes govRewardSelector ||
            isDGPContractCall o.scriptPubKey budgetDGP.asBytes budgetSelector)).map
          (·.nValue)).sum - 10000 * coin =
        1000 * coin + 0 + getGovernorSubsidy 100000 750000000000000 ∧
      0 < getGovernorSubsidy 100000 750000000000000 := by
  decide +kernel

end Metrix
