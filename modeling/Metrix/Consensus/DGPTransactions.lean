import Metrix.Script.Standard
import Metrix.Consensus.Reward

/-! The contract calls that a proof-of-stake block makes from its coinstake
(`GetDGPTransactions`, `validation.cpp`) and how the miner puts them into a
block (`AddCoinstakeContracts`, `MineDGPContracts`). The source reads
`vout[1]` without a bound check and dereferences the `PKHash` that
`boost::get` returns without a null check; both are undefined behaviour, a
`Fault` of the model. -/

namespace Metrix

open Opcode

/-- The undefined behaviour `GetDGPTransactions` can run into. -/
inductive Fault where
  | txOutOfRange
  | voutOutOfRange
  | nullPKHash
deriving DecidableEq, Repr

/-- `CScript::Find`: how many times `op` occurs among the opcodes that
parse. -/
def findOp (op : UInt8) (s : CScript) : ℕ :=
  match hop : getOp s with
  | none => 0
  | some (op', _, rest) =>
      have : rest.length < s.length := getOp_length hop
      (if op' = op then 1 else 0) + findOp op rest
termination_by s.length

theorem findOp_of_getOp {op op' : UInt8} {s rest : CScript} {vch : List UInt8}
    (h : getOp s = some (op', vch, rest)) :
    findOp op s = (if op' = op then 1 else 0) + findOp op rest := by
  rw [findOp]
  split
  · rename_i heq
    rw [h] at heq
    cases heq
  · rename_i op'' vch' rest' heq
    rw [h] at heq
    obtain ⟨rfl, rfl, rfl⟩ : op' = op'' ∧ vch = vch' ∧ rest = rest' := by simpa using heq
    rfl

@[simp] theorem findOp_nil (op : UInt8) : findOp op [] = 0 := by
  rw [findOp]
  rfl

/-- Pushed bytes are data: `Find` does not see an opcode in them. -/
theorem findOp_pushData {op : UInt8} (hop : opPushData4 < op) {b : List UInt8}
    (hb : b.length < 2 ^ 32) (rest : CScript) : findOp op (pushData b ++ rest) = findOp op rest := by
  obtain ⟨op', hop', hget⟩ := getOp_pushData hb rest
  have hne : op' ≠ op := fun e => absurd hop' (by rw [e]; exact UInt8.not_le.mpr hop)
  rw [findOp_of_getOp hget, if_neg hne, Nat.zero_add]

theorem findOp_cons_of_not_push {op op' : UInt8} (hop' : opPushData4 < op') (rest : CScript) :
    findOp op (op' :: rest) = (if op' = op then 1 else 0) + findOp op rest :=
  findOp_of_getOp (getOp_of_not_push hop' rest)

/-- `CTransaction::HasCreateOrCall`. -/
def CTransaction.hasCreateOrCall (tx : CTransaction) : Bool :=
  tx.vout.any fun v => findOp opCreate v.scriptPubKey = 1 || findOp opCall v.scriptPubKey = 1

/-- `CTransaction::HasOpSpend`. -/
def CTransaction.hasOpSpend (tx : CTransaction) : Bool :=
  tx.vin.any fun i => i.scriptSig = [opSpend]

/-- The fields that `CreateQtumTransaction` sets on the call. -/
structure DGPCall where
  value : CAmount
  gasPrice : CAmount
  gasLimit : ℕ
  receiveAddress : Address
  data : List UInt8
  sender : Address
  nVout : UInt32
  hashWith : Uint256
deriving DecidableEq, Repr

/-- What `GetDGPTransactions` reads besides the block: the minimum gas
price of the DGP, the winner the governance contract names, whether the
node is in initial block download, transaction hashes and `Hash160`. -/
structure DGPEnv where
  minGasPrice : CAmount
  governanceWinner : Address
  initialBlockDownload : Bool
  txHash : CTransaction → Uint256
  hash160 : List UInt8 → List UInt8

/-- `DEFAULT_GAS_LIMIT_OP_SEND`. -/
def defaultGasLimitOpSend : ℕ := 250000

/-- `dev::Address(keyID.GetReverseHex())`: despite its name the hex lists the
bytes of the key ID in order, so the address has those bytes. -/
def keyIDAddress (keyID : List UInt8) : Address :=
  ⟨readLE keyID.reverse % 2 ^ 160, Nat.mod_lt _ (Nat.two_pow_pos 160)⟩

/-- `ExtractDestination` into a fresh destination, `boost::get<PKHash>` and
the dereference of its result. -/
def pkHashAddress (hash160 : List UInt8 → List UInt8) (s : CScript) : Except Fault Address :=
  match extractDestination hash160 s with
  | some (.pkHash keyID) => .ok (keyIDAddress keyID)
  | _ => .error .nullPKHash

/-- `tx.vout[i]`. -/
def voutAt (tx : CTransaction) (i : ℕ) : Except Fault CTxOut :=
  match tx.vout[i]? with
  | some o => .ok o
  | none => .error .voutOutOfRange

/-- The search for the governance winner during initial block download,
over the transactions from index 2: a burnt first output of the reward's
value means no winner, a second output of the reward's value pays the
winner. Without a hit the winner stays `dev::Address()`. -/
def ibdWinnerLoop (hash160 : List UInt8 → List UInt8) (govValue : CAmount) :
    List CTransaction → Except Fault Address
  | [] => .ok 0
  | tx :: rest => do
      let out0 ← voutAt tx 0
      if out0.nValue = govValue ∧ isBurnt out0.scriptPubKey then return 0
      let out1 ← voutAt tx 1
      if out1.nValue = govValue then pkHashAddress hash160 out1.scriptPubKey
      else ibdWinnerLoop hash160 govValue rest

/-- `GetDGPVout(block, ...)`: only a proof-of-stake block has DGP outputs,
in its coinstake. -/
def getDGPVoutOfBlock (block : CBlock) (addr data : List UInt8) : Option (CTxOut × UInt32) :=
  if block.isProofOfStake then getDGPVout (block.vtx[1]?.getD CTransaction.empty).vout addr data
  else none

/-- The call data of the governor reward: the selector, twelve zero bytes
and the winner. -/
def govRewardData (winner : Address) : List UInt8 :=
  govRewardSelector ++ List.replicate 12 0 ++ winner.asBytes

/-- `GetDGPTransactions`. -/
def getDGPTransactions (env : DGPEnv) (block : CBlock) : Except Fault (List DGPCall) := do
  let some coinstake := block.vtx[1]? | throw .txOutOfRange
  let stakeOut ← voutAt coinstake 1
  let addrSender ← pkHashAddress env.hash160 stakeOut.scriptPubKey
  let call := fun (amount : CAmount) (contract : Address) (data : List UInt8) (n : UInt32) =>
    DGPCall.mk amount env.minGasPrice defaultGasLimitOpSend contract data addrSender n
      (env.txHash coinstake)
  let gov ← match getDGPVoutOfBlock block governanceDGP.asBytes govRewardSelector with
    | some (govVout, n) => do
        let winner ← if env.initialBlockDownload then
            ibdWinnerLoop env.hash160 govVout.nValue (block.vtx.drop 2)
          else pure env.governanceWinner
        pure [call govVout.nValue governanceDGP (govRewardData winner) n]
    | none => pure []
  let cleanup := match getDGPVoutOfBlock block governanceDGP.asBytes govCleanupSelector with
    | some (_, n) => [call 0 governanceDGP govCleanupSelector n]
    | none => []
  let budget := match getDGPVoutOfBlock block budgetDGP.asBytes budgetSelector with
    | some (bgtVout, n) => [call bgtVout.nValue budgetDGP budgetSelector n]
    | none => []
  return gov ++ cleanup ++ budget

/-- The index of the first transaction from index 2 on that is neither a
contract transaction nor a spend of contract outputs. -/
def insertLocationFrom (i : ℕ) : List CTransaction → ℕ
  | [] => i
  | tx :: rest =>
      if !tx.hasCreateOrCall && !tx.hasOpSpend then i else insertLocationFrom (i + 1) rest

/-- `GetDGPValueTransferInsertLocation`. -/
def getDGPValueTransferInsertLocation (block : CBlock) : ℕ :=
  insertLocationFrom 2 (block.vtx.drop 2)

/-- `CTxOut()`, the null output that `vout.resize` appends. -/
def CTxOut.null : CTxOut := ⟨-1, []⟩

/-- The DGP outputs that `AddCoinstakeContracts` writes into a coinstake
after its first two outputs: the governor reward when there is a winner,
the governor clean-up and the budget, with the gas limit and price given. -/
def addCoinstakeContracts (winner : Address) (nGasPrice : ℤ) (governorSubsidy budget : CAmount)
    (coinstake : CTransaction) : CTransaction :=
  let call := fun (data : List UInt8) (contract : Address) =>
    dgpCallScript 4 defaultGasLimitOpSend nGasPrice data contract
  let govOuts :=
    if winner ≠ 0 then [⟨governorSubsidy, call (govRewardData winner) governanceDGP⟩] else []
  { coinstake with
    vout := (coinstake.vout ++ List.replicate 2 CTxOut.null).take 2 ++ govOuts ++
      [⟨0, call govCleanupSelector governanceDGP⟩, ⟨budget, call budgetSelector budgetDGP⟩] }

/-- `MineDGPContracts`: the value transfers of the executed DGP calls go in
at the insert location; `none` when execution fails and nothing is
inserted. -/
def mineDGPContracts (valueTransfers : Option (List CTransaction)) (block : CBlock) : CBlock :=
  match valueTransfers with
  | none => block
  | some vts =>
      let n := getDGPValueTransferInsertLocation block
      { block with vtx := block.vtx.take n ++ vts ++ block.vtx.drop n }

/-! ## When the two sync modes agree -/

/-- A proof-of-stake block whose coinstake stakes to a pay-to-pubkey output
and pays the governor reward of `getGovernorSubsidy 100000 750000000000000`
to the winner `0x42`, followed by a payment with a single output. -/
def singleOutputPaymentBlock : CBlock :=
  ⟨⟨1, 0⟩,
    [⟨[⟨⟨0, 0xffffffff⟩, [], 0xffffffff⟩], [⟨0, []⟩]⟩,
      addCoinstakeContracts 0x42 5000 (getGovernorSubsidy 100000 750000000000000) 0
        ⟨[⟨⟨1, 0⟩, [], 0xffffffff⟩],
          [⟨0, []⟩, ⟨10000 * coin, pushData (2 :: List.replicate 32 7) ++ [opCheckSig]⟩]⟩,
      ⟨[⟨⟨5, 0⟩, [], 0xffffffff⟩], [⟨5 * coin, payToPubKeyHash (List.replicate 20 3)⟩]⟩]⟩

/-- During initial block download `GetDGPTransactions` reads `vout[1]` of
the single-output payment; a synced node reads the winner from the
governance contract and builds the calls. -/
theorem getDGPTransactions_reads_past_vout :
    getDGPTransactions ⟨5000, 0x42, true, fun _ => 0, fun _ => List.replicate 20 9⟩
        singleOutputPaymentBlock = .error .voutOutOfRange ∧
      (getDGPTransactions ⟨5000, 0x42, false, fun _ => 0, fun _ => List.replicate 20 9⟩
        singleOutputPaymentBlock).toOption.isSome := by
  decide +kernel

/-- A block that `MineDGPContracts` assembles for the winner `0x42`: after
the coinstake comes a contract call whose change output happens to carry
the governor's subsidy to another key, and the value transfer of the
governor reward is inserted after it. -/
def changeMatchesRewardBlock : CBlock :=
  mineDGPContracts
    (some [⟨[⟨⟨2, 2⟩, [opSpend], 0xffffffff⟩],
      [⟨getGovernorSubsidy 100000 750000000000000, payToPubKeyHash (0x42 : Address).asBytes⟩]⟩])
    ⟨⟨1, 0⟩,
      [⟨[⟨⟨0, 0xffffffff⟩, [], 0xffffffff⟩], [⟨0, []⟩]⟩,
        addCoinstakeContracts 0x42 5000 (getGovernorSubsidy 100000 750000000000000) 0
          ⟨[⟨⟨1, 0⟩, [], 0xffffffff⟩],
            [⟨0, []⟩, ⟨10000 * coin, pushData (2 :: List.replicate 32 7) ++ [opCheckSig]⟩]⟩,
        ⟨[⟨⟨5, 0⟩, [], 0xffffffff⟩],
          [⟨0, dgpCallScript 4 250000 40 [0xaa] 0x77⟩,
            ⟨getGovernorSubsidy 100000 750000000000000, payToPubKeyHash (List.replicate 20 3)⟩]⟩]⟩

/-- On `changeMatchesRewardBlock` a node in initial block download takes the
change output for the winner's payment and calls the governance contract
for the key `0x0303...03`, while a synced node calls it for `0x42`. -/
theorem getDGPTransactions_ibd_picks_change :
    (getDGPTransactions ⟨5000, 0x42, true, fun _ => 0, fun _ => List.replicate 20 9⟩
        changeMatchesRewardBlock).toOption.map (fun calls => calls.map (·.data)) =
      some [govRewardData (keyIDAddress (List.replicate 20 3)), govCleanupSelector,
        budgetSelector] ∧
    (getDGPTransactions ⟨5000, 0x42, false, fun _ => 0, fun _ => List.replicate 20 9⟩
        changeMatchesRewardBlock).toOption.map (fun calls => calls.map (·.data)) =
      some [govRewardData 0x42, govCleanupSelector, budgetSelector] ∧
    keyIDAddress (List.replicate 20 3) ≠ 0x42 := by
  decide +kernel

end Metrix
