import Metrix.Primitives.Block
import Metrix.Qtum.State

/-! The decentralized governance contracts that every proof-of-stake block
pays from its coinstake (`qtum/qtumDGP.h`, `CScript::IsDGPContractCall`,
`GetDGPVout`). A coinstake output calls such a contract when its script ends
with the contract's address and `OP_CALL` and carries the function selector
in its call data. -/

namespace Metrix

open Opcode

/-- `GovernanceDGP`. -/
def governanceDGP : Address := 0x89

/-- `BudgetDGP`. -/
def budgetDGP : Address := 0x90

/-- `ParseHex("1c0318cd")`: the governor reward call. -/
def govRewardSelector : List UInt8 := [0x1c, 0x03, 0x18, 0xcd]

/-- `ParseHex("6faaa74c")`: the governor clean-up call. -/
def govCleanupSelector : List UInt8 := [0x6f, 0xaa, 0xa7, 0x4c]

/-- `ParseHex("104ad86f")`: the budget allowance and settlement call. -/
def budgetSelector : List UInt8 := [0x10, 0x4a, 0xd8, 0x6f]

/-- The DGP call output that `AddCoinstakeContracts` writes into a
coinstake: `CScript() << CScriptNum(version) << CScriptNum(gasLimit)
<< CScriptNum(gasPrice) << data << contract.asBytes() << OP_CALL`. -/
def dgpCallScript (version gasLimit gasPrice : ℤ) (data : List UInt8) (contract : Address) :
    CScript :=
  pushData (scriptNumSerialize version) ++ pushData (scriptNumSerialize gasLimit) ++
    pushData (scriptNumSerialize gasPrice) ++ pushData data ++ pushData contract.asBytes ++ [opCall]

/-- The bytes of `s` in `[lo, hi)`; a range reaching past either end is
undefined in the source and reads only the bytes that exist here. -/
def slice (s : CScript) (lo hi : ℕ) : List UInt8 :=
  (s.drop lo).take (hi - lo)

/-- The backward scan of `IsDGPContractCall` over the call data, in steps of
the selector's length, from byte `i` down. An empty selector matches at once,
so the scan always steps back by a positive amount. -/
def dgpDataScan (s : CScript) (data : List UInt8) (i : ℕ) : Bool :=
  if 0 < i then
    if slice s (i - data.length) i = data then true
    else if h : 0 < data.length then dgpDataScan s data (i - data.length)
    else false
  else false
termination_by i
decreasing_by omega

/-- `CScript::IsDGPContractCall`: the script ends with the 20 address bytes
and `OP_CALL`, and a window of the call data before them, aligned back from
the address, equals `data`. -/
def isDGPContractCall (s : CScript) (addr data : List UInt8) : Bool :=
  s.getLast? = some opCall &&
    slice s (s.length - 21) (s.length - 1) = addr &&
    dgpDataScan s data (s.length - 22)

/-- The offsets, from the start of the script, of the bytes that the scan of
`IsDGPContractCall` compares, window after window: `begin() + i -
vContractData.size()` up to `begin() + i`, until a window matches. -/
def dgpScanReads (s : CScript) (data : List UInt8) (i : ℕ) : List ℤ :=
  if 0 < i then
    (List.range data.length).map (fun k => (i : ℤ) - data.length + k) ++
      if slice s (i - data.length) i = data then []
      else if h : 0 < data.length then dgpScanReads s data (i - data.length)
      else []
  else []
termination_by i
decreasing_by omega

/-- The offsets of the bytes `IsDGPContractCall` reads, with the `size_t`
arithmetic of the source taken in `ℤ`: `(*this)[size()-1]`, then, when that
byte is `OP_CALL`, the address `[end()-21, end()-1)` and, when it matches, the
windows of the scan. -/
def dgpContractCallReads (s : CScript) (addr data : List UInt8) : List ℤ :=
  ((s.length : ℤ) - 1) ::
    if s.getLast? = some opCall then
      (List.range 20).map (fun k => (s.length : ℤ) - 21 + k) ++
        if slice s (s.length - 21) (s.length - 1) = addr then dgpScanReads s data (s.length - 22)
        else []
    else []

/-- The loop of `GetDGPVout` over the outputs, with the index of the output
it looks at. -/
def getDGPVoutFrom (addr data : List UInt8) : List CTxOut → UInt32 → Option (CTxOut × UInt32)
  | [], _ => none
  | out :: rest, i =>
      if isDGPContractCall out.scriptPubKey addr data then some (out, i)
      else getDGPVoutFrom addr data rest (i + 1)

/-- `GetDGPVout(vTempVouts, ...)`: the first output that calls `addr` with
`data`, and its index. -/
def getDGPVout (vouts : List CTxOut) (addr data : List UInt8) : Option (CTxOut × UInt32) :=
  getDGPVoutFrom addr data vouts 0

/-- What `GetDGPVout` reads: for each output it examines, in order, the
offsets that `IsDGPContractCall` reads in its script. -/
def getDGPVoutReads (addr data : List UInt8) : List CTxOut → List (List ℤ)
  | [] => []
  | out :: rest =>
      dgpContractCallReads out.scriptPubKey addr data ::
        if isDGPContractCall out.scriptPubKey addr data then [] else getDGPVoutReads addr data rest

/-! ## What `IsDGPContractCall` reads -/

/-- `GetDGPVout` over the outputs of a coinstake starts at its empty marker
output, and the first byte it reads there is `(*this)[size()-1]`, at offset
`-1`: before the script. -/
theorem getDGPVoutReads_coinStake {tx : CTransaction} (h : tx.isCoinStake) (addr data : List UInt8) :
    ∃ rest, getDGPVoutReads addr data tx.vout = [-1] :: rest := by
  obtain ⟨vin, vout⟩ := tx
  match vin, vout, h with
  | i :: _, o :: o' :: rest, h =>
      have hempty : o.scriptPubKey = [] := by
        simp only [CTransaction.isCoinStake, Bool.and_eq_true, CTxOut.isEmpty] at h
        simpa using h.2.2
      refine ⟨getDGPVoutReads addr data (o' :: rest), ?_⟩
      simp [getDGPVoutReads, dgpContractCallReads, isDGPContractCall, hempty]

/-- A coinstake of one input, its marker and one payment. -/
def sampleCoinStake : CTransaction :=
  ⟨[⟨⟨1, 0⟩, [], 0xffffffff⟩], [⟨0, []⟩, ⟨5 * coin, [opDup, opHash160]⟩]⟩

theorem getDGPVoutReads_sampleCoinStake :
    sampleCoinStake.isCoinStake = true ∧
      ∃ rest, getDGPVoutReads governanceDGP.asBytes govRewardSelector sampleCoinStake.vout =
        [-1] :: rest :=
  ⟨by decide, getDGPVoutReads_coinStake (by decide) _ _⟩

end Metrix
