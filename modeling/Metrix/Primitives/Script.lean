import Mathlib

/-! Scripts as their serialized bytes. This module fixes the opcode values
of `script.h`, the data-push encoding of `CScript::operator<<` and the two
output templates that contract bookkeeping writes: pay-to-pubkey-hash and the
no-exec contract call. -/

namespace Metrix

/-- `CScript`: a script is the byte string it serializes to. -/
abbrev CScript := List UInt8

namespace Opcode

def op0 : UInt8 := 0x00
def opPushData1 : UInt8 := 0x4c
def opPushData2 : UInt8 := 0x4d
def opPushData4 : UInt8 := 0x4e
def op1Negate : UInt8 := 0x4f
def op1 : UInt8 := 0x51
def op16 : UInt8 := 0x60
def opNop : UInt8 := 0x61
def opReturn : UInt8 := 0x6a
def opDrop : UInt8 := 0x75
def opDup : UInt8 := 0x76
def opEqual : UInt8 := 0x87
def opEqualVerify : UInt8 := 0x88
def opHash160 : UInt8 := 0xa9
def opCodeSeparator : UInt8 := 0xab
def opCheckSig : UInt8 := 0xac
def opCheckMultiSig : UInt8 := 0xae
def opCreate : UInt8 := 0xc1
def opCall : UInt8 := 0xc2
def opSpend : UInt8 := 0xc3
def opSender : UInt8 := 0xc4
-- the pseudo-opcodes that only stand in `Solver`'s templates
def opAddressType : UInt8 := 0xf2
def opAddress : UInt8 := 0xf3
def opScriptSig : UInt8 := 0xf4
def opGasPrice : UInt8 := 0xf5
def opVersion : UInt8 := 0xf6
def opGasLimit : UInt8 := 0xf7
def opData : UInt8 := 0xf8
def opSmallInteger : UInt8 := 0xfa
def opPubKeys : UInt8 := 0xfb
def opPubKeyHash : UInt8 := 0xfd
def opPubKey : UInt8 := 0xfe
def opInvalidOpcode : UInt8 := 0xff

end Opcode

open Opcode

/-- Little-endian bytes of the low `width` bytes of `n` (`WriteLE16`, `WriteLE32`). -/
def leBytes (width n : ℕ) : List UInt8 :=
  (List.range width).map fun i => ((n / 256 ^ i) % 256).toUInt8

/-- `CScript::operator<<(const std::vector<unsigned char>&)`: push `b` with
the shortest length prefix. -/
def pushData (b : List UInt8) : CScript :=
  if b.length < 0x4c then b.length.toUInt8 :: b
  else if b.length ≤ 0xff then opPushData1 :: b.length.toUInt8 :: b
  else if b.length ≤ 0xffff then opPushData2 :: leBytes 2 b.length ++ b
  else opPushData4 :: leBytes 4 b.length ++ b

theorem pushData_of_lt {b : List UInt8} (h : b.length < 0x4c) :
    pushData b = b.length.toUInt8 :: b := by
  simp [pushData, h]

/-- The bytes of `n`, least significant first, with no zero byte on top. -/
def magnitudeBytes (n : ℕ) : List UInt8 :=
  if n = 0 then [] else (n % 256).toUInt8 :: magnitudeBytes (n / 256)
termination_by n
decreasing_by omega

/-- `CScriptNum::serialize`: the magnitude in little-endian bytes, with the
sign in the top bit of the last byte; a byte is added when that bit is taken. -/
def scriptNumSerialize (value : Int) : List UInt8 :=
  let bytes := magnitudeBytes value.natAbs
  match bytes.getLast? with
  | none => []
  | some last =>
      if last &&& 0x80 ≠ 0 then bytes ++ [if value < 0 then 0x80 else 0]
      else if value < 0 then bytes.dropLast ++ [last ||| 0x80]
      else bytes

/-- `CScript() << OP_DUP << OP_HASH160 << h << OP_EQUALVERIFY << OP_CHECKSIG`. -/
def payToPubKeyHash (h : List UInt8) : CScript :=
  [opDup, opHash160] ++ pushData h ++ [opEqualVerify, opCheckSig]

/-- `CScript::IsPayToPubkeyHash`. -/
def isPayToPubkeyHash (s : CScript) : Bool :=
  s.length = 25 && s[0]? = some opDup && s[1]? = some opHash160 && s[2]? = some 0x14 &&
    s[23]? = some opEqualVerify && s[24]? = some opCheckSig

/-- `CScript::IsBurnt`: pay-to-pubkey-hash to the zero key hash. -/
def isBurnt (s : CScript) : Bool :=
  isPayToPubkeyHash s && ((s.drop 3).take 20).all (· = 0)

/-- The no-exec contract output written for a live contract account:
`CScript() << valtype{0} << valtype{0} << valtype{0} << valtype{0} << a << OP_CALL`. -/
def noExecCall (a : List UInt8) : CScript :=
  pushData [0] ++ pushData [0] ++ pushData [0] ++ pushData [0] ++ pushData a ++ [opCall]

/-- `CScript() << OP_SPEND`, the signature script of an input that spends a
contract output. -/
def spendScript : CScript := [opSpend]

end Metrix
