import Metrix.Coins.Coin
import Metrix.Primitives.Serialize
import Metrix.Lib.ListSlice

/-! The compact forms of a coin in the coins database and in the undo files
(`compressor.h`, `compressor.cpp`, `Coin::Serialize`, `TxInUndoSerializer`).
A coin is a `VARINT` of its height and its two flags, then its output. An
amount is a `VARINT` of `CompressAmount`, which takes off up to nine trailing
decimal zeros and the last nonzero digit, in `uint64_t` arithmetic. A script
of one of six standard kinds is its kind and its hash or key; any other is a
`VARINT` of its length, then its bytes. The secp256k1 arithmetic behind
`CPubKey::IsFullyValid` and `CPubKey::Decompress` is a parameter. Every
decoder reads into a default-constructed coin, as the coins database and
the undo records do. -/

namespace Metrix

open Opcode

/-! ## Amounts -/

/-- The loop of `CompressAmount`: a factor of ten taken off `n` while its
last digit is zero, at most `fuel` times, counted on from `e`. -/
def compressAmountLoop : ℕ → UInt64 → ℕ → UInt64 × ℕ
  | 0, n, e => (n, e)
  | fuel + 1, n, e => if n % 10 = 0 then compressAmountLoop fuel (n / 10) (e + 1) else (n, e)

/-- `CompressAmount`. -/
def compressAmount (n : UInt64) : UInt64 :=
  if n = 0 then 0
  else
    match compressAmountLoop 9 n 0 with
    | (n, e) =>
        if e < 9 then
          let d := n % 10
          let n := n / 10
          1 + (n * 9 + d - 1) * 10 + e.toUInt64
        else 1 + (n - 1) * 10 + 9

/-- The loop `while (e) { n *= 10; e--; }` of `DecompressAmount`. -/
def timesTen : ℕ → UInt64 → UInt64
  | 0, n => n
  | e + 1, n => timesTen e (n * 10)

/-- `DecompressAmount`. -/
def decompressAmount (x : UInt64) : UInt64 :=
  if x = 0 then 0
  else
    let x := x - 1
    let e := x % 10
    let x := x / 10
    let n := if e < 9 then x / 9 * 10 + (x % 9 + 1) else x + 1
    timesTen e.toNat n

theorem toNat_timesTen (e : ℕ) :
    ∀ {n : UInt64}, n.toNat * 10 ^ e < 2 ^ 64 → (timesTen e n).toNat = n.toNat * 10 ^ e := by
  induction e with
  | zero => intro n _; simp [timesTen]
  | succ e ih =>
      intro n h
      have h10 : n.toNat * 10 < 2 ^ 64 :=
        lt_of_le_of_lt (Nat.mul_le_mul_left _ (Nat.le_self_pow (by omega) 10)) h
      have hmul : (n * 10).toNat = n.toNat * 10 := by
        rw [UInt64.toNat_mul]
        simp only [UInt64.reduceToNat]
        exact Nat.mod_eq_of_lt h10
      rw [timesTen, ih (by rwa [hmul, mul_assoc, ← pow_succ']), hmul, mul_assoc, ← pow_succ']

/-- What the loop of `CompressAmount` leaves: `n` is `m` times the power of
ten taken off, and `m` ends in a nonzero digit unless the loop ran out. -/
theorem compressAmountLoop_spec {fuel : ℕ} : ∀ {n m : UInt64} {e e' : ℕ},
    compressAmountLoop fuel n e = (m, e') →
      m.toNat * 10 ^ (e' - e) = n.toNat ∧ e ≤ e' ∧ e' ≤ e + fuel ∧
        (e' < e + fuel → m.toNat % 10 ≠ 0) := by
  induction fuel with
  | zero =>
      intro n m e e' h
      cases h
      simp
  | succ fuel ih =>
      intro n m e e' h
      by_cases h0 : n % 10 = 0
      · rw [compressAmountLoop, if_pos h0] at h
        obtain ⟨h1, h2, h3, h4⟩ := ih h
        have h10 : n.toNat % 10 = 0 := by simpa using congrArg UInt64.toNat h0
        have hpow : e' - e = e' - (e + 1) + 1 := by omega
        refine ⟨?_, by omega, by omega, fun hlt => h4 (by omega)⟩
        rw [hpow, pow_succ, ← mul_assoc, h1, UInt64.toNat_div]
        simp only [UInt64.reduceToNat]
        omega
      · rw [compressAmountLoop, if_neg h0] at h
        cases h
        refine ⟨by simp, le_rfl, by omega, fun _ hz => h0 ?_⟩
        exact UInt64.toNat_inj.mp (by simpa using hz)

/-- `CompressAmount` where its last digit `d` is kept, when nothing wraps. -/
theorem toNat_compressAmount_of_lt {n m : UInt64} {e : ℕ} (hn : n ≠ 0)
    (hloop : compressAmountLoop 9 n 0 = (m, e)) (he : e < 9) (hd : m.toNat % 10 ≠ 0)
    (hb : 1 + (m.toNat / 10 * 9 + m.toNat % 10 - 1) * 10 + e < 2 ^ 64) :
    (compressAmount n).toNat = 1 + (m.toNat / 10 * 9 + m.toNat % 10 - 1) * 10 + e := by
  simp only [compressAmount, if_neg hn, hloop, if_pos he]
  have he64 : e.toUInt64.toNat = e := by simp; omega
  have hm := m.toNat_lt
  have hsum : (m / 10 * 9 + m % 10).toNat = m.toNat / 10 * 9 + m.toNat % 10 := by
    simp [UInt64.toNat_add, UInt64.toNat_mul]
    omega
  have hsub : (m / 10 * 9 + m % 10 - 1).toNat = m.toNat / 10 * 9 + m.toNat % 10 - 1 := by
    rw [UInt64.toNat_sub_of_le _ _ (by rw [UInt64.le_iff_toNat_le, hsum]; simp; omega), hsum]
    simp
  simp only [UInt64.toNat_add, UInt64.toNat_mul, hsub, he64, UInt64.reduceToNat]
  omega

/-- `CompressAmount` after nine zeros. -/
theorem toNat_compressAmount_of_nine {n m : UInt64} (hn : n ≠ 0)
    (hloop : compressAmountLoop 9 n 0 = (m, 9)) (hm : 1 ≤ m.toNat) (hb : 10 * m.toNat < 2 ^ 64) :
    (compressAmount n).toNat = 10 * m.toNat := by
  simp only [compressAmount, if_neg hn, hloop, lt_irrefl, if_false]
  have hsub : (m - 1).toNat = m.toNat - 1 := by
    rw [UInt64.toNat_sub_of_le _ _ (by rw [UInt64.le_iff_toNat_le]; simpa using hm)]
    simp
  simp only [UInt64.toNat_add, UInt64.toNat_mul, hsub, UInt64.reduceToNat]
  omega

theorem toNat_decompressAmount_of_lt {x : UInt64} {q d e : ℕ}
    (hx : x.toNat = 1 + (q * 9 + (d - 1)) * 10 + e) (he : e < 9) (hd : 1 ≤ d ∧ d ≤ 9)
    (hb : (q * 10 + d) * 10 ^ e < 2 ^ 64) :
    (decompressAmount x).toNat = (q * 10 + d) * 10 ^ e := by
  have hx0 : x ≠ 0 := fun h => by simp [h] at hx; omega
  have hy : (x - 1).toNat = (q * 9 + (d - 1)) * 10 + e := by
    rw [UInt64.toNat_sub_of_le _ _ (by simp [UInt64.le_iff_toNat_le, hx]; omega)]
    simp only [hx, UInt64.toNat_one]
    omega
  have he' : ((x - 1) % 10).toNat = e := by simp [hy]; omega
  have hlt : (x - 1) % 10 < 9 := by simp [UInt64.lt_iff_toNat_lt, he']; omega
  have hn : ((x - 1) / 10 / 9 * 10 + ((x - 1) / 10 % 9 + 1)).toNat = q * 10 + d := by
    have : q * 10 + d < 2 ^ 64 := lt_of_le_of_lt (Nat.le_mul_of_pos_right _ (Nat.pow_pos (by omega))) hb
    simp [hy]
    omega
  simp only [decompressAmount, if_neg hx0, if_pos hlt]
  rw [he', toNat_timesTen _ (by rw [hn]; exact hb), hn]

theorem toNat_decompressAmount_of_nine {x : UInt64} {m : ℕ} (hx : x.toNat = 10 * m) (hm : 1 ≤ m)
    (hb : m * 10 ^ 9 < 2 ^ 64) :
    (decompressAmount x).toNat = m * 10 ^ 9 := by
  have hx0 : x ≠ 0 := fun h => by simp [h] at hx; omega
  have hy : (x - 1).toNat = 10 * m - 1 := by
    rw [UInt64.toNat_sub_of_le _ _ (by simp [UInt64.le_iff_toNat_le, hx]; omega)]
    simp [hx]
  have he' : ((x - 1) % 10).toNat = 9 := by simp [hy]; omega
  have hlt : ¬(x - 1) % 10 < 9 := by simp [UInt64.lt_iff_toNat_lt, he']
  have hn : ((x - 1) / 10 + 1).toNat = m := by
    have : m < 2 ^ 64 := lt_of_le_of_lt (Nat.le_mul_of_pos_right _ (Nat.pow_pos (by omega))) hb
    simp [hy]
    omega
  simp only [decompressAmount, if_neg hx0, if_neg hlt]
  rw [he', toNat_timesTen _ (by rw [hn]; exact hb), hn]

/-- `DecompressAmount` undoes `CompressAmount` for every amount below
`2^64 / 9` and for every amount with a trailing zero: there the arithmetic of
`CompressAmount` does not wrap. -/
theorem decompressAmount_compressAmount {n : UInt64}
    (h : 9 * n.toNat < 2 ^ 64 ∨ n.toNat % 10 = 0) :
    decompressAmount (compressAmount n) = n := by
  by_cases hn : n = 0
  · subst hn
    rfl
  have hn0 : n.toNat ≠ 0 := fun h0 => hn (UInt64.toNat_inj.mp (by simpa using h0))
  have hnlt := n.toNat_lt
  rcases hloop : compressAmountLoop 9 n 0 with ⟨m, e⟩
  obtain ⟨hmn, -, he9, hd⟩ := compressAmountLoop_spec hloop
  simp only [Nat.sub_zero, Nat.zero_add] at hmn he9 hd
  apply UInt64.toNat_inj.mp
  by_cases he : e < 9
  · have hd0 := hd he
    -- with no zero taken off, `m` is `n` and the bound is the hypothesis
    have hV : 1 + (m.toNat / 10 * 9 + m.toNat % 10 - 1) * 10 + e < 2 ^ 64 := by
      rcases Nat.eq_zero_or_pos e with rfl | hpos
      · simp only [pow_zero, Nat.mul_one] at hmn
        omega
      · have : m.toNat * 10 ≤ n.toNat :=
          hmn ▸ Nat.mul_le_mul_left _ (Nat.le_self_pow (by omega) 10)
        omega
    rw [toNat_decompressAmount_of_lt (q := m.toNat / 10) (d := m.toNat % 10)
      (toNat_compressAmount_of_lt hn hloop he hd0 hV ▸ by omega) he (by omega)
      (by rw [Nat.div_add_mod']; omega)]
    rw [Nat.div_add_mod', hmn]
  · have he : e = 9 := by omega
    subst he
    have hm : 1 ≤ m.toNat := by
      rcases Nat.eq_zero_or_pos m.toNat with h0 | h0
      · rw [h0, Nat.zero_mul] at hmn
        omega
      · exact h0
    have hb : m.toNat * 10 ^ 9 < 2 ^ 64 := hmn ▸ hnlt
    rw [toNat_decompressAmount_of_nine (toNat_compressAmount_of_nine hn hloop hm (by omega)) hm hb,
      hmn]

/-! ## Scripts -/

/-- `nSpecialScripts`. -/
def nSpecialScripts : ℕ := 6

/-- `IsToKeyID`: a pay-to-pubkey-hash script, and its key hash. -/
def isToKeyID (script : CScript) : Option (List UInt8) :=
  if script.length = 25 ∧ script.getD 0 0 = opDup ∧ script.getD 1 0 = opHash160 ∧
      script.getD 2 0 = 20 ∧ script.getD 23 0 = opEqualVerify ∧ script.getD 24 0 = opCheckSig then
    some ((script.drop 3).take 20)
  else none

/-- `IsToScriptID`: a pay-to-script-hash script, and its script hash. -/
def isToScriptID (script : CScript) : Option (List UInt8) :=
  if script.length = 23 ∧ script.getD 0 0 = opHash160 ∧ script.getD 1 0 = 20 ∧
      script.getD 22 0 = opEqual then
    some ((script.drop 2).take 20)
  else none

/-- `IsToPubKey`: a pay-to-pubkey script, and its key; an uncompressed key
only where `IsFullyValid` accepts it. -/
def isToPubKey (isFullyValid : List UInt8 → Bool) (script : CScript) : Option (List UInt8) :=
  if script.length = 35 ∧ script.getD 0 0 = 33 ∧ script.getD 34 0 = opCheckSig ∧
      (script.getD 1 0 = 0x02 ∨ script.getD 1 0 = 0x03) then
    some ((script.drop 1).take 33)
  else if script.length = 67 ∧ script.getD 0 0 = 65 ∧ script.getD 66 0 = opCheckSig ∧
      script.getD 1 0 = 0x04 then
    if isFullyValid ((script.drop 1).take 65) then some ((script.drop 1).take 65) else none
  else none

/-- `CompressScript`: the kind of a standard script and its hash or key; an
uncompressed key keeps its `x` and the parity of its `y`. -/
def compressScript (isFullyValid : List UInt8 → Bool) (script : CScript) : Option (List UInt8) :=
  match isToKeyID script with
  | some keyID => some (0x00 :: keyID)
  | none =>
      match isToScriptID script with
      | some scriptID => some (0x01 :: scriptID)
      | none =>
          match isToPubKey isFullyValid script with
          | some pubkey =>
              if pubkey.getD 0 0 = 0x02 ∨ pubkey.getD 0 0 = 0x03 then
                some (pubkey.getD 0 0 :: (pubkey.drop 1).take 32)
              else if pubkey.getD 0 0 = 0x04 then
                some ((0x04 ||| (pubkey.getD 64 0 &&& 0x01)) :: (pubkey.drop 1).take 32)
              else none
          | none => none

/-- `GetSpecialScriptSize`. -/
def getSpecialScriptSize (nSize : ℕ) : ℕ :=
  if nSize = 0 ∨ nSize = 1 then 20
  else if nSize = 2 ∨ nSize = 3 ∨ nSize = 4 ∨ nSize = 5 then 32
  else 0

/-- `DecompressScript`, with `CPubKey::Decompress` as `decompress`, which
yields the 65 bytes of the uncompressed key where it succeeds. -/
def decompressScript (decompress : List UInt8 → Option (List UInt8)) (nSize : ℕ)
    (input : List UInt8) : Option CScript :=
  match nSize with
  | 0 => some ([opDup, opHash160, 20] ++ input.take 20 ++ [opEqualVerify, opCheckSig])
  | 1 => some ([opHash160, 20] ++ input.take 20 ++ [opEqual])
  | 2 | 3 => some ([33, nSize.toUInt8] ++ input.take 32 ++ [opCheckSig])
  | 4 | 5 => (decompress ((nSize - 2).toUInt8 :: input.take 32)).map fun pubkey =>
      [65] ++ pubkey ++ [opCheckSig]
  | _ => none

/-- The secp256k1 side of the script compressor, `CPubKey::IsFullyValid` and
`CPubKey::Decompress`, with what the compressor relies on: the compressed
form `0x02 | (y & 1)`, `x` of a fully valid uncompressed key decompresses to
that key. -/
structure PubKeyCodec where
  isFullyValid : List UInt8 → Bool
  decompress : List UInt8 → Option (List UInt8)
  decompress_compressed : ∀ pubkey : List UInt8, pubkey.length = 65 →
    pubkey.getD 0 0 = 0x04 → isFullyValid pubkey = true →
    decompress ((0x02 ||| (pubkey.getD 64 0 &&& 0x01)) :: (pubkey.drop 1).take 32) = some pubkey

theorem isToKeyID_eq_some {script keyID : List UInt8} (h : isToKeyID script = some keyID) :
    keyID.length = 20 ∧ script = [opDup, opHash160, 20] ++ keyID ++ [opEqualVerify, opCheckSig] := by
  unfold isToKeyID at h
  split at h
  · rename_i hc
    obtain ⟨hlen, h0, h1, h2, h23, h24⟩ := hc
    cases h
    refine ⟨by simp [hlen], List.eq_append_append_of_getD 0 (by simp [hlen]) ?_ ?_⟩
    · intro i hi
      simp only [List.length_cons, List.length_nil] at hi
      interval_cases i <;> simpa
    · intro i hi
      simp only [List.length_cons, List.length_nil] at hi
      interval_cases i <;> simpa
  · cases h

theorem isToScriptID_eq_some {script scriptID : List UInt8} (h : isToScriptID script = some scriptID) :
    scriptID.length = 20 ∧ script = [opHash160, 20] ++ scriptID ++ [opEqual] := by
  unfold isToScriptID at h
  split at h
  · rename_i hc
    obtain ⟨hlen, h0, h1, h22⟩ := hc
    cases h
    refine ⟨by simp [hlen], List.eq_append_append_of_getD 0 (by simp [hlen]) ?_ ?_⟩
    · intro i hi
      simp only [List.length_cons, List.length_nil] at hi
      interval_cases i <;> simpa
    · intro i hi
      simp only [List.length_cons, List.length_nil] at hi
      interval_cases i
      simpa
  · cases h

/-- The two kinds of pay-to-pubkey script `IsToPubKey` accepts. -/
theorem isToPubKey_eq_some {isFullyValid : List UInt8 → Bool} {script pubkey : List UInt8}
    (h : isToPubKey isFullyValid script = some pubkey) :
    (pubkey.length = 33 ∧ (pubkey.getD 0 0 = 0x02 ∨ pubkey.getD 0 0 = 0x03) ∧
        script = [33] ++ pubkey ++ [opCheckSig]) ∨
      (pubkey.length = 65 ∧ pubkey.getD 0 0 = 0x04 ∧ isFullyValid pubkey = true ∧
        script = [65] ++ pubkey ++ [opCheckSig]) := by
  unfold isToPubKey at h
  split at h
  · rename_i hc
    obtain ⟨hlen, h0, h34, h1⟩ := hc
    cases h
    refine Or.inl ⟨by simp [hlen], by simpa [List.getD_eq_getElem?_getD] using h1,
      List.eq_append_append_of_getD 0 (by simp [hlen]) ?_ ?_⟩
    · intro i hi
      simp only [List.length_cons, List.length_nil] at hi
      interval_cases i
      simpa
    · intro i hi
      simp only [List.length_cons, List.length_nil] at hi
      interval_cases i
      simpa
  · split at h
    · rename_i hc
      obtain ⟨hlen, h0, h66, h1⟩ := hc
      split at h
      · rename_i hvalid
        cases h
        refine Or.inr ⟨by simp [hlen], by simpa [List.getD_eq_getElem?_getD] using h1, hvalid,
          List.eq_append_append_of_getD 0 (by simp [hlen]) ?_ ?_⟩
        · intro i hi
          simp only [List.length_cons, List.length_nil] at hi
          interval_cases i
          simpa
        · intro i hi
          simp only [List.length_cons, List.length_nil] at hi
          interval_cases i
          simpa
      · cases h
    · cases h

/-- What `CompressScript` writes, for each of its kinds of script. -/
theorem compressScript_eq_some {isFullyValid : List UInt8 → Bool} {script compr : List UInt8}
    (h : compressScript isFullyValid script = some compr) :
    (∃ keyID, keyID.length = 20 ∧
        script = [opDup, opHash160, 20] ++ keyID ++ [opEqualVerify, opCheckSig] ∧
        compr = 0x00 :: keyID) ∨
      (∃ scriptID, scriptID.length = 20 ∧ script = [opHash160, 20] ++ scriptID ++ [opEqual] ∧
        compr = 0x01 :: scriptID) ∨
      (∃ pubkey, pubkey.length = 33 ∧ (pubkey.getD 0 0 = 0x02 ∨ pubkey.getD 0 0 = 0x03) ∧
        script = [33] ++ pubkey ++ [opCheckSig] ∧ compr = pubkey) ∨
      (∃ pubkey, pubkey.length = 65 ∧ pubkey.getD 0 0 = 0x04 ∧ isFullyValid pubkey = true ∧
        script = [65] ++ pubkey ++ [opCheckSig] ∧
        compr = (0x04 ||| (pubkey.getD 64 0 &&& 0x01)) :: (pubkey.drop 1).take 32) := by
  unfold compressScript at h
  rcases hkey : isToKeyID script with _ | keyID
  · rcases hsh : isToScriptID script with _ | scriptID
    · rcases hpk : isToPubKey isFullyValid script with _ | pubkey
      · simp [hkey, hsh, hpk] at h
      · simp only [hkey, hsh, hpk] at h
        rcases isToPubKey_eq_some hpk with ⟨hlen, hfirst, hscript⟩ | ⟨hlen, hfirst, hvalid, hscript⟩
        · -- a compressed key is written as it is
          rw [if_pos hfirst] at h
          cases h
          obtain ⟨b, rest, rfl⟩ : ∃ b rest, pubkey = b :: rest :=
            ⟨pubkey.head (List.ne_nil_of_length_pos (by omega)), pubkey.tail, (List.cons_head_tail _).symm⟩
          refine Or.inr (Or.inr (Or.inl ⟨b :: rest, hlen, hfirst, hscript, ?_⟩))
          simp only [List.length_cons] at hlen
          simp [List.take_of_length_le (show rest.length ≤ 32 by omega)]
        · rw [if_neg (by rw [hfirst]; decide), if_pos hfirst] at h
          cases h
          exact Or.inr (Or.inr (Or.inr ⟨pubkey, hlen, hfirst, hvalid, hscript, rfl⟩))
    · simp only [hkey, hsh, Option.some.injEq] at h
      obtain ⟨hlen, hscript⟩ := isToScriptID_eq_some hsh
      exact Or.inr (Or.inl ⟨scriptID, hlen, hscript, h.symm⟩)
  · simp only [hkey, Option.some.injEq] at h
    obtain ⟨hlen, hscript⟩ := isToKeyID_eq_some hkey
    exact Or.inl ⟨keyID, hlen, hscript, h.symm⟩

/-- `CScriptCompressor::Serialize`. -/
def serializeCompressedScript (isFullyValid : List UInt8 → Bool) (script : CScript) :
    List UInt8 :=
  match compressScript isFullyValid script with
  | some compr => compr
  | none => writeVarInt (script.length + nSpecialScripts) ++ script

/-- `CScriptCompressor::Unserialize`: the script and the rest of the stream;
`none` where the stream throws. A special script that does not decompress
stays empty, and an overlong one is replaced by `OP_RETURN`. -/
def unserializeCompressedScript (decompress : List UInt8 → Option (List UInt8))
    (s : List UInt8) : Option (CScript × List UInt8) := do
  let (nSize, s) ← readVarInt uint32Max s
  if nSize < nSpecialScripts then
    let len := getSpecialScriptSize nSize
    if s.length < len then none
    else some ((decompressScript decompress nSize (s.take len)).getD [], s.drop len)
  else
    let nSize := nSize - nSpecialScripts
    if s.length < nSize then none
    else if maxScriptSize < nSize then some ([opReturn], s.drop nSize)
    else some (s.take nSize, s.drop nSize)

theorem unserializeCompressedScript_special (decompress : List UInt8 → Option (List UInt8))
    {b : UInt8} {body : List UInt8} (hb : b.toNat < nSpecialScripts)
    (hlen : body.length = getSpecialScriptSize b.toNat) (rest : List UInt8) :
    unserializeCompressedScript decompress (b :: body ++ rest) =
      some ((decompressScript decompress b.toNat body).getD [], rest) := by
  have hwrite : b :: body ++ rest = writeVarInt b.toNat ++ (body ++ rest) := by
    rw [writeVarInt_of_lt (by unfold nSpecialScripts at hb; omega)]
    simp
  rw [hwrite, unserializeCompressedScript,
    readVarInt_writeVarInt (by unfold uint32Max nSpecialScripts at *; omega)]
  simp [hb, hlen]

theorem unserializeCompressedScript_raw (decompress : List UInt8 → Option (List UInt8))
    {script : CScript} (hs : script.length ≤ maxScriptSize) (rest : List UInt8) :
    unserializeCompressedScript decompress
        (writeVarInt (script.length + nSpecialScripts) ++ (script ++ rest)) =
      some (script, rest) := by
  rw [unserializeCompressedScript,
    readVarInt_writeVarInt (by unfold uint32Max nSpecialScripts; unfold maxScriptSize at hs; omega)]
  simp [nSpecialScripts, Nat.not_lt.mpr hs]

/-- The byte that `CompressScript` writes for an uncompressed key is 4 or 5,
and two less it is the first byte of the compressed key. -/
theorem uncompressedKind (x : UInt8) :
    ((0x04 ||| (x &&& 0x01)).toNat = 4 ∨ (0x04 ||| (x &&& 0x01)).toNat = 5) ∧
      ((0x04 ||| (x &&& 0x01)).toNat - 2).toUInt8 = 0x02 ||| (x &&& 0x01) := by
  have hle : (x &&& 0x01).toNat ≤ 1 := by
    rw [UInt8.toNat_and]
    exact Nat.and_le_right
  have hbit : x &&& 0x01 = 0 ∨ x &&& 0x01 = 1 := by
    rcases Nat.le_one_iff_eq_zero_or_eq_one.mp hle with h | h
    · exact Or.inl (UInt8.toNat_inj.mp h)
    · exact Or.inr (UInt8.toNat_inj.mp h)
  rcases hbit with h | h <;> rw [h] <;> decide

theorem decompressScript_of_pubKey (decompress : List UInt8 → Option (List UInt8)) {nSize : ℕ}
    (h : nSize = 4 ∨ nSize = 5) (input : List UInt8) :
    decompressScript decompress nSize input =
      (decompress ((nSize - 2).toUInt8 :: input.take 32)).map fun pubkey =>
        [65] ++ pubkey ++ [opCheckSig] := by
  rcases h with rfl | rfl <;> rfl

/-- Every script up to `MAX_SCRIPT_SIZE` reads back from its compact form,
where the key decompression inverts compression. -/
theorem unserializeCompressedScript_serialize (codec : PubKeyCodec) {script : CScript}
    (hs : script.length ≤ maxScriptSize) (rest : List UInt8) :
    unserializeCompressedScript codec.decompress
        (serializeCompressedScript codec.isFullyValid script ++ rest) = some (script, rest) := by
  unfold serializeCompressedScript
  rcases hc : compressScript codec.isFullyValid script with _ | compr
  · rw [List.append_assoc]
    exact unserializeCompressedScript_raw codec.decompress hs rest
  rcases compressScript_eq_some hc with ⟨keyID, hlen, rfl, rfl⟩ | ⟨scriptID, hlen, rfl, rfl⟩ |
    ⟨pubkey, hlen, hfirst, rfl, hcompr⟩ | ⟨pubkey, hlen, hfirst, hvalid, rfl, rfl⟩
  · rw [unserializeCompressedScript_special _ (by decide) (by simp [hlen, getSpecialScriptSize])]
    simp [decompressScript, List.take_of_length_le (le_of_eq hlen)]
  · rw [unserializeCompressedScript_special _ (by decide) (by simp [hlen, getSpecialScriptSize])]
    simp [decompressScript, List.take_of_length_le (le_of_eq hlen)]
  · rw [hcompr]
    obtain ⟨b, body, rfl⟩ : ∃ b body, pubkey = b :: body :=
      ⟨pubkey.head (List.ne_nil_of_length_pos (by omega)), pubkey.tail, (List.cons_head_tail _).symm⟩
    simp only [List.length_cons] at hlen
    simp only [List.getD_cons_zero] at hfirst
    have hbody : body.length = 32 := by omega
    rcases hfirst with rfl | rfl <;>
    · rw [unserializeCompressedScript_special _ (by decide) (by simp [hbody, getSpecialScriptSize])]
      simp [decompressScript, List.take_of_length_le (le_of_eq hbody)]
  · obtain ⟨hkind, hfirstByte⟩ := uncompressedKind (pubkey.getD 64 0)
    have hbody : ((pubkey.drop 1).take 32).length = 32 := by simp; omega
    rw [unserializeCompressedScript_special _ (by unfold nSpecialScripts; omega)
      (by rw [hbody]; rcases hkind with h | h <;> rw [h] <;> rfl),
      decompressScript_of_pubKey _ hkind, hfirstByte,
      List.take_of_length_le (le_of_eq hbody),
      codec.decompress_compressed pubkey hlen hfirst hvalid]
    rfl

/-! ## Outputs and coins -/

/-- `CTxOutCompressor` writing: the amount as `uint64_t`, compressed. -/
def serializeCompressedTxOut (isFullyValid : List UInt8 → Bool) (txout : CTxOut) : List UInt8 :=
  writeVarInt (compressAmount (UInt64.ofInt txout.nValue)).toNat ++
    serializeCompressedScript isFullyValid txout.scriptPubKey

/-- `CTxOutCompressor` reading: the decompressed `uint64_t` stored into the
`int64_t` amount. -/
def unserializeCompressedTxOut (decompress : List UInt8 → Option (List UInt8))
    (s : List UInt8) : Option (CTxOut × List UInt8) := do
  let (nVal, s) ← readVarInt uint64Max s
  let (script, s) ← unserializeCompressedScript decompress s
  pure (⟨(decompressAmount nVal.toUInt64).toInt64.toInt, script⟩, s)

/-- What the compact forms ask of an amount: in the money range, and either
below `2^64 / 9` or ending in a zero, so that `CompressAmount` does not
wrap. -/
def Compressible (nValue : CAmount) : Prop :=
  moneyRange nValue ∧ (9 * nValue < 2 ^ 64 ∨ nValue % 10 = 0)

instance (nValue : CAmount) : Decidable (Compressible nValue) :=
  inferInstanceAs (Decidable (moneyRange nValue ∧ _))

/-- A compressible amount as the natural number it is; `CAmount` is spelled
out as `ℤ` for the arithmetic. -/
theorem exists_nat_of_compressible {nValue : CAmount} (h : Compressible nValue) :
    ∃ v : ℕ, nValue = v ∧ v ≤ 3000000000000000000 ∧ (9 * v < 2 ^ 64 ∨ v % 10 = 0) := by
  obtain ⟨⟨h0, hmax⟩, hc⟩ := h
  have h0 : @LE.le ℤ _ 0 nValue := h0
  have hmax : @LE.le ℤ _ nValue 3000000000000000000 := hmax
  have hc : @LT.lt ℤ _ (9 * nValue) (2 ^ 64) ∨ @Eq ℤ (nValue % 10) 0 := hc
  exact ⟨nValue.toNat, (Int.toNat_of_nonneg h0).symm, by omega, by omega⟩

theorem unserializeCompressedTxOut_serialize (codec : PubKeyCodec) {txout : CTxOut}
    (hvalue : Compressible txout.nValue) (hs : txout.scriptPubKey.length ≤ maxScriptSize)
    (rest : List UInt8) :
    unserializeCompressedTxOut codec.decompress
        (serializeCompressedTxOut codec.isFullyValid txout ++ rest) = some (txout, rest) := by
  obtain ⟨v, hv, hvmax, hvc⟩ := exists_nat_of_compressible hvalue
  have hu : (UInt64.ofInt txout.nValue).toNat = v := by
    rw [hv]
    simp only [UInt64.ofInt, UInt64.toNat_ofNat']
    omega
  have hround : decompressAmount (compressAmount (UInt64.ofInt txout.nValue)) =
      UInt64.ofInt txout.nValue :=
    decompressAmount_compressAmount (by rw [hu]; exact hvc)
  have hvalue : (UInt64.ofInt txout.nValue).toInt64.toInt = txout.nValue := by
    rw [Int64.toInt, UInt64.toBitVec_toInt64, BitVec.toInt_eq_toNat_cond,
      UInt64.toNat_toBitVec, hu, if_pos (by omega), hv]
  have hcode := (compressAmount (UInt64.ofInt txout.nValue)).toNat_lt
  rw [serializeCompressedTxOut, List.append_assoc, unserializeCompressedTxOut,
    readVarInt_writeVarInt (by unfold uint64Max; omega)]
  simp only [Option.bind_eq_bind, Option.bind_some]
  rw [unserializeCompressedScript_serialize codec hs rest]
  simp [hround, hvalue]

/-- `Coin::Serialize`. -/
def Coin.serialize (isFullyValid : List UInt8 → Bool) (coin : Coin) : List UInt8 :=
  writeVarInt ((coin.nHeight.toNat <<< 2) + (if coin.fCoinBase then 1 else 0) +
      (if coin.fCoinStake then 2 else 0)) ++
    serializeCompressedTxOut isFullyValid coin.out

/-- `Coin::Unserialize`. -/
def Coin.unserialize (decompress : List UInt8 → Option (List UInt8)) (s : List UInt8) :
    Option (Coin × List UInt8) := do
  let (code, s) ← readVarInt uint32Max s
  let (out, s) ← unserializeCompressedTxOut decompress s
  pure (⟨out, code &&& 1 ≠ 0, (code >>> 1) &&& 1 ≠ 0, BitVec.ofNat 30 (code >>> 2)⟩, s)

/-- `TxInUndoSerializer::Serialize`: a zero byte after the code of a coin
above height 0, where old versions kept a transaction version. -/
def txInUndoSerialize (isFullyValid : List UInt8 → Bool) (coin : Coin) : List UInt8 :=
  writeVarInt ((coin.nHeight.toNat <<< 2) + (if coin.fCoinStake then 2 else 0) +
      (if coin.fCoinBase then 1 else 0)) ++
    (if 0 < coin.nHeight.toNat then [0] else []) ++
    serializeCompressedTxOut isFullyValid coin.out

/-- `TxInUndoDeserializer::Unserialize`. -/
def txInUndoUnserialize (decompress : List UInt8 → Option (List UInt8)) (s : List UInt8) :
    Option (Coin × List UInt8) := do
  let (nCode, s) ← readVarInt uint32Max s
  let nHeight := BitVec.ofNat 30 (nCode >>> 2)
  let s ← if 0 < nHeight.toNat then (readVarInt uint32Max s).map Prod.snd else pure s
  let (out, s) ← unserializeCompressedTxOut decompress s
  pure (⟨out, nCode &&& 1 ≠ 0, (nCode >>> 1) &&& 1 ≠ 0, nHeight⟩, s)

/-- The code of a coin's height and flags fits an `uint32_t` and gives them
back: the height above two bits, `fCoinStake` in bit 1, `fCoinBase` in bit 0. -/
theorem coinCode_fields (nHeight : BitVec 30) (fCoinBase fCoinStake : Bool) :
    let code := (nHeight.toNat <<< 2) + (if fCoinBase then 1 else 0) + (if fCoinStake then 2 else 0)
    code ≤ uint32Max ∧ decide (code &&& 1 ≠ 0) = fCoinBase ∧
      decide ((code >>> 1) &&& 1 ≠ 0) = fCoinStake ∧ BitVec.ofNat 30 (code >>> 2) = nHeight := by
  intro code
  have hh := nHeight.isLt
  have hcode : code = nHeight.toNat * 4 + (if fCoinBase then 1 else 0) +
      (if fCoinStake then 2 else 0) := by
    simp only [code, Nat.shiftLeft_eq]
  have hheight : code >>> 2 = nHeight.toNat := by
    rw [Nat.shiftRight_eq_div_pow, hcode]
    cases fCoinBase <;> cases fCoinStake <;> simp <;> omega
  refine ⟨?_, ?_, ?_, by rw [hheight, BitVec.ofNat_toNat, BitVec.setWidth_eq]⟩
  · rw [hcode]
    unfold uint32Max
    cases fCoinBase <;> cases fCoinStake <;> simp <;> omega
  · rw [hcode, Nat.and_one_is_mod]
    cases fCoinBase <;> cases fCoinStake <;> simp <;> omega
  · rw [hcode, Nat.and_one_is_mod, Nat.shiftRight_eq_div_pow]
    cases fCoinBase <;> cases fCoinStake <;> simp <;> omega

theorem Coin.unserialize_serialize (codec : PubKeyCodec) {coin : Coin}
    (hvalue : Compressible coin.out.nValue) (hs : coin.out.scriptPubKey.length ≤ maxScriptSize)
    (rest : List UInt8) :
    Coin.unserialize codec.decompress (coin.serialize codec.isFullyValid ++ rest) =
      some (coin, rest) := by
  obtain ⟨hle, hcb, hcs, hh⟩ := coinCode_fields coin.nHeight coin.fCoinBase coin.fCoinStake
  rw [Coin.serialize, List.append_assoc, Coin.unserialize, readVarInt_writeVarInt hle]
  simp only [Option.bind_eq_bind, Option.bind_some]
  rw [unserializeCompressedTxOut_serialize codec hvalue hs rest]
  simp only [Option.bind_some, hcb, hcs, hh]
  rfl

theorem txInUndoUnserialize_serialize (codec : PubKeyCodec) {coin : Coin}
    (hvalue : Compressible coin.out.nValue) (hs : coin.out.scriptPubKey.length ≤ maxScriptSize)
    (rest : List UInt8) :
    txInUndoUnserialize codec.decompress (txInUndoSerialize codec.isFullyValid coin ++ rest) =
      some (coin, rest) := by
  obtain ⟨hle, hcb, hcs, hh⟩ := coinCode_fields coin.nHeight coin.fCoinBase coin.fCoinStake
  rw [txInUndoSerialize, Nat.add_right_comm _ (if coin.fCoinStake then 2 else 0), List.append_assoc,
    List.append_assoc, txInUndoUnserialize, readVarInt_writeVarInt hle]
  simp only [Option.bind_eq_bind, Option.bind_some, hh]
  -- the version byte of an old undo record is there exactly when the height is nonzero
  by_cases h0 : 0 < coin.nHeight.toNat
  · rw [if_pos h0, if_pos h0, List.singleton_append,
      show (0 : UInt8) :: (serializeCompressedTxOut codec.isFullyValid coin.out ++ rest) =
        writeVarInt 0 ++ (serializeCompressedTxOut codec.isFullyValid coin.out ++ rest) from rfl,
      readVarInt_writeVarInt (by unfold uint32Max; omega)]
    simp only [Option.map_some, Option.bind_some]
    rw [unserializeCompressedTxOut_serialize codec hvalue hs rest]
    simp only [Option.bind_some, Option.pure_def, hcb, hcs]
  · rw [if_neg h0, if_neg h0, List.nil_append]
    simp only [Option.pure_def, Option.bind_some]
    rw [unserializeCompressedTxOut_serialize codec hvalue hs rest]
    simp only [Option.bind_some, hcb, hcs]

/-- A coin whose amount the compact forms hold reads back from the coins
database and from an undo record as it was written, and its amount
decompresses to itself. -/
theorem unserialize_compressed_coin (codec : PubKeyCodec) {coin : Coin}
    (hvalue : Compressible coin.out.nValue) (hs : coin.out.scriptPubKey.length ≤ maxScriptSize)
    (rest : List UInt8) :
    Coin.unserialize codec.decompress (coin.serialize codec.isFullyValid ++ rest) =
        some (coin, rest) ∧
      txInUndoUnserialize codec.decompress (txInUndoSerialize codec.isFullyValid coin ++ rest) =
        some (coin, rest) ∧
      decompressAmount (compressAmount (UInt64.ofInt coin.out.nValue)) =
        UInt64.ofInt coin.out.nValue := by
  obtain ⟨v, hv, hv3, hvc⟩ := exists_nat_of_compressible hvalue
  have hu : (UInt64.ofInt coin.out.nValue).toNat = v := by
    rw [hv]
    simp only [UInt64.ofInt, UInt64.toNat_ofNat']
    omega
  exact ⟨Coin.unserialize_serialize codec hvalue hs rest,
    txInUndoUnserialize_serialize codec hvalue hs rest,
    decompressAmount_compressAmount (by rw [hu]; exact hvc)⟩

/-- A key codec under which no uncompressed key is fully valid. -/
def PubKeyCodec.noValidKeys : PubKeyCodec :=
  ⟨fun _ => false, fun _ => none, fun _ _ _ h => Bool.false_ne_true h |>.elim⟩

/-- A coinbase coin of 50 coins to a key hash, at height 1000. -/
def sampleCompressedCoin : Coin :=
  ⟨⟨5000000000, [opDup, opHash160, 20] ++ List.replicate 20 0 ++ [opEqualVerify, opCheckSig]⟩,
    true, false, 1000⟩

theorem unserialize_compressed_coin_payToPubKeyHash :
    Compressible sampleCompressedCoin.out.nValue ∧
      sampleCompressedCoin.out.scriptPubKey.length ≤ maxScriptSize ∧
      (Coin.unserialize PubKeyCodec.noValidKeys.decompress
          (sampleCompressedCoin.serialize PubKeyCodec.noValidKeys.isFullyValid ++ []) =
          some (sampleCompressedCoin, []) ∧
        txInUndoUnserialize PubKeyCodec.noValidKeys.decompress
            (txInUndoSerialize PubKeyCodec.noValidKeys.isFullyValid sampleCompressedCoin ++ []) =
          some (sampleCompressedCoin, []) ∧
        decompressAmount (compressAmount (UInt64.ofInt sampleCompressedCoin.out.nValue)) =
          UInt64.ofInt sampleCompressedCoin.out.nValue) :=
  ⟨by decide, by decide,
    unserialize_compressed_coin PubKeyCodec.noValidKeys (by decide) (by decide) []⟩

/-- A coin of `2999999999999999999` base units, within the money range. -/
def wrappingCoin : Coin := ⟨⟨2999999999999999999, []⟩, false, false, 1000⟩

/-- `CompressAmount` wraps for that amount, and the coin reads back from the
coins database and from an undo record with 3544497917856887760 base units. -/
theorem unserialize_compressed_coin_wraps :
    moneyRange wrappingCoin.out.nValue ∧
      (Coin.unserialize PubKeyCodec.noValidKeys.decompress
          (wrappingCoin.serialize PubKeyCodec.noValidKeys.isFullyValid)).map
        (fun r => r.1.out.nValue) = some 3544497917856887760 ∧
      (txInUndoUnserialize PubKeyCodec.noValidKeys.decompress
          (txInUndoSerialize PubKeyCodec.noValidKeys.isFullyValid wrappingCoin)).map
        (fun r => r.1.out.nValue) = some 3544497917856887760 ∧
      decompressAmount (compressAmount 2999999999999999999) = 3544497917856887760 := by
  refine ⟨by decide, ?_, ?_, ?_⟩ <;> decide

end Metrix
