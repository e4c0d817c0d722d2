import Metrix.Script.Standard

/-! Stream encodings of `serialize.h`: the compact size that prefixes a
vector or a script on the wire and on disk, a script read from a byte
vector (`CDataStream(v) >> script`), and the `VARINT` of the coins database
and the undo files, seven bits a byte from the most significant, each digit
but the last one less than it would be in plain base 128. -/

namespace Metrix

/-- `MAX_SIZE`, which Metrix raises to 256 MiB. -/
def maxSize : ℕ := 0x10000000

/-- `WriteCompactSize`. -/
def writeCompactSize (n : ℕ) : List UInt8 :=
  if n < 253 then [n.toUInt8]
  else if n ≤ 0xffff then 253 :: leBytes 2 n
  else if n ≤ 0xffffffff then 254 :: leBytes 4 n
  else 255 :: leBytes 8 n

/-- `GetSizeOfCompactSize`. -/
def getSizeOfCompactSize (n : ℕ) : ℕ :=
  if n < 253 then 1
  else if n ≤ 0xffff then 3
  else if n ≤ 0xffffffff then 5
  else 9

/-- `ReadCompactSize`: the size and the rest of the stream; `none` where it
throws, at the end of the data, for a non-canonical encoding or a size above
`MAX_SIZE`. -/
def readCompactSize : List UInt8 → Option (ℕ × List UInt8)
  | [] => none
  | chSize :: rest =>
      if chSize < 253 then some (chSize.toNat, rest)
      else
        let width := if chSize = 253 then 2 else if chSize = 254 then 4 else 8
        let least := if chSize = 253 then 253 else if chSize = 254 then 0x10000 else 0x100000000
        if rest.length < width then none
        else
          let n := readLE (rest.take width)
          if n < least ∨ maxSize < n then none else some (n, rest.drop width)

/-- `CDataStream(v) >> script`: a compact size, then that many bytes; what
follows them is not read. -/
def deserializeScript (v : List UInt8) : Option CScript := do
  let (n, rest) ← readCompactSize v
  if rest.length < n then none else some (rest.take n)

/-- `CDataStream << script`. -/
def serializeScript (s : CScript) : List UInt8 :=
  writeCompactSize s.length ++ s

theorem leBytes_readLE (b : List UInt8) : leBytes b.length (readLE b) = b := by
  induction b with
  | nil => rfl
  | cons x b ih =>
      have hx : x.toNat < 256 := UInt8.toNat_lt_size x
      have hxx : x.toNat.toUInt8 = x := UInt8.ofNat_toNat
      rw [List.length_cons, leBytes_succ, readLE,
        show (x.toNat + 256 * readLE b) % 256 = x.toNat by omega,
        show (x.toNat + 256 * readLE b) / 256 = readLE b by omega, ih, hxx]

theorem readLE_lt (b : List UInt8) : readLE b < 256 ^ b.length := by
  induction b with
  | nil => simp [readLE]
  | cons x b ih =>
      have hx : x.toNat < 256 := UInt8.toNat_lt_size x
      rw [readLE, List.length_cons, Nat.pow_succ]
      omega

/-- A marker byte and its width of size bytes: the size is read from them
alone, and kept when it needs that width and is at most `MAX_SIZE`. -/
theorem readCompactSize_wide {marker : UInt8} (w least : ℕ) (hm : ¬marker < 253)
    (hw : (if marker = 253 then 2 else if marker = 254 then 4 else 8) = w)
    (hleast : (if marker = 253 then 253 else if marker = 254 then 0x10000 else 0x100000000) = least)
    {n : ℕ} (hn : n < 256 ^ w) (rest : List UInt8) :
    readCompactSize (marker :: leBytes w n ++ rest) =
      if n < least ∨ maxSize < n then none else some (n, rest) := by
  rw [List.cons_append, readCompactSize, if_neg hm]
  dsimp only
  rw [hw, hleast, if_neg (by simp), List.take_left' (length_leBytes w n),
    List.drop_left' (length_leBytes w n), readLE_leBytes hn]

theorem readCompactSize_write {n : ℕ} (hn : n ≤ maxSize) (rest : List UInt8) :
    readCompactSize (writeCompactSize n ++ rest) = some (n, rest) := by
  unfold maxSize at hn
  unfold writeCompactSize
  by_cases h1 : n < 253
  · have hlen : n.toUInt8.toNat = n := toNat_toUInt8_of_lt (by omega)
    have hsmall : n.toUInt8 < 253 := by
      rw [UInt8.lt_iff_toNat_lt, hlen]
      exact h1
    simp [readCompactSize, h1, hsmall, hlen]
  -- the wide forms: a marker byte, then the size in two or four bytes
  by_cases h2 : n ≤ 0xffff
  · rw [if_neg h1, if_pos h2,
      readCompactSize_wide 2 253 (by decide) (by decide) (by decide) (by omega),
      if_neg (by unfold maxSize; omega)]
  · rw [if_neg h1, if_neg h2, if_pos (by omega),
      readCompactSize_wide 4 0x10000 (by decide) (by decide) (by decide) (by omega),
      if_neg (by unfold maxSize; omega)]

theorem length_writeCompactSize (n : ℕ) : (writeCompactSize n).length = getSizeOfCompactSize n := by
  unfold writeCompactSize getSizeOfCompactSize
  split_ifs <;> simp

/-- `ReadCompactSize` accepts only what `WriteCompactSize` writes, and only up
to `MAX_SIZE`. -/
theorem readCompactSize_canonical {s rest : List UInt8} {n : ℕ}
    (h : readCompactSize s = some (n, rest)) : n ≤ maxSize ∧ s = writeCompactSize n ++ rest := by
  cases s with
  | nil => cases h
  | cons chSize tail =>
      by_cases hsmall : chSize < 253
      · rw [readCompactSize, if_pos hsmall] at h
        obtain ⟨rfl, rfl⟩ : chSize.toNat = n ∧ tail = rest := by simpa using h
        have hlt : chSize.toNat < 253 := UInt8.lt_iff_toNat_lt.mp hsmall
        refine ⟨by unfold maxSize; omega, ?_⟩
        have hxx : chSize.toNat.toUInt8 = chSize := UInt8.ofNat_toNat
        rw [writeCompactSize, if_pos hlt, hxx]
        rfl
      · rw [readCompactSize, if_neg hsmall] at h
        dsimp only at h
        generalize hw : (if chSize = 253 then 2 else if chSize = 254 then 4 else 8) = w at h
        generalize hleast : (if chSize = 253 then 253 else if chSize = 254 then 0x10000
          else 0x100000000) = least at h
        split_ifs at h with hshort hrange
        obtain ⟨rfl, rfl⟩ : readLE (tail.take w) = n ∧ tail.drop w = rest := by simpa using h
        have hlen : (tail.take w).length = w := List.length_take_of_le (by omega)
        have hbytes : tail.take w = leBytes w (readLE (tail.take w)) := by
          conv_lhs => rw [← leBytes_readLE (tail.take w), hlen]
        have hhi : readLE (tail.take w) < 256 ^ w := by
          have := readLE_lt (tail.take w)
          rwa [hlen] at this
        have hs : chSize :: tail = chSize :: leBytes w (readLE (tail.take w)) ++ tail.drop w := by
          rw [List.cons_append, ← hbytes, List.take_append_drop]
        refine ⟨by omega, ?_⟩
        rw [hs]
        congr 1
        -- the marker is the one `WriteCompactSize` picks for the size read
        unfold writeCompactSize
        unfold maxSize at hrange
        by_cases h253 : chSize = 253
        · subst h253
          simp only [if_true] at hw hleast
          subst hw hleast
          rw [if_neg (by omega), if_pos (by omega)]
        · by_cases h254 : chSize = 254
          · subst h254
            simp only [h253, if_false, if_true] at hw hleast
            subst hw hleast
            rw [if_neg (by omega), if_neg (by omega), if_pos (by omega)]
          · simp only [h253, h254, if_false] at hleast
            omega

/-- `CompactSize` is canonical: the sizes up to `MAX_SIZE` read back from
the `GetSizeOfCompactSize(n)` bytes written for them; an accepted encoding is
the one written for its size; larger sizes and encodings wider than their size
needs are refused. -/
theorem compactSize_canonical :
    (∀ n ≤ maxSize, ∀ rest, readCompactSize (writeCompactSize n ++ rest) = some (n, rest) ∧
      (writeCompactSize n).length = getSizeOfCompactSize n) ∧
    (∀ s n rest, readCompactSize s = some (n, rest) → s = writeCompactSize n ++ rest) ∧
    (∀ n, maxSize < n → n < 2 ^ 64 → ∀ rest, readCompactSize (writeCompactSize n ++ rest) = none) ∧
    (∀ marker w, (marker, w) ∈ [((253 : UInt8), 2), (254, 4), (255, 8)] →
      ∀ n < 256 ^ w, 1 + w ≠ getSizeOfCompactSize n →
        ∀ rest, readCompactSize (marker :: leBytes w n ++ rest) = none) := by
  refine ⟨fun n hn rest => ⟨readCompactSize_write hn rest, length_writeCompactSize n⟩,
    fun s n rest h => (readCompactSize_canonical h).2, fun n hn h64 rest => ?_, ?_⟩
  · -- a size above `MAX_SIZE` is written in four or eight bytes, and refused
    have hbig : ¬n ≤ 0xffff := by unfold maxSize at hn; omega
    unfold writeCompactSize
    rw [if_neg (by omega), if_neg hbig]
    split_ifs with h4
    · rw [readCompactSize_wide 4 0x10000 (by decide) (by decide) (by decide) (by omega),
        if_pos (.inr hn)]
    · rw [readCompactSize_wide 8 0x100000000 (by decide) (by decide) (by decide) (by omega),
        if_pos (.inr hn)]
  · -- a wider form than the size needs is below the least size of its marker
    intro marker w hmw n hn hsize rest
    simp only [List.mem_cons, Prod.mk.injEq, List.not_mem_nil, or_false] at hmw
    unfold getSizeOfCompactSize at hsize
    rcases hmw with ⟨rfl, rfl⟩ | ⟨rfl, rfl⟩ | ⟨rfl, rfl⟩
    · rw [readCompactSize_wide 2 253 (by decide) (by decide) (by decide) hn]
      split_ifs at hsize ⊢ <;> first | rfl | omega
    · rw [readCompactSize_wide 4 0x10000 (by decide) (by decide) (by decide) hn]
      split_ifs at hsize ⊢ <;> first | rfl | omega
    · rw [readCompactSize_wide 8 0x100000000 (by decide) (by decide) (by decide) hn]
      split_ifs at hsize ⊢ <;> first | rfl | omega

/-! ## VARINT -/

/-- `tmp[len]` of `WriteVarInt`: `(n & 0x7F) | (len ? 0x80 : 0x00)`, that is
the low seven bits of `n` with the high bit set on every byte but the last. -/
def varIntByte (n : ℕ) (more : Bool) : UInt8 := (n % 128 + if more then 128 else 0).toUInt8

/-- The loop of `WriteVarInt`: `acc` holds the bytes `tmp[len-1] .. tmp[0]`
taken so far, and the bytes go out from `tmp[len]` down. `n` falls at every
step, so `fuel` above `n` is enough. -/
def writeVarIntLoop : ℕ → ℕ → Bool → List UInt8 → List UInt8
  | 0, _, _, acc => acc
  | fuel + 1, n, more, acc =>
      if n ≤ 0x7f then varIntByte n more :: acc
      else writeVarIntLoop fuel (n / 128 - 1) true (varIntByte n more :: acc)

/-- `WriteVarInt`. -/
def writeVarInt (n : ℕ) : List UInt8 := writeVarIntLoop (n + 1) n false []

/-- The loop of `GetSizeOfVarInt`, with the fuel of `writeVarIntLoop`. -/
def getSizeOfVarIntLoop : ℕ → ℕ → ℕ
  | 0, _ => 0
  | fuel + 1, n => if n ≤ 0x7f then 1 else 1 + getSizeOfVarIntLoop fuel (n / 128 - 1)

/-- `GetSizeOfVarInt`. -/
def getSizeOfVarInt (n : ℕ) : ℕ := getSizeOfVarIntLoop (n + 1) n

/-- The loop of `ReadVarInt` into an unsigned type whose largest value is
`maxI`, from the value `n` read so far; `none` where it throws, at the end of
the data or for a value the type cannot hold. Below `maxI >> 7` the shift
`n << 7` does not wrap, and `| (chData & 0x7F)` adds the low bits. -/
def readVarIntLoop (maxI : ℕ) : ℕ → List UInt8 → Option (ℕ × List UInt8)
  | _, [] => none
  | n, chData :: rest =>
      if maxI / 128 < n then none
      else
        let n := n * 128 + chData.toNat % 128
        if 128 ≤ chData.toNat then
          if n = maxI then none else readVarIntLoop maxI (n + 1) rest
        else some (n, rest)

/-- `ReadVarInt`. -/
def readVarInt (maxI : ℕ) (s : List UInt8) : Option (ℕ × List UInt8) := readVarIntLoop maxI 0 s

/-- The largest `unsigned int` and `uint32_t`. -/
def uint32Max : ℕ := 2 ^ 32 - 1

/-- The largest `uint64_t`. -/
def uint64Max : ℕ := 2 ^ 64 - 1

theorem toNat_varIntByte (n : ℕ) (more : Bool) :
    (varIntByte n more).toNat = n % 128 + if more then 128 else 0 := by
  have : n % 128 < 128 := Nat.mod_lt _ (by omega)
  cases more
  · simp [varIntByte]
    omega
  · simp [varIntByte]
    omega

theorem writeVarInt_of_lt {n : ℕ} (h : n < 128) : writeVarInt n = [n.toUInt8] := by
  rw [writeVarInt, writeVarIntLoop, if_pos (by omega), varIntByte]
  simp [Nat.mod_eq_of_lt h]

/-- Reading one byte written for `n` onto the value `k` read so far. -/
theorem readVarIntLoop_varIntByte {maxI k n : ℕ} (hk : k ≤ maxI / 128) (more : Bool)
    (s : List UInt8) :
    readVarIntLoop maxI k (varIntByte n more :: s) =
      if more then (if k * 128 + n % 128 = maxI then none
        else readVarIntLoop maxI (k * 128 + n % 128 + 1) s)
      else some (k * 128 + n % 128, s) := by
  have hlt : n % 128 < 128 := Nat.mod_lt _ (by omega)
  rw [readVarIntLoop, if_neg (by omega)]
  cases more
  · simp [toNat_varIntByte]
    omega
  · simp [toNat_varIntByte]

/-- The bytes that `WriteVarInt` writes above its last one read back as the
value that the last byte is added to. -/
theorem readVarIntLoop_writeVarIntLoop {maxI : ℕ} (n : ℕ) :
    ∀ {fuel : ℕ} (acc rest : List UInt8), n < fuel → n < maxI →
      readVarIntLoop maxI 0 (writeVarIntLoop fuel n true acc ++ rest) =
        readVarIntLoop maxI (n + 1) (acc ++ rest) := by
  induction n using Nat.strongRecOn with
  | ind n ih =>
    intro fuel acc rest hfuel hmax
    obtain ⟨fuel, rfl⟩ : ∃ f, fuel = f + 1 := ⟨fuel - 1, by omega⟩
    by_cases hsmall : n ≤ 0x7f
    · rw [writeVarIntLoop, if_pos hsmall, List.cons_append,
        readVarIntLoop_varIntByte (Nat.zero_le _)]
      simp only [Nat.zero_mul, Nat.zero_add, Nat.mod_eq_of_lt (show n < 128 by omega), if_true,
        if_neg (Nat.ne_of_lt hmax)]
    · rw [writeVarIntLoop, if_neg hsmall, ih (n / 128 - 1) (by omega) _ _ (by omega) (by omega),
        List.cons_append, Nat.sub_add_cancel (by omega),
        readVarIntLoop_varIntByte (Nat.div_le_div_right (by omega)), Nat.div_add_mod' n 128]
      simp only [if_true, if_neg (Nat.ne_of_lt hmax)]

/-- A `VARINT` reads back from what `WriteVarInt` writes for every value the
type holds, and the rest of the stream is left as it was. -/
theorem readVarInt_writeVarInt {maxI n : ℕ} (hn : n ≤ maxI) (rest : List UInt8) :
    readVarInt maxI (writeVarInt n ++ rest) = some (n, rest) := by
  rw [readVarInt, writeVarInt]
  by_cases hsmall : n ≤ 0x7f
  · rw [writeVarIntLoop, if_pos hsmall, List.cons_append,
      readVarIntLoop_varIntByte (Nat.zero_le _)]
    simp [Nat.mod_eq_of_lt (show n < 128 by omega)]
  · rw [writeVarIntLoop, if_neg hsmall, readVarIntLoop_writeVarIntLoop _ _ _ (by omega) (by omega),
      List.singleton_append, Nat.sub_add_cancel (by omega),
      readVarIntLoop_varIntByte (Nat.div_le_div_right hn), Nat.div_add_mod' n 128]
    simp

/-! ## Every accepted `VARINT` is the one written -/

theorem length_writeVarIntLoop (fuel : ℕ) :
    ∀ (n : ℕ) (more : Bool) (acc : List UInt8),
      (writeVarIntLoop fuel n more acc).length = getSizeOfVarIntLoop fuel n + acc.length := by
  induction fuel with
  | zero => intro n more acc; simp [writeVarIntLoop, getSizeOfVarIntLoop]
  | succ fuel ih =>
      intro n more acc
      by_cases hsmall : n ≤ 0x7f
      · simp [writeVarIntLoop, getSizeOfVarIntLoop, hsmall]
        omega
      · rw [writeVarIntLoop, getSizeOfVarIntLoop, if_neg hsmall, if_neg hsmall, ih]
        simp only [List.length_cons]
        omega

theorem length_writeVarInt (n : ℕ) : (writeVarInt n).length = getSizeOfVarInt n := by
  simp [writeVarInt, getSizeOfVarInt, length_writeVarIntLoop]

/-- The bytes already taken are only carried along. -/
theorem writeVarIntLoop_append (fuel : ℕ) :
    ∀ (n : ℕ) (more : Bool) (acc : List UInt8),
      writeVarIntLoop fuel n more acc = writeVarIntLoop fuel n more [] ++ acc := by
  induction fuel with
  | zero => intro n more acc; rfl
  | succ fuel ih =>
      intro n more acc
      by_cases hsmall : n ≤ 0x7f
      · simp [writeVarIntLoop, hsmall]
      · rw [writeVarIntLoop, writeVarIntLoop, if_neg hsmall, if_neg hsmall, ih, ih _ _ [_]]
        simp

/-- Fuel above the value is enough: more changes nothing. -/
theorem writeVarIntLoop_fuel {fuel fuel' n : ℕ} (h : n < fuel) (h' : n < fuel') (more : Bool)
    (acc : List UInt8) : writeVarIntLoop fuel n more acc = writeVarIntLoop fuel' n more acc := by
  induction fuel generalizing fuel' n more acc with
  | zero => omega
  | succ fuel ih =>
      obtain ⟨fuel', rfl⟩ : ∃ f, fuel' = f + 1 := ⟨fuel' - 1, by omega⟩
      by_cases hsmall : n ≤ 0x7f
      · simp [writeVarIntLoop, hsmall]
      · rw [writeVarIntLoop, writeVarIntLoop, if_neg hsmall, if_neg hsmall,
          @ih fuel' (n / 128 - 1) (by omega) (by omega)]

/-- The bytes that `WriteVarInt` writes before the last one for a value whose
leading digits read as `k`, `ReadVarInt`'s value when it reaches the last
byte. -/
def varIntPrefix (k : ℕ) : List UInt8 := if k = 0 then [] else writeVarIntLoop k (k - 1) true []

theorem varIntPrefix_succ (m : ℕ) :
    varIntPrefix (m + 1) = varIntPrefix (m / 128) ++ [varIntByte m true] := by
  rw [varIntPrefix, if_neg (by omega), Nat.add_sub_cancel, writeVarIntLoop]
  by_cases hsmall : m ≤ 0x7f
  · rw [if_pos hsmall, varIntPrefix, if_pos (by omega)]
    rfl
  · rw [if_neg hsmall, writeVarIntLoop_append, varIntPrefix, if_neg (by omega),
      writeVarIntLoop_fuel (by omega) (show m / 128 - 1 < m / 128 by omega)]

theorem writeVarInt_eq_varIntPrefix (n : ℕ) :
    writeVarInt n = varIntPrefix (n / 128) ++ [varIntByte n false] := by
  rw [writeVarInt, writeVarIntLoop]
  by_cases hsmall : n ≤ 0x7f
  · rw [if_pos hsmall, varIntPrefix, if_pos (by omega)]
    rfl
  · rw [if_neg hsmall, writeVarIntLoop_append, varIntPrefix, if_neg (by omega),
      writeVarIntLoop_fuel (by omega) (show n / 128 - 1 < n / 128 by omega)]

/-- The byte read onto the value `k` is the one written for the value it
makes. -/
theorem varIntByte_digit (k : ℕ) (b : UInt8) :
    varIntByte (k * 128 + b.toNat % 128) (decide (128 ≤ b.toNat)) = b := by
  apply UInt8.toNat_inj.mp
  have hb : b.toNat < 256 := UInt8.toNat_lt_size b
  rw [toNat_varIntByte]
  by_cases hhigh : 128 ≤ b.toNat
  · simp only [hhigh, decide_true, if_true]
    omega
  · simp only [hhigh, decide_false, Bool.false_eq_true, if_false]
    omega

/-- Reading from the value `k` accepts only the rest of a `VARINT` whose
leading digits make `k`. -/
theorem readVarIntLoop_canonical {maxI : ℕ} (s : List UInt8) :
    ∀ {k n : ℕ} {rest : List UInt8}, readVarIntLoop maxI k s = some (n, rest) →
      varIntPrefix k ++ s = writeVarInt n ++ rest := by
  induction s with
  | nil => intro k n rest h; cases h
  | cons b s ih =>
      intro k n rest h
      rw [readVarIntLoop] at h
      dsimp only at h
      split_ifs at h with hguard hmore
      · -- a continuation byte: the prefix grows by it
        have hdigit := varIntByte_digit k b
        rw [decide_eq_true hmore] at hdigit
        have hfront : varIntPrefix (k * 128 + b.toNat % 128 + 1) = varIntPrefix k ++ [b] := by
          rw [varIntPrefix_succ, hdigit,
            show (k * 128 + b.toNat % 128) / 128 = k by omega]
        rw [← ih h, hfront, List.append_assoc, List.singleton_append]
      · -- the last byte
        obtain ⟨rfl, rfl⟩ : k * 128 + b.toNat % 128 = n ∧ s = rest := by simpa using h
        have hdigit := varIntByte_digit k b
        rw [decide_eq_false hmore] at hdigit
        rw [writeVarInt_eq_varIntPrefix, hdigit, show (k * 128 + b.toNat % 128) / 128 = k by omega,
          List.append_assoc, List.singleton_append]

/-- Reading the bytes before the last one either throws or reaches the value
their digits make. -/
theorem readVarIntLoop_varIntPrefix {maxI : ℕ} (k : ℕ) (s : List UInt8) :
    readVarIntLoop maxI 0 (varIntPrefix k ++ s) = none ∨
      readVarIntLoop maxI 0 (varIntPrefix k ++ s) = readVarIntLoop maxI k s := by
  induction k using Nat.strongRecOn generalizing s with
  | ind k ih =>
    cases k with
    | zero => exact .inr (by simp [varIntPrefix])
    | succ m =>
        rw [varIntPrefix_succ, List.append_assoc, List.singleton_append]
        rcases ih (m / 128) (by omega) (varIntByte m true :: s) with hnone | hread
        · exact .inl hnone
        rw [hread]
        by_cases hguard : m / 128 ≤ maxI / 128
        · rw [readVarIntLoop_varIntByte hguard, if_pos rfl, Nat.div_add_mod' m 128]
          split_ifs
          · exact .inl rfl
          · exact .inr rfl
        · left
          rw [readVarIntLoop, if_pos (by omega)]

/-- `VARINT` is a bijection for every integer type of at least seven value
bits, whose largest value is `2^k - 1`: each value the type holds reads back
from the `GetSizeOfVarInt(n)` bytes written for it; an accepted stream is the
one written for its value; and the written value is refused exactly when the
type cannot hold it. -/
theorem varInt_bijective (k : ℕ) (hk : 7 ≤ k) :
    (∀ n ≤ 2 ^ k - 1, ∀ rest, readVarInt (2 ^ k - 1) (writeVarInt n ++ rest) = some (n, rest) ∧
      (writeVarInt n).length = getSizeOfVarInt n) ∧
    (∀ s n rest, readVarInt (2 ^ k - 1) s = some (n, rest) → s = writeVarInt n ++ rest) ∧
    (∀ n rest, readVarInt (2 ^ k - 1) (writeVarInt n ++ rest) = none ↔ 2 ^ k - 1 < n) := by
  have h128 : (2 ^ k - 1) % 128 = 127 := by
    obtain ⟨j, rfl⟩ : ∃ j, k = j + 7 := ⟨k - 7, by omega⟩
    have hpos : 0 < 2 ^ j := Nat.two_pow_pos j
    rw [Nat.pow_add]
    omega
  refine ⟨fun n hn rest => ⟨readVarInt_writeVarInt hn rest, length_writeVarInt n⟩,
    fun s n rest h => by simpa [varIntPrefix] using readVarIntLoop_canonical s h, fun n rest => ?_⟩
  constructor
  · intro hnone
    by_contra hle
    rw [readVarInt_writeVarInt (by omega)] at hnone
    cases hnone
  · intro hgt
    -- the last byte is read onto a value above `maxI >> 7`
    rw [readVarInt, writeVarInt_eq_varIntPrefix, List.append_assoc, List.singleton_append]
    rcases readVarIntLoop_varIntPrefix (n / 128) (varIntByte n false :: rest) with hnone | hread
    · exact hnone
    · rw [hread, readVarIntLoop, if_pos (by omega)]

theorem varInt_bijective_uint64 :
    7 ≤ 64 ∧
      ((∀ n ≤ 2 ^ 64 - 1, ∀ rest,
          readVarInt (2 ^ 64 - 1) (writeVarInt n ++ rest) = some (n, rest) ∧
            (writeVarInt n).length = getSizeOfVarInt n) ∧
        (∀ s n rest, readVarInt (2 ^ 64 - 1) s = some (n, rest) → s = writeVarInt n ++ rest) ∧
        (∀ n rest, readVarInt (2 ^ 64 - 1) (writeVarInt n ++ rest) = none ↔ 2 ^ 64 - 1 < n)) :=
  ⟨by decide, varInt_bijective 64 (by decide)⟩

end Metrix
