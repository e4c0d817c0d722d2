import Metrix.Lib.Radix
import Metrix.Util.Money

/-! Base58 (`base58.cpp`). `EncodeBase58` writes the leading zero bytes as
`1`s and the rest of the bytes, read as a big-endian number, in base 58;
`DecodeBase58` undoes it. Both keep the number in a fixed-size buffer of
digits of the target base, of `n * 733 / 1000 + 1` bytes for `n` base58
digits and `n * 138 / 100 + 1` base58 digits for `n` bytes, and end with
`assert(carry == 0)` after each digit. Strings are their bytes, the end of the
list standing for the terminating `NUL`; the buffers are held least
significant digit first, the order their reverse iterators visit them, and
the `int` sizes and counters are natural numbers. -/

namespace Metrix

open Radix
open Nat (ofDigits digits)

/-- `pszBase58`: all alphanumeric characters except `0`, `I`, `O` and `l`. -/
def pszBase58 : List UInt8 :=
  ['1', '2', '3', '4', '5', '6', '7', '8', '9', 'A', 'B', 'C', 'D', 'E', 'F', 'G',
    'H', 'J', 'K', 'L', 'M', 'N', 'P', 'Q', 'R', 'S', 'T', 'U', 'V', 'W', 'X', 'Y',
    'Z', 'a', 'b', 'c', 'd', 'e', 'f', 'g', 'h', 'i', 'j', 'k', 'm', 'n', 'o', 'p',
    'q', 'r', 's', 't', 'u', 'v', 'w', 'x', 'y', 'z'].map Char.toUInt8

/-- `mapBase58`, indexed by a byte; `-1` marks a byte outside the alphabet. -/
def mapBase58 : List ℤ :=
  -- each `-1` is typed: left to inference, they take seconds to elaborate
  [(-1 : ℤ), (-1 : ℤ), (-1 : ℤ), (-1 : ℤ), (-1 : ℤ), (-1 : ℤ), (-1 : ℤ), (-1 : ℤ),
    (-1 : ℤ), (-1 : ℤ), (-1 : ℤ), (-1 : ℤ), (-1 : ℤ), (-1 : ℤ), (-1 : ℤ), (-1 : ℤ),
    (-1 : ℤ), (-1 : ℤ), (-1 : ℤ), (-1 : ℤ), (-1 : ℤ), (-1 : ℤ), (-1 : ℤ), (-1 : ℤ),
    (-1 : ℤ), (-1 : ℤ), (-1 : ℤ), (-1 : ℤ), (-1 : ℤ), (-1 : ℤ), (-1 : ℤ), (-1 : ℤ),
    (-1 : ℤ), (-1 : ℤ), (-1 : ℤ), (-1 : ℤ), (-1 : ℤ), (-1 : ℤ), (-1 : ℤ), (-1 : ℤ),
    (-1 : ℤ), (-1 : ℤ), (-1 : ℤ), (-1 : ℤ), (-1 : ℤ), (-1 : ℤ), (-1 : ℤ), (-1 : ℤ),
    (-1 : ℤ), 0, 1, 2, 3, 4, 5, 6,
    7, 8, (-1 : ℤ), (-1 : ℤ), (-1 : ℤ), (-1 : ℤ), (-1 : ℤ), (-1 : ℤ),
    (-1 : ℤ), 9, 10, 11, 12, 13, 14, 15,
    16, (-1 : ℤ), 17, 18, 19, 20, 21, (-1 : ℤ),
    22, 23, 24, 25, 26, 27, 28, 29,
    30, 31, 32, (-1 : ℤ), (-1 : ℤ), (-1 : ℤ), (-1 : ℤ), (-1 : ℤ),
    (-1 : ℤ), 33, 34, 35, 36, 37, 38, 39,
    40, 41, 42, 43, (-1 : ℤ), 44, 45, 46,
    47, 48, 49, 50, 51, 52, 53, 54,
    55, 56, 57, (-1 : ℤ), (-1 : ℤ), (-1 : ℤ), (-1 : ℤ), (-1 : ℤ),
    (-1 : ℤ), (-1 : ℤ), (-1 : ℤ), (-1 : ℤ), (-1 : ℤ), (-1 : ℤ), (-1 : ℤ), (-1 : ℤ),
    (-1 : ℤ), (-1 : ℤ), (-1 : ℤ), (-1 : ℤ), (-1 : ℤ), (-1 : ℤ), (-1 : ℤ), (-1 : ℤ),
    (-1 : ℤ), (-1 : ℤ), (-1 : ℤ), (-1 : ℤ), (-1 : ℤ), (-1 : ℤ), (-1 : ℤ), (-1 : ℤ),
    (-1 : ℤ), (-1 : ℤ), (-1 : ℤ), (-1 : ℤ), (-1 : ℤ), (-1 : ℤ), (-1 : ℤ), (-1 : ℤ),
    (-1 : ℤ), (-1 : ℤ), (-1 : ℤ), (-1 : ℤ), (-1 : ℤ), (-1 : ℤ), (-1 : ℤ), (-1 : ℤ),
    (-1 : ℤ), (-1 : ℤ), (-1 : ℤ), (-1 : ℤ), (-1 : ℤ), (-1 : ℤ), (-1 : ℤ), (-1 : ℤ),
    (-1 : ℤ), (-1 : ℤ), (-1 : ℤ), (-1 : ℤ), (-1 : ℤ), (-1 : ℤ), (-1 : ℤ), (-1 : ℤ),
    (-1 : ℤ), (-1 : ℤ), (-1 : ℤ), (-1 : ℤ), (-1 : ℤ), (-1 : ℤ), (-1 : ℤ), (-1 : ℤ),
    (-1 : ℤ), (-1 : ℤ), (-1 : ℤ), (-1 : ℤ), (-1 : ℤ), (-1 : ℤ), (-1 : ℤ), (-1 : ℤ),
    (-1 : ℤ), (-1 : ℤ), (-1 : ℤ), (-1 : ℤ), (-1 : ℤ), (-1 : ℤ), (-1 : ℤ), (-1 : ℤ),
    (-1 : ℤ), (-1 : ℤ), (-1 : ℤ), (-1 : ℤ), (-1 : ℤ), (-1 : ℤ), (-1 : ℤ), (-1 : ℤ),
    (-1 : ℤ), (-1 : ℤ), (-1 : ℤ), (-1 : ℤ), (-1 : ℤ), (-1 : ℤ), (-1 : ℤ), (-1 : ℤ),
    (-1 : ℤ), (-1 : ℤ), (-1 : ℤ), (-1 : ℤ), (-1 : ℤ), (-1 : ℤ), (-1 : ℤ), (-1 : ℤ),
    (-1 : ℤ), (-1 : ℤ), (-1 : ℤ), (-1 : ℤ), (-1 : ℤ), (-1 : ℤ), (-1 : ℤ), (-1 : ℤ),
    (-1 : ℤ), (-1 : ℤ), (-1 : ℤ), (-1 : ℤ), (-1 : ℤ), (-1 : ℤ), (-1 : ℤ), (-1 : ℤ),
    (-1 : ℤ), (-1 : ℤ), (-1 : ℤ), (-1 : ℤ), (-1 : ℤ), (-1 : ℤ), (-1 : ℤ), (-1 : ℤ)]

/-- `IsSpace` of a byte. -/
def isSpaceByte (c : UInt8) : Bool := isSpace (Char.ofNat c.toNat)

/-- The character loop of `DecodeBase58`: each base58 digit runs
"b256 = b256 * 58 + digit" over the bytes of `b256`; the loop stops at the end
of the string or a space, and the call returns `false` at an invalid
character. -/
def decodeLoop : List ℕ → ℕ → List UInt8 → Except String (Option (List ℕ × ℕ × List UInt8))
  | b256, length, [] => .ok (some (b256, length, []))
  | b256, length, c :: psz =>
    if c == 0 || isSpaceByte c then .ok (some (b256, length, c :: psz))
    else
      let carry := mapBase58.getD c.toNat (-1)
      if carry == -1 then .ok none
      else
        let r := mulAddPass 256 58 length carry.toNat 0 b256
        if r.2.1 != 0 then .error "assert(carry == 0)" else decodeLoop r.1 r.2.2 psz

@[simp] theorem decodeLoop_nil (b256 : List ℕ) (length : ℕ) :
    decodeLoop b256 length [] = .ok (some (b256, length, [])) := rfl

theorem decodeLoop_cons (b256 : List ℕ) (length : ℕ) (c : UInt8) (psz : List UInt8) :
    decodeLoop b256 length (c :: psz) =
      if c == 0 || isSpaceByte c then .ok (some (b256, length, c :: psz))
      else if mapBase58.getD c.toNat (-1) == -1 then .ok none
      else if (mulAddPass 256 58 length (mapBase58.getD c.toNat (-1)).toNat 0 b256).2.1 != 0 then
        .error "assert(carry == 0)"
      else decodeLoop (mulAddPass 256 58 length (mapBase58.getD c.toNat (-1)).toNat 0 b256).1
        (mulAddPass 256 58 length (mapBase58.getD c.toNat (-1)).toNat 0 b256).2.2 psz := rfl

/-- `DecodeBase58`: `none` where the code returns `false`. -/
def decodeBase58 (psz : List UInt8) : Except String (Option (List UInt8)) :=
  let psz := psz.dropWhile (fun c => c != 0 && isSpaceByte c)
  let zeroes := (psz.takeWhile (· == '1'.toUInt8)).length
  let psz := psz.dropWhile (· == '1'.toUInt8)
  let size := (psz.takeWhile (· != 0)).length * 733 / 1000 + 1
  match decodeLoop (List.replicate size 0) 0 psz with
  | .error e => .error e
  | .ok none => .ok none
  | .ok (some (b256, length, psz)) =>
    if (psz.dropWhile isSpaceByte).headD 0 != 0 then .ok none
    else
      let digits := (b256.reverse.drop (size - length)).dropWhile (· == 0)
      .ok (some (List.replicate zeroes 0 ++ digits.map UInt8.ofNat))

/-- The byte loop of `EncodeBase58`: "b58 = b58 * 256 + ch" for each byte. -/
def encodeLoop : List ℕ → ℕ → List UInt8 → Except String (List ℕ × ℕ)
  | b58, length, [] => .ok (b58, length)
  | b58, length, c :: bytes =>
    let r := mulAddPass 58 256 length c.toNat 0 b58
    if r.2.1 != 0 then .error "assert(carry == 0)" else encodeLoop r.1 r.2.2 bytes

@[simp] theorem encodeLoop_nil (b58 : List ℕ) (length : ℕ) : encodeLoop b58 length [] = .ok (b58, length) := rfl

theorem encodeLoop_cons (b58 : List ℕ) (length : ℕ) (c : UInt8) (bytes : List UInt8) :
    encodeLoop b58 length (c :: bytes) =
      if (mulAddPass 58 256 length c.toNat 0 b58).2.1 != 0 then .error "assert(carry == 0)"
      else encodeLoop (mulAddPass 58 256 length c.toNat 0 b58).1 (mulAddPass 58 256 length c.toNat 0 b58).2.2
        bytes := rfl

/-- `EncodeBase58` of a byte vector. -/
def encodeBase58 (vch : List UInt8) : Except String (List UInt8) :=
  let zeroes := (vch.takeWhile (· == 0)).length
  let bytes := vch.dropWhile (· == 0)
  let size := bytes.length * 138 / 100 + 1
  match encodeLoop (List.replicate size 0) 0 bytes with
  | .error e => .error e
  | .ok (b58, length) =>
    let digits := (b58.reverse.drop (size - length)).dropWhile (· == 0)
    .ok (List.replicate zeroes '1'.toUInt8 ++ digits.map (pszBase58.getD · 0))

/-! ## The tables -/

@[simp] theorem length_pszBase58 : pszBase58.length = 58 := rfl

set_option maxRecDepth 8192 in
theorem mapBase58_pszBase58 : ∀ d < 58, mapBase58.getD (pszBase58.getD d 0).toNat (-1) = d := by
  decide

set_option maxRecDepth 8192 in
theorem pszBase58_eq_one_iff : ∀ d < 58, pszBase58.getD d 0 = '1'.toUInt8 ↔ d = 0 := by
  decide

set_option maxRecDepth 8192 in
theorem pszBase58_toNat_gt : ∀ d < 58, 32 < (pszBase58.getD d 0).toNat := by
  decide

theorem mem_pszBase58 {c : UInt8} (hc : c ∈ pszBase58) : ∃ d < 58, pszBase58.getD d 0 = c := by
  obtain ⟨d, hd, rfl⟩ := List.mem_iff_getElem.mp hc
  exact ⟨d, by rwa [length_pszBase58] at hd, List.getD_eq_getElem _ _ hd⟩

theorem pszBase58_getD_mem {d : ℕ} (hd : d < 58) : pszBase58.getD d 0 ∈ pszBase58 := by
  rw [List.getD_eq_getElem _ _ (by rw [length_pszBase58]; exact hd)]
  exact List.getElem_mem _

/-- `IsSpace` holds of no byte above the space character. -/
theorem isSpaceByte_eq_false {c : UInt8} (h : 32 < c.toNat) : isSpaceByte c = false := by
  have hc : (Char.ofNat c.toNat).toNat = c.toNat := by
    rw [Char.toNat_ofNat, if_pos (Or.inl (by have := c.toNat_lt; omega))]
  have hne : ∀ d : Char, d.toNat ≤ 32 → Char.ofNat c.toNat ≠ d := fun d hd he => by
    rw [he] at hc
    omega
  simp [isSpaceByte, isSpace, hne ' ' (by decide), hne '\x0c' (by decide), hne '\n' (by decide),
    hne '\r' (by decide), hne '\t' (by decide), hne '\x0b' (by decide)]

/-- A character of the alphabet is neither the terminator nor a space. -/
theorem ne_zero_of_mem_pszBase58 {c : UInt8} (hc : c ∈ pszBase58) : c ≠ 0 ∧ isSpaceByte c = false := by
  obtain ⟨d, hd, rfl⟩ := mem_pszBase58 hc
  have hgt := pszBase58_toNat_gt d hd
  refine ⟨fun h => ?_, isSpaceByte_eq_false hgt⟩
  rw [h] at hgt
  exact absurd hgt (by decide)

/-- The byte loop of `EncodeBase58` appends the bytes to the number in the
buffer as long as the result fits it. -/
theorem encodeLoop_spec {size : ℕ} (bytes : List UInt8) {length : ℕ} {b58 : List ℕ}
    (hbuf : Buffer 58 size length b58)
    (hfit : ofDigits 58 b58 * 256 ^ bytes.length + ofDigits 256 (bytes.map UInt8.toNat).reverse < 58 ^ size) :
    ∃ b58' length', encodeLoop b58 length bytes = .ok (b58', length') ∧ Buffer 58 size length' b58' ∧
      ofDigits 58 b58' = ofDigits 58 b58 * 256 ^ bytes.length + ofDigits 256 (bytes.map UInt8.toNat).reverse := by
  induction bytes generalizing length b58 with
  | nil => exact ⟨b58, length, rfl, hbuf, by simp⟩
  | cons c bytes ih =>
    have hsplit : ofDigits 58 b58 * 256 ^ (bytes.length + 1) +
        ofDigits 256 ((c :: bytes).map UInt8.toNat).reverse =
        (256 * ofDigits 58 b58 + c.toNat) * 256 ^ bytes.length + ofDigits 256 (bytes.map UInt8.toNat).reverse := by
      rw [List.map_cons, Nat.ofDigits_reverse_cons, List.length_map]
      ring
    rw [List.length_cons, hsplit] at hfit
    -- the number after this byte is at most the number after all of them
    have hstep : 256 * ofDigits 58 b58 + c.toNat < 58 ^ size :=
      lt_of_le_of_lt (le_trans (Nat.le_mul_of_pos_right _ (Nat.pow_pos (by norm_num))) (Nat.le_add_right _ _))
        hfit
    obtain ⟨hcarry, hbuf', hval⟩ := mulAddPass_buffer (by norm_num) hbuf hstep
    obtain ⟨b58', length', hrun, hbuf'', hval'⟩ := ih hbuf' (by rwa [hval])
    refine ⟨b58', length', ?_, hbuf'', ?_⟩
    · simp only [encodeLoop_cons, hcarry, bne_self_eq_false, Bool.false_eq_true, if_false]
      exact hrun
    · rw [hval', hval, List.length_cons, hsplit]

/-- The character loop of `DecodeBase58` over base58 digits up to a `NUL` or
a space appends the digits to the number in the buffer as long as the result
fits it. -/
theorem decodeLoop_digits {size : ℕ} (ds : List ℕ) (rest : List UInt8) (hds : ∀ d ∈ ds, d < 58)
    (hrest : (rest.headD 0 == 0 || isSpaceByte (rest.headD 0)) = true) {length : ℕ} {b256 : List ℕ}
    (hbuf : Buffer 256 size length b256)
    (hfit : ofDigits 256 b256 * 58 ^ ds.length + ofDigits 58 ds.reverse < 256 ^ size) :
    ∃ b256' length', decodeLoop b256 length (ds.map (pszBase58.getD · 0) ++ rest) =
        .ok (some (b256', length', rest)) ∧ Buffer 256 size length' b256' ∧
      ofDigits 256 b256' = ofDigits 256 b256 * 58 ^ ds.length + ofDigits 58 ds.reverse := by
  induction ds generalizing length b256 with
  | nil =>
    refine ⟨b256, length, ?_, hbuf, by simp⟩
    cases rest with
    | nil => rfl
    | cons c rest =>
      simp only [List.headD_cons] at hrest
      simp only [List.map_nil, List.nil_append, decodeLoop_cons, if_pos hrest]
  | cons d ds ih =>
    have hd : d < 58 := hds d (by simp)
    have hsplit : ofDigits 256 b256 * 58 ^ (ds.length + 1) + ofDigits 58 (d :: ds).reverse =
        (58 * ofDigits 256 b256 + d) * 58 ^ ds.length + ofDigits 58 ds.reverse := by
      rw [Nat.ofDigits_reverse_cons]
      ring
    rw [List.length_cons, hsplit] at hfit
    have hstep : 58 * ofDigits 256 b256 + d < 256 ^ size :=
      lt_of_le_of_lt (le_trans (Nat.le_mul_of_pos_right _ (Nat.pow_pos (by norm_num))) (Nat.le_add_right _ _))
        hfit
    obtain ⟨hcarry, hbuf', hval⟩ := mulAddPass_buffer (by norm_num) hbuf hstep
    obtain ⟨b256', length', hrun, hbuf'', hval'⟩ :=
      ih (fun x hx => hds x (List.mem_cons_of_mem d hx)) hbuf' (by rwa [hval])
    refine ⟨b256', length', ?_, hbuf'', ?_⟩
    · -- the character of the digit is neither a terminator nor invalid
      have hchar : (pszBase58.getD d 0 == 0 || isSpaceByte (pszBase58.getD d 0)) = false := by
        obtain ⟨hne, hspace⟩ := ne_zero_of_mem_pszBase58 (pszBase58_getD_mem hd)
        rw [hspace, Bool.or_false, beq_eq_false_iff_ne]
        exact hne
      have hmap : mapBase58.getD (pszBase58.getD d 0).toNat (-1) = d := mapBase58_pszBase58 d hd
      have hvalid : ((d : ℤ) == -1) = false := by simp only [beq_eq_false_iff_ne]; omega
      simp only [List.map_cons, List.cons_append, decodeLoop_cons, hchar, hmap, hvalid, Int.toNat_natCast, hcarry,
        bne_self_eq_false, Bool.false_eq_true, if_false]
      exact hrun
    · rw [hval', hval, List.length_cons, hsplit]

/-- `n` base58 digits fit `n * 733 / 1000 + 1` bytes. -/
theorem base58_size_lt (n : ℕ) : 58 ^ n < 256 ^ (n * 733 / 1000 + 1) := by
  have h : (58 : ℕ) ^ 1000 ≤ 256 ^ 733 := by
    -- `norm_num` evaluates no exponent past 256, so the powers are split
    rw [show 1000 = 250 + 250 + 250 + 250 from rfl, show 733 = 250 + 250 + 233 from rfl]
    simp only [pow_add]
    norm_num
  exact pow_lt_pow_div_add_one (by norm_num) (by norm_num) h n

/-- `n` bytes fit `n * 138 / 100 + 1` base58 digits. -/
theorem base256_size_lt (n : ℕ) : 256 ^ n < 58 ^ (n * 138 / 100 + 1) :=
  pow_lt_pow_div_add_one (by norm_num) (by norm_num) (by norm_num) n

/-- `EncodeBase58` writes the leading zero bytes as `1`s and the value of the
other bytes in base 58, and never fails its assertion. -/
theorem encodeBase58_eq (vch : List UInt8) :
    encodeBase58 vch = .ok (List.replicate (vch.takeWhile (· == 0)).length '1'.toUInt8 ++
      (digits 58 (ofDigits 256 ((vch.dropWhile (· == 0)).map UInt8.toNat).reverse)).reverse.map
        (pszBase58.getD · 0)) := by
  have hfit : ofDigits 58 (List.replicate ((vch.dropWhile (· == 0)).length * 138 / 100 + 1) 0) *
        256 ^ (vch.dropWhile (· == 0)).length + ofDigits 256 ((vch.dropWhile (· == 0)).map UInt8.toNat).reverse <
      58 ^ ((vch.dropWhile (· == 0)).length * 138 / 100 + 1) := by
    rw [Nat.ofDigits_replicate_zero, zero_mul, zero_add]
    calc ofDigits 256 ((vch.dropWhile (· == 0)).map UInt8.toNat).reverse
        < 256 ^ ((vch.dropWhile (· == 0)).map UInt8.toNat).reverse.length :=
          Nat.ofDigits_lt_base_pow_length (by norm_num) (fun x hx => by
            obtain ⟨c, -, rfl⟩ := List.mem_map.mp (List.mem_reverse.mp hx)
            exact c.toNat_lt)
      _ = 256 ^ (vch.dropWhile (· == 0)).length := by rw [List.length_reverse, List.length_map]
      _ < 58 ^ ((vch.dropWhile (· == 0)).length * 138 / 100 + 1) := base256_size_lt _
  obtain ⟨b58, length, hrun, hbuf, hval⟩ :=
    encodeLoop_spec (vch.dropWhile (· == 0)) (buffer_replicate_zero (by norm_num) _) hfit
  unfold encodeBase58
  dsimp only
  rw [hrun]
  dsimp only
  rw [dropWhile_drop_reverse (by norm_num) hbuf, hval, Nat.ofDigits_replicate_zero, zero_mul, zero_add]

/-- `DecodeBase58` of `1`s followed by base58 digits with no leading zero:
the zero bytes, then the value of the digits in bytes. -/
theorem decodeBase58_ones_digits (zeroes : ℕ) (ds : List ℕ) (hds : ∀ d ∈ ds, d < 58)
    (hhead : ∀ d ∈ ds.head?, d ≠ 0) :
    decodeBase58 (List.replicate zeroes '1'.toUInt8 ++ ds.map (pszBase58.getD · 0)) =
      .ok (some (List.replicate zeroes 0 ++ (digits 256 (ofDigits 58 ds.reverse)).reverse.map UInt8.ofNat)) := by
  have hdigits : ∀ c ∈ ds.map (pszBase58.getD · 0), c ∈ pszBase58 := by
    intro c hc
    obtain ⟨d, hd, rfl⟩ := List.mem_map.mp hc
    exact pszBase58_getD_mem (hds d hd)
  have hchars : ∀ c ∈ List.replicate zeroes '1'.toUInt8 ++ ds.map (pszBase58.getD · 0), c ∈ pszBase58 := by
    intro c hc
    rcases List.mem_append.mp hc with hc | hc
    · rw [List.eq_of_mem_replicate hc]
      decide
    · exact hdigits c hc
  -- no leading space, exactly `zeroes` leading `1`s, and no `NUL`
  have hspace : (List.replicate zeroes '1'.toUInt8 ++ ds.map (pszBase58.getD · 0)).dropWhile
      (fun c => c != 0 && isSpaceByte c) = List.replicate zeroes '1'.toUInt8 ++ ds.map (pszBase58.getD · 0) := by
    rw [List.dropWhile_eq_self_iff]
    intro hl
    have hnot := (ne_zero_of_mem_pszBase58 (hchars _ (List.getElem_mem hl))).2
    simp only [hnot, Bool.and_false, Bool.false_eq_true, not_false_eq_true]
  have hnotone : ∀ c ∈ (ds.map (pszBase58.getD · 0)).head?, c ≠ '1'.toUInt8 := by
    intro c hc
    rw [List.head?_map] at hc
    obtain ⟨d, hd, rfl⟩ := Option.mem_map.mp hc
    have hd58 : d < 58 := hds d (List.mem_of_mem_head? hd)
    exact fun h => hhead d hd ((pszBase58_eq_one_iff d hd58).mp h)
  have hnul : (ds.map (pszBase58.getD · 0)).takeWhile (· != 0) = ds.map (pszBase58.getD · 0) :=
    List.takeWhile_eq_self_iff.mpr fun c hc => by simpa using (ne_zero_of_mem_pszBase58 (hdigits c hc)).1
  have hfit : ofDigits 256 (List.replicate (ds.length * 733 / 1000 + 1) 0) * 58 ^ ds.length +
      ofDigits 58 ds.reverse < 256 ^ (ds.length * 733 / 1000 + 1) := by
    rw [Nat.ofDigits_replicate_zero, zero_mul, zero_add]
    calc ofDigits 58 ds.reverse < 58 ^ ds.reverse.length :=
          Nat.ofDigits_lt_base_pow_length (by norm_num) fun x hx => hds x (List.mem_reverse.mp hx)
      _ = 58 ^ ds.length := by rw [List.length_reverse]
      _ < 256 ^ (ds.length * 733 / 1000 + 1) := base58_size_lt _
  obtain ⟨b256, length, hrun, hbuf, hval⟩ :=
    decodeLoop_digits ds [] hds rfl (buffer_replicate_zero (by norm_num) _) hfit
  rw [List.append_nil] at hrun
  unfold decodeBase58
  dsimp only
  rw [hspace, takeWhile_replicate_append _ _ hnotone, dropWhile_replicate_append _ _ hnotone, hnul,
    List.length_map, List.length_replicate, hrun]
  dsimp only
  rw [dropWhile_drop_reverse (by norm_num) hbuf, hval, Nat.ofDigits_replicate_zero, zero_mul, zero_add]
  rfl

/-! ## Round trips -/

theorem head?_map_toNat_ne_zero {bytes : List UInt8} (h : ∀ c ∈ bytes.head?, c ≠ 0) :
    ∀ x ∈ (bytes.map UInt8.toNat).head?, x ≠ 0 := by
  intro x hx
  rw [List.head?_map] at hx
  obtain ⟨c, hc, rfl⟩ := Option.mem_map.mp hx
  exact fun h0 => h c hc (UInt8.toNat_inj.mp h0)

/-- `DecodeBase58` gives back the bytes `EncodeBase58` encoded. -/
theorem decodeBase58_of_encodeBase58 {vch str : List UInt8} (h : encodeBase58 vch = .ok str) :
    decodeBase58 str = .ok (some vch) := by
  rw [encodeBase58_eq, Except.ok.injEq] at h
  subst h
  have hbytes : ∀ x ∈ (vch.dropWhile (· == 0)).map UInt8.toNat, x < 256 := by
    intro x hx
    obtain ⟨c, -, rfl⟩ := List.mem_map.mp hx
    exact c.toNat_lt
  have hback := digits_ofDigits_reverse (by norm_num) hbytes (head?_map_toNat_ne_zero (head?_dropWhile_ne 0 vch))
  rw [decodeBase58_ones_digits _ _ (fun d hd => Nat.digits_lt_base (by norm_num) (List.mem_reverse.mp hd))
      (head?_reverse_digits_ne_zero _ _), List.reverse_reverse, Nat.ofDigits_digits, hback, List.reverse_reverse,
    List.map_map]
  have hid : (vch.dropWhile (· == 0)).map (UInt8.ofNat ∘ UInt8.toNat) = vch.dropWhile (· == 0) := by
    conv_rhs => rw [← List.map_id (vch.dropWhile (· == 0))]
    exact List.map_congr_left fun c _ => UInt8.ofNat_toNat
  rw [hid, ← eq_replicate_append_dropWhile]

section Check

-- `Hash`, double SHA-256; the check keeps the first four bytes of the `uint256`
-- in memory, its value's four low bytes
variable (hash256 : List UInt8 → Uint256)

/-- `EncodeBase58Check`: the first four bytes of the hash appended. -/
def encodeBase58Check (vchIn : List UInt8) : Except String (List UInt8) :=
  encodeBase58 (vchIn ++ leBytes 4 (hash256 vchIn).toNat)

/-- `DecodeBase58Check`: `none` where it returns `false`. -/
def decodeBase58Check (psz : List UInt8) : Except String (Option (List UInt8)) :=
  match decodeBase58 psz with
  | .error e => .error e
  | .ok none => .ok none
  | .ok (some vchRet) =>
    if vchRet.length < 4 then .ok none
    else if leBytes 4 (hash256 (vchRet.take (vchRet.length - 4))).toNat ≠ vchRet.drop (vchRet.length - 4) then
      .ok none
    else .ok (some (vchRet.take (vchRet.length - 4)))

/-- `DecodeBase58Check` gives back the bytes `EncodeBase58Check` encoded. -/
theorem decodeBase58Check_of_encodeBase58Check {vch str : List UInt8} (h : encodeBase58Check hash256 vch = .ok str) :
    decodeBase58Check hash256 str = .ok (some vch) := by
  have h4 : (leBytes 4 (hash256 vch).toNat).length = 4 := by simp [leBytes]
  have hlen : (vch ++ leBytes 4 (hash256 vch).toNat).length - 4 = vch.length := by simp [h4]
  rw [decodeBase58Check, decodeBase58_of_encodeBase58 h]
  dsimp only
  rw [hlen, List.take_left' rfl, List.drop_left' rfl, if_neg (by simp [h4]), if_neg (not_not.mpr rfl)]

/-- A string that starts with a character outside the alphabet, other than
the terminator and a space, is refused. -/
theorem decodeBase58Check_cons_of_mapBase58 {c : UInt8} (hc0 : c ≠ 0) (hsp : isSpaceByte c = false)
    (hmap : mapBase58.getD c.toNat (-1) = -1) (rest : List UInt8) :
    decodeBase58Check hash256 (c :: rest) = .ok none := by
  have hc1 : c ≠ '1'.toUInt8 := fun h => by rw [h] at hmap; exact absurd hmap (by decide)
  have hdec : decodeBase58 (c :: rest) = .ok none := by
    rw [decodeBase58]
    simp only [List.dropWhile_cons, hsp, Bool.and_false, Bool.false_eq_true, if_false, List.takeWhile_cons,
      beq_iff_eq, hc1, List.length_nil, decodeLoop_cons, hmap]
    simp [hc0]
  rw [decodeBase58Check, hdec]

end Check

example : encodeBase58 [0, 1, 0] = .ok ['1'.toUInt8, '5'.toUInt8, 'R'.toUInt8] := by rfl

example : decodeBase58 ([' ', '1', '5', 'R', ' '].map Char.toUInt8) = .ok (some [0, 1, 0]) := by rfl

end Metrix
