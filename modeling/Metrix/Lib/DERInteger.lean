import Mathlib

/-! The DER encoding of a non-negative INTEGER: its shortest big-endian
two's-complement bytes. These are the big-endian bytes of the value with no
leading zero, `00` for zero, and a zero byte in front when the first byte
has its top bit set, which would otherwise read as a sign. An encoding is
recognised by its first two bytes. -/

namespace DERInteger

/-- The big-endian bytes of `n` with no leading zero: none for 0. -/
def bigEndianBytes (n : ℕ) : List UInt8 :=
  ((Nat.digits 256 n).map Nat.toUInt8).reverse

/-- The value of big-endian bytes. -/
def readBigEndian (bs : List UInt8) : ℕ :=
  Nat.ofDigits 256 (bs.reverse.map UInt8.toNat)

/-- The DER encoding of the INTEGER `n ≥ 0`. -/
def derInteger (n : ℕ) : List UInt8 :=
  match bigEndianBytes n with
  | [] => [0]
  | b :: bs => if b.toNat < 128 then b :: bs else 0 :: b :: bs

/-- The test that bytes are such an encoding: not empty, the top bit of the
first byte clear, and a leading zero byte only before a byte whose top bit
is set. -/
def isMinimalInteger : List UInt8 → Bool
  | [] => false
  | [b] => b.toNat < 128
  | b :: c :: _ => b.toNat < 128 && !(b = 0 && c.toNat < 128)

theorem map_toNat_map_toUInt8 {l : List ℕ} (h : ∀ d ∈ l, d < 256) :
    (l.map Nat.toUInt8).map UInt8.toNat = l := by
  rw [List.map_map]
  conv_rhs => rw [← List.map_id l]
  refine List.map_congr_left fun d hd => ?_
  simp [Nat.mod_eq_of_lt (h d hd)]

@[simp] theorem readBigEndian_bigEndianBytes (n : ℕ) : readBigEndian (bigEndianBytes n) = n := by
  rw [readBigEndian, bigEndianBytes, List.reverse_reverse,
    map_toNat_map_toUInt8 fun d hd => Nat.digits_lt_base (by norm_num) hd, Nat.ofDigits_digits]

/-- Bytes with no leading zero are the bytes of their value. -/
theorem bigEndianBytes_readBigEndian {bs : List UInt8} (h : bs.head? ≠ some 0) :
    bigEndianBytes (readBigEndian bs) = bs := by
  have hlt : ∀ d ∈ bs.reverse.map UInt8.toNat, d < 256 := by
    intro d hd
    obtain ⟨b, -, rfl⟩ := List.mem_map.mp hd
    exact b.toNat_lt
  have hlast : ∀ hne : bs.reverse.map UInt8.toNat ≠ [],
      (bs.reverse.map UInt8.toNat).getLast hne ≠ 0 := by
    intro hne
    cases bs with
    | nil => simp at hne
    | cons b rest =>
        have hb : b ≠ 0 := fun hb => h (by simp [hb])
        simpa [List.getLast_map] using fun h0 => hb (UInt8.toNat_inj.mp (by simpa using h0))
  rw [bigEndianBytes, readBigEndian, Nat.digits_ofDigits 256 (by norm_num) _ hlt hlast,
    List.map_map]
  conv_rhs => rw [← List.reverse_reverse bs, ← List.map_id bs.reverse]
  congr 1
  refine List.map_congr_left fun b _ => ?_
  simp

theorem bigEndianBytes_eq_nil_iff {n : ℕ} : bigEndianBytes n = [] ↔ n = 0 := by
  simp [bigEndianBytes, Nat.digits_eq_nil_iff_eq_zero]

/-- A leading zero byte does not change the value. -/
@[simp] theorem readBigEndian_zero_cons (bs : List UInt8) :
    readBigEndian (0 :: bs) = readBigEndian bs := by
  simp [readBigEndian, Nat.ofDigits_append]

/-- The first byte of a value's bytes is never zero. -/
theorem head?_bigEndianBytes_ne_zero (n : ℕ) : (bigEndianBytes n).head? ≠ some 0 := by
  intro h
  have hne : Nat.digits 256 n ≠ [] := by
    intro hnil
    simp [bigEndianBytes, hnil] at h
  have hlast := Nat.getLast_digit_ne_zero 256 (Nat.digits_ne_nil_iff_ne_zero.mp hne)
  have hlt := Nat.digits_lt_base (b := 256) (m := n) (by norm_num)
    (List.getLast_mem hne)
  simp only [bigEndianBytes, List.head?_reverse, List.getLast?_map,
    List.getLast?_eq_some_getLast hne, Option.map_some, Option.some.injEq] at h
  apply hlast
  have := congrArg UInt8.toNat h
  simpa [Nat.mod_eq_of_lt hlt] using this

/-- Every value's encoding passes the test. -/
theorem isMinimalInteger_derInteger (n : ℕ) : isMinimalInteger (derInteger n) = true := by
  have hhead := head?_bigEndianBytes_ne_zero n
  unfold derInteger
  split
  · rfl
  · rename_i b bs hbs
    have hb : b ≠ 0 := fun hb => hhead (by simp [hbs, hb])
    split_ifs with h128
    · cases bs with
      | nil => simpa [isMinimalInteger] using h128
      | cons c _ => simp [isMinimalInteger, h128, hb]
    · simp [isMinimalInteger]
      omega

/-- Bytes that pass the test are the encoding of their value. -/
theorem derInteger_readBigEndian {bs : List UInt8} (h : isMinimalInteger bs = true) :
    derInteger (readBigEndian bs) = bs := by
  match bs, h with
  | [b], h =>
      have h128 : b.toNat < 128 := by simpa [isMinimalInteger] using h
      by_cases hb : b = 0
      · subst hb
        rfl
      · rw [derInteger, bigEndianBytes_readBigEndian (by simpa using hb)]
        simp [h128]
  | b :: c :: rest, h =>
      simp only [isMinimalInteger, Bool.and_eq_true, decide_eq_true_eq, Bool.not_eq_true',
        Bool.and_eq_false_iff, decide_eq_false_iff_not, not_lt] at h
      obtain ⟨h128, hpad⟩ := h
      by_cases hb : b = 0
      · -- A leading zero: the value is that of the rest, whose top bit is set.
        subst hb
        have hc : 128 ≤ c.toNat := hpad.resolve_left (not_not.mpr rfl)
        have hc0 : c ≠ 0 := by rintro rfl; simp at hc
        rw [readBigEndian_zero_cons, derInteger, bigEndianBytes_readBigEndian (by simpa using hc0)]
        simp only [if_neg (by omega : ¬c.toNat < 128)]
      · rw [derInteger, bigEndianBytes_readBigEndian (by simpa using hb)]
        simp [h128]

/-- The test recognises exactly the encodings. -/
theorem isMinimalInteger_iff {bs : List UInt8} :
    isMinimalInteger bs = true ↔ ∃ n, bs = derInteger n :=
  ⟨fun h => ⟨readBigEndian bs, (derInteger_readBigEndian h).symm⟩,
    fun ⟨n, hn⟩ => hn ▸ isMinimalInteger_derInteger n⟩

@[simp] theorem readBigEndian_derInteger (n : ℕ) : readBigEndian (derInteger n) = n := by
  have hval := readBigEndian_bigEndianBytes n
  unfold derInteger
  split
  · rename_i hnil
    rw [bigEndianBytes_eq_nil_iff.mp hnil]
    rfl
  · rename_i b bs hbs
    rw [hbs] at hval
    split_ifs <;> simpa using hval

/-- Zero is encoded as one zero byte, and no other value is. -/
theorem derInteger_eq_zero_byte {n : ℕ} : derInteger n = [0] ↔ n = 0 := by
  constructor
  · intro h
    rw [← readBigEndian_derInteger n, h]
    rfl
  · rintro rfl
    rfl

end DERInteger
