import Metrix.Lib.DERInteger
import Metrix.Script.Standard

/-! The strict DER test of signatures (`IsValidSignatureEncoding` in
`script/interpreter.cpp`, consensus-critical since BIP66). A signature is
`0x30 [total-length] 0x02 [R-length] R 0x02 [S-length] S`, followed by the
hash type when the signature carries one; Metrix passes `haveHashType`
where Bitcoin always expects the byte. The test reads bytes by offset, and
its length tests come before the bytes they guard. A read outside the
signature would be undefined behaviour: `none` here. -/

namespace Metrix

open DERInteger

/-- The checks on one integer element, whose type byte is at `pos` and
whose length is `len`: an integer, not empty, not negative, and not padded
with a zero byte unless the next byte has its top bit set. The source makes
them for `R` at 2 and for `S` at `lenR + 4`. -/
def checkIntegerElement (sig : List UInt8) (pos len : ℕ) : Option Bool := do
  if (← sig[pos]?) ≠ 0x02 then return false
  if len = 0 then return false
  let b0 ← sig[pos + 2]?
  if b0 &&& 0x80 ≠ 0 then return false
  if 1 < len ∧ b0 = 0 then
    let b1 ← sig[pos + 3]?
    if b1 &&& 0x80 = 0 then return false
  return true

/-- `IsValidSignatureEncoding(sig, haveHashType)`. -/
def isValidSignatureEncoding (sig : List UInt8) (haveHashType : Bool) : Option Bool := do
  if sig.length < 9 then return false
  if 73 < sig.length then return false
  if (← sig[0]?) ≠ 0x30 then return false
  if (← sig[1]?).toNat ≠ sig.length - (if haveHashType then 3 else 2) then return false
  let lenR := (← sig[3]?).toNat
  if sig.length ≤ 5 + lenR then return false
  let lenS := (← sig[5 + lenR]?).toNat
  if lenR + lenS + (if haveHashType then 7 else 6) ≠ sig.length then return false
  if !(← checkIntegerElement sig 2 lenR) then return false
  checkIntegerElement sig (lenR + 4) lenS

/-- The DER signature of the integer elements `R` and `S`. -/
def derSignature (R S : List UInt8) : List UInt8 :=
  [0x30, (R.length + S.length + 4).toUInt8, 0x02, R.length.toUInt8] ++ R ++
    [0x02, S.length.toUInt8] ++ S

/-- The sign bit of a byte. -/
theorem and_0x80_eq_zero_iff (b : UInt8) : b &&& 0x80 = 0 ↔ b.toNat < 128 := by
  rw [← UInt8.toNat_inj, UInt8.toNat_and, show (0x80 : UInt8).toNat = 2 ^ 7 from rfl, Nat.and_two_pow,
    Nat.testBit_eq_decide_div_mod_eq, UInt8.toNat_zero, show (2 : ℕ) ^ 7 = 128 from rfl]
  have hb : b.toNat < 256 := b.toNat_lt
  -- the bit is the quotient by 128 of a byte
  by_cases h : b.toNat / 128 % 2 = 1
  · simp only [h, decide_true, Bool.toNat_true]
    omega
  · simp only [h, decide_false, Bool.toNat_false, Nat.zero_mul, true_iff]
    omega

theorem getElem?_length_add_append {α : Type} (pre rest : List α) (i : ℕ) :
    (pre ++ rest)[pre.length + i]? = rest[i]? := by
  rw [List.getElem?_append_right (by omega), Nat.add_sub_cancel_left]

/-- An integer element read in place: its checks are the test of
`isMinimalInteger` on its bytes, and every byte they read is inside. -/
theorem checkIntegerElement_eq (pre E post : List UInt8) (tag l : UInt8) :
    checkIntegerElement (pre ++ tag :: l :: (E ++ post)) pre.length E.length =
      some (tag == 0x02 && isMinimalInteger E) := by
  have hread (i : ℕ) := getElem?_length_add_append pre (tag :: l :: (E ++ post)) i
  unfold checkIntegerElement
  simp only [hread]
  match E with
  | [] => by_cases htag : tag = 2 <;> simp [htag, isMinimalInteger]
  | [b0] =>
      by_cases htag : tag = 2 <;> simp [htag, isMinimalInteger, and_0x80_eq_zero_iff]
      split_ifs <;> simp <;> omega
  | b0 :: b1 :: rest =>
      by_cases htag : tag = 2 <;> by_cases hb0 : b0 = 0 <;>
        simp [htag, hb0, isMinimalInteger, and_0x80_eq_zero_iff]
      all_goals split_ifs <;> simp <;> omega

/-! ## The test on a laid-out signature -/

/-- A signature laid out by its two length bytes `x3` and `y1`: the test is
that of the size, the header bytes and the two integers, and it reads inside
the signature. -/
theorem isValidSignatureEncoding_layout (haveHashType : Bool) (x0 x1 x2 x3 y0 y1 : UInt8)
    (R S ht : List UInt8) (hR : x3.toNat = R.length) (hS : y1.toNat = S.length) :
    isValidSignatureEncoding (x0 :: x1 :: x2 :: x3 :: (R ++ y0 :: y1 :: (S ++ ht)))
        haveHashType =
      some (decide (9 ≤ R.length + S.length + ht.length + 6 ∧
          R.length + S.length + ht.length + 6 ≤ 73 ∧ x0 = 0x30 ∧
          x1.toNat = R.length + S.length + 4 ∧ ht.length = (if haveHashType then 1 else 0)) &&
        (x2 == 0x02 && isMinimalInteger R) && (y0 == 0x02 && isMinimalInteger S)) := by
  set sig := x0 :: x1 :: x2 :: x3 :: (R ++ y0 :: y1 :: (S ++ ht)) with hsig
  have hlen : sig.length = R.length + S.length + ht.length + 6 := by simp [hsig]; omega
  have hy1 : sig[5 + x3.toNat]? = some y1 := by
    have := getElem?_length_add_append (x0 :: x1 :: x2 :: x3 :: R) (y0 :: y1 :: (S ++ ht)) 1
    rw [show (x0 :: x1 :: x2 :: x3 :: R).length + 1 = 5 + x3.toNat by simp [hR]; omega] at this
    exact this
  have hRe : checkIntegerElement sig 2 x3.toNat = some (x2 == 0x02 && isMinimalInteger R) := by
    rw [hR]
    exact checkIntegerElement_eq [x0, x1] R (y0 :: y1 :: (S ++ ht)) x2 x3
  have hSe : checkIntegerElement sig (x3.toNat + 4) y1.toNat =
      some (y0 == 0x02 && isMinimalInteger S) := by
    have := checkIntegerElement_eq (x0 :: x1 :: x2 :: x3 :: R) S ht y0 y1
    rw [show (x0 :: x1 :: x2 :: x3 :: R).length = R.length + 4 by simp] at this
    simpa [hsig, hR, hS] using this
  have h0 : sig[0]? = some x0 := rfl
  have h1 : sig[1]? = some x1 := rfl
  have h3 : sig[3]? = some x3 := rfl
  unfold isValidSignatureEncoding
  simp only [hlen, h0, h1, h3, hy1, hRe, hSe, Option.bind_eq_bind, Option.bind_some]
  rw [hR, hS]
  -- The header checks in the order of the source, then the two integers.
  by_cases hP : 9 ≤ R.length + S.length + ht.length + 6 ∧
      R.length + S.length + ht.length + 6 ≤ 73 ∧ x0 = 0x30 ∧
      x1.toNat = R.length + S.length + 4 ∧ ht.length = (if haveHashType then 1 else 0)
  · obtain ⟨h9, h73, hx0, hx1, hht⟩ := hP
    have hx1' : x1.toNat = R.length + S.length + ht.length + 6 -
        (if haveHashType then 3 else 2) := by
      cases haveHashType <;> simp only [Bool.false_eq_true, if_false, if_true] at hht ⊢ <;> omega
    have hsum : (R.length + S.length + if haveHashType then 7 else 6) =
        R.length + S.length + ht.length + 6 := by
      cases haveHashType <;> simp only [Bool.false_eq_true, if_false, if_true] at hht ⊢ <;> omega
    rw [if_neg (by omega), if_neg (by omega), if_neg (not_not.mpr hx0), if_neg (not_not.mpr hx1'),
      if_neg (by omega), if_neg (not_not.mpr hsum), decide_eq_true ⟨h9, h73, hx0, hx1, hht⟩,
      Bool.true_and]
    cases (x2 == 2 && isMinimalInteger R) <;> rfl
  · rw [decide_eq_false hP, Bool.false_and, Bool.false_and]
    cases haveHashType <;> simp only [Bool.false_eq_true, if_false, if_true] at hP ⊢ <;>
      split_ifs with c1 c2 c3 c4 c5 c6 c7 <;>
      first
      | rfl
      | exact absurd ⟨by omega, by omega, not_not.mp c3, by omega, by omega⟩ hP

/-! ## Every signature -/

/-- Under nine bytes the test fails before reading. -/
theorem isValidSignatureEncoding_of_lt_nine {sig : List UInt8} (h : sig.length < 9)
    (haveHashType : Bool) : isValidSignatureEncoding sig haveHashType = some false := by
  unfold isValidSignatureEncoding
  rw [if_pos h]
  rfl

/-- An `R` length that leaves no room for the type and length of `S` fails. -/
theorem isValidSignatureEncoding_of_short_r {x0 x1 x2 x3 : UInt8} {rest : List UInt8}
    (h : rest.length ≤ x3.toNat + 1) (haveHashType : Bool) :
    isValidSignatureEncoding (x0 :: x1 :: x2 :: x3 :: rest) haveHashType = some false := by
  unfold isValidSignatureEncoding
  simp only [List.length_cons, List.getElem?_cons_zero, List.getElem?_cons_succ,
    Option.bind_eq_bind, Option.bind_some]
  split_ifs <;> first | rfl | omega

/-- An `S` length past the end fails the test of the total length. -/
theorem isValidSignatureEncoding_of_short_s {x0 x1 x2 x3 y0 y1 : UInt8} {R rest : List UInt8}
    (hR : x3.toNat = R.length) (h : rest.length < y1.toNat) (haveHashType : Bool) :
    isValidSignatureEncoding (x0 :: x1 :: x2 :: x3 :: (R ++ y0 :: y1 :: rest)) haveHashType =
      some false := by
  have hy1 : (x0 :: x1 :: x2 :: x3 :: (R ++ y0 :: y1 :: rest))[5 + x3.toNat]? = some y1 := by
    have := getElem?_length_add_append (x0 :: x1 :: x2 :: x3 :: R) (y0 :: y1 :: rest) 1
    rw [show (x0 :: x1 :: x2 :: x3 :: R).length + 1 = 5 + x3.toNat by simp [hR]; omega] at this
    exact this
  unfold isValidSignatureEncoding
  simp only [hy1, List.length_cons, List.length_append, List.getElem?_cons_zero,
    List.getElem?_cons_succ, Option.bind_eq_bind, Option.bind_some]
  cases haveHashType <;> simp only [Bool.false_eq_true, if_false, if_true] <;>
    split_ifs <;> first | rfl | omega

/-- Every signature fails the size and length tests or is laid out by its
two length bytes. -/
theorem isValidSignatureEncoding_cases (sig : List UInt8) (haveHashType : Bool) :
    isValidSignatureEncoding sig haveHashType = some false ∨
      ∃ (x0 x1 x2 x3 y0 y1 : UInt8) (R S ht : List UInt8),
        sig = x0 :: x1 :: x2 :: x3 :: (R ++ y0 :: y1 :: (S ++ ht)) ∧
          x3.toNat = R.length ∧ y1.toNat = S.length := by
  match sig with
  | [] | [_] | [_, _] | [_, _, _] =>
      exact .inl (isValidSignatureEncoding_of_lt_nine (by simp) _)
  | x0 :: x1 :: x2 :: x3 :: rest =>
      by_cases hr : rest.length ≤ x3.toNat + 1
      · exact .inl (isValidSignatureEncoding_of_short_r hr _)
      -- `R` is the next `x3` bytes, then come the type and length of `S`.
      obtain ⟨y0, y1, rest', hdrop⟩ : ∃ y0 y1 rest', rest.drop x3.toNat = y0 :: y1 :: rest' := by
        match hd : rest.drop x3.toNat with
        | [] | [_] => have := congrArg List.length hd; simp at this; omega
        | y0 :: y1 :: rest' => exact ⟨y0, y1, rest', rfl⟩
      have hrest : rest = rest.take x3.toNat ++ y0 :: y1 :: rest' := by
        rw [← hdrop, List.take_append_drop]
      have hR : x3.toNat = (rest.take x3.toNat).length := by simp; omega
      by_cases hs : rest'.length < y1.toNat
      · rw [hrest]
        exact .inl (isValidSignatureEncoding_of_short_s hR hs _)
      · refine .inr ⟨x0, x1, x2, x3, y0, y1, rest.take x3.toNat, rest'.take y1.toNat,
          rest'.drop y1.toNat, ?_, hR, by simp; omega⟩
        rw [List.take_append_drop, ← hrest]

/-- The test never reads outside the signature. -/
theorem isValidSignatureEncoding_isSome (sig : List UInt8) (haveHashType : Bool) :
    (isValidSignatureEncoding sig haveHashType).isSome := by
  rcases isValidSignatureEncoding_cases sig haveHashType with h | ⟨x0, x1, x2, x3, y0, y1, R, S,
    ht, rfl, hR, hS⟩
  · rw [h]
    rfl
  · rw [isValidSignatureEncoding_layout haveHashType x0 x1 x2 x3 y0 y1 R S ht hR hS]
    rfl

/-! ## The grammar -/

theorem derSignature_append (R S ht : List UInt8) :
    derSignature R S ++ ht = 0x30 :: (R.length + S.length + 4).toUInt8 :: 0x02 ::
      R.length.toUInt8 :: (R ++ 0x02 :: S.length.toUInt8 :: (S ++ ht)) := by
  simp [derSignature]

/-- Strict DER: the test accepts exactly the signatures of two integers
`r, s ≥ 0`, in their shortest two's-complement encodings, followed by the
hash type when there is one, of 9 to 73 bytes; and it never reads outside
the signature. -/
theorem isValidSignatureEncoding_iff_derSignature (sig : List UInt8) (haveHashType : Bool) :
    (isValidSignatureEncoding sig haveHashType).isSome ∧
      (isValidSignatureEncoding sig haveHashType = some true ↔
        9 ≤ sig.length ∧ sig.length ≤ 73 ∧
          ∃ (r s : ℕ) (hashType : List UInt8),
            hashType.length = (if haveHashType then 1 else 0) ∧
              sig = derSignature (derInteger r) (derInteger s) ++ hashType) := by
  refine ⟨isValidSignatureEncoding_isSome sig haveHashType, fun h => ?_, ?_⟩
  · rcases isValidSignatureEncoding_cases sig haveHashType with hf | ⟨x0, x1, x2, x3, y0, y1, R,
      S, ht, rfl, hR, hS⟩
    · rw [hf] at h
      cases h
    rw [isValidSignatureEncoding_layout haveHashType x0 x1 x2 x3 y0 y1 R S ht hR hS] at h
    simp only [Option.some.injEq, Bool.and_eq_true, decide_eq_true_eq, beq_iff_eq] at h
    obtain ⟨⟨⟨h9, h73, rfl, hx1, hht⟩, rfl, hRm⟩, rfl, hSm⟩ := h
    -- The length bytes are the lengths, all under 256.
    have hx1' : x1 = (R.length + S.length + 4).toUInt8 :=
      UInt8.toNat_inj.mp (by rw [hx1, toNat_toUInt8_of_lt (by omega)])
    have hx3 : x3 = R.length.toUInt8 :=
      UInt8.toNat_inj.mp (by rw [hR, toNat_toUInt8_of_lt (by omega)])
    have hy1 : y1 = S.length.toUInt8 :=
      UInt8.toNat_inj.mp (by rw [hS, toNat_toUInt8_of_lt (by omega)])
    obtain ⟨r, rfl⟩ := isMinimalInteger_iff.mp hRm
    obtain ⟨s, rfl⟩ := isMinimalInteger_iff.mp hSm
    refine ⟨by simp; omega, by simp; omega, r, s, ht, hht, ?_⟩
    rw [derSignature_append, hx1', hx3, hy1]
  · rintro ⟨h9, h73, r, s, ht, hht, rfl⟩
    rw [derSignature_append] at h9 h73 ⊢
    simp only [List.length_cons, List.length_append] at h9 h73
    rw [isValidSignatureEncoding_layout haveHashType _ _ _ _ _ _ _ _ ht
      (toNat_toUInt8_of_lt (by omega)) (toNat_toUInt8_of_lt (by omega))]
    have hL := @toNat_toUInt8_of_lt ((derInteger r).length + (derInteger s).length + 4)
      (by omega)
    rw [decide_eq_true ⟨by omega, by omega, rfl, hL, hht⟩, isMinimalInteger_derInteger,
      isMinimalInteger_derInteger]
    rfl

/-- A zero byte passes as `R`: the test accepts `30 06 02 01 00 02 01 01`
with hash type 01, and one zero byte is the encoding of 0 alone. -/
theorem isValidSignatureEncoding_accepts_zero_r :
    isValidSignatureEncoding [0x30, 0x06, 0x02, 0x01, 0x00, 0x02, 0x01, 0x01, 0x01] true =
        some true ∧
      ∀ n, derInteger n = [0x00] → n = 0 :=
  ⟨rfl, fun _ h => derInteger_eq_zero_byte.mp h⟩

/-! ## `CheckSignatureEncoding` -/

end Metrix
