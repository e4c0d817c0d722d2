import Metrix.Primitives.Transaction

/-! Amounts as text (`util/moneystr.cpp`, `util/strencodings.cpp`,
`core_write.cpp`, `rpc/util.cpp`). `FormatMoney` and `ValueFromAmount` write
an amount as `"%d.%08d"` of its coins and base units; `FormatMoney` then
drops zeros at the end of the fraction, keeping two decimals. `ParseMoney`
reads at most ten integer digits and eight decimals, and `ParseFixedPoint`,
behind `AmountFromValue`, reads a decimal with an optional exponent into a
mantissa below `10^18`. A string is its characters up to the first `NUL`;
`atoi64` of a run of at most ten digits is its decimal value. -/

namespace Metrix

/-- `IsSpace`. -/
def isSpace (c : Char) : Bool :=
  c = ' ' || c = '\x0c' || c = '\n' || c = '\r' || c = '\t' || c = '\x0b'

/-- `strprintf("%0*d", width, n)` of a nonnegative `n`. -/
def formatPadded (width n : ℕ) : List Char :=
  List.replicate (width - (Nat.toDigits 10 n).length) '0' ++ Nat.toDigits 10 n

/-- `strprintf("%d.%08d", quotient, remainder)`. -/
def fixedPointText (quotient remainder : ℕ) : List Char :=
  Nat.toDigits 10 quotient ++ '.' :: formatPadded 8 remainder

/-! ## Digit strings -/

section Digits

theorem isDigit_iff_toNat {c : Char} : c.isDigit = true ↔ 48 ≤ c.toNat ∧ c.toNat ≤ 57 := by
  simp [Char.isDigit, UInt32.le_iff_toNat_le, Char.toNat_val]

theorem nonzeroDigit_iff_toNat {c : Char} : ('1' ≤ c ∧ c ≤ '9') ↔ 49 ≤ c.toNat ∧ c.toNat ≤ 57 := by
  simp [Char.le_def, UInt32.le_iff_toNat_le, Char.toNat_val]

theorem isSpace_of_isDigit {c : Char} (h : c.isDigit = true) : isSpace c = false := by
  rw [isDigit_iff_toNat] at h
  have hne : ∀ d : Char, d.toNat < 48 → c ≠ d := fun d hd he => by rw [he] at h; omega
  simp [isSpace, hne ' ' (by decide), hne '\x0c' (by decide), hne '\n' (by decide),
    hne '\r' (by decide), hne '\t' (by decide), hne '\x0b' (by decide)]

theorem ne_of_isDigit {c d : Char} (h : c.isDigit = true) (hd : d.isDigit = false) : c ≠ d := by
  rintro rfl
  rw [h] at hd
  cases hd

/-- The initial value of `Nat.ofDigitChars` is multiplied by ten for each digit. -/
theorem le_ofDigitChars (l : List Char) (init : ℕ) :
    10 ^ l.length * init ≤ Nat.ofDigitChars 10 l init := by
  rw [Nat.ofDigitChars_eq_ofDigitChars_zero]
  exact Nat.le_add_right _ _

/-- A digit string's value is below ten to its length. -/
theorem ofDigitChars_lt {l : List Char} (h : ∀ c ∈ l, c.isDigit = true) :
    Nat.ofDigitChars 10 l 0 < 10 ^ l.length := by
  induction l with
  | nil => simp
  | cons c l ih =>
      have hc := isDigit_iff_toNat.mp (h c List.mem_cons_self)
      have hl := ih fun d hd => h d (List.mem_cons_of_mem c hd)
      rw [Nat.ofDigitChars_cons, Nat.ofDigitChars_eq_ofDigitChars_zero, List.length_cons, pow_succ]
      have : 10 ^ l.length * (10 * 0 + (c.toNat - '0'.toNat)) ≤ 10 ^ l.length * 9 :=
        Nat.mul_le_mul_left _ (by simp; omega)
      omega

theorem isDigit_of_mem_toDigits {n : ℕ} {c : Char} (h : c ∈ Nat.toDigits 10 n) : c.isDigit = true :=
  Nat.isDigit_of_mem_toDigits (by decide) (by decide) h

theorem length_toDigits_le {n k : ℕ} (hk : 0 < k) (h : n < 10 ^ k) : (Nat.toDigits 10 n).length ≤ k :=
  (Nat.length_toDigits_le_iff (by decide) hk).mpr h

/-- The decimal text of a positive number starts with a nonzero digit. -/
theorem toDigits_eq_cons {q : ℕ} (hq : 0 < q) :
    ∃ c s, Nat.toDigits 10 q = c :: s ∧ '1' ≤ c ∧ c ≤ '9' := by
  obtain ⟨c, s, hcs⟩ : ∃ c s, Nat.toDigits 10 q = c :: s :=
    List.exists_cons_of_ne_nil Nat.toDigits_ne_nil
  refine ⟨c, s, hcs, ?_⟩
  have hdigit := isDigit_iff_toNat.mp (isDigit_of_mem_toDigits (hcs ▸ List.mem_cons_self))
  by_cases h0 : c.toNat = 48
  · -- a leading zero would make the text longer than the number needs
    exfalso
    have hval : Nat.ofDigitChars 10 s 0 = q := by
      rw [← Nat.ofDigitChars_ten_toDigits (n := q), hcs, Nat.ofDigitChars_cons, h0]
      rfl
    have hlt : q < 10 ^ s.length := hval ▸ ofDigitChars_lt fun d hd =>
      isDigit_of_mem_toDigits (hcs ▸ List.mem_cons_of_mem c hd)
    have := length_toDigits_le (Nat.pos_of_ne_zero fun hs => by simp [hs] at hlt; omega) hlt
    rw [hcs, List.length_cons] at this
    omega
  · exact nonzeroDigit_iff_toNat.mpr ⟨by omega, hdigit.2⟩

/-- `"%08d"` of a remainder below `10^8` is eight digits with its value. -/
theorem formatPadded_spec {w r : ℕ} (hw : 0 < w) (hr : r < 10 ^ w) :
    (formatPadded w r).length = w ∧ (∀ c ∈ formatPadded w r, c.isDigit = true) ∧
      Nat.ofDigitChars 10 (formatPadded w r) 0 = r := by
  have hlen := length_toDigits_le hw hr
  refine ⟨by simp [formatPadded]; omega, ?_, ?_⟩
  · intro c hc
    rcases List.mem_append.mp hc with h | h
    · rw [(List.mem_replicate.mp h).2]
      rfl
    · exact isDigit_of_mem_toDigits h
  · rw [formatPadded, Nat.ofDigitChars_append, Nat.ofDigitChars_replicate_zero, Nat.mul_zero,
      Nat.ofDigitChars_ten_toDigits]

end Digits

/-! ## FormatMoney and ParseMoney -/

/-- The trimming loop of `FormatMoney`: from index `i` down, the zeros of
`str` that have a digit two places before them. Index 0 is never such a zero
in the text `FormatMoney` builds. -/
def trimCount (str : List Char) : ℕ → ℕ
  | 0 => 0
  | i + 1 =>
      if str.getD (i + 1) ' ' = '0' ∧ (str.getD (i - 1) ' ').isDigit then trimCount str i + 1
      else 0

/-- `FormatMoney`. -/
def formatMoney (n : CAmount) : List Char :=
  let nAbs := if 0 < n then n else -n
  let str := fixedPointText (nAbs / coin).toNat (nAbs % coin).toNat
  let nTrim := trimCount str (str.length - 1)
  let str := str.take (str.length - nTrim)
  if n < 0 then '-' :: str else str

/-- The fraction loop of `ParseMoney`: each digit times `nMult`, which starts
at `COIN / 10` and falls tenfold while it is positive. -/
def parseMoneyFraction : ℤ → ℤ → List Char → ℤ × List Char
  | nMult, nUnits, c :: rest =>
      if c.isDigit ∧ 0 < nMult then
        parseMoneyFraction (nMult / 10) (nUnits + nMult * ((c.toNat - '0'.toNat : ℕ) : ℤ)) rest
      else (nUnits, c :: rest)
  | _, nUnits, [] => (nUnits, [])

/-- The main loop of `ParseMoney`: the integer digits `strWhole`, the
fraction's base units, and the text from where the loop stops; `none` at a
character that is neither a digit, a space nor the point. -/
def parseMoneyWhole : List Char → List Char → Option (List Char × ℤ × List Char)
  | strWhole, [] => some (strWhole, 0, [])
  | strWhole, c :: rest =>
      if c = '.' then
        match parseMoneyFraction (coin / 10) 0 rest with
        | (nUnits, rest) => some (strWhole, nUnits, rest)
      else if isSpace c then some (strWhole, 0, c :: rest)
      else if !c.isDigit then none
      else parseMoneyWhole (strWhole ++ [c]) rest

/-- `ParseMoney`: `none` where it returns false. -/
def parseMoney (str : List Char) : Option CAmount :=
  match parseMoneyWhole [] ((str.takeWhile fun c => c ≠ Char.ofNat 0).dropWhile isSpace) with
  | none => none
  | some (strWhole, nUnits, rest) =>
      if !rest.all isSpace then none
      else if 10 < strWhole.length then none
      else if nUnits < 0 ∨ coin < nUnits then none
      else some ((Nat.ofDigitChars 10 strWhole 0 : ℤ) * coin + nUnits)

/-! ## ValueFromAmount, ParseFixedPoint and AmountFromValue -/

/-- `UPPER_BOUND`, the largest mantissa: `10^18 - 1`. -/
def upperBound : ℤ := 1000000000000000000 - 1

/-- The multiplications of `ProcessMantissaDigit`, each after its overflow
check. -/
def mantissaTimesTen : ℕ → ℤ → Option ℤ
  | 0, m => some m
  | k + 1, m => if upperBound / 10 < m then none else mantissaTimesTen k (m * 10)

/-- `ProcessMantissaDigit`: a zero is counted, and another digit first
multiplies in the zeros before it; `none` on overflow. -/
def processMantissaDigit (ch : Char) (mantissa : ℤ) (tzeros : ℕ) : Option (ℤ × ℕ) :=
  if ch = '0' then some (mantissa, tzeros + 1)
  else (mantissaTimesTen (tzeros + 1) mantissa).map fun m => (m + ((ch.toNat - '0'.toNat : ℕ) : ℤ), 0)

/-- A run of mantissa digits: the mantissa, its trailing zeros, the number
of digits read, and the text after the run. -/
def mantissaDigits : List Char → ℤ → ℕ → ℕ → Option (ℤ × ℕ × ℕ × List Char)
  | c :: rest, m, tz, k =>
      if c.isDigit then
        match processMantissaDigit c m tz with
        | some (m, tz) => mantissaDigits rest m tz (k + 1)
        | none => none
      else some (m, tz, k, c :: rest)
  | [], m, tz, k => some (m, tz, k, [])

/-- The sign of `ParseFixedPoint`. -/
def parseSign : List Char → Bool × List Char
  | '-' :: s => (true, s)
  | s => (false, s)

/-- The integer part of `ParseFixedPoint`: a single `0`, or digits from a
nonzero one. -/
def parseIntegerPart : List Char → Option (ℤ × ℕ × List Char)
  | '0' :: s => some (0, 0, s)
  | c :: s =>
      if '1' ≤ c ∧ c ≤ '9' then (mantissaDigits (c :: s) 0 0 0).map fun r => (r.1, r.2.1, r.2.2.2)
      else none
  | [] => none

/-- The fraction of `ParseFixedPoint`: after a point at least one digit,
counted in `point_ofs`. -/
def parseFractionPart (m : ℤ) (tz : ℕ) : List Char → Option (ℤ × ℕ × ℕ × List Char)
  | '.' :: c :: s => if c.isDigit then mantissaDigits (c :: s) m tz 0 else none
  | ['.'] => none
  | s => some (m, tz, 0, s)

/-- The exponent digits of `ParseFixedPoint`, each after its overflow check. -/
def exponentDigits : List Char → ℤ → Option (ℤ × List Char)
  | c :: rest, e =>
      if c.isDigit then
        if upperBound / 10 < e then none
        else exponentDigits rest (e * 10 + ((c.toNat - '0'.toNat : ℕ) : ℤ))
      else some (e, c :: rest)
  | [], e => some (e, [])

/-- The signed exponent after `e` or `E`: at least one digit. -/
def parseSignedExponent (s : List Char) : Option (ℤ × List Char) :=
  let (exponentSign, s) := match s with
    | '+' :: t => (false, t)
    | '-' :: t => (true, t)
    | t => (false, t)
  match s with
  | d :: _ =>
      if d.isDigit then (exponentDigits s 0).map fun r => (if exponentSign then -r.1 else r.1, r.2)
      else none
  | [] => none

/-- The exponent part of `ParseFixedPoint`. -/
def parseExponentPart : List Char → Option (ℤ × List Char)
  | c :: s => if c = 'e' ∨ c = 'E' then parseSignedExponent s else some (0, c :: s)
  | [] => some (0, [])

/-- The scaling loop at the end of `ParseFixedPoint`, each step after its
overflow check. -/
def scaleMantissa : ℕ → ℤ → Option ℤ
  | 0, m => some m
  | k + 1, m =>
      if upperBound / 10 < m ∨ m < -(upperBound / 10) then none else scaleMantissa k (m * 10)

/-- The end of `ParseFixedPoint`: the exponent made relative to `decimals`
places, and the mantissa scaled to it. -/
def finalizeFixedPoint (mantissaSign : Bool) (m : ℤ) (tz pointOfs : ℕ) (exponent : ℤ)
    (decimals : ℕ) : Option ℤ :=
  let exponent := exponent - pointOfs + tz + decimals
  let mantissa := if mantissaSign then -m else m
  if exponent < 0 then none
  else if 18 ≤ exponent then none
  else
    match scaleMantissa exponent.toNat mantissa with
    | some mantissa => if upperBound < mantissa ∨ mantissa < -upperBound then none else some mantissa
    | none => none

/-- `ParseFixedPoint`: the value in units of `10^-decimals`; `none` where it
returns false. -/
def parseFixedPoint (val : List Char) (decimals : ℕ) : Option ℤ :=
  match parseSign val with
  | (mantissaSign, s) => do
      let (m, tz, s) ← parseIntegerPart s
      let (m, tz, pointOfs, s) ← parseFractionPart m tz s
      let (exponent, s) ← parseExponentPart s
      if s ≠ [] then none else finalizeFixedPoint mantissaSign m tz pointOfs exponent decimals

/-- `ValueFromAmount`: the text of the JSON number. -/
def valueFromAmount (amount : CAmount) : List Char :=
  let sign := amount < 0
  let nAbs := if sign then -amount else amount
  (if sign then ['-'] else []) ++ fixedPointText (nAbs / coin).toNat (nAbs % coin).toNat

/-- `AmountFromValue` of a JSON number with text `value`, with the message of
each `RPC_TYPE_ERROR` it throws. -/
def amountFromValue (value : List Char) : Except String CAmount :=
  match parseFixedPoint value 8 with
  | none => .error "Invalid amount"
  | some amount => if moneyRange amount then .ok amount else .error "Amount out of range"


/-! ## Reading back the `"%d.%08d"` text with `ParseFixedPoint` -/

section FixedPoint

theorem mantissaTimesTen_eq (j : ℕ) :
    ∀ {M : ℕ}, M * 10 ^ j < 10 ^ 18 → mantissaTimesTen j (M : ℤ) = some ((M * 10 ^ j : ℕ) : ℤ) := by
  induction j with
  | zero => intro M _; simp [mantissaTimesTen]
  | succ j ih =>
      intro M h
      have h10 : M * 10 < 10 ^ 18 :=
        lt_of_le_of_lt (Nat.mul_le_mul_left _ (Nat.le_self_pow (by omega) 10)) h
      rw [mantissaTimesTen, if_neg (by unfold upperBound; omega)]
      have hcast : ((M * 10 : ℕ) : ℤ) = (M : ℤ) * 10 := by push_cast; ring
      rw [← hcast, ih (by rwa [Nat.mul_assoc, ← Nat.pow_succ']), Nat.pow_succ', Nat.mul_assoc]

theorem scaleMantissa_eq (j : ℕ) :
    ∀ {M : ℕ}, M * 10 ^ j < 10 ^ 18 → scaleMantissa j (M : ℤ) = some ((M * 10 ^ j : ℕ) : ℤ) := by
  induction j with
  | zero => intro M _; simp [scaleMantissa]
  | succ j ih =>
      intro M h
      have h10 : M * 10 < 10 ^ 18 :=
        lt_of_le_of_lt (Nat.mul_le_mul_left _ (Nat.le_self_pow (by omega) 10)) h
      rw [scaleMantissa, if_neg (by unfold upperBound; omega)]
      have hcast : ((M * 10 : ℕ) : ℤ) = (M : ℤ) * 10 := by push_cast; ring
      rw [← hcast, ih (by rwa [Nat.mul_assoc, ← Nat.pow_succ']), Nat.pow_succ', Nat.mul_assoc]

/-- One digit processed onto the mantissa `M` with `tz` zeros after it: the
value `M * 10^tz` gains the digit, and no check fires below `10^18`. -/
theorem processMantissaDigit_eq {c : Char} {M tz : ℕ} (hc : c.isDigit = true)
    (h : 10 * (M * 10 ^ tz) + (c.toNat - '0'.toNat) < 10 ^ 18) :
    ∃ (M' : ℕ) (tz' : ℕ), processMantissaDigit c (M : ℤ) tz = some ((M' : ℤ), tz') ∧
      M' * 10 ^ tz' = 10 * (M * 10 ^ tz) + (c.toNat - '0'.toNat) ∧ tz' ≤ tz + 1 := by
  by_cases h0 : c = '0'
  · subst h0
    refine ⟨M, tz + 1, by simp [processMantissaDigit], ?_, le_rfl⟩
    simp only [Nat.sub_self, Nat.add_zero, Nat.pow_succ]
    ring
  · have hshift : M * 10 ^ (tz + 1) = 10 * (M * 10 ^ tz) := by ring
    have hmul : M * 10 ^ (tz + 1) < 10 ^ 18 := by omega
    refine ⟨M * 10 ^ (tz + 1) + (c.toNat - '0'.toNat), 0, ?_, ?_, by omega⟩
    · rw [processMantissaDigit, if_neg h0, mantissaTimesTen_eq _ hmul]
      simp
    · simp only [Nat.pow_zero, Nat.mul_one, Nat.pow_succ]
      ring

/-- A run of digits read onto the mantissa: the value becomes the digits'
value with the old value in front, and the run stops at the first other
character. -/
theorem mantissaDigits_append {D : List Char} (rest : List Char) (hD : ∀ c ∈ D, c.isDigit = true)
    (hrest : ∀ c ∈ rest.head?, c.isDigit = false) :
    ∀ (M tz k : ℕ), Nat.ofDigitChars 10 D (M * 10 ^ tz) < 10 ^ 18 →
      ∃ (M' : ℕ) (tz' : ℕ), mantissaDigits (D ++ rest) (M : ℤ) tz k =
          some ((M' : ℤ), tz', k + D.length, rest) ∧
        M' * 10 ^ tz' = Nat.ofDigitChars 10 D (M * 10 ^ tz) ∧ tz' ≤ tz + D.length := by
  induction D with
  | nil =>
      intro M tz k _
      refine ⟨M, tz, ?_, by simp, by simp⟩
      cases rest with
      | nil => rfl
      | cons c rest =>
          have hc : c.isDigit = false := hrest c rfl
          simp [mantissaDigits, hc]
  | cons c D ih =>
      intro M tz k h
      have hc := hD c List.mem_cons_self
      rw [Nat.ofDigitChars_cons] at h
      obtain ⟨M', tz', hstep, hval, htz⟩ := processMantissaDigit_eq hc
        (lt_of_le_of_lt (le_trans (Nat.le_mul_of_pos_left _ (Nat.pow_pos (by omega)))
          (le_ofDigitChars D _)) h)
      obtain ⟨M'', tz'', hrun, hval', htz'⟩ :=
        ih (fun d hd => hD d (List.mem_cons_of_mem c hd)) M' tz' (k + 1) (by rw [hval]; exact h)
      refine ⟨M'', tz'', ?_, by rw [hval', hval, Nat.ofDigitChars_cons], by simp; omega⟩
      rw [List.cons_append, mantissaDigits, if_pos hc, hstep]
      simp only
      rw [hrun, List.length_cons, Nat.add_assoc, Nat.add_comm 1]


theorem parseSign_of_ne {c : Char} (h : c ≠ '-') (s : List Char) :
    parseSign (c :: s) = (false, c :: s) := by
  unfold parseSign
  split
  · rename_i heq
    cases heq
    exact absurd rfl h
  · rfl

/-- The integer part of the decimal text of `q`: the mantissa and its zeros
give `q`, and a single `0` leaves no zeros. -/
theorem parseIntegerPart_toDigits {q : ℕ} (hq : q < 10 ^ 18) (rest : List Char)
    (hrest : ∀ c ∈ rest.head?, c.isDigit = false) :
    ∃ M tz : ℕ, parseIntegerPart (Nat.toDigits 10 q ++ rest) = some ((M : ℤ), tz, rest) ∧
      M * 10 ^ tz = q ∧ (q = 0 → tz = 0) := by
  rcases Nat.eq_zero_or_pos q with rfl | hpos
  · exact ⟨0, 0, by simp [Nat.toDigits_zero, parseIntegerPart], by simp, fun _ => rfl⟩
  obtain ⟨c, s, hcs, hc⟩ := toDigits_eq_cons hpos
  have hdigits : ∀ d ∈ c :: s, d.isDigit = true := fun d hd => isDigit_of_mem_toDigits (hcs ▸ hd)
  have hval : Nat.ofDigitChars 10 (c :: s) (0 * 10 ^ 0) = q := by
    rw [← hcs]
    simp
  obtain ⟨M, tz, hrun, hM, -⟩ := mantissaDigits_append rest hdigits hrest 0 0 0
    (by rw [hval]; exact hq)
  rw [Nat.cast_zero] at hrun
  refine ⟨M, tz, ?_, by rw [hM, hval], fun h => absurd h (by omega)⟩
  have hc0 : c ≠ '0' := by
    rintro rfl
    simp [Char.le_def] at hc
  rw [hcs, List.cons_append, parseIntegerPart.eq_def]
  simp only [if_pos hc]
  rw [← List.cons_append, hrun]
  rfl

/-- The end of `ParseFixedPoint` when the point is `decimals` places from the
end and there is no exponent: the value `M * 10^tz` itself, below `10^18`. -/
theorem finalizeFixedPoint_eq {M tz : ℕ} (decimals : ℕ) (h : M * 10 ^ tz < 10 ^ 18)
    (htz : tz < 18) :
    finalizeFixedPoint false (M : ℤ) tz decimals 0 decimals = some ((M * 10 ^ tz : ℕ) : ℤ) := by
  have hexp : (0 : ℤ) - (decimals : ℤ) + (tz : ℤ) + (decimals : ℤ) = tz := by omega
  simp only [finalizeFixedPoint, hexp, Bool.false_eq_true, if_false]
  rw [if_neg (by omega), if_neg (by omega), Int.toNat_natCast, scaleMantissa_eq _ h]
  simp only
  rw [if_neg (by unfold upperBound; omega)]

/-- `ParseFixedPoint` with eight decimals reads back the `"%d.%08d"` text of
every value below `10^18`. -/
theorem parseFixedPoint_fixedPointText {q r : ℕ} (hr : r < 10 ^ 8) (hv : q * 10 ^ 8 + r < 10 ^ 18) :
    parseFixedPoint (fixedPointText q r) 8 = some ((q * 10 ^ 8 + r : ℕ) : ℤ) := by
  obtain ⟨hFlen, hFdig, hFval⟩ := formatPadded_spec (w := 8) (by decide) hr
  obtain ⟨f, F', hF⟩ : ∃ f F', formatPadded 8 r = f :: F' :=
    List.exists_cons_of_ne_nil (List.ne_nil_of_length_pos (by omega))
  obtain ⟨M, tz, hint, hM, hq0⟩ := parseIntegerPart_toDigits (q := q) (by omega)
    ('.' :: formatPadded 8 r) (by simp)
  have hfracBound : Nat.ofDigitChars 10 (formatPadded 8 r) (M * 10 ^ tz) = q * 10 ^ 8 + r := by
    rw [Nat.ofDigitChars_eq_ofDigitChars_zero, hFval, hFlen, hM, Nat.mul_comm]
  obtain ⟨M', tz', hfrac, hM', htz'⟩ := mantissaDigits_append [] hFdig (by simp) M tz 0
    (by rw [hfracBound]; exact hv)
  rw [hfracBound] at hM'
  rw [List.append_nil] at hfrac
  -- the zeros left after the last nonzero digit stay below eighteen
  have htz18 : tz' < 18 := by
    rcases Nat.eq_zero_or_pos q with hq | hq
    · have := hq0 hq
      omega
    · have hM'pos : 0 < M' := Nat.pos_of_ne_zero fun h0 => by rw [h0] at hM'; simp at hM'; omega
      have : 10 ^ tz' < 10 ^ 18 :=
        lt_of_le_of_lt (Nat.le_mul_of_pos_left _ hM'pos) (hM' ▸ hv)
      exact (Nat.pow_lt_pow_iff_right (by omega)).mp this
  have hfirst : ∃ c s, fixedPointText q r = c :: s ∧ c ≠ '-' := by
    obtain ⟨c, s, hcs⟩ : ∃ c s, Nat.toDigits 10 q = c :: s :=
      List.exists_cons_of_ne_nil Nat.toDigits_ne_nil
    refine ⟨c, s ++ '.' :: formatPadded 8 r, by rw [fixedPointText, hcs]; rfl,
      ne_of_isDigit (isDigit_of_mem_toDigits (hcs ▸ List.mem_cons_self)) rfl⟩
  obtain ⟨c, s, hcs, hc⟩ := hfirst
  rw [parseFixedPoint, hcs, parseSign_of_ne hc, ← hcs, fixedPointText]
  dsimp only
  rw [hint]
  simp only [Option.bind_eq_bind, Option.bind_some]
  rw [hF, parseFractionPart, if_pos (hFdig f (hF ▸ List.mem_cons_self)), ← hF, hfrac]
  simp only [Option.bind_some, parseExponentPart, ne_eq, not_true_eq_false, if_false]
  rw [Nat.zero_add, hFlen, finalizeFixedPoint_eq 8 (hM' ▸ hv) htz18, hM']


/-- `AmountFromValue` takes back every amount below `10^18` from the text
`ValueFromAmount` gives it. -/
theorem amountFromValue_valueFromAmount {n : ℕ} (h : n < 10 ^ 18) :
    amountFromValue (valueFromAmount n) = .ok n := by
  have hq : ((n : ℤ) / coin).toNat = n / 10 ^ 8 := by unfold coin; omega
  have hr : ((n : ℤ) % coin).toNat = n % 10 ^ 8 := by unfold coin; omega
  have hsplit : n / 10 ^ 8 * 10 ^ 8 + n % 10 ^ 8 = n := Nat.div_add_mod' n _
  have hnonneg : ¬(n : ℤ) < 0 := by omega
  simp only [valueFromAmount, hnonneg, if_false, List.nil_append, hq, hr]
  rw [amountFromValue, parseFixedPoint_fixedPointText (Nat.mod_lt _ (by decide)) (by omega), hsplit]
  -- `CAmount` spelled out as `ℤ` for the arithmetic
  have hrange : moneyRange (n : ℤ) := by
    show @LE.le ℤ _ 0 n ∧ @LE.le ℤ _ n (30000000000 * 100000000)
    constructor <;> omega
  simp [hrange]

end FixedPoint


/-! ## Reading back `FormatMoney` with `ParseMoney` -/

section Money

theorem trimCount_le {str : List Char} {m : ℕ} (hm : (str.getD m ' ').isDigit = false) (k : ℕ) :
    trimCount str (m + 2 + k) ≤ k := by
  induction k with
  | zero =>
      rw [show m + 2 + 0 = m + 1 + 1 from rfl, trimCount, Nat.add_sub_cancel, hm]
      simp
  | succ k ih =>
      rw [show m + 2 + (k + 1) = m + 2 + k + 1 from rfl, trimCount]
      split <;> omega

theorem trimCount_zeros (str : List Char) (i : ℕ) :
    ∀ j < trimCount str i, str.getD (i - j) ' ' = '0' := by
  induction i with
  | zero => intro j hj; simp [trimCount] at hj
  | succ i ih =>
      intro j hj
      rw [trimCount] at hj
      split at hj
      · rename_i hc
        rcases j with _ | j
        · exact hc.1
        · rw [show i + 1 - (j + 1) = i - j by omega]
          exact ih j (by omega)
      · omega

/-- What `FormatMoney` writes for an amount below `10^18`: the coins, the
point, and the first `j` of the eight decimals, the others being zeros. -/
theorem formatMoney_of_lt {n : ℕ} (h : n < 10 ^ 18) :
    ∃ j, 2 ≤ j ∧ j ≤ 8 ∧
      formatMoney n = Nat.toDigits 10 (n / 10 ^ 8) ++ '.' :: (formatPadded 8 (n % 10 ^ 8)).take j ∧
      (formatPadded 8 (n % 10 ^ 8)).drop j = List.replicate (8 - j) '0' := by
  obtain ⟨hFlen, -, -⟩ := formatPadded_spec (w := 8) (by decide) (Nat.mod_lt n (by decide))
  set D := Nat.toDigits 10 (n / 10 ^ 8)
  set F := formatPadded 8 (n % 10 ^ 8)
  set str := D ++ '.' :: F with hstr
  have hlen : str.length = D.length + 9 := by simp [str, hFlen]
  have hdot : str.getD D.length ' ' = '.' := by
    rw [List.getD_append_right _ _ _ _ le_rfl, Nat.sub_self]
    rfl
  have hT := @trimCount_le str D.length (by rw [hdot]; rfl) 6
  rw [show D.length + 2 + 6 = str.length - 1 by omega] at hT
  refine ⟨8 - trimCount str (str.length - 1), by omega, by omega, ?_, ?_⟩
  · have hq : ((n : ℤ) / coin).toNat = n / 10 ^ 8 := by unfold coin; omega
    have hr : ((n : ℤ) % coin).toNat = n % 10 ^ 8 := by unfold coin; omega
    have habs : (if (0 : ℤ) < n then (n : ℤ) else -n) = n := by split <;> omega
    simp only [formatMoney, habs, hq, hr, fixedPointText, if_neg (show ¬(n : ℤ) < 0 by omega)]
    rw [← hstr, show str.length - trimCount str (str.length - 1) =
      D.length + (9 - trimCount str (str.length - 1)) by omega, hstr, List.take_length_add_append,
      show 9 - trimCount str (str.length - 1) = 8 - trimCount str (str.length - 1) + 1 by omega,
      List.take_succ_cons]
  · -- each dropped decimal is one of the zeros the loop counted
    apply List.eq_replicate_iff.mpr
    refine ⟨by simp [hFlen], fun x hx => ?_⟩
    obtain ⟨i, hi, rfl⟩ := List.mem_iff_getElem.mp hx
    rw [List.getElem_drop]
    have hzero := trimCount_zeros str (str.length - 1) (7 - (8 - trimCount str (str.length - 1) + i))
      (by simp at hi; omega)
    rw [show str.length - 1 - (7 - (8 - trimCount str (str.length - 1) + i)) =
      D.length + 1 + (8 - trimCount str (str.length - 1) + i) by simp at hi; omega,
      List.getD_append_right _ _ _ _ (by omega), show D.length + 1 + (8 - trimCount str
        (str.length - 1) + i) - D.length = (8 - trimCount str (str.length - 1) + i) + 1 by omega,
      List.getD_cons_succ, List.getD_eq_getElem _ _ (by simp at hi; omega)] at hzero
    exact hzero

theorem parseMoneyWhole_digits (acc : List Char) {D : List Char} (hD : ∀ c ∈ D, c.isDigit = true)
    (rest : List Char) : parseMoneyWhole acc (D ++ rest) = parseMoneyWhole (acc ++ D) rest := by
  induction D generalizing acc with
  | nil => simp
  | cons c D ih =>
      have hc := hD c List.mem_cons_self
      rw [List.cons_append, parseMoneyWhole, if_neg (ne_of_isDigit hc rfl),
        if_neg (by rw [isSpace_of_isDigit hc]; decide), if_neg (by rw [hc]; decide),
        ih _ fun d hd => hD d (List.mem_cons_of_mem c hd), List.append_assoc, List.singleton_append]

/-- The fraction loop of `ParseMoney` over at most as many digits as `nMult`
has places: their value, scaled to base units. -/
theorem parseMoneyFraction_digits {F : List Char} (hF : ∀ c ∈ F, c.isDigit = true) :
    ∀ (k : ℕ) (acc : ℤ), F.length ≤ k + 1 →
      parseMoneyFraction ((10 ^ k : ℕ) : ℤ) acc F =
        (acc + ((Nat.ofDigitChars 10 F 0 * 10 ^ (k + 1 - F.length) : ℕ) : ℤ), []) := by
  induction F with
  | nil => intro k acc _; simp [parseMoneyFraction]
  | cons c F ih =>
      intro k acc hlen
      have hc := hF c List.mem_cons_self
      have hF' : ∀ d ∈ F, d.isDigit = true := fun d hd => hF d (List.mem_cons_of_mem c hd)
      have hpow : (0 : ℤ) < ((10 ^ k : ℕ) : ℤ) := by
        have := Nat.pow_pos (n := k) (show 0 < 10 by omega)
        omega
      rw [parseMoneyFraction, if_pos ⟨hc, hpow⟩]
      cases F with
      | nil =>
          simp only [parseMoneyFraction, Nat.ofDigitChars_cons, Nat.ofDigitChars_nil,
            List.length_singleton, Nat.add_sub_cancel, Prod.mk.injEq, and_true]
          push_cast
          ring
      | cons c' F =>
          -- a second digit needs a second place: `nMult` is at least ten
          obtain ⟨k, rfl⟩ : ∃ k', k = k' + 1 := ⟨k - 1, by simp at hlen; omega⟩
          have hdiv : ((10 ^ (k + 1) : ℕ) : ℤ) / 10 = ((10 ^ k : ℕ) : ℤ) := by
            push_cast
            rw [pow_succ, Int.mul_ediv_cancel _ (by decide)]
          have hle : (c' :: F).length ≤ k + 1 := by simp at hlen ⊢; omega
          have hcons : Nat.ofDigitChars 10 (c :: c' :: F) 0 = 10 ^ (c' :: F).length *
              (10 * 0 + (c.toNat - '0'.toNat)) + Nat.ofDigitChars 10 (c' :: F) 0 := by
            rw [Nat.ofDigitChars_cons, Nat.ofDigitChars_eq_ofDigitChars_zero]
          rw [hdiv, ih hF' k _ hle, hcons,
            show k + 1 + 1 - (c :: c' :: F).length = k + 1 - (c' :: F).length by simp]
          have hsplit : 10 ^ (k + 1) = 10 ^ (c' :: F).length * 10 ^ (k + 1 - (c' :: F).length) := by
            rw [← Nat.pow_add, Nat.add_sub_cancel' hle]
          have key : 10 ^ (k + 1) * (c.toNat - '0'.toNat) +
              Nat.ofDigitChars 10 (c' :: F) 0 * 10 ^ (k + 1 - (c' :: F).length) =
              (10 ^ (c' :: F).length * (10 * 0 + (c.toNat - '0'.toNat)) +
                Nat.ofDigitChars 10 (c' :: F) 0) * 10 ^ (k + 1 - (c' :: F).length) := by
            rw [hsplit]
            ring
          rw [Prod.mk.injEq, add_assoc]
          exact ⟨congrArg (acc + ·) (by exact_mod_cast key), rfl⟩


/-- `ParseMoney` takes back every amount below `10^18` from the text
`FormatMoney` gives it. -/
theorem parseMoney_formatMoney {n : ℕ} (h : n < 10 ^ 18) :
    parseMoney (formatMoney n) = some (n : CAmount) := by
  obtain ⟨j, -, hj8, hfmt, hzeros⟩ := formatMoney_of_lt h
  obtain ⟨hFlen, hFdig, hFval⟩ := formatPadded_spec (w := 8) (by decide) (Nat.mod_lt n (by decide))
  set D := Nat.toDigits 10 (n / 10 ^ 8)
  set F := formatPadded 8 (n % 10 ^ 8)
  have hDdig : ∀ c ∈ D, c.isDigit = true := fun c hc => isDigit_of_mem_toDigits hc
  have hKdig : ∀ c ∈ F.take j, c.isDigit = true := fun c hc => hFdig c (List.mem_of_mem_take hc)
  have hD10 : D.length ≤ 10 := length_toDigits_le (by decide) (by omega)
  have hunits : Nat.ofDigitChars 10 (F.take j) 0 * 10 ^ (8 - j) = n % 10 ^ 8 :=
    calc Nat.ofDigitChars 10 (F.take j) 0 * 10 ^ (8 - j)
        = Nat.ofDigitChars 10 (F.take j ++ F.drop j) 0 := by
          rw [hzeros, Nat.ofDigitChars_append, Nat.ofDigitChars_replicate_zero, Nat.mul_comm]
      _ = n % 10 ^ 8 := by rw [List.take_append_drop, hFval]
  -- the text has no `NUL` and does not start with a space
  have htake : ((formatMoney n).takeWhile fun c => c ≠ Char.ofNat 0) = formatMoney n := by
    apply List.takeWhile_eq_self_iff.mpr
    intro c hc
    have hc' : c.isDigit = true ∨ c = '.' := by
      rw [hfmt] at hc
      rcases List.mem_append.mp hc with hc | hc
      · exact Or.inl (hDdig c hc)
      · rcases List.mem_cons.mp hc with rfl | hc
        · exact Or.inr rfl
        · exact Or.inl (hKdig c hc)
    rcases hc' with hc' | rfl
    · have := isDigit_iff_toNat.mp hc'
      simp only [ne_eq, decide_eq_true_eq]
      rintro rfl
      simp at this
    · decide
  obtain ⟨c, s, hcs⟩ : ∃ c s, D = c :: s := List.exists_cons_of_ne_nil Nat.toDigits_ne_nil
  have hdrop : (formatMoney n).dropWhile isSpace = formatMoney n := by
    rw [hfmt, hcs, List.cons_append, List.dropWhile_cons_of_neg]
    rw [isSpace_of_isDigit (hDdig c (hcs ▸ List.mem_cons_self))]
    decide
  have hcoin : coin / 10 = ((10 ^ 7 : ℕ) : ℤ) := rfl
  have hlenK : (F.take j).length = j := by simp [hFlen]; omega
  rw [parseMoney, htake, hdrop, hfmt, parseMoneyWhole_digits [] hDdig, List.nil_append, parseMoneyWhole, if_pos rfl, hcoin,
    parseMoneyFraction_digits hKdig 7 0 (by omega), hlenK, show 7 + 1 - j = 8 - j by omega, hunits]
  have hq : Nat.ofDigitChars 10 D 0 = n / 10 ^ 8 := Nat.ofDigitChars_ten_toDigits
  simp only [List.all_nil, Bool.not_true, Bool.false_eq_true, if_false, hq]
  unfold coin
  simp only [camount_lt_iff]
  rw [if_neg (by omega), if_neg (by omega)]
  congr 1
  show @Eq ℤ _ _
  omega

/-- Both text forms of an amount read back as the amount, for every amount
below `10^18`: the ten integer digits `ParseMoney` takes and the mantissa
bound of `ParseFixedPoint` both end there. -/
theorem amount_text_round_trip {n : CAmount} (h0 : 0 ≤ n) (h : n < 1000000000000000000) :
    parseMoney (formatMoney n) = some n ∧ amountFromValue (valueFromAmount n) = .ok n := by
  obtain ⟨m, rfl⟩ := Int.eq_ofNat_of_zero_le h0
  have hm : m < 10 ^ 18 := by
    have := (camount_lt_iff _ _).mp h
    omega
  exact ⟨parseMoney_formatMoney hm, amountFromValue_valueFromAmount hm⟩

/-- The largest amount both parsers take back. -/
theorem amount_text_round_trip_largest :
    0 ≤ (999999999999999999 : CAmount) ∧ (999999999999999999 : CAmount) < 1000000000000000000 ∧
      parseMoney (formatMoney 999999999999999999) = some 999999999999999999 ∧
      amountFromValue (valueFromAmount 999999999999999999) = .ok 999999999999999999 :=
  ⟨by decide, by decide, amount_text_round_trip (by decide) (by decide)⟩

/-- `10^18` base units, ten billion coins and within the money range, is
written as eleven integer digits, which `ParseMoney` refuses, and is the
first mantissa that `ParseFixedPoint` refuses. -/
theorem amount_text_round_trip_fails_at_ten_pow_eighteen :
    moneyRange 1000000000000000000 ∧ parseMoney (formatMoney 1000000000000000000) = none ∧
      amountFromValue (valueFromAmount 1000000000000000000) = .error "Invalid amount" := by
  refine ⟨?_, ?_, ?_⟩ <;> decide

end Money

end Metrix
