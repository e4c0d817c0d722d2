import Metrix.Chain.BlockProof

/-! Retargeting of the proof-of-stake difficulty (`pow.cpp`). `mul_exp` sums
the series of `a * exp(p / q)` term by term with a floor at every division,
and `CalculateNextWorkRequired` moves the previous target towards the target
spacing, linearly before `QIP9Height` and by `mul_exp` from it on. Targets are
`arith_uint256` limbs (`Primitives/ArithUint256.lean`), and `GetCompact` is
read through their value. `int64_t` quantities are integers, their `/`
truncating (`Int.tdiv`).

The loop of `mul_exp` has no bound of its own, so it runs here on fuel; with
`1 ≤ q` and `|p| < q` each term is at most the one before over its index, the
58th is zero and the loop ends, and for a negative exponent the running
result stays between zero and `a`. -/

namespace Metrix

open BaseUint

/-- `arith_uint256(n)` of an `int64_t`, through the constructor from
`uint64_t`. -/
def ofInt64 (n : ℤ) : ArithUint256 := ofUInt64 (UInt64.ofInt n)

theorem toNat_ofInt64 {n : ℤ} (h0 : 0 ≤ n) (h : n < 2 ^ 64) : (ofInt64 n).toNat = n.toNat := by
  rw [ofInt64, toNat_ofUInt64, UInt64.ofInt, UInt64.toNat_ofNat', Int.emod_eq_of_lt h0 h]
  omega

/-! ## `mul_exp` -/

/-- One pass of the loop of `mul_exp`: `a = a * abs_p / q / n`, then the new
term taken from `result` for a negative exponent at an odd `n` and added to it
otherwise. `a * abs_p` resolves to `operator*(const base_uint&, uint32_t)`, so
`abs_p` is cut to 32 bits. -/
def mulExpStep (isNegative : Bool) (absP : UInt64) (q : ℤ) (n : ℕ) (a result : ArithUint256) :
    Except String (ArithUint256 × ArithUint256) := do
  let a ← (mulU32 a absP.toUInt32).div (ofInt64 q)
  let a ← a.div (ofUInt64 (UInt64.ofNat n))
  return (a, if isNegative && n % 2 == 1 then result - a else result + a)

/-- The loop `while (a > 0)` of `mul_exp` after `n` passes, for at most `fuel`
tests of its condition. The counter `n` is a `uint64_t` that stays below 59
(`mulExpTerm_fifty_eight`). -/
def mulExpLoop (isNegative : Bool) (absP : UInt64) (q : ℤ) :
    ℕ → ℕ → ArithUint256 → ArithUint256 → Option (Except String ArithUint256)
  | 0, _, _, _ => none
  | fuel + 1, n, a, result =>
      if 0 < compareTo a (ofUInt64 0) then
        match mulExpStep isNegative absP q (n + 1) a result with
        | .ok (a, result) => mulExpLoop isNegative absP q fuel (n + 1) a result
        | .error e => some (.error e)
      else some (.ok result)

/-- `mul_exp(a, p, q)`; `none` when `fuel` tests of the loop condition do not
reach its end. -/
def mulExp (fuel : ℕ) (a : ArithUint256) (p q : ℤ) : Option (Except String ArithUint256) :=
  let isNegative := decide (p < 0)
  let absP := UInt64.ofInt (if 0 ≤ p then p else -p)
  mulExpLoop isNegative absP q fuel 0 a a

/-- The terms of the series as the code computes them: each is the one
before times `m`, modulo `2 ^ 256`, divided by `q` and by its index. -/
def mulExpTerm (a m q : ℕ) : ℕ → ℕ
  | 0 => a
  | n + 1 => mulExpTerm a m q n * m % 2 ^ 256 / q / (n + 1)

/-- The running result after `n` passes as an integer, before it is taken
modulo `2 ^ 256`. -/
def mulExpRunning (isNegative : Bool) (a m q : ℕ) : ℕ → ℤ
  | 0 => a
  | n + 1 => mulExpRunning isNegative a m q n +
      if isNegative && (n + 1) % 2 == 1 then -(mulExpTerm a m q (n + 1) : ℤ)
      else (mulExpTerm a m q (n + 1) : ℤ)

section Series

variable {a m q : ℕ}

/-- With `m ≤ q` a term is at most the one before over its index. -/
theorem mulExpTerm_succ_le (hmq : m ≤ q) (n : ℕ) :
    mulExpTerm a m q (n + 1) ≤ mulExpTerm a m q n / (n + 1) := by
  have hmul : mulExpTerm a m q n * m / q ≤ mulExpTerm a m q n := by
    rcases Nat.eq_zero_or_pos q with hq | hq
    · rw [hq, Nat.div_zero]
      exact Nat.zero_le _
    · exact Nat.div_le_of_le_mul (by rw [Nat.mul_comm q]; exact Nat.mul_le_mul_left _ hmq)
  calc mulExpTerm a m q n * m % 2 ^ 256 / q / (n + 1)
      ≤ mulExpTerm a m q n * m / q / (n + 1) :=
        Nat.div_le_div_right (Nat.div_le_div_right (Nat.mod_le _ _))
    _ ≤ mulExpTerm a m q n / (n + 1) := Nat.div_le_div_right hmul

theorem mulExpTerm_succ_le_self (hmq : m ≤ q) (n : ℕ) :
    mulExpTerm a m q (n + 1) ≤ mulExpTerm a m q n :=
  (mulExpTerm_succ_le hmq n).trans (Nat.div_le_self _ _)

theorem mulExpTerm_le_factorial (hmq : m ≤ q) : ∀ n, mulExpTerm a m q n ≤ a / n.factorial
  | 0 => by simp [mulExpTerm]
  | n + 1 => by
      calc mulExpTerm a m q (n + 1) ≤ mulExpTerm a m q n / (n + 1) := mulExpTerm_succ_le hmq n
        _ ≤ a / n.factorial / (n + 1) := Nat.div_le_div_right (mulExpTerm_le_factorial hmq n)
        _ = a / (n + 1).factorial := by
          rw [Nat.div_div_eq_div_mul, Nat.factorial_succ, Nat.mul_comm]

/-- The 58th term is zero: `58!` is past `2 ^ 256`. -/
theorem mulExpTerm_fifty_eight (hmq : m ≤ q) (ha : a < 2 ^ 256) : mulExpTerm a m q 58 = 0 := by
  have hfact : 2 ^ 256 < Nat.factorial 58 := by decide
  have := mulExpTerm_le_factorial (a := a) hmq 58
  rw [Nat.div_eq_of_lt (ha.trans hfact)] at this
  omega

theorem mulExpTerm_eq_zero_of_le {N : ℕ} (hN : mulExpTerm a m q N = 0) :
    ∀ k, N ≤ k → mulExpTerm a m q k = 0
  | 0, hk => by rwa [Nat.le_zero.mp hk] at hN
  | k + 1, hk => by
      rcases Nat.eq_or_lt_of_le hk with h | h
      · rwa [← h]
      · rw [mulExpTerm, mulExpTerm_eq_zero_of_le hN k (by omega), Nat.zero_mul, Nat.zero_mod,
          Nat.zero_div, Nat.zero_div]

/-- Past a zero term the running result no longer moves. -/
theorem mulExpRunning_eq_of_le (isNegative : Bool) {N : ℕ} (hN : mulExpTerm a m q N = 0) :
    ∀ k, N ≤ k → mulExpRunning isNegative a m q k = mulExpRunning isNegative a m q N
  | 0, hk => by rw [Nat.le_zero.mp hk]
  | k + 1, hk => by
      rcases Nat.eq_or_lt_of_le hk with h | h
      · rw [h]
      · rw [mulExpRunning, mulExpRunning_eq_of_le isNegative hN k (by omega),
          mulExpTerm_eq_zero_of_le hN (k + 1) h.le]
        simp

/-- For a negative exponent the terms alternate and do not grow: after an
even number of passes the running result holds the last term and is at most
`a`, after an odd number it is nonnegative and the last term fits above it. -/
theorem mulExpRunning_bounds (hmq : m ≤ q) : ∀ n,
    (n % 2 = 0 → (mulExpTerm a m q n : ℤ) ≤ mulExpRunning true a m q n ∧
        mulExpRunning true a m q n ≤ a) ∧
      (n % 2 = 1 → 0 ≤ mulExpRunning true a m q n ∧
        mulExpRunning true a m q n + mulExpTerm a m q n ≤ a)
  | 0 => by simp [mulExpRunning, mulExpTerm]
  | n + 1 => by
      obtain ⟨heven, hodd⟩ := mulExpRunning_bounds hmq n
      have hle : (mulExpTerm a m q (n + 1) : ℤ) ≤ mulExpTerm a m q n := by
        exact_mod_cast mulExpTerm_succ_le_self hmq n
      have hterm : (0 : ℤ) ≤ mulExpTerm a m q (n + 1) := Int.natCast_nonneg _
      rcases Nat.mod_two_eq_zero_or_one n with hn | hn
      · -- an odd pass subtracts a term no larger than the one the result holds
        have hodd' : (n + 1) % 2 = 1 := by omega
        obtain ⟨h1, h2⟩ := heven hn
        have hsub : mulExpRunning true a m q (n + 1) =
            mulExpRunning true a m q n - mulExpTerm a m q (n + 1) := by
          simp [mulExpRunning, hodd', sub_eq_add_neg]
        refine ⟨fun h => by omega, fun _ => ⟨by omega, by omega⟩⟩
      · -- an even pass adds back at most what the last subtraction took
        have heven' : (n + 1) % 2 = 0 := by omega
        obtain ⟨h1, h2⟩ := hodd hn
        have hadd : mulExpRunning true a m q (n + 1) =
            mulExpRunning true a m q n + mulExpTerm a m q (n + 1) := by
          simp [mulExpRunning, heven']
        refine ⟨fun _ => ⟨by omega, by omega⟩, fun h => by omega⟩

theorem mulExpRunning_nonneg (hmq : m ≤ q) (n : ℕ) : 0 ≤ mulExpRunning true a m q n := by
  obtain ⟨heven, hodd⟩ := mulExpRunning_bounds (a := a) hmq n
  rcases Nat.mod_two_eq_zero_or_one n with hn | hn
  · exact le_trans (Int.natCast_nonneg _) (heven hn).1
  · exact (hodd hn).1

theorem mulExpRunning_le (hmq : m ≤ q) (n : ℕ) : mulExpRunning true a m q n ≤ a := by
  obtain ⟨heven, hodd⟩ := mulExpRunning_bounds (a := a) hmq n
  rcases Nat.mod_two_eq_zero_or_one n with hn | hn
  · exact (heven hn).2
  · have := hodd hn
    have : (0 : ℤ) ≤ mulExpTerm a m q n := Int.natCast_nonneg _
    omega

end Series

/-- A pass of the loop with `1 ≤ q`: the divisions do not throw, the new
term is the last times `abs_p` cut to 32 bits, modulo `2 ^ 256`, over `q` and
`n`, and the result moves by it modulo `2 ^ 256`. -/
theorem mulExpStep_spec (isNegative : Bool) (absP : UInt64) {q : ℤ} (hq : 1 ≤ q)
    (hq64 : q < 2 ^ 64) {n : ℕ} (hn0 : 0 < n) (hn : n < 2 ^ 64) (a result : ArithUint256) :
    ∃ a' result', mulExpStep isNegative absP q n a result = .ok (a', result') ∧
      a'.toNat = a.toNat * (absP.toNat % 2 ^ 32) % 2 ^ 256 / q.toNat / n ∧
      (result'.toNat : ℤ) = ((result.toNat : ℤ) +
        if isNegative && n % 2 == 1 then -(a'.toNat : ℤ) else (a'.toNat : ℤ)) % 2 ^ 256 := by
  have hqv : (ofInt64 q).toNat = q.toNat := toNat_ofInt64 (by omega) hq64
  have hnv : (ofUInt64 (UInt64.ofNat n) : ArithUint256).toNat = n := by
    rw [toNat_ofUInt64, UInt64.toNat_ofNat', Nat.mod_eq_of_lt hn]
  obtain ⟨x, hx, hxv⟩ := div_eq_ok (mulU32 a absP.toUInt32) (b := ofInt64 q) (by omega)
  obtain ⟨y, hy, hyv⟩ := div_eq_ok x (b := ofUInt64 (UInt64.ofNat n)) (by omega)
  refine ⟨y, if isNegative && n % 2 == 1 then result - y else result + y, ?_, ?_, ?_⟩
  · simp only [mulExpStep, hx, hy, bind, Except.bind, pure, Except.pure]
  · rw [hyv, hxv, toNat_mulU32, hqv, hnv, UInt64.toNat_toUInt32]
  · split
    · rw [toNat_sub_int, sub_eq_add_neg]
    · rw [toNat_add_int]

/-- A run of the loop from pass `n` whose terms reach zero at `N` within the
fuel: it returns the running result at `N`, modulo `2 ^ 256`. -/
theorem mulExpLoop_spec (isNegative : Bool) (absP : UInt64) {q : ℤ} (hq : 1 ≤ q)
    (hq64 : q < 2 ^ 64) (a₀ : ℕ) {N : ℕ}
    (hN : mulExpTerm a₀ (absP.toNat % 2 ^ 32) q.toNat N = 0) (hN64 : N < 2 ^ 64) :
    ∀ fuel n (a result : ArithUint256), n ≤ N → N - n < fuel →
      a.toNat = mulExpTerm a₀ (absP.toNat % 2 ^ 32) q.toNat n →
      (result.toNat : ℤ) = mulExpRunning isNegative a₀ (absP.toNat % 2 ^ 32) q.toNat n % 2 ^ 256 →
      ∃ r, mulExpLoop isNegative absP q fuel n a result = some (.ok r) ∧
        (r.toNat : ℤ) = mulExpRunning isNegative a₀ (absP.toNat % 2 ^ 32) q.toNat N % 2 ^ 256
  | 0, _, _, _, _, hfuel, _, _ => absurd hfuel (Nat.not_lt_zero _)
  | fuel + 1, n, a, result, hn, hfuel, ha, hr => by
      rw [mulExpLoop]
      by_cases hpos : 0 < compareTo a (ofUInt64 0)
      · -- `a > 0`: one more pass, towards the zero term at `N`
        rw [if_pos hpos]
        have hnN : n < N := by
          rcases Nat.eq_or_lt_of_le hn with h | h
          · rw [compareTo_zero_pos, ha, h, hN] at hpos
            omega
          · exact h
        obtain ⟨a', r', hstep, ha', hr'⟩ :=
          mulExpStep_spec isNegative absP hq hq64 (Nat.succ_pos n) (by omega) a result
        have hterm : a'.toNat = mulExpTerm a₀ (absP.toNat % 2 ^ 32) q.toNat (n + 1) := by
          rw [ha', ha]
          rfl
        rw [hstep]
        refine mulExpLoop_spec isNegative absP hq hq64 a₀ hN hN64 fuel (n + 1) a' r' hnN
          (by omega) hterm ?_
        rw [hr', hr, Int.emod_add_emod, hterm]
        rfl
      · -- `a = 0`: the loop ends, and the running result is already final
        rw [if_neg hpos]
        have hzero : mulExpTerm a₀ (absP.toNat % 2 ^ 32) q.toNat n = 0 := by
          rw [compareTo_zero_pos] at hpos
          omega
        exact ⟨result, rfl, by rw [hr, mulExpRunning_eq_of_le isNegative hzero N hn]⟩

/-- `abs_p` is `|p|` for an `int64_t` of magnitude below `2 ^ 63`. -/
theorem toNat_absP {p : ℤ} (hp : |p| < 2 ^ 63) :
    (UInt64.ofInt (if 0 ≤ p then p else -p)).toNat = p.natAbs := by
  have habs : (if 0 ≤ p then p else -p) = |p| := by
    split_ifs with h
    · exact (abs_of_nonneg h).symm
    · exact (abs_of_neg (not_le.mp h)).symm
  rw [habs, UInt64.ofInt, UInt64.toNat_ofNat', Int.emod_eq_of_lt (abs_nonneg p) (by omega)]
  omega

/-! ## `CalculateNextWorkRequired` -/

/-- The fields of `Consensus::Params` that retargeting reads; the limits are
`UintToArith256` of the `uint256` constants. -/
structure PowParams where
  powLimit : ArithUint256
  posLimit : ArithUint256
  qip9PosLimit : ArithUint256
  fPowNoRetargeting : Bool
  fPoSNoRetargeting : Bool
  nPowTargetSpacing : ℤ
  nPowTargetTimespan : ℤ
  nPowTargetTimespanV2 : ℤ
  qip9Height : ℤ

/-- `Consensus::Params::DifficultyAdjustmentInterval`. -/
def PowParams.difficultyAdjustmentInterval (params : PowParams) (height : ℤ) : ℤ :=
  let targetSpacing :=
    if height < params.qip9Height then params.nPowTargetTimespan else params.nPowTargetTimespanV2
  targetSpacing.tdiv params.nPowTargetSpacing

/-- `GetLimit`. -/
def getLimit (nHeight : ℤ) (params : PowParams) (fProofOfStake : Bool) : ArithUint256 :=
  if fProofOfStake then
    if nHeight < params.qip9Height then params.posLimit else params.qip9PosLimit
  else params.powLimit

/-- The rule before `QIP9Height`: the spacing clamped to
`[0, 10 * nTargetSpacing]`, a negative one counting as `nTargetSpacing`, and
`bnNew *= (nInterval - 1) * nTargetSpacing + 2 * nActualSpacing` through
`operator*=(uint32_t)`, then `bnNew /= (nInterval + 1) * nTargetSpacing`. -/
def linearRetarget (nTargetSpacing nInterval nActualSpacing : ℤ) (bnNew : ArithUint256) :
    Except String ArithUint256 :=
  let s := if nActualSpacing < 0 then nTargetSpacing else nActualSpacing
  let s := if s > nTargetSpacing * 10 then nTargetSpacing * 10 else s
  let bnNew := mulU32 bnNew (UInt32.ofInt ((nInterval - 1) * nTargetSpacing + s + s))
  bnNew.div (ofInt64 ((nInterval + 1) * nTargetSpacing))

/-- The arguments of `mul_exp` in the rule from `QIP9Height` on: the spacing
clamped to `[0, 20 * nTargetSpacing]`, `p = 2 * (nActualSpacing -
nTargetSpacing) / 16` and `q = (nInterval + 1) * nTargetSpacing / 16`. -/
def qip9MulExpArgs (nTargetSpacing nInterval nActualSpacing : ℤ) : ℤ × ℤ :=
  let s := if nActualSpacing < 0 then nTargetSpacing else nActualSpacing
  let s := if s > nTargetSpacing * 20 then nTargetSpacing * 20 else s
  ((2 * (s - nTargetSpacing)).tdiv 16, ((nInterval + 1) * nTargetSpacing).tdiv 16)

/-- `CalculateNextWorkRequired` after a block at `nHeight` with `nBits` and
time `nTime`; `mul_exp` runs on `fuel`. -/
def calculateNextWorkRequired (fuel : ℕ) (params : PowParams) (fProofOfStake : Bool)
    (nHeight : ℤ) (nBits : UInt32) (nTime nFirstBlockTime : ℤ) : Option (Except String UInt32) :=
  if fProofOfStake && params.fPoSNoRetargeting || !fProofOfStake && params.fPowNoRetargeting then
    some (.ok nBits)
  else
    let nTargetSpacing := params.nPowTargetSpacing
    let nActualSpacing := nTime - nFirstBlockTime
    let bnTargetLimit := getLimit (nHeight + 1) params fProofOfStake
    let bnNew := setCompactLimbs nBits
    let nInterval := params.difficultyAdjustmentInterval (nHeight + 1)
    let retargeted :=
      if nHeight + 1 < params.qip9Height then
        some (linearRetarget nTargetSpacing nInterval nActualSpacing bnNew)
      else
        let args := qip9MulExpArgs nTargetSpacing nInterval nActualSpacing
        mulExp fuel bnNew args.1 args.2
    retargeted.map fun r => r.map fun bnNew =>
      let bnNew :=
        if compareTo bnNew (ofUInt64 0) ≤ 0 ∨ 0 < compareTo bnNew bnTargetLimit then bnTargetLimit
        else bnNew
      getCompact (BitVec.ofNat 256 bnNew.toNat)

/-- The consensus parameters of the main network that retargeting reads. -/
def mainPowParams : PowParams where
  powLimit := ofNat (2 ^ 240 - 1)
  posLimit := ofNat (2 ^ 224 - 1)
  qip9PosLimit := ofNat (2 ^ 205 - 1)
  fPowNoRetargeting := true
  fPoSNoRetargeting := false
  nPowTargetSpacing := 90
  nPowTargetTimespan := 16 * 60
  nPowTargetTimespanV2 := 4000
  qip9Height := 5000

/-! ## What the QIP9 rule passes to `mul_exp` -/

/-- With the target spacing of 90 s the exponent of the QIP9 rule lies in
`[-11, 213]`: the clamped spacing is in `[0, 1800]`. -/
theorem qip9MulExpArgs_fst_bounds (nInterval nActualSpacing : ℤ) :
    -11 ≤ (qip9MulExpArgs 90 nInterval nActualSpacing).1 ∧
      (qip9MulExpArgs 90 nInterval nActualSpacing).1 ≤ 213 := by
  unfold qip9MulExpArgs
  dsimp only
  generalize hs : (if (if nActualSpacing < 0 then 90 else nActualSpacing) > (90 : ℤ) * 20 then 90 * 20
    else if nActualSpacing < 0 then 90 else nActualSpacing) = s
  have hrange : 0 ≤ s ∧ s ≤ 1800 := by
    subst hs
    split_ifs <;> omega
  by_cases hsign : 0 ≤ 2 * (s - 90)
  · rw [Int.tdiv_eq_ediv_of_nonneg hsign]
    omega
  · -- a spacing below the target: the truncation rounds towards zero
    rw [show 2 * (s - 90) = -(2 * (90 - s)) by ring, Int.neg_tdiv,
      Int.tdiv_eq_ediv_of_nonneg (by omega)]
    omega

/-- On a chain with the target spacing of 90 s and the `V2` timespan of
4000 s, the QIP9 rule calls `mul_exp` with `q = 253` and `|p| < q`. -/
theorem qip9MulExpArgs_precondition {params : PowParams} (hS : params.nPowTargetSpacing = 90)
    (hV2 : params.nPowTargetTimespanV2 = 4000) {nHeight : ℤ} (hh : params.qip9Height ≤ nHeight + 1)
    (nActualSpacing : ℤ) :
    let args := qip9MulExpArgs params.nPowTargetSpacing
      (params.difficultyAdjustmentInterval (nHeight + 1)) nActualSpacing
    1 ≤ args.2 ∧ |args.1| < args.2 ∧ args.2 < 2 ^ 63 := by
  have hinterval : params.difficultyAdjustmentInterval (nHeight + 1) = 44 := by
    rw [PowParams.difficultyAdjustmentInterval, if_neg (by omega), hV2, hS]
    decide
  have hq : (qip9MulExpArgs 90 44 nActualSpacing).2 = 253 := by
    show ((44 + 1) * 90 : ℤ).tdiv 16 = 253
    decide
  obtain ⟨hlow, hhigh⟩ := qip9MulExpArgs_fst_bounds 44 nActualSpacing
  rw [hS, hinterval]
  refine ⟨by omega, ?_, by omega⟩
  rw [hq, abs_lt]
  omega

/-- `mul_exp` with `1 ≤ q` and `|p| < q` ends: from 59 tests of its
condition on it returns one result, whatever the fuel. For a negative
exponent the running result never goes below zero, and the result is the
alternating sum of the terms exactly. And on a chain with the spacing and the
`V2` timespan of every Metrix network, the QIP9 rule of
`CalculateNextWorkRequired` passes such `p` and `q`. -/
theorem mulExp_terminates_no_underflow (a : ArithUint256) {p q : ℤ} (hq : 1 ≤ q) (hpq : |p| < q)
    (hq63 : q < 2 ^ 63) :
    (∃ r, (∀ fuel, 59 ≤ fuel → mulExp fuel a p q = some (.ok r)) ∧
      (p < 0 → (∀ n, 0 ≤ mulExpRunning true a.toNat (p.natAbs % 2 ^ 32) q.toNat n) ∧
        (r.toNat : ℤ) = mulExpRunning true a.toNat (p.natAbs % 2 ^ 32) q.toNat 58)) ∧
      ∀ params : PowParams, params.nPowTargetSpacing = 90 → params.nPowTargetTimespanV2 = 4000 →
        ∀ nHeight, params.qip9Height ≤ nHeight + 1 → ∀ nActualSpacing,
          let args := qip9MulExpArgs params.nPowTargetSpacing
            (params.difficultyAdjustmentInterval (nHeight + 1)) nActualSpacing
          1 ≤ args.2 ∧ |args.1| < args.2 ∧ args.2 < 2 ^ 63 := by
  refine ⟨?_, fun params hS hV2 nHeight hh => qip9MulExpArgs_precondition hS hV2 hh⟩
  have habs := toNat_absP (p := p) (by omega)
  have hmq : p.natAbs % 2 ^ 32 ≤ q.toNat := by
    have : (p.natAbs : ℤ) = |p| := Int.natCast_natAbs p
    have := Nat.mod_le p.natAbs (2 ^ 32)
    omega
  have ha : a.toNat < 2 ^ 256 := a.toNat_lt
  have hN := mulExpTerm_fifty_eight (a := a.toNat) hmq ha
  -- every run with enough fuel ends at the zero term, the 58th
  have hrun : ∀ fuel, 59 ≤ fuel → ∃ r, mulExp fuel a p q = some (.ok r) ∧
      (r.toNat : ℤ) = mulExpRunning (decide (p < 0)) a.toNat (p.natAbs % 2 ^ 32) q.toNat 58 %
        2 ^ 256 := by
    intro fuel hfuel
    rw [← habs] at hN ⊢
    exact mulExpLoop_spec (decide (p < 0)) _ hq (by omega) a.toNat hN (by decide) fuel 0 a a
      (Nat.zero_le _) (by omega) rfl (by rw [mulExpRunning, Int.emod_eq_of_lt (by omega) (by omega)])
  obtain ⟨r, hr, hrv⟩ := hrun 59 le_rfl
  refine ⟨r, fun fuel hfuel => ?_, fun hneg => ?_⟩
  · obtain ⟨r', hr', hrv'⟩ := hrun fuel hfuel
    have hlt := r.toNat_lt
    have hlt' := r'.toNat_lt
    rw [hr', toNat_inj (show r'.toNat = r.toNat by omega)]
  · rw [decide_eq_true hneg] at hrv
    have hnonneg := mulExpRunning_nonneg (a := a.toNat) hmq 58
    have hle := mulExpRunning_le (a := a.toNat) hmq 58
    refine ⟨mulExpRunning_nonneg hmq, ?_⟩
    rw [hrv, Int.emod_eq_of_lt hnonneg (by omega)]

theorem mulExp_terminates_no_underflow_qip9 :
    (1 : ℤ) ≤ 253 ∧ |(-11 : ℤ)| < 253 ∧ (253 : ℤ) < 2 ^ 63 ∧
      ∃ r, ∀ fuel, 59 ≤ fuel → mulExp fuel (ofNat (2 ^ 205 - 1)) (-11) 253 = some (.ok r) :=
  ⟨by decide, by decide, by decide,
    (mulExp_terminates_no_underflow (ofNat (2 ^ 205 - 1)) (by decide) (by decide)
      (by decide)).1.imp fun _ h => h.1⟩

/-! ## The retargeted target -/

theorem exists_eq_of_map_map_eq_some {α β : Type} {f : α → β} {o : Option (Except String α)}
    {c : β} (h : o.map (fun r => r.map f) = some (.ok c)) : ∃ b, c = f b := by
  cases o with
  | none => simp at h
  | some r =>
      cases r with
      | error e => simp [Except.map] at h
      | ok b =>
          simp only [Option.map_some, Option.some.injEq, Except.map, Except.ok.injEq] at h
          exact ⟨b, h.symm⟩

/-- The clamp of `CalculateNextWorkRequired` and `GetCompact` after it: a
positive target at most the limit, whatever the retargeted value. -/
theorem setCompact_getCompact_clamp_bounds (b limit : ArithUint256) (hlimit : limit.toNat ≠ 0) :
    let clamped := if compareTo b (ofUInt64 0) ≤ 0 ∨ 0 < compareTo b limit then limit else b
    0 < (setCompact (getCompact (BitVec.ofNat 256 clamped.toNat))).toNat ∧
      (setCompact (getCompact (BitVec.ofNat 256 clamped.toNat))).toNat ≤ limit.toNat := by
  intro clamped
  have hclamped : 0 < clamped.toNat ∧ clamped.toNat ≤ limit.toNat := by
    simp only [clamped]
    split_ifs with hclamp
    · exact ⟨Nat.pos_of_ne_zero hlimit, le_rfl⟩
    · rw [not_or, not_le, not_lt, compareTo_zero_pos] at hclamp
      rw [compareTo_eq] at hclamp
      refine ⟨hclamp.1, ?_⟩
      by_contra hgt
      rw [if_neg (by omega), if_pos (by omega)] at hclamp
      omega
  have hval : (BitVec.ofNat 256 clamped.toNat).toNat = clamped.toNat :=
    by rw [BitVec.toNat_ofNat, Nat.mod_eq_of_lt clamped.toNat_lt]
  have hle := setCompact_getCompact_le (BitVec.ofNat 256 clamped.toNat)
  rw [BitVec.le_def, hval] at hle
  have hlow := two_pow_le_setCompact_getCompact (x := BitVec.ofNat 256 clamped.toNat)
    (by rw [hval]; omega)
  have : 0 < 2 ^ (8 * compactSizeOf (BitVec.ofNat 256 clamped.toNat).toNat + 15) := by positivity
  refine ⟨Nat.pos_of_ne_zero fun h0 => ?_, by omega⟩
  rw [h0, Nat.zero_mul] at hlow
  omega

/-- Whenever it retargets, `CalculateNextWorkRequired` returns a compact value
whose target is positive and at most the limit. -/
theorem calculateNextWorkRequired_bounded {fuel : ℕ} {params : PowParams} {fProofOfStake : Bool}
    {nHeight : ℤ} {nBits : UInt32} {nTime nFirstBlockTime : ℤ} {c : UInt32}
    (hretarget : (fProofOfStake && params.fPoSNoRetargeting ||
      !fProofOfStake && params.fPowNoRetargeting) = false)
    (hlimit : (getLimit (nHeight + 1) params fProofOfStake).toNat ≠ 0)
    (h : calculateNextWorkRequired fuel params fProofOfStake nHeight nBits nTime nFirstBlockTime =
      some (.ok c)) :
    0 < (setCompact c).toNat ∧
      (setCompact c).toNat ≤ (getLimit (nHeight + 1) params fProofOfStake).toNat := by
  unfold calculateNextWorkRequired at h
  rw [if_neg (by rw [hretarget]; decide)] at h
  obtain ⟨b, rfl⟩ := exists_eq_of_map_map_eq_some h
  exact setCompact_getCompact_clamp_bounds b _ hlimit

set_option maxRecDepth 4000 in
/-- The retarget of a proof-of-stake block at height 100 of the main chain
with target 1 and the target spacing: the target stays 1, inside the limit. -/
theorem calculateNextWorkRequired_bounded_main :
    (true && mainPowParams.fPoSNoRetargeting || !true && mainPowParams.fPowNoRetargeting) = false ∧
      (getLimit (100 + 1) mainPowParams true).toNat ≠ 0 ∧
      calculateNextWorkRequired 0 mainPowParams true 100 0x01010000 90 0 = some (.ok 0x01010000) ∧
      0 < (setCompact 0x01010000).toNat ∧
      (setCompact 0x01010000).toNat ≤ (getLimit (100 + 1) mainPowParams true).toNat :=
  have hretarget : (true && mainPowParams.fPoSNoRetargeting ||
      !true && mainPowParams.fPowNoRetargeting) = false := rfl
  have hlimit : (getLimit (100 + 1) mainPowParams true).toNat ≠ 0 := by decide
  have hcalc : calculateNextWorkRequired 0 mainPowParams true 100 0x01010000 90 0 =
      some (.ok 0x01010000) := by
    decide
  ⟨hretarget, hlimit, hcalc, calculateNextWorkRequired_bounded hretarget hlimit hcalc⟩

set_option maxRecDepth 4000 in
/-- The linear rule sends the hardest target to the easiest. From a target
of 1 before `QIP9Height`, a spacing of 0 gives `1 * 810 / 990`, which rounds to
zero and is replaced by the limit, while the longer spacing of 90 keeps the
target at 1. -/
theorem calculateNextWorkRequired_shorter_spacing_easier :
    (calculateNextWorkRequired 0 mainPowParams true 100 0x01010000 0 0).bind Except.toOption =
        some 0x1d00ffff ∧
      (calculateNextWorkRequired 0 mainPowParams true 100 0x01010000 90 0).bind Except.toOption =
        some 0x01010000 ∧
      (setCompact 0x01010000).toNat < (setCompact 0x1d00ffff).toNat := by
  decide

end Metrix
