import Metrix.Lib.Limbs

/-! `base_uint<BITS>` (`arith_uint256.h`, `arith_uint256.cpp`) as the code
computes it: the array `pn` of `WIDTH` 32-bit limbs, least significant
first, with its carries in `uint64_t`. `arith_uint256` is `base_uint<256>`,
eight limbs. Every operator is a loop over the limbs; each is proved here to
compute the integer operation modulo `2 ^ (32 * WIDTH)` on `Limbs.value` of
the array, which is what the rest of the development reads `arith_uint256`
as (a `BitVec 256` in `Primitives/Compact.lean`). -/

namespace Metrix

open Limbs

/-- `base_uint<BITS>` with `width = WIDTH` limbs. -/
structure BaseUint (width : ℕ) where
  pn : List UInt32
  length_pn : pn.length = width
deriving DecidableEq

namespace BaseUint

variable {width : ℕ}

/-- The number the limbs stand for. -/
def toNat (x : BaseUint width) : ℕ := value x.pn

/-- `base_uint()`: every limb zero. -/
instance : Zero (BaseUint width) := ⟨⟨List.replicate width 0, List.length_replicate⟩⟩

/-- A loop over the limbs that keeps the array's length keeps it to the end. -/
theorem length_foldl {n : ℕ} {f : List UInt32 → ℕ → List UInt32}
    (hf : ∀ pn i, pn.length = n → (f pn i).length = n) :
    ∀ (is : List ℕ) (pn : List UInt32), pn.length = n → (is.foldl f pn).length = n
  | [], _, h => h
  | i :: is, pn, h => length_foldl hf is (f pn i) (hf pn i h)

/-- The limbs of a number below `2 ^ (32 * width)`, as `UintToArith256`
makes them of a constant. -/
def ofNat (n : ℕ) : BaseUint width := ⟨Limbs.ofNat width n, length_ofNat width n⟩

/-- `base_uint(uint64_t b)`: the low and the high half of `b` in the two
lowest limbs. -/
def ofUInt64 (b : UInt64) : BaseUint (width + 2) :=
  ⟨b.toUInt32 :: (b >>> 32).toUInt32 :: List.replicate width 0, by simp⟩

/-- `operator~`. -/
def complement (x : BaseUint width) : BaseUint width :=
  ⟨x.pn.map (~~~·), by simp [x.length_pn]⟩

instance : Complement (BaseUint width) := ⟨complement⟩

/-- The loop of `operator+=`: limb sums with the carry in `uint64_t`. -/
def addLoop : UInt64 → List UInt32 → List UInt32 → List UInt32
  | carry, p :: ps, b :: bs =>
      let n := carry + p.toUInt64 + b.toUInt64
      (n &&& 0xffffffff).toUInt32 :: addLoop (n >>> 32) ps bs
  | _, _, _ => []

theorem length_addLoop : ∀ (carry : UInt64) (ps bs : List UInt32),
    (addLoop carry ps bs).length = min ps.length bs.length
  | _, [], _ => by simp [addLoop]
  | _, _ :: _, [] => by simp [addLoop]
  | _, _ :: ps, _ :: bs => by simp [addLoop, length_addLoop _ ps bs, Nat.succ_min_succ]

/-- `operator+=`. -/
def add (x b : BaseUint width) : BaseUint width :=
  ⟨addLoop 0 x.pn b.pn, by simp [length_addLoop, x.length_pn, b.length_pn]⟩

instance : Add (BaseUint width) := ⟨add⟩

/-- The loop of the prefix `operator++`: a limb that wraps to zero passes
the carry on. -/
def incLoop : List UInt32 → List UInt32
  | [] => []
  | p :: ps =>
      let p := p + 1
      if p = 0 then p :: incLoop ps else p :: ps

theorem length_incLoop : ∀ ps : List UInt32, (incLoop ps).length = ps.length
  | [] => rfl
  | p :: ps => by
      simp only [incLoop]
      split_ifs <;> simp [length_incLoop ps]

/-- The prefix `operator++`. -/
def inc (x : BaseUint width) : BaseUint width :=
  ⟨incLoop x.pn, by rw [length_incLoop, x.length_pn]⟩

/-- The unary `operator-`: the complement, incremented. -/
def neg (x : BaseUint width) : BaseUint width := inc (complement x)

instance : Neg (BaseUint width) := ⟨neg⟩

/-- `operator-=`: adding the negation. -/
def sub (x b : BaseUint width) : BaseUint width := x + -b

instance : Sub (BaseUint width) := ⟨sub⟩

/-- `EqualTo(uint64_t)`: the limbs from 2 up are zero and the two low limbs
are the halves of `b`. -/
def equalTo (x : BaseUint width) (b : UInt64) : Bool :=
  (x.pn.drop 2).all (· == 0) && (x.pn.getD 1 0).toUInt64 == b >>> 32 &&
    (x.pn.getD 0 0).toUInt64 == (b &&& 0xffffffff)

/-- The loop of `CompareTo` over the limbs from the most significant down. -/
def compareLoop : List UInt32 → List UInt32 → ℤ
  | p :: ps, q :: qs => if p < q then -1 else if p > q then 1 else compareLoop ps qs
  | _, _ => 0

/-- `CompareTo`: `-1`, `0` or `1`. -/
def compareTo (x b : BaseUint width) : ℤ := compareLoop x.pn.reverse b.pn.reverse

/-- One pass of the loop of `operator<<=` with `k` whole limbs and `shift`
bits: limb `i` of the copy `a` goes to limb `i + k`, and its top bits to
limb `i + k + 1`. -/
def shiftLeftStep (a : List UInt32) (k shift width : ℕ) (pn : List UInt32) (i : ℕ) :
    List UInt32 :=
  let pn := if i + k + 1 < width ∧ shift ≠ 0 then
      pn.modify (i + k + 1) (· ||| a.getD i 0 >>> (32 - shift).toUInt32) else pn
  if i + k < width then pn.modify (i + k) (· ||| a.getD i 0 <<< shift.toUInt32) else pn

theorem length_shiftLeftStep (a : List UInt32) (k shift width : ℕ) (pn : List UInt32) (i : ℕ) :
    (shiftLeftStep a k shift width pn i).length = pn.length := by
  unfold shiftLeftStep
  split_ifs <;> simp

/-- `operator<<=`. -/
def shiftLeft (x : BaseUint width) (shift : ℕ) : BaseUint width :=
  ⟨(List.range width).foldl (shiftLeftStep x.pn (shift / 32) (shift % 32) width)
      (List.replicate width 0),
    length_foldl (fun pn i h => (length_shiftLeftStep _ _ _ _ pn i).trans h) _ _
      List.length_replicate⟩

instance : HShiftLeft (BaseUint width) ℕ (BaseUint width) := ⟨shiftLeft⟩

/-- One pass of the loop of `operator>>=`: limb `i` of the copy `a` goes to
limb `i - k`, and its low bits to limb `i - k - 1`. -/
def shiftRightStep (a : List UInt32) (k shift : ℕ) (pn : List UInt32) (i : ℕ) : List UInt32 :=
  let pn := if k + 1 ≤ i ∧ shift ≠ 0 then
      pn.modify (i - k - 1) (· ||| a.getD i 0 <<< (32 - shift).toUInt32) else pn
  if k ≤ i then pn.modify (i - k) (· ||| a.getD i 0 >>> shift.toUInt32) else pn

theorem length_shiftRightStep (a : List UInt32) (k shift : ℕ) (pn : List UInt32) (i : ℕ) :
    (shiftRightStep a k shift pn i).length = pn.length := by
  unfold shiftRightStep
  split_ifs <;> simp

/-- `operator>>=`. -/
def shiftRight (x : BaseUint width) (shift : ℕ) : BaseUint width :=
  ⟨(List.range width).foldl (shiftRightStep x.pn (shift / 32) (shift % 32))
      (List.replicate width 0),
    length_foldl (fun pn i h => (length_shiftRightStep _ _ _ pn i).trans h) _ _
      List.length_replicate⟩

instance : HShiftRight (BaseUint width) ℕ (BaseUint width) := ⟨shiftRight⟩

/-- The loop of `operator*=(uint32_t)`. -/
def mulU32Loop (b32 : UInt32) : UInt64 → List UInt32 → List UInt32
  | carry, p :: ps =>
      let n := carry + b32.toUInt64 * p.toUInt64
      (n &&& 0xffffffff).toUInt32 :: mulU32Loop b32 (n >>> 32) ps
  | _, [] => []

theorem length_mulU32Loop (b32 : UInt32) :
    ∀ (carry : UInt64) (ps : List UInt32), (mulU32Loop b32 carry ps).length = ps.length
  | _, [] => rfl
  | _, _ :: ps => by simp [mulU32Loop, length_mulU32Loop b32 _ ps]

/-- `operator*=(uint32_t)`. -/
def mulU32 (x : BaseUint width) (b32 : UInt32) : BaseUint width :=
  ⟨mulU32Loop b32 0 x.pn, by rw [length_mulU32Loop, x.length_pn]⟩

/-- The inner loop of `operator*=`, for row `j`: `a.pn[i + j]` takes
`pn[j] * b.pn[i]` with the carry, for the limbs of `a` from `j` on. -/
def mulRow (x : UInt32) : UInt64 → List UInt32 → List UInt32 → List UInt32
  | carry, a :: as, b :: bs =>
      let n := carry + a.toUInt64 + x.toUInt64 * b.toUInt64
      (n &&& 0xffffffff).toUInt32 :: mulRow x (n >>> 32) as bs
  | _, _, _ => []

theorem length_mulRow (x : UInt32) : ∀ (carry : UInt64) (as bs : List UInt32),
    (mulRow x carry as bs).length = min as.length bs.length
  | _, [], _ => by simp [mulRow]
  | _, _ :: _, [] => by simp [mulRow]
  | _, _ :: as, _ :: bs => by simp [mulRow, length_mulRow x _ as bs, Nat.succ_min_succ]

/-- Row `j` of `operator*=`; the carry out of the top limb is dropped. -/
def mulStep (pn b : List UInt32) (a : List UInt32) (j : ℕ) : List UInt32 :=
  a.take j ++ mulRow (pn.getD j 0) 0 (a.drop j) b

theorem length_mulStep (pn : List UInt32) {a b : List UInt32} (hb : a.length ≤ b.length) (j : ℕ) :
    (mulStep pn b a j).length = a.length := by
  rw [mulStep, List.length_append, length_mulRow, List.length_take, List.length_drop]
  omega

/-- `operator*=`. -/
def mul (x b : BaseUint width) : BaseUint width :=
  ⟨(List.range width).foldl (mulStep x.pn b.pn) (List.replicate width 0),
    length_foldl (fun _ j h => (length_mulStep _ (by rw [h, b.length_pn]) j).trans h) _ _
      List.length_replicate⟩

instance : Mul (BaseUint width) := ⟨mul⟩

/-- The inner loop of `bits()`: the highest set bit of a limb, counted from
one, looked for from bit `nbits` down to bit 1. -/
def highBit (p : UInt32) : ℕ → ℕ
  | 0 => 1
  | nbits + 1 => if p &&& 1 <<< (nbits + 1).toUInt32 ≠ 0 then nbits + 2 else highBit p nbits

/-- The outer loop of `bits()`, over the limbs below `pos` from the top. -/
def bitsLoop (pn : List UInt32) : ℕ → ℕ
  | 0 => 0
  | pos + 1 =>
      if pn.getD pos 0 ≠ 0 then 32 * pos + highBit (pn.getD pos 0) 31 else bitsLoop pn pos

/-- `bits()`: the position of the highest set bit plus one, or zero. -/
def bits (x : BaseUint width) : ℕ := bitsLoop x.pn width

/-- `pn[shift / 32] |= (1 << (shift & 31))`: bit `shift` of the quotient. -/
def setBit (q : BaseUint width) (shift : ℕ) : BaseUint width :=
  ⟨q.pn.modify (shift / 32) (· ||| 1 <<< (shift % 32).toUInt32), by simp [q.length_pn]⟩

/-- The body of the loop of `operator/=` at `shift`: subtract the aligned
divisor where it fits and record the bit. -/
def divStep (shift : ℕ) (num div q : BaseUint width) : BaseUint width × BaseUint width :=
  if 0 ≤ compareTo num div then (num - div, setBit q shift) else (num, q)

/-- The loop of `operator/=` from `shift` down to 0, the divisor halved after
each pass; it returns the quotient. -/
def divLoop : ℕ → BaseUint width → BaseUint width → BaseUint width → BaseUint width
  | 0, num, div, q => (divStep 0 num div q).2
  | shift + 1, num, div, q =>
      let (num, q) := divStep (shift + 1) num div q
      divLoop shift num (div >>> 1) q

/-- `operator/=`, with the `uint_error` it throws on a zero divisor. -/
def div (x b : BaseUint width) : Except String (BaseUint width) :=
  let numBits := x.bits
  let divBits := b.bits
  if divBits = 0 then .error "Division by zero"
  else if numBits < divBits then .ok 0
  else .ok (divLoop (numBits - divBits) x (b <<< (numBits - divBits)) 0)

/-! ## Values -/

theorem toNat_lt (x : BaseUint width) : x.toNat < 2 ^ (32 * width) := by
  have := value_lt x.pn
  rwa [x.length_pn] at this

@[simp] theorem toNat_zero : (0 : BaseUint width).toNat = 0 := value_replicate_zero width

/-- A number of `width` limbs is its value. -/
theorem toNat_inj {x y : BaseUint width} (h : x.toNat = y.toNat) : x = y := by
  obtain ⟨xs, hx⟩ := x
  obtain ⟨ys, hy⟩ := y
  have : xs = ys := eq_of_value_eq (hx.trans hy.symm) h
  subst this
  rfl

theorem toNat_ofUInt64 (b : UInt64) : (ofUInt64 b : BaseUint (width + 2)).toNat = b.toNat := by
  have hlow : b.toUInt32.toNat = b.toNat % 2 ^ 32 := UInt64.toNat_toUInt32 b
  have hhigh : (b >>> 32).toUInt32.toNat = b.toNat / 2 ^ 32 := by
    rw [UInt64.toNat_toUInt32, toNat_carry]
    exact Nat.mod_eq_of_lt (by have := b.toNat_lt; omega)
  simp only [toNat, ofUInt64, value_cons, value_replicate_zero, hlow, hhigh]
  omega

theorem value_map_complement : ∀ l : List UInt32,
    value (l.map (~~~·)) + value l + 1 = 2 ^ (32 * l.length)
  | [] => rfl
  | d :: ds => by
      have hd : (~~~d).toNat + d.toNat = 2 ^ 32 - 1 := by
        rw [UInt32.toNat_not]
        have := d.toNat_lt
        show 2 ^ 32 - 1 - d.toNat + d.toNat = _
        omega
      have ih := value_map_complement ds
      rw [List.map_cons, value_cons, value_cons, List.length_cons, Nat.mul_succ, Nat.pow_add,
        Nat.mul_comm (2 ^ _) (2 ^ 32), ← ih]
      ring_nf
      omega

theorem toNat_complement (x : BaseUint width) : (~~~x).toNat = 2 ^ (32 * width) - 1 - x.toNat := by
  have := value_map_complement x.pn
  rw [x.length_pn] at this
  show value (x.pn.map (~~~·)) = _
  unfold toNat
  omega

theorem value_addLoop : ∀ (carry : UInt64) (ps bs : List UInt32), ps.length = bs.length →
    carry.toNat < 2 ^ 32 →
    value (addLoop carry ps bs) = (value ps + value bs + carry.toNat) % 2 ^ (32 * ps.length)
  | carry, [], [], _, _ => by simp [addLoop, Nat.mod_one]
  | carry, p :: ps, b :: bs, hlen, hc => by
      have hp := p.toNat_lt
      have hb := b.toNat_lt
      -- the partial sum stays far below `2 ^ 64`
      have hn : (carry + p.toUInt64 + b.toUInt64).toNat = carry.toNat + p.toNat + b.toNat := by
        rw [toNat_add_of_lt, toNat_add_of_lt] <;> simp <;> omega
      have hcarry : ((carry + p.toUInt64 + b.toUInt64) >>> 32).toNat < 2 ^ 32 := by
        rw [toNat_carry, hn]
        omega
      rw [addLoop, value_cons, toNat_low, value_addLoop _ ps bs (by simpa using hlen) hcarry,
        toNat_carry, hn, carry_step, value_cons, value_cons, List.length_cons]
      congr 1
      ring

theorem toNat_add (x b : BaseUint width) : (x + b).toNat = (x.toNat + b.toNat) % 2 ^ (32 * width) := by
  show value (addLoop 0 x.pn b.pn) = _
  rw [value_addLoop 0 x.pn b.pn (by rw [x.length_pn, b.length_pn]) (by decide), x.length_pn]
  rfl

theorem value_incLoop : ∀ l : List UInt32, value (incLoop l) = (value l + 1) % 2 ^ (32 * l.length)
  | [] => rfl
  | p :: ps => by
      have hvs := value_lt ps
      have hp := p.toNat_lt
      have hweight : 2 ^ (32 * (ps.length + 1)) = 2 ^ 32 * 2 ^ (32 * ps.length) := by
        rw [Nat.mul_succ, Nat.pow_add, Nat.mul_comm]
      simp only [incLoop, List.length_cons, hweight, value_cons]
      by_cases hwrap : p + 1 = 0
      · -- the limb was all ones: it wraps and the carry goes on
        have hmax : p.toNat = 2 ^ 32 - 1 := by
          have := congrArg UInt32.toNat hwrap
          rw [UInt32.toNat_add, UInt32.toNat_one, UInt32.toNat_zero] at this
          omega
        rw [if_pos hwrap, value_cons, hwrap, value_incLoop ps, UInt32.toNat_zero, hmax,
          show 2 ^ 32 - 1 + 2 ^ 32 * value ps + 1 = 2 ^ 32 * (value ps + 1) by omega,
          Nat.mul_mod_mul_left, Nat.zero_add]
      · have hne : p.toNat + 1 ≠ 2 ^ 32 := fun h => hwrap (UInt32.toNat_inj.mp (by
          rw [UInt32.toNat_add, UInt32.toNat_one, h]
          rfl))
        have hsum : (p + 1).toNat = p.toNat + 1 := by
          rw [UInt32.toNat_add, UInt32.toNat_one, Nat.mod_eq_of_lt (by omega)]
        have hbound : 2 ^ 32 * value ps + 2 ^ 32 ≤ 2 ^ 32 * 2 ^ (32 * ps.length) := by
          rw [← Nat.mul_succ]
          exact Nat.mul_le_mul_left _ hvs
        rw [if_neg hwrap, value_cons, hsum, Nat.mod_eq_of_lt (by omega)]
        omega

theorem toNat_inc (x : BaseUint width) : (inc x).toNat = (x.toNat + 1) % 2 ^ (32 * width) := by
  show value (incLoop x.pn) = _
  rw [value_incLoop, x.length_pn]
  rfl

theorem toNat_neg (x : BaseUint width) : (-x).toNat = (2 ^ (32 * width) - x.toNat) % 2 ^ (32 * width) := by
  show (inc (complement x)).toNat = _
  rw [toNat_inc, show (complement x).toNat = (~~~x).toNat from rfl, toNat_complement]
  have := x.toNat_lt
  congr 1
  omega

theorem toNat_sub (x b : BaseUint width) :
    (x - b).toNat = (x.toNat + (2 ^ (32 * width) - b.toNat)) % 2 ^ (32 * width) := by
  show (x + -b).toNat = _
  rw [toNat_add, toNat_neg, Nat.add_mod_mod]

/-- `operator+=` as an integer modulo the width. -/
theorem toNat_add_int (x b : BaseUint width) :
    ((x + b).toNat : ℤ) = ((x.toNat : ℤ) + b.toNat) % 2 ^ (32 * width) := by
  rw [toNat_add]
  push_cast
  rfl

/-- `operator-=` as an integer modulo the width. -/
theorem toNat_sub_int (x b : BaseUint width) :
    ((x - b).toNat : ℤ) = ((x.toNat : ℤ) - b.toNat) % 2 ^ (32 * width) := by
  have hb := b.toNat_lt
  rw [toNat_sub, Int.natCast_mod, Nat.cast_add, Nat.cast_sub hb.le]
  push_cast
  rw [show (x.toNat : ℤ) + (2 ^ (32 * width) - b.toNat) = (x.toNat - b.toNat) + 2 ^ (32 * width) by
    ring, Int.add_emod_right]

/-- A subtraction that does not go below zero is exact. -/
theorem toNat_sub_of_le {x b : BaseUint width} (h : b.toNat ≤ x.toNat) :
    (x - b).toNat = x.toNat - b.toNat := by
  rw [toNat_sub]
  have := x.toNat_lt
  rw [show x.toNat + (2 ^ (32 * width) - b.toNat) = x.toNat - b.toNat + 2 ^ (32 * width) by omega,
    Nat.add_mod_right, Nat.mod_eq_of_lt (by omega)]

/-! ## Equality with a 64-bit number -/

theorem equalTo_iff (x : BaseUint (width + 2)) (b : UInt64) :
    x.equalTo b = true ↔ x.toNat = b.toNat := by
  obtain ⟨pn, hlen⟩ := x
  match pn, hlen with
  | p0 :: p1 :: rest, _ =>
      have hhigh : (p1.toUInt64 = b >>> 32) ↔ p1.toNat = b.toNat / 2 ^ 32 := by
        rw [← UInt64.toNat_inj, UInt32.toNat_toUInt64, toNat_carry]
      have hlow : (p0.toUInt64 = b &&& 0xffffffff) ↔ p0.toNat = b.toNat % 2 ^ 32 := by
        rw [← UInt64.toNat_inj, UInt32.toNat_toUInt64, UInt64.toNat_and]
        show p0.toNat = b.toNat &&& (2 ^ 32 - 1) ↔ _
        rw [Nat.and_two_pow_sub_one_eq_mod]
      simp only [equalTo, toNat, List.drop_succ_cons, List.drop_zero, List.getD_cons_zero,
        List.getD_cons_succ, Bool.and_eq_true, beq_iff_eq, List.all_eq_true, hhigh, hlow,
        ← value_eq_zero_iff, value_cons]
      have hb := b.toNat_lt
      have hp0 := p0.toNat_lt
      have hp1 := p1.toNat_lt
      -- the two low limbs and the rest are the digits of `b` in base `2 ^ 32`
      omega

/-! ## Comparison -/

theorem value_reverse_cons (p : UInt32) (ps : List UInt32) :
    value (p :: ps).reverse = value ps.reverse + 2 ^ (32 * ps.length) * p.toNat := by
  rw [List.reverse_cons, value_append, List.length_reverse, value_cons, value_nil, Nat.mul_zero,
    Nat.add_zero]

/-- The loop of `CompareTo`, run from the most significant limb, compares the
values. -/
theorem compareLoop_eq : ∀ {l r : List UInt32}, l.length = r.length →
    compareLoop l r = if value l.reverse < value r.reverse then -1
      else if value r.reverse < value l.reverse then 1 else 0
  | [], [], _ => rfl
  | p :: ps, q :: qs, hlen => by
      have hlen' : ps.length = qs.length := by simpa using hlen
      have hps : value ps.reverse < 2 ^ (32 * qs.length) := by
        simpa [hlen'] using value_lt ps.reverse
      have hqs : value qs.reverse < 2 ^ (32 * qs.length) := by
        simpa using value_lt qs.reverse
      rw [compareLoop, value_reverse_cons, value_reverse_cons, hlen']
      -- the top limbs decide, unless they are equal
      by_cases hpq : p < q
      · have := add_mul_lt_add_mul (b := value qs.reverse) hps (UInt32.lt_iff_toNat_lt.mp hpq)
        rw [if_pos hpq, if_pos this]
      · by_cases hqp : q < p
        · have := add_mul_lt_add_mul (b := value ps.reverse) hqs (UInt32.lt_iff_toNat_lt.mp hqp)
          rw [if_neg hpq, if_pos hqp, if_neg (by omega), if_pos this]
        · have hpq' : p = q := by
            rw [UInt32.lt_iff_toNat_lt] at hpq hqp
            exact UInt32.toNat_inj.mp (by omega)
          subst hpq'
          rw [if_neg hpq, if_neg hqp, compareLoop_eq hlen']
          simp only [Nat.add_lt_add_iff_right]

theorem compareTo_eq (x b : BaseUint width) :
    compareTo x b = if x.toNat < b.toNat then -1 else if b.toNat < x.toNat then 1 else 0 := by
  rw [compareTo, compareLoop_eq (by rw [List.length_reverse, List.length_reverse, x.length_pn,
    b.length_pn]), List.reverse_reverse, List.reverse_reverse]
  rfl

/-- `a > 0`, the comparison with `base_uint(0)`. -/
theorem compareTo_zero_pos (x : BaseUint (width + 2)) : 0 < compareTo x (ofUInt64 0) ↔ 0 < x.toNat := by
  rw [compareTo_eq, toNat_ofUInt64, UInt64.toNat_zero]
  split_ifs <;> omega

/-- `num >= div`, as the loop of `operator/=` tests it. -/
theorem zero_le_compareTo (x b : BaseUint width) : 0 ≤ compareTo x b ↔ b.toNat ≤ x.toNat := by
  rw [compareTo_eq]
  split_ifs <;> omega

/-! ## Products -/

theorem value_mulU32Loop (b32 : UInt32) : ∀ (carry : UInt64) (ps : List UInt32),
    carry.toNat < 2 ^ 32 →
    value (mulU32Loop b32 carry ps) = (b32.toNat * value ps + carry.toNat) % 2 ^ (32 * ps.length)
  | carry, [], _ => by simp [mulU32Loop, Nat.mod_one]
  | carry, p :: ps, hc => by
      have hn : (carry + b32.toUInt64 * p.toUInt64).toNat = carry.toNat + b32.toNat * p.toNat := by
        simpa using toNat_mulAdd hc 0 b32 p
      have hcarry : ((carry + b32.toUInt64 * p.toUInt64) >>> 32).toNat < 2 ^ 32 := by
        rw [toNat_carry, hn]
        simpa using mulAdd_div_lt _ 0 _ _ hc (by decide) b32.toNat_lt p.toNat_lt
      rw [mulU32Loop, value_cons, toNat_low, value_mulU32Loop b32 _ ps hcarry, toNat_carry, hn,
        carry_step, value_cons, List.length_cons]
      congr 1
      ring

/-- `operator*=(uint32_t)`: the product modulo `2 ^ (32 * WIDTH)`. -/
theorem toNat_mulU32 (x : BaseUint width) (b32 : UInt32) :
    (mulU32 x b32).toNat = x.toNat * b32.toNat % 2 ^ (32 * width) := by
  show value (mulU32Loop b32 0 x.pn) = _
  rw [value_mulU32Loop b32 0 x.pn (by decide), x.length_pn, Nat.mul_comm]
  rfl

theorem value_mulRow (x : UInt32) : ∀ (carry : UInt64) (as bs : List UInt32),
    as.length ≤ bs.length → carry.toNat < 2 ^ 32 →
    value (mulRow x carry as bs) =
      (value as + x.toNat * value bs + carry.toNat) % 2 ^ (32 * as.length)
  | carry, [], bs, _, _ => by simp [mulRow, Nat.mod_one]
  | carry, a :: as, b :: bs, hlen, hc => by
      have hn := toNat_mulAdd hc a x b
      have hcarry : ((carry + a.toUInt64 + x.toUInt64 * b.toUInt64) >>> 32).toNat < 2 ^ 32 := by
        rw [toNat_carry, hn]
        exact mulAdd_div_lt _ _ _ _ hc a.toNat_lt x.toNat_lt b.toNat_lt
      rw [mulRow, value_cons, toNat_low, value_mulRow x _ as bs (by simpa using hlen) hcarry,
        toNat_carry, hn, carry_step, value_cons, value_cons, List.length_cons]
      congr 1
      ring

/-- Row `j` of `operator*=` adds `pn[j] * b`, weighted by limb `j`, modulo
the width. -/
theorem value_mulStep (pn b a : List UInt32) {j : ℕ} (hj : j ≤ a.length)
    (hb : a.length ≤ b.length) :
    value (mulStep pn b a j) =
      (value a + 2 ^ (32 * j) * ((pn.getD j 0).toNat * value b)) % 2 ^ (32 * a.length) := by
  have htake : (a.take j).length = j := List.length_take_of_le hj
  have hlow : value (a.take j) < 2 ^ (32 * j) := by
    have := value_lt (a.take j)
    rwa [htake] at this
  have hsplit : value a = value (a.take j) + 2 ^ (32 * j) * value (a.drop j) := by
    conv_lhs => rw [← List.take_append_drop j a]
    rw [value_append, htake]
  have hweight : 2 ^ (32 * a.length) = 2 ^ (32 * j) * 2 ^ (32 * (a.length - j)) := by
    rw [← Nat.pow_add]
    congr 1
    omega
  have hsum : value (a.take j) + 2 ^ (32 * j) * value (a.drop j) +
      2 ^ (32 * j) * ((pn.getD j 0).toNat * value b) =
      value (a.take j) + 2 ^ (32 * j) * (value (a.drop j) + (pn.getD j 0).toNat * value b) := by
    ring
  rw [mulStep, value_append, htake, value_mulRow _ 0 _ _ (by simp; omega) (by decide),
    List.length_drop, UInt64.toNat_zero, Nat.add_zero, hsplit, hweight, hsum, add_mul_mod_mul hlow]

/-- After rows `0 .. n - 1` of `operator*=` the accumulator holds the low
`n` limbs of `x` times `b`. -/
theorem value_foldl_mulStep (pn b : List UInt32) (hb : width ≤ b.length) :
    ∀ n, n ≤ width → value ((List.range n).foldl (mulStep pn b) (List.replicate width 0)) =
      value (pn.take n) * value b % 2 ^ (32 * width)
  | 0, _ => by simp
  | n + 1, hn => by
      have hlen : ((List.range n).foldl (mulStep pn b) (List.replicate width 0)).length = width :=
        length_foldl (fun _ j h => (length_mulStep _ (by rw [h]; exact hb) j).trans h) _ _
          List.length_replicate
      rw [List.range_succ, List.foldl_append, List.foldl_cons, List.foldl_nil,
        value_mulStep _ _ _ (by omega) (by omega), hlen, value_foldl_mulStep pn b hb n (by omega),
        Nat.mod_add_mod, value_take_succ]
      congr 1
      ring

/-- `operator*=`: the product modulo `2 ^ (32 * WIDTH)`. -/
theorem toNat_mul (x b : BaseUint width) : (x * b).toNat = x.toNat * b.toNat % 2 ^ (32 * width) := by
  show value ((List.range width).foldl (mulStep x.pn b.pn) (List.replicate width 0)) = _
  rw [value_foldl_mulStep x.pn b.pn (by rw [b.length_pn]) width le_rfl,
    List.take_of_length_le (by rw [x.length_pn])]
  rfl

/-! ## Shifts

Both shifts OR two words into each limb of a zeroed array; a limb's bits
are read off from the two passes that write it (`testBit_foldl_or`), and the
value is put back together bit by bit. -/

/-- What pass `i` of `operator<<=` ORs into limb `t`. -/
def shlPart (a : List UInt32) (k shift width i t : ℕ) : UInt32 :=
  (if t = i + k + 1 ∧ t < width ∧ shift ≠ 0 then a.getD i 0 >>> (32 - shift).toUInt32 else 0) |||
    (if t = i + k ∧ t < width then a.getD i 0 <<< shift.toUInt32 else 0)

/-- What pass `i` of `operator>>=` ORs into limb `t`. -/
def shrPart (a : List UInt32) (k shift width i t : ℕ) : UInt32 :=
  (if i = t + k + 1 ∧ t < width ∧ shift ≠ 0 then a.getD i 0 <<< (32 - shift).toUInt32 else 0) |||
    (if i = t + k ∧ t < width then a.getD i 0 >>> shift.toUInt32 else 0)

theorem getD_shiftLeftStep (a : List UInt32) (k shift : ℕ) (pn : List UInt32) (i t : ℕ) :
    (shiftLeftStep a k shift pn.length pn i).getD t 0 =
      pn.getD t 0 ||| shlPart a k shift pn.length i t := by
  rw [shiftLeftStep, getD_ite_modify_or, getD_ite_modify_or, length_ite_modify, shlPart,
    UInt32.or_assoc]
  congr 2 <;> exact if_congr (by omega) rfl rfl

theorem getD_shiftRightStep (a : List UInt32) (k shift : ℕ) (pn : List UInt32) (i t : ℕ) :
    (shiftRightStep a k shift pn i).getD t 0 = pn.getD t 0 ||| shrPart a k shift pn.length i t := by
  rw [shiftRightStep, getD_ite_modify_or, getD_ite_modify_or, length_ite_modify, shrPart,
    UInt32.or_assoc]
  congr 2 <;> exact if_congr (by omega) rfl rfl

theorem testBit_shlPart (a : List UInt32) {shift : ℕ} (hs : shift < 32) (k width i t : ℕ)
    {u : ℕ} (hu : u < 32) :
    (shlPart a k shift width i t).toNat.testBit u =
      ((decide (t = i + k + 1 ∧ t < width ∧ shift ≠ 0) &&
          (a.getD i 0).toNat.testBit (32 - shift + u)) ||
        (decide (t = i + k ∧ t < width) &&
          (decide (shift ≤ u) && (a.getD i 0).toNat.testBit (u - shift)))) := by
  rw [shlPart, UInt32.toNat_or, Nat.testBit_or, testBit_ite_zero, testBit_ite_zero,
    testBit_shl _ hs hu]
  -- with no bit shift the first word is never written
  by_cases h0 : shift = 0
  · simp [h0]
  · rw [testBit_shr _ (by omega)]

theorem testBit_shrPart (a : List UInt32) {shift : ℕ} (hs : shift < 32) (k width i t : ℕ)
    {u : ℕ} (hu : u < 32) :
    (shrPart a k shift width i t).toNat.testBit u =
      ((decide (i = t + k + 1 ∧ t < width ∧ shift ≠ 0) &&
          (decide (32 - shift ≤ u) && (a.getD i 0).toNat.testBit (u - (32 - shift)))) ||
        (decide (i = t + k ∧ t < width) && (a.getD i 0).toNat.testBit (shift + u))) := by
  rw [shrPart, UInt32.toNat_or, Nat.testBit_or, testBit_ite_zero, testBit_ite_zero,
    testBit_shr _ hs]
  by_cases h0 : shift = 0
  · simp [h0]
  · rw [testBit_shl _ (by omega) hu]

/-- Bit `u` of limb `t` after all passes of `operator<<=` by `32 * k + shift`:
bit `32 * t + u` of the shifted value, inside the width. -/
theorem any_shlPart (a : List UInt32) {shift : ℕ} (hs : shift < 32) (k width t : ℕ) {u : ℕ}
    (hu : u < 32) :
    ((List.range width).any fun i => (shlPart a k shift width i t).toNat.testBit u) =
      (decide (t < width) && (value a <<< (32 * k + shift)).testBit (32 * t + u)) := by
  simp only [testBit_shlPart a hs k width _ t hu, Nat.testBit_shiftLeft, testBit_value]
  apply Bool.eq_iff_iff.mpr
  simp only [List.any_eq_true, List.mem_range, Bool.or_eq_true, Bool.and_eq_true,
    decide_eq_true_eq]
  by_cases hsu : shift ≤ u
  · -- the bit comes from limb `t - k`, moved up within the word
    constructor
    · rintro ⟨i, -, ⟨-, hbit⟩ | ⟨⟨ht, htw⟩, -, hbit⟩⟩
      · simp [testBit_toNat_of_le _ (show 32 ≤ 32 - shift + u by omega)] at hbit
      · have hq : (32 * t + u - (32 * k + shift)) / 32 = i := by omega
        have hr : (32 * t + u - (32 * k + shift)) % 32 = u - shift := by omega
        exact ⟨htw, by omega, by rwa [hq, hr]⟩
    · rintro ⟨htw, hge, hbit⟩
      have hq : (32 * t + u - (32 * k + shift)) / 32 = t - k := by omega
      have hr : (32 * t + u - (32 * k + shift)) % 32 = u - shift := by omega
      rw [hq, hr] at hbit
      exact ⟨t - k, by omega, Or.inr ⟨⟨by omega, htw⟩, hsu, hbit⟩⟩
  · -- the bit comes from the top of limb `t - k - 1`, carried into the next limb
    constructor
    · rintro ⟨i, -, ⟨⟨ht, htw, -⟩, hbit⟩ | ⟨-, hsu', -⟩⟩
      · have hq : (32 * t + u - (32 * k + shift)) / 32 = i := by omega
        have hr : (32 * t + u - (32 * k + shift)) % 32 = 32 - shift + u := by omega
        exact ⟨htw, by omega, by rwa [hq, hr]⟩
      · exact absurd hsu' hsu
    · rintro ⟨htw, hge, hbit⟩
      have hq : (32 * t + u - (32 * k + shift)) / 32 = t - k - 1 := by omega
      have hr : (32 * t + u - (32 * k + shift)) % 32 = 32 - shift + u := by omega
      rw [hq, hr] at hbit
      exact ⟨t - k - 1, by omega, Or.inl ⟨⟨by omega, htw, by omega⟩, hbit⟩⟩

/-- Bit `u` of limb `t` after all passes of `operator>>=` by `32 * k + shift`:
bit `32 * t + u` of the shifted value, inside the width. -/
theorem any_shrPart {a : List UInt32} (ha : a.length ≤ width) {shift : ℕ} (hs : shift < 32)
    (k t : ℕ) {u : ℕ} (hu : u < 32) :
    ((List.range width).any fun i => (shrPart a k shift width i t).toNat.testBit u) =
      (decide (t < width) && (value a >>> (32 * k + shift)).testBit (32 * t + u)) := by
  simp only [testBit_shrPart a hs k width _ t hu, Nat.testBit_shiftRight, testBit_value]
  apply Bool.eq_iff_iff.mpr
  simp only [List.any_eq_true, List.mem_range, Bool.or_eq_true, Bool.and_eq_true,
    decide_eq_true_eq]
  -- a limb at or above the width is zero and sets no bit
  have hin : ∀ j v, (a.getD j 0).toNat.testBit v = true → j < width := fun j v h => by
    by_contra hj
    rw [List.getD_eq_default _ _ (by omega)] at h
    simp at h
  by_cases hsu : shift + u < 32
  · -- the bit comes from limb `t + k`, moved down within the word
    have hq : (32 * k + shift + (32 * t + u)) / 32 = t + k := by omega
    have hr : (32 * k + shift + (32 * t + u)) % 32 = shift + u := by omega
    rw [hq, hr]
    constructor
    · rintro ⟨i, -, ⟨-, hle, -⟩ | ⟨⟨hi, htw⟩, hbit⟩⟩
      · omega
      · exact ⟨htw, hi ▸ hbit⟩
    · rintro ⟨htw, hbit⟩
      exact ⟨t + k, hin _ _ hbit, Or.inr ⟨⟨rfl, htw⟩, hbit⟩⟩
  · -- the bit comes from the bottom of limb `t + k + 1`, carried into the limb below
    have hq : (32 * k + shift + (32 * t + u)) / 32 = t + k + 1 := by omega
    have hr : (32 * k + shift + (32 * t + u)) % 32 = u - (32 - shift) := by omega
    rw [hq, hr]
    constructor
    · rintro ⟨i, -, ⟨⟨hi, htw, -⟩, -, hbit⟩ | ⟨-, hbit⟩⟩
      · exact ⟨htw, hi ▸ hbit⟩
      · simp [testBit_toNat_of_le _ (show 32 ≤ shift + u by omega)] at hbit
    · rintro ⟨htw, hbit⟩
      exact ⟨t + k + 1, hin _ _ hbit, Or.inl ⟨⟨rfl, htw, by omega⟩, by omega, hbit⟩⟩

theorem testBit_foldl_shiftLeftStep (a : List UInt32) (k shift w t u : ℕ) :
    (((List.range w).foldl (shiftLeftStep a k shift w) (List.replicate w 0)).getD t 0).toNat.testBit u =
      (List.range w).any fun i => (shlPart a k shift w i t).toNat.testBit u := by
  have := @testBit_foldl_or w (shiftLeftStep a k shift w) (shlPart a k shift w)
    (fun pn i h => (length_shiftLeftStep a k shift w pn i).trans h)
    (fun pn i t h => by rw [← h]; exact getD_shiftLeftStep a k shift pn i t)
    t u (List.range w) (List.replicate w 0) List.length_replicate
  rwa [getD_replicate_zero, UInt32.toNat_zero, Nat.zero_testBit, Bool.false_or] at this

theorem testBit_foldl_shiftRightStep (a : List UInt32) (k shift w t u : ℕ) :
    (((List.range w).foldl (shiftRightStep a k shift) (List.replicate w 0)).getD t 0).toNat.testBit u =
      (List.range w).any fun i => (shrPart a k shift w i t).toNat.testBit u := by
  have := @testBit_foldl_or w (shiftRightStep a k shift) (shrPart a k shift w)
    (fun pn i h => (length_shiftRightStep a k shift pn i).trans h)
    (fun pn i t h => by rw [← h]; exact getD_shiftRightStep a k shift pn i t)
    t u (List.range w) (List.replicate w 0) List.length_replicate
  rwa [getD_replicate_zero, UInt32.toNat_zero, Nat.zero_testBit, Bool.false_or] at this

/-- `operator<<=` by any shift: the value times `2 ^ shift`, modulo the width. -/
theorem toNat_shiftLeft (x : BaseUint width) (shift : ℕ) :
    (x <<< shift).toNat = x.toNat * 2 ^ shift % 2 ^ (32 * width) := by
  apply Nat.eq_of_testBit_eq
  intro v
  show (value ((List.range width).foldl (shiftLeftStep x.pn (shift / 32) (shift % 32) width)
    (List.replicate width 0))).testBit v = _
  rw [testBit_value, testBit_foldl_shiftLeftStep,
    any_shlPart _ (Nat.mod_lt _ (by decide)) _ _ _ (Nat.mod_lt _ (by decide)),
    Nat.div_add_mod, Nat.div_add_mod, Nat.testBit_mod_two_pow, ← Nat.shiftLeft_eq]
  congr 1
  exact decide_eq_decide.mpr (by omega)

/-- `operator>>=` by any shift: the value divided by `2 ^ shift`, rounded down. -/
theorem toNat_shiftRight (x : BaseUint width) (shift : ℕ) :
    (x >>> shift).toNat = x.toNat / 2 ^ shift := by
  apply Nat.eq_of_testBit_eq
  intro v
  show (value ((List.range width).foldl (shiftRightStep x.pn (shift / 32) (shift % 32))
    (List.replicate width 0))).testBit v = _
  rw [testBit_value, testBit_foldl_shiftRightStep,
    any_shrPart x.length_pn.le (Nat.mod_lt _ (by decide)) _ _ (Nat.mod_lt _ (by decide)),
    Nat.div_add_mod, Nat.div_add_mod, ← Nat.shiftRight_eq_div_pow]
  -- above the width the shifted value has no bits either
  by_cases hv : v / 32 < width
  · rw [decide_eq_true hv, Bool.true_and]
    rfl
  · have hlt : x.toNat >>> shift < 2 ^ v := by
      rw [Nat.shiftRight_eq_div_pow]
      calc x.toNat / 2 ^ shift ≤ x.toNat := Nat.div_le_self _ _
        _ < 2 ^ (32 * width) := x.toNat_lt
        _ ≤ 2 ^ v := Nat.pow_le_pow_right (by decide) (by omega)
    rw [decide_eq_false hv, Bool.false_and, Nat.testBit_lt_two_pow hlt]

/-! ## Bit length -/

/-- The inner loop of `bits()` finds the top bit of a nonzero limb below
`2 ^ (n + 1)`. -/
theorem highBit_eq (p : UInt32) (hp : p ≠ 0) :
    ∀ n, n < 32 → p.toNat < 2 ^ (n + 1) → highBit p n = Nat.size p.toNat
  | 0, _, hlt => by
      have hp' : p.toNat ≠ 0 := fun h => hp (UInt32.toNat_inj.mp (by rw [h, UInt32.toNat_zero]))
      have : p.toNat = 1 := by omega
      rw [highBit, this, Nat.size_one]
  | n + 1, hn, hlt => by
      rw [highBit]
      by_cases hbit : p.toNat.testBit (n + 1) = true
      · -- bit `n + 1` is the top one
        rw [if_pos ((and_one_shl_ne_zero p hn).mpr hbit)]
        have h1 := Nat.size_le.mpr hlt
        have h2 := Nat.lt_size.mpr (Nat.ge_two_pow_of_testBit hbit)
        omega
      · rw [if_neg (fun h => hbit ((and_one_shl_ne_zero p hn).mp h))]
        apply highBit_eq p hp n (by omega)
        by_contra hge
        exact hbit (Nat.testBit_of_two_pow_le_and_two_pow_add_one_gt (by omega) hlt)

/-- The outer loop of `bits()` over the limbs below `pos`. -/
theorem bitsLoop_eq (pn : List UInt32) : ∀ pos, bitsLoop pn pos = Nat.size (value (pn.take pos))
  | 0 => by simp [bitsLoop]
  | pos + 1 => by
      have hlow : value (pn.take pos) < 2 ^ (32 * pos) :=
        lt_of_lt_of_le (value_lt _) (Nat.pow_le_pow_right (by decide) (by simp))
      rw [bitsLoop, value_take_succ]
      by_cases hp : pn.getD pos 0 = 0
      · rw [if_neg (not_not.mpr hp), hp, UInt32.toNat_zero, Nat.mul_zero, Nat.add_zero,
          bitsLoop_eq pn pos]
      · have hp' : (pn.getD pos 0).toNat ≠ 0 := fun h =>
          hp (UInt32.toNat_inj.mp (by rw [h, UInt32.toNat_zero]))
        rw [if_pos hp, highBit_eq _ hp 31 (by decide) (UInt32.toNat_lt _),
          size_add_two_pow_mul hlow hp']

/-- `bits()` is the bit length of the value. -/
theorem bits_eq_size (x : BaseUint width) : bits x = Nat.size x.toNat := by
  rw [bits, bitsLoop_eq, List.take_of_length_le (by rw [x.length_pn])]
  rfl

/-! ## Division -/

/-- `pn[shift / 32] |= 1 << (shift & 31)` sets bit `shift` of the value. -/
theorem toNat_setBit (q : BaseUint width) {shift : ℕ} (hs : shift < 32 * width) :
    (setBit q shift).toNat = q.toNat ||| 2 ^ shift := by
  apply Nat.eq_of_testBit_eq
  intro v
  show (value (q.pn.modify (shift / 32) (· ||| 1 <<< (shift % 32).toUInt32))).testBit v = _
  rw [testBit_value, getD_modify_or, UInt32.toNat_or, Nat.testBit_or, testBit_ite_zero,
    toNat_one_shl (Nat.mod_lt _ (by decide)), Nat.testBit_two_pow, ← testBit_value,
    Nat.testBit_or, Nat.testBit_two_pow, q.length_pn, ← Bool.decide_and]
  congr 1
  exact decide_eq_decide.mpr (by omega)

/-- What the loop of `operator/=` keeps at `shift`: the divisor aligned to
bit `shift`, the quotient so far with no bit at or below `shift`, and the
remainder below the divisor aligned one bit higher. -/
structure DivInvariant (x b shift : ℕ) (num div q : BaseUint width) : Prop where
  div_eq : div.toNat = b * 2 ^ shift
  num_eq : x = q.toNat * b + num.toNat
  num_lt : num.toNat < b * 2 ^ (shift + 1)
  q_dvd : 2 ^ (shift + 1) ∣ q.toNat

/-- One pass of the loop of `operator/=`: the remainder drops below the
aligned divisor and bit `shift` of the quotient is settled. -/
theorem divStep_spec {x b shift : ℕ} {num div q : BaseUint width}
    (h : DivInvariant x b shift num div q) :
    x = (divStep shift num div q).2.toNat * b + (divStep shift num div q).1.toNat ∧
      (divStep shift num div q).1.toNat < b * 2 ^ shift ∧
      2 ^ shift ∣ (divStep shift num div q).2.toNat := by
  have hdvd : 2 ^ shift ∣ q.toNat := (Nat.pow_dvd_pow 2 (Nat.le_succ shift)).trans h.q_dvd
  have hnum := h.num_lt
  rw [Nat.pow_succ, ← Nat.mul_assoc] at hnum
  unfold divStep
  by_cases hle : div.toNat ≤ num.toNat
  · -- the aligned divisor fits: subtract it and set bit `shift`
    have hb : 0 < b := Nat.pos_of_ne_zero fun hb0 => by simp [hb0] at hnum
    have hs : shift < 32 * width := by
      have hpow : 2 ^ shift < 2 ^ (32 * width) :=
        calc 2 ^ shift ≤ b * 2 ^ shift := Nat.le_mul_of_pos_left _ hb
          _ = div.toNat := h.div_eq.symm
          _ < 2 ^ (32 * width) := div.toNat_lt
      exact (Nat.pow_lt_pow_iff_right (by decide)).mp hpow
    rw [if_pos ((zero_le_compareTo num div).mpr hle), toNat_sub_of_le hle,
      toNat_setBit q hs, or_two_pow_of_dvd h.q_dvd, h.div_eq]
    rw [h.div_eq] at hle
    refine ⟨?_, by omega, Nat.dvd_add hdvd (dvd_refl _)⟩
    rw [h.num_eq, Nat.add_mul, Nat.mul_comm (2 ^ shift) b]
    omega
  · rw [if_neg (fun h' => hle ((zero_le_compareTo num div).mp h'))]
    dsimp only
    exact ⟨h.num_eq, by rw [← h.div_eq]; omega, hdvd⟩

/-- The loop of `operator/=` from `shift` down returns the quotient. -/
theorem divLoop_spec {x b : ℕ} : ∀ (shift : ℕ) (num div q : BaseUint width),
    DivInvariant x b shift num div q → (divLoop shift num div q).toNat = x / b
  | 0, num, div, q, h => by
      obtain ⟨hx, hlt, -⟩ := divStep_spec h
      rw [divLoop]
      rw [Nat.pow_zero, Nat.mul_one] at hlt
      exact (Nat.div_eq_of_lt_le (by omega) (by rw [Nat.succ_mul]; omega)).symm
  | shift + 1, num, div, q, h => by
      have hstep := divStep_spec h
      rw [divLoop]
      generalize divStep (shift + 1) num div q = r at hstep ⊢
      obtain ⟨num', q'⟩ := r
      obtain ⟨hx, hlt, hdvd⟩ := hstep
      -- halving the divisor moves the alignment one bit down
      have hdiv : (div >>> 1).toNat = b * 2 ^ shift := by
        rw [toNat_shiftRight, h.div_eq, Nat.pow_succ, ← Nat.mul_assoc, Nat.pow_one,
          Nat.mul_div_cancel _ (by decide)]
      exact divLoop_spec shift num' (div >>> 1) q' ⟨hdiv, hx, hlt, hdvd⟩

/-- `operator/=`: the quotient rounded down, and `uint_error` on a zero
divisor. -/
theorem div_map_toNat (x b : BaseUint width) :
    (x.div b).map toNat =
      if b.toNat = 0 then .error "Division by zero" else .ok (x.toNat / b.toNat) := by
  unfold div
  dsimp only
  rw [bits_eq_size, bits_eq_size]
  by_cases hb0 : b.toNat = 0
  · rw [if_pos (Nat.size_eq_zero.mpr hb0), if_pos hb0]
    rfl
  have hbsize : 0 < Nat.size b.toNat := Nat.size_pos.mpr (Nat.pos_of_ne_zero hb0)
  have hblow : 2 ^ (Nat.size b.toNat - 1) ≤ b.toNat := Nat.lt_size.mp (by omega)
  have hbhigh : b.toNat < 2 ^ Nat.size b.toNat := Nat.lt_size_self _
  have hxhigh : x.toNat < 2 ^ Nat.size x.toNat := Nat.lt_size_self _
  have hxsize : Nat.size x.toNat ≤ 32 * width := Nat.size_le.mpr x.toNat_lt
  rw [if_neg (fun h => hb0 (Nat.size_eq_zero.mp h)), if_neg hb0]
  by_cases hlt : Nat.size x.toNat < Nat.size b.toNat
  · -- fewer bits than the divisor: the quotient is zero
    rw [if_pos hlt]
    have : x.toNat < b.toNat :=
      calc x.toNat < 2 ^ Nat.size x.toNat := hxhigh
        _ ≤ 2 ^ (Nat.size b.toNat - 1) := Nat.pow_le_pow_right (by decide) (by omega)
        _ ≤ b.toNat := hblow
    show Except.ok (0 : BaseUint width).toNat = _
    rw [toNat_zero, Nat.div_eq_of_lt this]
  · rw [if_neg hlt]
    show Except.ok (divLoop _ _ _ _).toNat = _
    congr 1
    apply divLoop_spec
    -- the divisor shifted to the top bit of `x` does not overflow
    set shift := Nat.size x.toNat - Nat.size b.toNat
    have hsplit : Nat.size x.toNat = Nat.size b.toNat - 1 + (shift + 1) := by omega
    have hfit : b.toNat * 2 ^ shift < 2 ^ (32 * width) :=
      calc b.toNat * 2 ^ shift < 2 ^ Nat.size b.toNat * 2 ^ shift :=
            Nat.mul_lt_mul_of_pos_right hbhigh (by positivity)
        _ = 2 ^ Nat.size x.toNat := by rw [← Nat.pow_add]; congr 1; omega
        _ ≤ 2 ^ (32 * width) := Nat.pow_le_pow_right (by decide) hxsize
    refine ⟨?_, by rw [toNat_zero, Nat.zero_mul, Nat.zero_add], ?_, by rw [toNat_zero]; exact dvd_zero _⟩
    · rw [toNat_shiftLeft, Nat.mod_eq_of_lt hfit]
    · calc x.toNat < 2 ^ Nat.size x.toNat := hxhigh
        _ = 2 ^ (Nat.size b.toNat - 1) * 2 ^ (shift + 1) := by rw [hsplit, Nat.pow_add]
        _ ≤ b.toNat * 2 ^ (shift + 1) := Nat.mul_le_mul_right _ hblow

example : ((ofUInt64 100 : BaseUint 2).div (ofUInt64 7)).map toNat = .ok 14 := by decide

/-- A division by a nonzero divisor returns the quotient. -/
theorem div_eq_ok (x : BaseUint width) {b : BaseUint width} (hb : b.toNat ≠ 0) :
    ∃ q, x.div b = .ok q ∧ q.toNat = x.toNat / b.toNat := by
  have h := div_map_toNat x b
  rw [if_neg hb] at h
  cases hq : x.div b with
  | error e => rw [hq] at h; simp [Except.map] at h
  | ok q =>
      rw [hq] at h
      exact ⟨q, rfl, by injection h⟩

end BaseUint

/-- `arith_uint256`. -/
abbrev ArithUint256 := BaseUint 8

/-- The operators of `arith_uint256` compute with the integers: `*=` and
`<<=` modulo `2 ^ 256`, `>>=` and `/=` rounding down, and `/=` by zero
throws. -/
theorem arith_uint256_mul_div_shift (a b : ArithUint256) (s : ℕ) :
    (a * b).toNat = a.toNat * b.toNat % 2 ^ 256 ∧
      (a.div b).map BaseUint.toNat =
        (if b.toNat = 0 then .error "Division by zero" else .ok (a.toNat / b.toNat)) ∧
      (a <<< s).toNat = a.toNat * 2 ^ s % 2 ^ 256 ∧
      (a >>> s).toNat = a.toNat / 2 ^ s :=
  ⟨BaseUint.toNat_mul a b, BaseUint.div_map_toNat a b, BaseUint.toNat_shiftLeft a s,
    BaseUint.toNat_shiftRight a s⟩

end Metrix
