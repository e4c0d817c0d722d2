import Mathlib
import Metrix.Lib.ListSlice

/-! `CRollingBloomFilter` (`bloom.cpp`): a bloom filter that forgets. Each
position holds a two-bit generation tag, split over a pair of words; a key
sets the tags of its positions to the current generation, `1`, `2` or `3`,
and when a generation has `nEntriesPerGeneration` keys the next one begins
by wiping the tags of the generation three back, which carries its number.
The keys of the current and the two previous generations, at least the last
`nElements`, are never wiped. `RollingBloomHash` (`MurmurHash3`) is left
abstract, and so are the two values the constructor computes in floating
point, `nHashFuncs` and `nFilterBits`; the `int` members are natural numbers. -/

namespace Metrix

namespace RollingBloom

/-- The members of `CRollingBloomFilter`. -/
structure CRollingBloomFilter where
  nEntriesPerGeneration : ℕ
  nEntriesThisGeneration : ℕ
  nGeneration : ℕ
  data : List UInt64
  nTweak : UInt32
  nHashFuncs : ℕ

/-- `FastMod(x, n)`: `x * n >> 32` in 64 bits, in place of `x % n`. -/
def fastMod (x : UInt32) (n : ℕ) : UInt32 := ((x.toUInt64 * n.toUInt64) >>> 32).toUInt32

/-- `nGeneration++; if (nGeneration == 4) nGeneration = 1;` -/
def nextGeneration (nGeneration : ℕ) : ℕ := if nGeneration + 1 = 4 then 1 else nGeneration + 1

/-- The wiping loop of `insert`: each pair of words is masked where its tags
differ from the generation whose masks are given. -/
def wipeGeneration (nGenerationMask1 nGenerationMask2 : UInt64) : List UInt64 → List UInt64
  | [] => []
  | [p1] => [p1]
  | p1 :: p2 :: data =>
    let mask := (p1 ^^^ nGenerationMask1) ||| (p2 ^^^ nGenerationMask2)
    (p1 &&& mask) :: (p2 &&& mask) :: wipeGeneration nGenerationMask1 nGenerationMask2 data

/-- `(word & ~(((uint64_t)1) << bit)) | (v << bit)`: bit `bit` of the word
replaced by `v`. -/
def replaceBit (word v bit : UInt64) : UInt64 := (word &&& ~~~((1 : UInt64) <<< bit)) ||| (v <<< bit)

/-- One iteration of the hash loop of `insert`: the tag of the position of
the hash `h` set to `nGeneration`, its low bit in `data[pos & ~1]` and its
high bit in `data[pos | 1]`. -/
def setPosition (nGeneration : ℕ) (data : List UInt64) (h : UInt32) : List UInt64 :=
  let bit := (h &&& 0x3F).toUInt64
  let pos := fastMod h data.length
  let data := data.set (pos &&& ~~~1).toNat
    (replaceBit (data.getD (pos &&& ~~~1).toNat 0) (nGeneration &&& 1).toUInt64 bit)
  data.set (pos ||| 1).toNat (replaceBit (data.getD (pos ||| 1).toNat 0) (nGeneration >>> 1).toUInt64 bit)

/-- The first block of `insert`, run when the generation is full: the next
generation begins, and the tags that carry its number are wiped. -/
def startGeneration (f : CRollingBloomFilter) : CRollingBloomFilter :=
  let nGeneration := nextGeneration f.nGeneration
  let nGenerationMask1 := (0 : UInt64) - (nGeneration &&& 1).toUInt64
  let nGenerationMask2 := (0 : UInt64) - (nGeneration >>> 1).toUInt64
  { f with nEntriesThisGeneration := 0, nGeneration,
           data := wipeGeneration nGenerationMask1 nGenerationMask2 f.data }

section Filter

-- `RollingBloomHash(nHashNum, nTweak, vDataToHash)`
variable (rollingBloomHash : ℕ → UInt32 → List UInt8 → UInt32)

/-- `CRollingBloomFilter::insert`. -/
def insert (f : CRollingBloomFilter) (vKey : List UInt8) : CRollingBloomFilter :=
  let f := if f.nEntriesThisGeneration = f.nEntriesPerGeneration then startGeneration f else f
  { f with nEntriesThisGeneration := f.nEntriesThisGeneration + 1,
           data := (List.range f.nHashFuncs).foldl
             (fun data n => setPosition f.nGeneration data (rollingBloomHash n f.nTweak vKey)) f.data }

/-- `CRollingBloomFilter::contains`: every position of the key has a tag. -/
def contains (f : CRollingBloomFilter) (vKey : List UInt8) : Bool :=
  (List.range f.nHashFuncs).all fun n =>
    let h := rollingBloomHash n f.nTweak vKey
    let bit := (h &&& 0x3F).toUInt64
    let pos := fastMod h f.data.length
    ((f.data.getD (pos &&& ~~~1).toNat 0 ||| f.data.getD (pos ||| 1).toNat 0) >>> bit) &&& 1 != 0

end Filter

/-- `CRollingBloomFilter::reset`, with `nTweak` the value `GetRand` draws. -/
def reset (f : CRollingBloomFilter) (nTweak : UInt32) : CRollingBloomFilter :=
  { f with nTweak, nEntriesThisGeneration := 0, nGeneration := 1, data := List.replicate f.data.length 0 }

/-- The constructor, given the two values it computes in floating point from
the false positive rate: `nHashFuncs` and `nFilterBits`. -/
def create (nElements : UInt32) (nHashFuncs : ℕ) (nFilterBits nTweak : UInt32) : CRollingBloomFilter :=
  reset
    { nEntriesPerGeneration := ((nElements + 1) / 2).toNat, nEntriesThisGeneration := 0, nGeneration := 1,
      data := List.replicate (((nFilterBits + 63) / 64) <<< 1).toNat 0, nTweak := 0, nHashFuncs }
    nTweak

/-! ## Positions and tags -/

/-- The tag at word pair `q`, bit `b`: the bit of the even word and twice the
bit of the odd word, `0` for no entry. -/
def tagAt (data : List UInt64) (q b : ℕ) : ℕ :=
  (if (data.getD (2 * q) 0).toBitVec.getLsbD b then 1 else 0) +
    (if (data.getD (2 * q + 1) 0).toBitVec.getLsbD b then 2 else 0)

/-- The word pair and the bit of the position a hash value selects. -/
def slot (size : ℕ) (h : UInt32) : ℕ × ℕ := ((fastMod h size).toNat / 2, h.toNat % 64)

/-- The tag of the position a hash value selects. -/
def tagOf (data : List UInt64) (h : UInt32) : ℕ := tagAt data (slot data.length h).1 (slot data.length h).2

/-- Filter storage the positions stay inside: an even, positive number of
words, at most `2 ^ 32`. -/
structure Storage (data : List UInt64) : Prop where
  even : data.length % 2 = 0
  pos : 0 < data.length
  le : data.length ≤ 2 ^ 32

theorem toNat_and_not_one (p : UInt32) : (p &&& ~~~1).toNat = 2 * (p.toNat / 2) := by
  have hnot : (~~~(1 : UInt32)).toNat = 2 * (2 ^ 31 - 1) := by decide
  have hlt : p.toNat / 2 < 2 ^ 31 := by have := p.toNat_lt; omega
  rw [UInt32.toNat_and, hnot]
  apply Nat.eq_of_testBit_eq
  intro i
  rw [Nat.testBit_and]
  cases i with
  | zero => simp [Nat.testBit_zero, Nat.mul_mod_right]
  | succ i =>
    rw [Nat.testBit_succ, Nat.testBit_succ, Nat.testBit_succ, Nat.mul_div_cancel_left _ (by norm_num),
      Nat.mul_div_cancel_left _ (by norm_num), Nat.testBit_two_pow_sub_one]
    by_cases hi : i < 31
    · simp [hi]
    · rw [Nat.testBit_lt_two_pow (lt_of_lt_of_le hlt (Nat.pow_le_pow_right (by norm_num) (by omega)))]
      simp

theorem toNat_or_one (p : UInt32) : (p ||| 1).toNat = 2 * (p.toNat / 2) + 1 := by
  rw [UInt32.toNat_or, UInt32.toNat_one]
  apply Nat.eq_of_testBit_eq
  intro i
  rw [Nat.testBit_or]
  cases i with
  | zero => simp [Nat.testBit_zero]
  | succ i =>
    rw [Nat.testBit_succ, Nat.testBit_succ, Nat.testBit_succ]
    simp [Nat.mul_add_div]

theorem toNat_fastMod_lt (x : UInt32) {n : ℕ} (hn : 0 < n) (hn32 : n ≤ 2 ^ 32) : (fastMod x n).toNat < n := by
  have hx := x.toNat_lt
  have hprod : x.toNat * n < 2 ^ 64 :=
    calc x.toNat * n < 2 ^ 32 * n := Nat.mul_lt_mul_of_pos_right hx hn
      _ ≤ 2 ^ 32 * 2 ^ 32 := Nat.mul_le_mul_left _ hn32
      _ = 2 ^ 64 := by norm_num
  have hquot : x.toNat * n / 2 ^ 32 < n := (Nat.div_lt_iff_lt_mul (by norm_num)).mpr (by
    rw [Nat.mul_comm]
    exact Nat.mul_lt_mul_of_pos_left hx hn)
  unfold fastMod
  rw [UInt64.toNat_toUInt32, UInt64.toNat_shiftRight, UInt64.toNat_mul, UInt32.toNat_toUInt64,
    Nat.toUInt64_eq, UInt64.toNat_ofNat', Nat.mod_eq_of_lt (lt_of_le_of_lt hn32 (by norm_num)),
    Nat.mod_eq_of_lt hprod, Nat.shiftRight_eq_div_pow]
  exact lt_of_le_of_lt (Nat.mod_le _ _) hquot

theorem toNat_bitIndex (h : UInt32) : ((h &&& 0x3F).toUInt64.toBitVec % 64).toNat = h.toNat % 64 := by
  rw [BitVec.toNat_umod, UInt64.toNat_toBitVec, UInt32.toNat_toUInt64, UInt32.toNat_and]
  show (h.toNat &&& (2 ^ 6 - 1)) % 64 = _
  rw [Nat.and_two_pow_sub_one_eq_mod, Nat.mod_mod]

/-- The even word of a position's pair is inside the storage, and so is the
odd word after it. -/
theorem slot_lt {data : List UInt64} (hs : Storage data) (h : UInt32) :
    2 * (slot data.length h).1 + 1 < data.length := by
  have hlt := toNat_fastMod_lt h hs.pos hs.le
  have heven := hs.even
  simp only [slot]
  omega

/-! ## Setting and wiping tags -/

theorem getD_set_self {l : List UInt64} {i : ℕ} (hi : i < l.length) (x : UInt64) : (l.set i x).getD i 0 = x := by
  rw [List.getD_eq_getElem?_getD, List.getElem?_set_self hi]
  rfl

theorem getD_set_of_ne {l : List UInt64} {i j : ℕ} (hij : i ≠ j) (x : UInt64) :
    (l.set i x).getD j 0 = l.getD j 0 := by
  rw [List.getD_eq_getElem?_getD, List.getElem?_set_ne hij, ← List.getD_eq_getElem?_getD]

/-- Bit `b` of a word whose bit `s` is replaced by the low bit of `v`. -/
theorem getLsbD_replaceBit (w v s : UInt64) (b : ℕ) (hv : v.toNat < 2) :
    (replaceBit w v s).toBitVec.getLsbD b =
      if b = (s.toBitVec % 64).toNat then decide (v.toNat = 1) else w.toBitVec.getLsbD b := by
  simp only [replaceBit, UInt64.toBitVec_or, UInt64.toBitVec_and, UInt64.toBitVec_not, UInt64.toBitVec_shiftLeft,
    BitVec.getLsbD_or, BitVec.getLsbD_and, BitVec.getLsbD_not, BitVec.getLsbD_shiftLeft, UInt64.toBitVec_one,
    BitVec.getLsbD_one, BitVec.shiftLeft_eq']
  have hk : (s.toBitVec % 64).toNat < 64 := by
    rw [BitVec.toNat_umod]
    exact Nat.mod_lt _ (by decide)
  generalize (s.toBitVec % 64).toNat = k at hk ⊢
  have hvbit : ∀ i, v.toBitVec.getLsbD i = (decide (i = 0) && decide (v.toNat = 1)) := by
    intro i
    rw [BitVec.getLsbD, UInt64.toNat_toBitVec]
    rcases (by omega : v.toNat = 0 ∨ v.toNat = 1) with h0 | h1
    · simp [h0]
    · rw [h1]
      rcases i with _ | i
      · rfl
      · simp [Nat.testBit_succ]
  rw [hvbit]
  by_cases hb64 : b < 64
  · by_cases hbk : b = k
    · subst hbk
      simp [hb64]
    · by_cases hlt : b < k
      · simp [hb64, hbk, hlt]
      · have hsub : b - k ≠ 0 := by omega
        simp [hb64, hbk, hlt, hsub]
  · have hbk : b ≠ k := by omega
    simp [hb64, hbk, BitVec.getLsbD_of_ge w.toBitVec b (by omega)]

/-- The two writes of `setPosition` at word pair `p` and shift `bit`: the tag
there becomes `g` and every other tag stays. -/
theorem tagAt_set_pair {g : ℕ} (hg : g < 4) {data : List UInt64} {p : ℕ} (hp : 2 * p + 1 < data.length)
    (bit : UInt64) (q b : ℕ) :
    tagAt ((data.set (2 * p) (replaceBit (data.getD (2 * p) 0) (g &&& 1).toUInt64 bit)).set (2 * p + 1)
        (replaceBit ((data.set (2 * p) (replaceBit (data.getD (2 * p) 0) (g &&& 1).toUInt64 bit)).getD
          (2 * p + 1) 0) (g >>> 1).toUInt64 bit)) q b =
      if (q, b) = (p, (bit.toBitVec % 64).toNat) then g else tagAt data q b := by
  have hlow : (g &&& 1).toUInt64.toNat = g % 2 := by
    rw [Nat.toUInt64_eq, UInt64.toNat_ofNat', Nat.and_one_is_mod]
    omega
  have hhigh : (g >>> 1).toUInt64.toNat = g / 2 := by
    rw [Nat.toUInt64_eq, UInt64.toNat_ofNat', Nat.shiftRight_eq_div_pow]
    omega
  unfold tagAt
  by_cases hq : q = p
  · -- the pair of the position: both words get the generation's bit
    subst hq
    rw [getD_set_of_ne (by omega), getD_set_self (by omega), getD_set_self (by rw [List.length_set]; omega),
      getD_set_of_ne (by omega), getLsbD_replaceBit _ _ _ _ (by omega), getLsbD_replaceBit _ _ _ _ (by omega),
      hlow, hhigh]
    by_cases hb : b = (bit.toBitVec % 64).toNat
    · subst hb
      simp only [if_true, decide_eq_true_eq]
      split_ifs <;> omega
    · simp only [hb, if_false, Prod.mk.injEq, and_false]
  · have hne : (q, b) ≠ (p, (bit.toBitVec % 64).toNat) := fun he => hq (Prod.mk.inj he).1
    rw [if_neg hne, getD_set_of_ne (by omega), getD_set_of_ne (by omega), getD_set_of_ne (by omega),
      getD_set_of_ne (by omega)]

/-- Setting a position's tag writes the generation into its pair and bit and
leaves every other tag as it was. -/
theorem tagAt_setPosition {g : ℕ} (hg : g < 4) {data : List UInt64} (hs : Storage data) (h : UInt32)
    (q b : ℕ) : tagAt (setPosition g data h) q b = if (q, b) = slot data.length h then g else tagAt data q b := by
  have hlt : 2 * ((fastMod h data.length).toNat / 2) + 1 < data.length := slot_lt hs h
  unfold setPosition
  simp only [toNat_and_not_one, toNat_or_one]
  rw [tagAt_set_pair hg hlt, toNat_bitIndex]
  rfl

theorem length_setPosition (g : ℕ) (data : List UInt64) (h : UInt32) :
    (setPosition g data h).length = data.length := by
  simp only [setPosition, List.length_set]

theorem wipeGeneration_cons_cons (m1 m2 p1 p2 : UInt64) (data : List UInt64) :
    wipeGeneration m1 m2 (p1 :: p2 :: data) =
      (p1 &&& ((p1 ^^^ m1) ||| (p2 ^^^ m2))) :: (p2 &&& ((p1 ^^^ m1) ||| (p2 ^^^ m2))) ::
        wipeGeneration m1 m2 data := rfl

theorem length_wipeGeneration (m1 m2 : UInt64) (data : List UInt64) :
    (wipeGeneration m1 m2 data).length = data.length := by
  induction data using wipeGeneration.induct m1 m2 with
  | case1 => rfl
  | case2 p1 => rfl
  | case3 p1 p2 data ih => rw [wipeGeneration_cons_cons, List.length_cons, List.length_cons, ih]; rfl

/-- The wiping loop on the pair `q`: both words are masked by the same mask. -/
theorem getD_wipeGeneration (m1 m2 : UInt64) {data : List UInt64} (heven : data.length % 2 = 0) (q : ℕ) :
    (wipeGeneration m1 m2 data).getD (2 * q) 0 =
        data.getD (2 * q) 0 &&& ((data.getD (2 * q) 0 ^^^ m1) ||| (data.getD (2 * q + 1) 0 ^^^ m2)) ∧
      (wipeGeneration m1 m2 data).getD (2 * q + 1) 0 =
        data.getD (2 * q + 1) 0 &&& ((data.getD (2 * q) 0 ^^^ m1) ||| (data.getD (2 * q + 1) 0 ^^^ m2)) := by
  induction data using wipeGeneration.induct m1 m2 generalizing q with
  | case1 => simp [wipeGeneration]
  | case2 p1 => simp at heven
  | case3 p1 p2 data ih =>
    rw [wipeGeneration_cons_cons]
    cases q with
    | zero => simp
    | succ q =>
      have heven' : data.length % 2 = 0 := by simp only [List.length_cons] at heven; omega
      rw [show 2 * (q + 1) = 2 * q + 1 + 1 by ring]
      simp only [List.getD_cons_succ]
      exact ih heven' q

/-- `0 - (uint64_t)v` for a bit `v`: every bit set, or none. -/
theorem getLsbD_generationMask {v : ℕ} (hv : v < 2) (i : ℕ) :
    ((0 : UInt64) - v.toUInt64).toBitVec.getLsbD i = (decide (i < 64) && decide (v = 1)) := by
  rcases (by omega : v = 0 ∨ v = 1) with rfl | rfl
  · simp
  · have hones : ((0 : UInt64) - (1 : ℕ).toUInt64).toBitVec = BitVec.allOnes 64 := by decide
    rw [hones, BitVec.getLsbD_allOnes]
    simp

/-- Wiping for generation `g` clears exactly the tags equal to `g`. -/
theorem tagAt_wipeGeneration {g : ℕ} (hg1 : 1 ≤ g) (hg3 : g ≤ 3) {data : List UInt64}
    (heven : data.length % 2 = 0) (q b : ℕ) :
    tagAt (wipeGeneration ((0 : UInt64) - (g &&& 1).toUInt64) ((0 : UInt64) - (g >>> 1).toUInt64) data) q b =
      if tagAt data q b = g then 0 else tagAt data q b := by
  have hlow : g &&& 1 = g % 2 := Nat.and_one_is_mod g
  have hhigh : g >>> 1 = g / 2 := by rw [Nat.shiftRight_eq_div_pow]
  obtain ⟨h0, h1⟩ := getD_wipeGeneration ((0 : UInt64) - (g &&& 1).toUInt64) ((0 : UInt64) - (g >>> 1).toUInt64)
    heven q
  unfold tagAt
  rw [h0, h1]
  simp only [UInt64.toBitVec_and, UInt64.toBitVec_or, UInt64.toBitVec_xor, BitVec.getLsbD_and,
    BitVec.getLsbD_or, BitVec.getLsbD_xor, getLsbD_generationMask (by omega : g &&& 1 < 2),
    getLsbD_generationMask (by omega : g >>> 1 < 2)]
  rw [hlow, hhigh]
  by_cases hb : b < 64
  · -- the two bits of the tag against the two bits of `g`
    generalize (data.getD (2 * q) 0).toBitVec.getLsbD b = x
    generalize (data.getD (2 * q + 1) 0).toBitVec.getLsbD b = y
    rcases (by omega : g = 1 ∨ g = 2 ∨ g = 3) with rfl | rfl | rfl <;> cases x <;> cases y <;> simp [hb]
  · simp [hb, BitVec.getLsbD_of_ge _ b (by omega : 64 ≤ b)]

theorem Storage.of_length {data data' : List UInt64} (hl : data'.length = data.length) (hs : Storage data) :
    Storage data' :=
  ⟨hl ▸ hs.even, hl ▸ hs.pos, hl ▸ hs.le⟩

/-! ## The hash loop -/

section Loop

variable {g : ℕ} (H : α → UInt32)

theorem length_foldl_setPosition (l : List α) (data : List UInt64) :
    (l.foldl (fun data n => setPosition g data (H n)) data).length = data.length := by
  induction l generalizing data with
  | nil => rfl
  | cons n l ih => rw [List.foldl_cons, ih, length_setPosition]

/-- The hash loop only writes `g`: every tag is kept or becomes `g`. -/
theorem tagAt_foldl_setPosition (hg : g < 4) (l : List α) {data : List UInt64} (hs : Storage data) (q b : ℕ) :
    tagAt (l.foldl (fun data n => setPosition g data (H n)) data) q b = tagAt data q b ∨
      tagAt (l.foldl (fun data n => setPosition g data (H n)) data) q b = g := by
  induction l generalizing data with
  | nil => exact .inl rfl
  | cons n l ih =>
    rw [List.foldl_cons]
    rcases ih (Storage.of_length (length_setPosition g data (H n)) hs) with h | h
    · rw [h, tagAt_setPosition hg hs]
      split_ifs
      · exact .inr rfl
      · exact .inl rfl
    · exact .inr h

/-- After the hash loop every position it visited has the tag `g`. -/
theorem tagOf_foldl_setPosition (hg : g < 4) (l : List α) {data : List UInt64} (hs : Storage data) :
    ∀ n ∈ l, tagOf (l.foldl (fun data n => setPosition g data (H n)) data) (H n) = g := by
  induction l generalizing data with
  | nil => intro n hn; simp at hn
  | cons m l ih =>
    intro n hn
    rw [List.foldl_cons]
    have hs' := Storage.of_length (length_setPosition g data (H m)) hs
    rcases List.mem_cons.mp hn with rfl | hn
    · -- set by this iteration; the later ones keep the tag or write `g` again
      unfold tagOf
      rw [length_foldl_setPosition, length_setPosition]
      rcases tagAt_foldl_setPosition H hg l hs' (slot data.length (H n)).1 (slot data.length (H n)).2 with h | h
      · rw [h, tagAt_setPosition hg hs, if_pos rfl]
      · exact h
    · exact ih hs' n hn

end Loop

/-! ## Generations -/

theorem one_le_nextGeneration (g : ℕ) : 1 ≤ nextGeneration g := by
  unfold nextGeneration
  split_ifs <;> omega

theorem nextGeneration_le_three {g : ℕ} (hg : g ≤ 3) : nextGeneration g ≤ 3 := by
  unfold nextGeneration
  split_ifs <;> omega

theorem nextGeneration_ne_self (g : ℕ) : nextGeneration g ≠ g := by
  unfold nextGeneration
  split_ifs <;> omega

/-- Three generations in a row are distinct: the one after next is the one before. -/
theorem nextGeneration_nextGeneration_ne (g : ℕ) : nextGeneration (nextGeneration g) ≠ g := by
  unfold nextGeneration
  split_ifs <;> omega

/-! ## Recent keys are never wiped -/

section Filter

variable (rollingBloomHash : ℕ → UInt32 → List UInt8 → UInt32)

/-- Every position of `vKey` in `f` has a tag satisfying `P`. -/
def Marked (f : CRollingBloomFilter) (vKey : List UInt8) (P : ℕ → Prop) : Prop :=
  ∀ n < f.nHashFuncs, P (tagOf f.data (rollingBloomHash n f.nTweak vKey))

/-- `(w >> s) & 1`, the bit test of `contains`. -/
theorem shiftRight_and_one_ne_zero (w s : UInt64) :
    ((w >>> s) &&& 1 != 0) = w.toBitVec.getLsbD (s.toBitVec % 64).toNat := by
  have hbit : ((w >>> s) &&& 1).toNat = w.toNat / 2 ^ (s.toNat % 64) % 2 := by
    rw [UInt64.toNat_and, UInt64.toNat_shiftRight, UInt64.toNat_one, Nat.and_one_is_mod, Nat.shiftRight_eq_div_pow]
  rw [BitVec.getLsbD, UInt64.toNat_toBitVec, BitVec.toNat_umod, UInt64.toNat_toBitVec,
    Nat.testBit_eq_decide_div_mod_eq, Bool.eq_iff_iff, bne_iff_ne, ne_eq, ← UInt64.toNat_inj, hbit]
  simp

/-- The test `contains` makes for one hash: the position has a tag. -/
theorem containsTest_iff (data : List UInt64) (h : UInt32) :
    ((((data.getD (fastMod h data.length &&& ~~~1).toNat 0 ||| data.getD (fastMod h data.length ||| 1).toNat 0) >>>
        (h &&& 0x3F).toUInt64) &&& 1 != 0) = true) ↔ tagOf data h ≠ 0 := by
  rw [shiftRight_and_one_ne_zero, toNat_bitIndex, UInt64.toBitVec_or, BitVec.getLsbD_or, toNat_and_not_one,
    toNat_or_one]
  unfold tagOf tagAt slot
  generalize (data.getD (2 * ((fastMod h data.length).toNat / 2)) 0).toBitVec.getLsbD (h.toNat % 64) = x
  generalize (data.getD (2 * ((fastMod h data.length).toNat / 2) + 1) 0).toBitVec.getLsbD (h.toNat % 64) = y
  cases x <;> cases y <;> simp

theorem contains_iff (f : CRollingBloomFilter) (vKey : List UInt8) :
    contains rollingBloomHash f vKey = true ↔ Marked rollingBloomHash f vKey (· ≠ 0) := by
  unfold contains Marked
  rw [List.all_eq_true]
  simp only [List.mem_range, containsTest_iff]

/-- Marks carry over to a filter with the same hashing whose tags move from
`P` to `Q`. -/
theorem Marked.of_tagAt {f f' : CRollingBloomFilter} {P Q : ℕ → Prop} (hn : f'.nHashFuncs = f.nHashFuncs)
    (ht : f'.nTweak = f.nTweak) (hl : f'.data.length = f.data.length)
    (htag : ∀ q b, P (tagAt f.data q b) → Q (tagAt f'.data q b)) {vKey : List UInt8}
    (hk : Marked rollingBloomHash f vKey P) : Marked rollingBloomHash f' vKey Q := by
  intro n hlt
  have hmark := hk n (hn ▸ hlt)
  unfold tagOf at hmark ⊢
  rw [hl, ht]
  exact htag _ _ hmark

/-- The invariant of a filter after the keys `keys`, newest last: the keys of
the current generation carry its tag, those of the generation before carry
that tag or the current one, and those of the one before that any tag. -/
structure Recent (f : CRollingBloomFilter) (keys : List (List UInt8)) : Prop where
  generation_pos : 1 ≤ f.nGeneration
  generation_le : f.nGeneration ≤ 3
  storage : Storage f.data
  -- with `nEntriesPerGeneration = 0` the first key opens a generation that never closes
  unrolled : f.nEntriesPerGeneration = 0 → f.nEntriesThisGeneration = keys.length
  current : ∀ k ∈ keys.rtake f.nEntriesThisGeneration, Marked rollingBloomHash f k (· = f.nGeneration)
  previous : ∀ k ∈ (keys.rdrop f.nEntriesThisGeneration).rtake f.nEntriesPerGeneration,
    Marked rollingBloomHash f k fun t => t ≠ 0 ∧ t ≠ nextGeneration f.nGeneration
  older : ∀ k ∈ (keys.rdrop (f.nEntriesThisGeneration + f.nEntriesPerGeneration)).rtake f.nEntriesPerGeneration,
    Marked rollingBloomHash f k (· ≠ 0)

variable {rollingBloomHash}

/-- Starting a generation keeps the invariant: the closed generation becomes
the previous one and the wipe only clears the one before the previous. -/
theorem recent_startGeneration {f : CRollingBloomFilter} {keys : List (List UInt8)}
    (hf : Recent rollingBloomHash f keys) (hfull : f.nEntriesThisGeneration = f.nEntriesPerGeneration) :
    Recent rollingBloomHash (startGeneration f) keys := by
  have hwipe : ∀ q b, tagAt (startGeneration f).data q b =
      if tagAt f.data q b = nextGeneration f.nGeneration then 0 else tagAt f.data q b :=
    tagAt_wipeGeneration (one_le_nextGeneration _) (nextGeneration_le_three hf.generation_le) hf.storage.even
  have hlen : (startGeneration f).data.length = f.data.length := length_wipeGeneration _ _ _
  -- a mark whose tags avoid the new generation survives the wipe
  have hkeep : ∀ {P Q : ℕ → Prop}, (∀ t, P t → t ≠ nextGeneration f.nGeneration ∧ Q t) →
      ∀ {k}, Marked rollingBloomHash f k P → Marked rollingBloomHash (startGeneration f) k Q :=
    fun {P Q} hPQ _ hk => @Marked.of_tagAt rollingBloomHash f (startGeneration f) P Q rfl rfl hlen
      (fun q b hq => by rw [hwipe, if_neg (hPQ _ hq).1]; exact (hPQ _ hq).2) _ hk
  refine ⟨one_le_nextGeneration _, nextGeneration_le_three hf.generation_le, Storage.of_length hlen hf.storage,
    fun hE => ?_, ?_, ?_, ?_⟩
  · -- a full generation of no entries: no key yet
    have hE' : f.nEntriesPerGeneration = 0 := hE
    have := hf.unrolled hE'
    show 0 = keys.length
    omega
  · intro k hk
    simp [startGeneration] at hk
  · -- the closed generation, tagged `nGeneration`
    intro k hk
    have hk' : k ∈ keys.rtake f.nEntriesThisGeneration := by
      simpa [startGeneration, hfull] using hk
    refine hkeep (fun t ht => ⟨?_, ?_, ?_⟩) (hf.current k hk')
    · exact ht ▸ (nextGeneration_ne_self _).symm
    · have := hf.generation_pos
      omega
    · exact ht ▸ (nextGeneration_nextGeneration_ne _).symm
  · -- the generation before it
    intro k hk
    have hk' : k ∈ (keys.rdrop f.nEntriesThisGeneration).rtake f.nEntriesPerGeneration := by
      simpa [startGeneration, hfull] using hk
    exact hkeep (fun t ht => ⟨ht.2, ht.1⟩) (hf.previous k hk')

/-- The hash loop of `insert` keeps the invariant with the key appended: it
joins the current generation, and every older mark admits the current tag. -/
theorem recent_hashLoop {f : CRollingBloomFilter} {keys : List (List UInt8)} (hf : Recent rollingBloomHash f keys)
    (vKey : List UInt8) :
    Recent rollingBloomHash
      { f with nEntriesThisGeneration := f.nEntriesThisGeneration + 1,
               data := (List.range f.nHashFuncs).foldl
                 (fun data n => setPosition f.nGeneration data (rollingBloomHash n f.nTweak vKey)) f.data }
      (keys ++ [vKey]) := by
  have hg : f.nGeneration < 4 := by have := hf.generation_le; omega
  have hlen := @length_foldl_setPosition _ f.nGeneration (fun n => rollingBloomHash n f.nTweak vKey)
    (List.range f.nHashFuncs) f.data
  have hover := tagAt_foldl_setPosition (fun n => rollingBloomHash n f.nTweak vKey) hg (List.range f.nHashFuncs)
    hf.storage
  have hmarks := tagOf_foldl_setPosition (fun n => rollingBloomHash n f.nTweak vKey) hg (List.range f.nHashFuncs)
    hf.storage
  generalize (List.range f.nHashFuncs).foldl
    (fun data n => setPosition f.nGeneration data (rollingBloomHash n f.nTweak vKey)) f.data = data' at hlen hover hmarks ⊢
  -- every old mark whose predicate admits the current generation stays
  have hkeep : ∀ {P : ℕ → Prop} {k}, Marked rollingBloomHash f k P → P f.nGeneration →
      Marked rollingBloomHash { f with nEntriesThisGeneration := f.nEntriesThisGeneration + 1, data := data' } k P :=
    fun {P} k hk hP => @Marked.of_tagAt rollingBloomHash f
      { f with nEntriesThisGeneration := f.nEntriesThisGeneration + 1, data := data' } P P rfl rfl hlen
      (fun q b hq => (hover q b).elim (fun h => h ▸ hq) (fun h => h ▸ hP)) k hk
  refine ⟨hf.generation_pos, hf.generation_le, Storage.of_length hlen hf.storage, fun hE => ?_, ?_, ?_, ?_⟩
  · show f.nEntriesThisGeneration + 1 = (keys ++ [vKey]).length
    rw [hf.unrolled hE, List.length_append, List.length_singleton]
  · -- the current generation: the new key and the keys before it
    intro k hk
    rw [List.rtake_concat_succ, List.mem_append, List.mem_singleton] at hk
    rcases hk with hk | rfl
    · exact hkeep (hf.current k hk) rfl
    · intro n hn
      exact hmarks n (List.mem_range.mpr hn)
  · intro k hk
    rw [List.rdrop_concat_succ] at hk
    have := hf.generation_pos
    exact hkeep (hf.previous k hk) ⟨by omega, (nextGeneration_ne_self _).symm⟩
  · intro k hk
    rw [show f.nEntriesThisGeneration + 1 + f.nEntriesPerGeneration =
      f.nEntriesThisGeneration + f.nEntriesPerGeneration + 1 by omega, List.rdrop_concat_succ] at hk
    have := hf.generation_pos
    exact hkeep (hf.older k hk) (by omega)

/-- Step lemma: `insert` keeps the invariant, with the key appended. -/
theorem recent_insert {f : CRollingBloomFilter} {keys : List (List UInt8)} (hf : Recent rollingBloomHash f keys)
    (vKey : List UInt8) : Recent rollingBloomHash (insert rollingBloomHash f vKey) (keys ++ [vKey]) := by
  unfold insert
  by_cases hfull : f.nEntriesThisGeneration = f.nEntriesPerGeneration
  · simp only [hfull, if_true]
    exact recent_hashLoop (recent_startGeneration hf hfull) vKey
  · simp only [hfull, if_false]
    exact recent_hashLoop hf vKey

/-- Run lemma: inserting keys one after another keeps the invariant. -/
theorem recent_foldl_insert {f : CRollingBloomFilter} {keys : List (List UInt8)}
    (hf : Recent rollingBloomHash f keys) (ks : List (List UInt8)) :
    Recent rollingBloomHash (ks.foldl (insert rollingBloomHash) f) (keys ++ ks) := by
  induction ks generalizing f keys with
  | nil => simpa using hf
  | cons k ks ih =>
    rw [List.foldl_cons, ← List.singleton_append, ← List.append_assoc]
    exact ih (recent_insert hf k)

theorem nEntriesPerGeneration_insert (f : CRollingBloomFilter) (vKey : List UInt8) :
    (insert rollingBloomHash f vKey).nEntriesPerGeneration = f.nEntriesPerGeneration := by
  unfold insert
  split_ifs <;> rfl

theorem nEntriesPerGeneration_foldl_insert (f : CRollingBloomFilter) (ks : List (List UInt8)) :
    (ks.foldl (insert rollingBloomHash) f).nEntriesPerGeneration = f.nEntriesPerGeneration := by
  induction ks generalizing f with
  | nil => rfl
  | cons k ks ih => rw [List.foldl_cons, ih, nEntriesPerGeneration_insert]

/-- The keys of the last three windows, the current generation and the two
before it, all have their positions tagged. -/
theorem marked_of_mem_rtake {f : CRollingBloomFilter} {keys : List (List UInt8)}
    (hf : Recent rollingBloomHash f keys) {k : List UInt8}
    (hk : k ∈ keys.rtake (f.nEntriesThisGeneration + f.nEntriesPerGeneration + f.nEntriesPerGeneration)) :
    Marked rollingBloomHash f k (· ≠ 0) := by
  have hpos := hf.generation_pos
  rcases List.mem_rtake_add hk with hk | hk
  · rcases List.mem_rtake_add hk with hk | hk
    · exact Marked.of_tagAt rollingBloomHash rfl rfl rfl (fun _ _ h => by omega) (hf.current k hk)
    · exact Marked.of_tagAt rollingBloomHash rfl rfl rfl (fun _ _ h => h.1) (hf.previous k hk)
  · exact hf.older k hk

theorem storage_create {nElements : UInt32} {nHashFuncs : ℕ} {nFilterBits nTweak : UInt32}
    (hdata : (create nElements nHashFuncs nFilterBits nTweak).data ≠ []) :
    Storage (create nElements nHashFuncs nFilterBits nTweak).data := by
  have hlen : (create nElements nHashFuncs nFilterBits nTweak).data.length =
      (((nFilterBits + 63) / 64) <<< 1).toNat := by
    simp [create, reset]
  have hlt := (((nFilterBits + 63) / 64) <<< 1).toNat_lt
  refine ⟨?_, List.length_pos_iff.mpr hdata, hlen ▸ hlt.le⟩
  rw [hlen, UInt32.toNat_shiftLeft, UInt32.toNat_one, Nat.shiftLeft_eq, pow_one]
  omega

theorem recent_create {nElements : UInt32} {nHashFuncs : ℕ} {nFilterBits nTweak : UInt32}
    (hdata : (create nElements nHashFuncs nFilterBits nTweak).data ≠ []) :
    Recent rollingBloomHash (create nElements nHashFuncs nFilterBits nTweak) [] :=
  ⟨Nat.le_refl 1, (by decide : 1 ≤ 3), storage_create hdata, fun _ => rfl, by simp, by simp, by simp⟩

/-- `nEntriesPerGeneration = (nElements + 1) / 2` in 32 bits: two generations
hold `nElements` keys unless the sum wrapped to `0`. -/
theorem le_two_mul_nEntriesPerGeneration {nElements : UInt32} (nHashFuncs : ℕ) (nFilterBits nTweak : UInt32)
    (hE : (create nElements nHashFuncs nFilterBits nTweak).nEntriesPerGeneration ≠ 0) :
    nElements.toNat ≤ 2 * (create nElements nHashFuncs nFilterBits nTweak).nEntriesPerGeneration := by
  have hper : (create nElements nHashFuncs nFilterBits nTweak).nEntriesPerGeneration =
      (nElements.toNat + 1) % 2 ^ 32 / 2 := by
    show ((nElements + 1) / 2).toNat = _
    rw [UInt32.toNat_div, UInt32.toNat_add, UInt32.toNat_one]
    rfl
  have := nElements.toNat_lt
  rw [hper] at hE ⊢
  omega

variable (rollingBloomHash)

/-- No recent false negatives: after any sequence of keys, whatever the hash,
each of the last `nElements` keys is reported by `contains`, as long as the
constructor gave the filter storage. -/
theorem recent_keys_contained (nElements : UInt32) (nHashFuncs : ℕ) (nFilterBits nTweak : UInt32)
    (hdata : (create nElements nHashFuncs nFilterBits nTweak).data ≠ []) (keys : List (List UInt8)) :
    ∀ vKey ∈ keys.rtake nElements.toNat,
      contains rollingBloomHash
        (keys.foldl (insert rollingBloomHash) (create nElements nHashFuncs nFilterBits nTweak)) vKey = true := by
  intro vKey hk
  have hrun := recent_foldl_insert (@recent_create rollingBloomHash _ _ _ _ hdata) keys
  rw [List.nil_append] at hrun
  have hE := @nEntriesPerGeneration_foldl_insert rollingBloomHash (create nElements nHashFuncs nFilterBits nTweak) keys
  rw [contains_iff]
  apply marked_of_mem_rtake hrun
  by_cases hE0 : (create nElements nHashFuncs nFilterBits nTweak).nEntriesPerGeneration = 0
  · -- the count wrapped to zero: the first key opened a generation that holds every key
    rw [hrun.unrolled (hE.trans hE0), hE, hE0, Nat.add_zero, List.rtake_length]
    exact List.mem_of_mem_drop hk
  · have hle := le_two_mul_nEntriesPerGeneration nHashFuncs nFilterBits nTweak hE0
    exact List.mem_rtake_of_le (by omega) hk

end Filter

/-- A small filter after three keys still finds the last two. -/
theorem contains_last_two_keys :
    (create 2 1 64 7).data ≠ [] ∧
      ∀ vKey ∈ ([[1], [2], [3]] : List (List UInt8)).rtake (2 : UInt32).toNat,
        contains (fun n nTweak vKey => n.toUInt32 * 0xFBA4C795 + nTweak + (vKey.headD 0).toUInt32)
          (([[1], [2], [3]] : List (List UInt8)).foldl
            (insert fun n nTweak vKey => n.toUInt32 * 0xFBA4C795 + nTweak + (vKey.headD 0).toUInt32)
            (create 2 1 64 7)) vKey = true :=
  ⟨by decide, recent_keys_contained _ 2 1 64 7 (by decide) _⟩

/-- With `nElements = 2 ^ 32 - 1` the count `(nElements + 1) / 2` wraps to `0`,
so do `nMaxElements` and `nFilterBits`, and the filter has no storage: the key
just inserted is not found. -/
theorem wrapped_filter_forgets_key :
    (create 0xFFFFFFFF 1 0 0).nEntriesPerGeneration = 0 ∧ (create 0xFFFFFFFF 1 0 0).data = [] ∧
      [0] ∈ ([[0]] : List (List UInt8)).rtake (0xFFFFFFFF : UInt32).toNat ∧
      contains (fun _ _ _ => 0) (([[0]] : List (List UInt8)).foldl (insert fun _ _ _ => 0)
        (create 0xFFFFFFFF 1 0 0)) [0] = false := by
  decide

end RollingBloom

end Metrix
