import Metrix.Lib.BitString

/-! `ConvertBits` (`util/strencodings.h`): values of `frombits` bits regrouped
into values of `tobits` bits through an accumulator `acc`, whose low `bits`
bits are pending. With `pad` a last partial group is filled with zero bits;
without, a tail of `frombits` bits or more, or one with a bit set, is refused.
`acc` never exceeds `max_acc`, so the `size_t` arithmetic is that of natural
numbers, and `outfn` appends to a list. -/

namespace Metrix

open BitString

/-- The inner loop of `ConvertBits`, `while (bits >= tobits)`, for at most
`fuel` passes; `bits` passes suffice, each taking `tobits ≥ 1` bits. The
result is the values emitted and the bits left. -/
def drainBits (tobits maxv acc : ℕ) : ℕ → ℕ → List ℕ × ℕ
  | 0, bits => ([], bits)
  | fuel + 1, bits =>
    if bits ≥ tobits then
      let bits := bits - tobits
      let rest := drainBits tobits maxv acc fuel bits
      (((acc >>> bits) &&& maxv) :: rest.1, rest.2)
    else ([], bits)

/-- One pass of the outer loop of `ConvertBits` on the state (output, `acc`,
`bits`): the value shifted into the accumulator, then drained. -/
def convertBitsStep (frombits tobits : ℕ) (st : List ℕ × ℕ × ℕ) (x : ℕ) : List ℕ × ℕ × ℕ :=
  let maxv := (1 <<< tobits) - 1
  let max_acc := (1 <<< (frombits + tobits - 1)) - 1
  let acc := ((st.2.1 <<< frombits) ||| x) &&& max_acc
  let bits := st.2.2 + frombits
  let drained := drainBits tobits maxv acc bits bits
  (st.1 ++ drained.1, acc, drained.2)

/-- `ConvertBits<frombits, tobits, pad>`: what `outfn` receives, `none` where
it returns `false`. -/
def convertBits (frombits tobits : ℕ) (pad : Bool) (input : List ℕ) : Option (List ℕ) :=
  let maxv := (1 <<< tobits) - 1
  let st := input.foldl (convertBitsStep frombits tobits) ([], 0, 0)
  let acc := st.2.1
  let bits := st.2.2
  if pad then some (if bits ≠ 0 then st.1 ++ [(acc <<< (tobits - bits)) &&& maxv] else st.1)
  else if bits ≥ frombits ∨ (acc <<< (tobits - bits)) &&& maxv ≠ 0 then none
  else some st.1

theorem drainBits_succ (tobits maxv acc fuel bits : ℕ) :
    drainBits tobits maxv acc (fuel + 1) bits =
      if bits ≥ tobits then
        (((acc >>> (bits - tobits)) &&& maxv) :: (drainBits tobits maxv acc fuel (bits - tobits)).1,
          (drainBits tobits maxv acc fuel (bits - tobits)).2)
      else ([], bits) := rfl

theorem one_shiftLeft_sub_one (k : ℕ) : (1 <<< k) - 1 = 2 ^ k - 1 := by
  rw [Nat.shiftLeft_eq, Nat.one_mul]

/-! ## The pending bits -/

/-- `out` and the low `bits'` bits of `acc` are the low `bits` bits of `acc`
regrouped: whole values of `t` bits, then fewer than `t` bits. -/
structure Drained (t acc bits : ℕ) (out : List ℕ) (bits' : ℕ) : Prop where
  bits_lt : bits' < t
  out_lt : ∀ o ∈ out, o < 2 ^ t
  bits_eq : groupBits t out ++ bitsBE bits' acc = bitsBE bits acc

/-- The inner loop emits the pending bits in values of `t` bits while at least
`t` are left, given enough passes. -/
theorem drainBits_spec {t : ℕ} (ht : 0 < t) (acc : ℕ) :
    ∀ fuel bits, bits / t ≤ fuel →
      Drained t acc bits (drainBits t (2 ^ t - 1) acc fuel bits).1 (drainBits t (2 ^ t - 1) acc fuel bits).2
  | 0, bits, hfuel => by
    have hb : bits < t := (Nat.div_eq_zero_iff_lt ht).mp (Nat.le_zero.mp hfuel)
    exact ⟨hb, by simp [drainBits], by simp [drainBits]⟩
  | fuel + 1, bits, hfuel => by
    rw [drainBits_succ]
    by_cases hb : bits ≥ t
    · rw [if_pos hb]
      have hdiv : (bits - t) / t + 1 = bits / t := by rw [← Nat.add_div_right _ ht, Nat.sub_add_cancel hb]
      obtain ⟨hlt, hout, heq⟩ := drainBits_spec ht acc fuel (bits - t) (by omega)
      refine ⟨hlt, ?_, ?_⟩
      · intro o ho
        rcases List.mem_cons.mp ho with rfl | ho
        · rw [Nat.and_two_pow_sub_one_eq_mod]
          exact Nat.mod_lt _ (Nat.two_pow_pos t)
        · exact hout o ho
      · -- the value emitted is the top `t` of the pending bits
        rw [groupBits_cons, List.append_assoc, heq, Nat.and_two_pow_sub_one_eq_mod, bitsBE_mod le_rfl,
          ← bitsBE_add, Nat.add_sub_cancel' hb]
    · rw [if_neg hb]
      exact ⟨by omega, by simp, by simp⟩

/-- The state of `ConvertBits` after the values `input`: the output and the
fewer than `t` pending bits of `acc` spell the bits of the input. -/
structure Pending (f t : ℕ) (input : List ℕ) (st : List ℕ × ℕ × ℕ) : Prop where
  bits_lt : st.2.2 < t
  out_lt : ∀ o ∈ st.1, o < 2 ^ t
  bits_eq : groupBits t st.1 ++ bitsBE st.2.2 st.2.1 = groupBits f input

section Loop

variable {f t : ℕ} (ht : 0 < t)
include ht

theorem pending_nil : Pending f t [] ([], 0, 0) := ⟨ht, by simp, by simp [bitsBE]⟩

/-- Step lemma: a value of `f` bits keeps the pending bits in step with the
input; the accumulator's mask keeps all `bits + f ≤ f + t - 1` of them. -/
theorem Pending.step {input : List ℕ} {st : List ℕ × ℕ × ℕ} (hst : Pending f t input st) {x : ℕ}
    (hx : x < 2 ^ f) : Pending f t (input ++ [x]) (convertBitsStep f t st x) := by
  obtain ⟨hlt, hout, heq⟩ := hst
  unfold convertBitsStep
  simp only [one_shiftLeft_sub_one, Nat.and_two_pow_sub_one_eq_mod]
  have hacc : bitsBE (st.2.2 + f) (((st.2.1 <<< f) ||| x) % 2 ^ (f + t - 1)) = bitsBE st.2.2 st.2.1 ++ bitsBE f x := by
    rw [bitsBE_mod (by omega), bitsBE_shiftLeft_or _ hx]
  obtain ⟨hlt', hout', heq'⟩ := drainBits_spec ht (((st.2.1 <<< f) ||| x) % 2 ^ (f + t - 1)) (st.2.2 + f)
    (st.2.2 + f) (Nat.div_le_self _ _)
  refine ⟨hlt', fun o ho => ?_, ?_⟩
  · rcases List.mem_append.mp ho with ho | ho
    · exact hout o ho
    · exact hout' o ho
  · rw [groupBits_append, List.append_assoc, heq', hacc, ← List.append_assoc, heq, groupBits_append, groupBits_cons,
      groupBits_nil, List.append_nil]

/-- Run lemma: the outer loop keeps the pending bits in step with the input. -/
theorem Pending.foldl {input : List ℕ} {st : List ℕ × ℕ × ℕ} (hst : Pending f t input st) :
    ∀ {xs : List ℕ}, (∀ x ∈ xs, x < 2 ^ f) → Pending f t (input ++ xs) (xs.foldl (convertBitsStep f t) st)
  | [], _ => by simpa using hst
  | x :: xs, hxs => by
    rw [List.foldl_cons, ← List.singleton_append, ← List.append_assoc]
    exact (hst.step ht (hxs x List.mem_cons_self)).foldl (fun y hy => hxs y (List.mem_cons_of_mem x hy))

theorem pending_convertBits {xs : List ℕ} (hxs : ∀ x ∈ xs, x < 2 ^ f) :
    Pending f t xs (xs.foldl (convertBitsStep f t) ([], 0, 0)) := by
  simpa using (pending_nil ht).foldl ht hxs

end Loop

/-! ## Padding -/

/-- With `pad`, the output is the bits of the input and fewer than `t` zero bits. -/
theorem convertBits_pad {f t : ℕ} (ht : 0 < t) {xs : List ℕ} (hxs : ∀ x ∈ xs, x < 2 ^ f) :
    ∃ out, convertBits f t true xs = some out ∧ (∀ o ∈ out, o < 2 ^ t) ∧
      ∃ p < t, groupBits t out = groupBits f xs ++ List.replicate p false := by
  obtain ⟨hlt, hout, heq⟩ := pending_convertBits ht hxs
  unfold convertBits
  simp only [one_shiftLeft_sub_one, Nat.and_two_pow_sub_one_eq_mod, if_true]
  generalize xs.foldl (convertBitsStep f t) ([], 0, 0) = st at hlt hout heq
  obtain ⟨out, acc, bits⟩ := st
  dsimp only at hlt hout heq ⊢
  by_cases hb : bits = 0
  · subst hb
    refine ⟨out, by simp, hout, 0, ht, ?_⟩
    simpa [bitsBE] using heq
  · -- the last group: the pending bits, then zeros
    refine ⟨_, by rw [if_pos hb], fun o ho => ?_, t - bits, by omega, ?_⟩
    · rcases List.mem_append.mp ho with ho | ho
      · exact hout o ho
      · rw [List.mem_singleton.mp ho]
        exact Nat.mod_lt _ (Nat.two_pow_pos t)
    · have hlast : bitsBE t ((acc <<< (t - bits)) % 2 ^ t) = bitsBE bits acc ++ List.replicate (t - bits) false := by
        rw [bitsBE_mod le_rfl, ← bitsBE_shiftLeft, Nat.add_sub_cancel' hlt.le]
      rw [groupBits_append, groupBits_cons, groupBits_nil, List.append_nil, hlast, ← List.append_assoc, heq]

example : convertBits 8 5 true [255] = some [31, 28] := by decide

/-- Without `pad`, `ConvertBits` accepts input whose bits are those of `out`
and fewer than `frombits` and than `tobits` zero bits, and gives `out`. -/
theorem convertBits_unpad_of_groupBits {f t : ℕ} (ht : 0 < t) {ys out : List ℕ} (hys : ∀ y ∈ ys, y < 2 ^ f)
    (hout : ∀ o ∈ out, o < 2 ^ t) {p : ℕ} (hpf : p < f) (hpt : p < t)
    (hbits : groupBits t out ++ List.replicate p false = groupBits f ys) :
    convertBits f t false ys = some out := by
  obtain ⟨hlt, hout', heq⟩ := pending_convertBits ht hys
  unfold convertBits
  simp only [one_shiftLeft_sub_one, Nat.and_two_pow_sub_one_eq_mod, Bool.false_eq_true, if_false]
  generalize ys.foldl (convertBitsStep f t) ([], 0, 0) = st at hlt hout' heq
  obtain ⟨out', acc, bits⟩ := st
  dsimp only at hlt hout' heq ⊢
  rw [← hbits] at heq
  -- as many whole values, and as many bits left, as `out` and its zeros
  have hlen := congrArg List.length heq
  simp only [List.length_append, length_groupBits, length_bitsBE, List.length_replicate] at hlen
  obtain ⟨hn, hp⟩ := eq_of_mul_add_eq hlt hpt hlen
  obtain ⟨hgroups, hzeros⟩ := List.append_inj heq (by simp [hn])
  subst hp
  have hshift := bitsBE_shiftLeft bits (t - bits) acc
  rw [Nat.add_sub_cancel' hlt.le] at hshift
  have hzero : (acc <<< (t - bits)) % 2 ^ t = 0 := by
    apply eq_of_bitsBE_eq (Nat.mod_lt _ (Nat.two_pow_pos t)) (Nat.two_pow_pos t)
    rw [bitsBE_mod le_rfl, hshift, hzeros, bitsBE_zero, ← List.replicate_add, Nat.add_sub_cancel' hlt.le]
  rw [if_neg (by omega), eq_of_groupBits_eq ht hout' hout hgroups]

/-- What `ConvertBits` without `pad` accepts: the bits of its output and fewer
than `frombits` zero bits. -/
theorem groupBits_of_convertBits_unpad {f t : ℕ} (ht : 0 < t) {ys out : List ℕ} (hys : ∀ y ∈ ys, y < 2 ^ f)
    (h : convertBits f t false ys = some out) :
    (∀ o ∈ out, o < 2 ^ t) ∧ ∃ p < f, groupBits t out ++ List.replicate p false = groupBits f ys := by
  obtain ⟨hlt, hout, heq⟩ := pending_convertBits ht hys
  unfold convertBits at h
  simp only [one_shiftLeft_sub_one, Nat.and_two_pow_sub_one_eq_mod, Bool.false_eq_true, if_false] at h
  generalize ys.foldl (convertBitsStep f t) ([], 0, 0) = st at hlt hout heq h
  obtain ⟨out', acc, bits⟩ := st
  dsimp only at hlt hout heq h
  split_ifs at h with hcheck
  rw [Option.some.injEq] at h
  subst h
  rw [not_or, not_le, not_not] at hcheck
  -- the tail is zero: its bits are the top of a value `0`
  have hshift := bitsBE_shiftLeft bits (t - bits) acc
  rw [Nat.add_sub_cancel' hlt.le] at hshift
  have hbits : bitsBE bits acc ++ List.replicate (t - bits) false = List.replicate bits false ++
      List.replicate (t - bits) false := by
    rw [← hshift, ← bitsBE_mod le_rfl, hcheck.2, bitsBE_zero, ← List.replicate_add, Nat.add_sub_cancel' hlt.le]
  refine ⟨hout, bits, hcheck.1, ?_⟩
  rw [← (List.append_inj hbits (by simp)).1, heq]

/-- `ConvertBits` without `pad` undoes `ConvertBits` with `pad` when the
values do not shrink. -/
theorem convertBits_round_trip {f t : ℕ} (ht : 0 < t) (htf : t ≤ f) {xs : List ℕ} (hxs : ∀ x ∈ xs, x < 2 ^ f) :
    (convertBits f t true xs).bind (convertBits t f false) = some xs := by
  obtain ⟨out, hout, hlt, p, hp, hbits⟩ := convertBits_pad ht hxs
  rw [hout, Option.bind_some]
  exact convertBits_unpad_of_groupBits (by omega) hlt hxs hp (by omega) hbits.symm

/-- Without `pad`, `ConvertBits` accepts exactly the canonical strings: those
`ConvertBits` with `pad` writes for the values it gives back. -/
theorem convertBits_unpad_iff {f t : ℕ} (ht : 0 < t) (htf : t ≤ f) {ys xs : List ℕ} (hys : ∀ y ∈ ys, y < 2 ^ t) :
    convertBits t f false ys = some xs ↔ (∀ x ∈ xs, x < 2 ^ f) ∧ convertBits f t true xs = some ys := by
  constructor
  · intro h
    obtain ⟨hxs, p, hp, hbits⟩ := groupBits_of_convertBits_unpad (by omega) hys h
    obtain ⟨out, hout, hlt, p', hp', hbits'⟩ := convertBits_pad ht hxs
    -- both strings are the bits of `xs` and fewer than `t` zeros: the same count
    have hlen := congrArg List.length hbits
    have hlen' := congrArg List.length hbits'
    simp only [List.length_append, length_groupBits, List.length_replicate] at hlen hlen'
    obtain ⟨-, hpp⟩ := eq_of_mul_add_eq hp hp' (show t * out.length + p = t * ys.length + p' by omega)
    refine ⟨hxs, ?_⟩
    rw [hout, eq_of_groupBits_eq ht hlt hys (by rw [hbits', ← hpp, hbits])]
  · rintro ⟨hxs, h⟩
    have hround := convertBits_round_trip ht htf hxs
    rwa [h, Option.bind_some] at hround

example : convertBits 5 8 false [31, 29] = none := by decide

theorem convertBits_unpad_iff_byte :
    convertBits 5 8 false [31, 28] = some [255] ↔ (∀ x ∈ [255], x < 2 ^ 8) ∧ convertBits 8 5 true [255] = some [31, 28] :=
  convertBits_unpad_iff (by decide) (by decide) (by decide)

end Metrix
