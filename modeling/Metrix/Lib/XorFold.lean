import Mathlib

/-! Folds of a step that is linear for exclusive or, the shape of a checksum
computed a symbol at a time: the fold of two lists combined position by
position is the combination of the two folds, so an error in one symbol
changes the result by the fold of the error alone. -/

namespace List

variable {σ α : Type*} [XorOp σ] [XorOp α] {f : σ → α → σ}

/-- A step that is linear for exclusive or gives a fold that is. -/
theorem foldl_zipWith_xor (hf : ∀ c d v w, f (c ^^^ d) (v ^^^ w) = f c v ^^^ f d w) :
    ∀ {vs ws : List α} (c d : σ), vs.length = ws.length →
      (zipWith (· ^^^ ·) vs ws).foldl f (c ^^^ d) = vs.foldl f c ^^^ ws.foldl f d
  | [], [], _, _, _ => rfl
  | v :: vs, w :: ws, c, d, h => by
      rw [zipWith_cons_cons, foldl_cons, hf, foldl_zipWith_xor hf _ _ (by simpa using h)]
      rfl

variable [Zero σ] [Zero α]

omit [XorOp α] in
/-- An error vector of one symbol: zeros, `e`, zeros. -/
def singleError (i : ℕ) (e : α) (r : ℕ) : List α := replicate i 0 ++ e :: replicate r 0

omit [XorOp α] in
@[simp] theorem length_singleError (i : ℕ) (e : α) (r : ℕ) :
    (singleError i e r).length = i + 1 + r := by
  simp [singleError]
  omega

omit [XorOp σ] [XorOp α] in
theorem foldl_replicate_zero (h00 : f 0 0 = 0) (i : ℕ) : (replicate i 0).foldl f 0 = 0 := by
  induction i with
  | zero => rfl
  | succ i ih => rw [replicate_succ, foldl_cons, h00, ih]

omit [XorOp σ] [XorOp α] in
/-- From the zero state, the one symbol of an error vector starts the fold
at the step of that symbol. -/
theorem foldl_singleError (h00 : f 0 0 = 0) (i : ℕ) (e : α) (r : ℕ) :
    (singleError i e r).foldl f 0 = (replicate r 0).foldl f (f 0 e) := by
  rw [singleError, foldl_append, foldl_replicate_zero h00, foldl_cons]

/-- An error in one symbol changes a linear fold by the fold of the error alone. -/
theorem foldl_zipWith_singleError (hf : ∀ c d v w, f (c ^^^ d) (v ^^^ w) = f c v ^^^ f d w)
    (h00 : f 0 0 = 0) (hc0 : ∀ c : σ, c ^^^ 0 = c) {vs : List α} {i r : ℕ}
    (hlen : vs.length = i + 1 + r) (c : σ) (e : α) :
    (zipWith (· ^^^ ·) vs (singleError i e r)).foldl f c =
      vs.foldl f c ^^^ (replicate r 0).foldl f (f 0 e) := by
  rw [← foldl_singleError h00 i e r, ← foldl_zipWith_xor hf c 0 (by simp [hlen]), hc0]

section Laws

variable (hx0 : ∀ x : α, x ^^^ 0 = x)
include hx0

omit [XorOp σ] [Zero σ] in
theorem zipWith_xor_replicate_zero :
    ∀ vs : List α, zipWith (· ^^^ ·) vs (replicate vs.length 0) = vs
  | [] => rfl
  | v :: vs => by rw [length_cons, replicate_succ, zipWith_cons_cons, hx0, zipWith_xor_replicate_zero vs]

omit [XorOp σ] [Zero σ] in
/-- Writing `v` at `i` is adding the error `vs[i] ^^^ v` there. -/
theorem set_eq_zipWith_singleError (hxx : ∀ x y : α, x ^^^ (x ^^^ y) = y) :
    ∀ {vs : List α} {i r : ℕ}, vs.length = i + 1 + r → ∀ v : α,
      vs.set i v = zipWith (· ^^^ ·) vs (singleError i (vs.getD i 0 ^^^ v) r)
  | [], _, _, h, _ => by simp at h; omega
  | x :: vs, 0, r, h, v => by
      have hr : vs.length = r := by simp at h; omega
      rw [singleError, replicate_zero, nil_append, zipWith_cons_cons, getD_cons_zero, hxx, ← hr,
        zipWith_xor_replicate_zero hx0, set_cons_zero]
  | x :: vs, i + 1, r, h, v => by
      have hlen : vs.length = i + 1 + r := by simp at h; omega
      rw [set_cons_succ, singleError, replicate_succ, cons_append, zipWith_cons_cons, hx0,
        getD_cons_succ, set_eq_zipWith_singleError hxx hlen v, singleError]

end Laws

omit [XorOp σ] [Zero σ] in
theorem zipWith_replicate_zero_xor (h0x : ∀ x : α, 0 ^^^ x = x) :
    ∀ vs : List α, zipWith (· ^^^ ·) (replicate vs.length 0) vs = vs
  | [] => rfl
  | v :: vs => by rw [length_cons, replicate_succ, zipWith_cons_cons, h0x, zipWith_replicate_zero_xor h0x vs]

end List
