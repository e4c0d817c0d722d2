import Mathlib

/-! Ordered finite maps stored as their entries in strictly increasing key
order. Iteration visits the keys in order, as an ordered tree map does, so a
loop over the map can be written as a fold over `entries`. The order
invariant is a field: a map whose keys repeat cannot be built. -/

/-- A finite map whose entries are kept in strictly increasing key order. -/
structure SortedMap (κ : Type) (ν : Type) [LT κ] where
  entries : List (κ × ν)
  sorted : entries.Pairwise (fun a b => a.1 < b.1)

namespace SortedMap

variable {κ ν : Type} [LinearOrder κ]

/-- The map with no entries. -/
def empty : SortedMap κ ν := ⟨[], List.Pairwise.nil⟩

/-- Lookup in a list of entries; the first entry with the key wins. -/
def findList (k : κ) : List (κ × ν) → Option ν
  | [] => none
  | e :: rest => if k = e.1 then some e.2 else findList k rest

/-- Insert or overwrite one entry, keeping the key order. -/
def insertList (k : κ) (v : ν) : List (κ × ν) → List (κ × ν)
  | [] => [(k, v)]
  | e :: rest =>
      if k < e.1 then (k, v) :: e :: rest
      else if k = e.1 then (k, v) :: rest
      else e :: insertList k v rest

theorem mem_keys_insertList {k k' : κ} {v : ν} {l : List (κ × ν)} :
    k ∈ (insertList k' v l).map Prod.fst ↔ k = k' ∨ k ∈ l.map Prod.fst := by
  induction l with
  | nil => simp [insertList]
  | cons e rest ih =>
      unfold insertList
      split_ifs with hlt heq
      · simp
      · subst heq
        simp only [List.map_cons, List.mem_cons]
        tauto
      · simp only [List.map_cons, List.mem_cons, ih]
        tauto

theorem insertList_sorted {k : κ} {v : ν} {l : List (κ × ν)}
    (h : l.Pairwise (fun a b => a.1 < b.1)) :
    (insertList k v l).Pairwise (fun a b => a.1 < b.1) := by
  induction l with
  | nil => simp [insertList]
  | cons e rest ih =>
      rw [List.pairwise_cons] at h
      unfold insertList
      split_ifs with hlt heq
      · refine List.Pairwise.cons ?_ (List.Pairwise.cons h.1 h.2)
        intro b hb
        rcases List.mem_cons.mp hb with rfl | hb
        · exact hlt
        · exact lt_trans hlt (h.1 b hb)
      · subst heq
        exact List.Pairwise.cons h.1 h.2
      · refine List.Pairwise.cons ?_ (ih h.2)
        intro b hb
        have hkey : b.1 ∈ (insertList k v rest).map Prod.fst := List.mem_map_of_mem hb
        rcases mem_keys_insertList.mp hkey with hb' | hb'
        · rw [hb']
          exact lt_of_le_of_ne (not_lt.mp hlt) (Ne.symm heq)
        · obtain ⟨b', hb'', hkeq⟩ := List.mem_map.mp hb'
          rw [← hkeq]
          exact h.1 b' hb''

/-- Insert `v` at `k`, overwriting a previous value (`m[k] = v`). -/
def insert (m : SortedMap κ ν) (k : κ) (v : ν) : SortedMap κ ν :=
  ⟨insertList k v m.entries, insertList_sorted m.sorted⟩

/-- The value stored at `k`, if any (`find`). -/
def find? (m : SortedMap κ ν) (k : κ) : Option ν :=
  findList k m.entries

/-- Whether `k` has an entry (`count(k) != 0`). -/
def contains (m : SortedMap κ ν) (k : κ) : Bool :=
  (m.find? k).isSome

/-- The keys, in increasing order. -/
def keys (m : SortedMap κ ν) : List κ :=
  m.entries.map Prod.fst

/-- Reading through `operator[]`: the stored value, after inserting the
default `d` at `k` when `k` has no entry. -/
def getOrInsert (m : SortedMap κ ν) (k : κ) (d : ν) : ν × SortedMap κ ν :=
  match m.find? k with
  | some v => (v, m)
  | none => (d, m.insert k d)

theorem getOrInsert_of_find?_eq_some {m : SortedMap κ ν} {k : κ} {v : ν} (d : ν)
    (h : m.find? k = some v) : m.getOrInsert k d = (v, m) := by
  simp [getOrInsert, h]

/-- The sum of `g` over the entries, in iteration order. -/
def sumBy (m : SortedMap κ ν) (g : κ → ν → ℕ) : ℕ :=
  (m.entries.map fun e => g e.1 e.2).sum

theorem findList_insertList (k k' : κ) (v : ν) (l : List (κ × ν)) :
    findList k (insertList k' v l) = if k = k' then some v else findList k l := by
  induction l with
  | nil => simp [insertList, findList]
  | cons e rest ih =>
      unfold insertList
      split_ifs with hlt heq hk hk <;> simp_all [findList]

@[simp] theorem find?_empty (k : κ) : (empty : SortedMap κ ν).find? k = none := rfl

@[simp] theorem find?_insert (m : SortedMap κ ν) (k k' : κ) (v : ν) :
    (m.insert k' v).find? k = if k = k' then some v else m.find? k :=
  findList_insertList k k' v m.entries

theorem find?_insert_self (m : SortedMap κ ν) (k : κ) (v : ν) :
    (m.insert k v).find? k = some v := by
  simp

theorem find?_insert_of_ne (m : SortedMap κ ν) {k k' : κ} (v : ν) (h : k ≠ k') :
    (m.insert k' v).find? k = m.find? k := by
  simp [h]

theorem findList_eq_none_iff {k : κ} {l : List (κ × ν)} :
    findList k l = none ↔ k ∉ l.map Prod.fst := by
  induction l with
  | nil => simp [findList]
  | cons e rest ih =>
      by_cases hk : k = e.1 <;> simp_all [findList]

theorem find?_eq_none_iff {m : SortedMap κ ν} {k : κ} :
    m.find? k = none ↔ k ∉ m.keys :=
  findList_eq_none_iff

theorem mem_keys_insert {m : SortedMap κ ν} {k k' : κ} {v : ν} :
    k ∈ (m.insert k' v).keys ↔ k = k' ∨ k ∈ m.keys :=
  mem_keys_insertList

theorem mem_of_findList_eq_some {k : κ} {v : ν} {l : List (κ × ν)}
    (h : findList k l = some v) : (k, v) ∈ l := by
  induction l with
  | nil => simp [findList] at h
  | cons e rest ih =>
      unfold findList at h
      split_ifs at h with hk
      · cases h
        exact List.mem_cons.mpr (Or.inl (by rw [hk]))
      · exact List.mem_cons_of_mem _ (ih h)

theorem findList_of_mem {k : κ} {v : ν} {l : List (κ × ν)}
    (hl : l.Pairwise (fun a b => a.1 < b.1)) (h : (k, v) ∈ l) : findList k l = some v := by
  induction l with
  | nil => cases h
  | cons e rest ih =>
      rw [List.pairwise_cons] at hl
      rcases List.mem_cons.mp h with rfl | hrest
      · simp [findList]
      · have hne : k ≠ e.1 := ne_of_gt (hl.1 (k, v) hrest)
        simp [findList, hne, ih hl.2 hrest]

/-- An entry of the map is what lookup returns at its key. -/
theorem find?_eq_some_iff {m : SortedMap κ ν} {k : κ} {v : ν} :
    m.find? k = some v ↔ (k, v) ∈ m.entries :=
  ⟨mem_of_findList_eq_some, findList_of_mem m.sorted⟩

theorem keys_nodup (m : SortedMap κ ν) : m.keys.Nodup := by
  unfold keys
  exact (List.pairwise_map.mpr m.sorted).imp ne_of_lt

theorem sum_insertList_of_not_mem {k : κ} (v : ν) (g : κ → ν → ℕ) {l : List (κ × ν)}
    (hk : k ∉ l.map Prod.fst) :
    ((insertList k v l).map fun e => g e.1 e.2).sum = g k v + (l.map fun e => g e.1 e.2).sum := by
  induction l with
  | nil => simp [insertList]
  | cons e rest ih =>
      have hne : k ≠ e.1 := fun heq => hk (by simp [heq])
      have hrest : k ∉ rest.map Prod.fst := fun hm => hk (List.mem_cons_of_mem _ hm)
      unfold insertList
      split_ifs with hlt
      · simp
      · simp only [List.map_cons, List.sum_cons, ih hrest]
        omega

theorem sumBy_insert_of_find?_eq_none {m : SortedMap κ ν} {k : κ} (v : ν) (g : κ → ν → ℕ)
    (h : m.find? k = none) : (m.insert k v).sumBy g = g k v + m.sumBy g :=
  sum_insertList_of_not_mem v g (find?_eq_none_iff.mp h)

theorem mem_keys_iff_find?_isSome {m : SortedMap κ ν} {k : κ} :
    k ∈ m.keys ↔ (m.find? k).isSome := by
  rw [← not_iff_not, ← find?_eq_none_iff, Option.not_isSome_iff_eq_none]

theorem sum_map_eq_sum_findList (g : κ → ν → ℕ) {l : List (κ × ν)}
    (hl : (l.map Prod.fst).Nodup) :
    (l.map fun e => g e.1 e.2).sum = ∑ k ∈ (l.map Prod.fst).toFinset, (findList k l).elim 0 (g k) := by
  classical
  induction l with
  | nil => simp
  | cons e rest ih =>
      rw [List.map_cons, List.nodup_cons] at hl
      have hrest : ∀ k ∈ (rest.map Prod.fst).toFinset,
          (findList k (e :: rest)).elim 0 (g k) = (findList k rest).elim 0 (g k) := by
        intro k hk
        have hne : k ≠ e.1 := fun heq => hl.1 (heq ▸ List.mem_toFinset.mp hk)
        simp [findList, hne]
      rw [List.map_cons, List.sum_cons, List.map_cons, List.toFinset_cons,
        Finset.sum_insert (fun h => hl.1 (List.mem_toFinset.mp h)), Finset.sum_congr rfl hrest,
        ih hl.2]
      simp [findList]

/-- Summing over the entries is summing over the key set, reading each value
back by lookup. -/
theorem sumBy_eq_sum (m : SortedMap κ ν) (g : κ → ν → ℕ) :
    m.sumBy g = ∑ k ∈ m.keys.toFinset, (m.find? k).elim 0 (g k) :=
  sum_map_eq_sum_findList g m.keys_nodup

/-- Two maps with the same keys, defined through lookup. -/
theorem keys_toFinset_eq {m : SortedMap κ ν} {s : Finset κ}
    (h : ∀ k, (m.find? k).isSome ↔ k ∈ s) : m.keys.toFinset = s := by
  ext k
  rw [List.mem_toFinset, mem_keys_iff_find?_isSome, h]

/-- Summing over the entries kept by a filter. -/
theorem sum_map_filter {α : Type} (p : α → Bool) (f : α → ℕ) (l : List α) :
    ((l.filter p).map f).sum = (l.map fun x => if p x then f x else 0).sum := by
  induction l with
  | nil => rfl
  | cons x rest ih =>
      by_cases hx : p x <;> simp [hx, ih]

/-- A fold whose step changes its state only at the key of the entry, to a
value made from the entry and the old value there. Over distinct keys every
key is written at most once: the result at `k` is the write of `k`'s entry,
or the start value. -/
theorem get_foldl_of_local {σ α : Type} (get : σ → κ → Option ν) (step : σ → κ × α → σ)
    (w : κ → α → Option ν → Option ν)
    (hstep : ∀ s e k, get (step s e) k = if k = e.1 then w e.1 e.2 (get s k) else get s k)
    {l : List (κ × α)} (hl : (l.map Prod.fst).Nodup) (s : σ) (k : κ) :
    get (l.foldl step s) k = (findList k l).elim (get s k) fun x => w k x (get s k) := by
  induction l generalizing s with
  | nil => rfl
  | cons e rest ih =>
      rw [List.map_cons, List.nodup_cons] at hl
      rw [List.foldl_cons, ih hl.2, hstep, findList]
      by_cases hk : k = e.1
      · -- the entry's key is not written again by the rest of the fold
        subst hk
        have hnone : findList e.1 rest = none := findList_eq_none_iff.mpr hl.1
        simp [hnone]
      · simp [hk]

/-! ## Erasing entries and counting them -/

/-- Remove the entry at `k`, if any (`erase(k)`). -/
def erase (m : SortedMap κ ν) (k : κ) : SortedMap κ ν :=
  ⟨m.entries.filter fun e => e.1 ≠ k, m.sorted.filter _⟩

/-- The number of entries (`size()`). -/
def size (m : SortedMap κ ν) : ℕ :=
  m.entries.length

/-- The number of entries whose value satisfies `p`. -/
def countBy (m : SortedMap κ ν) (p : ν → Bool) : ℕ :=
  m.sumBy fun _ v => if p v then 1 else 0

theorem findList_filter_ne (k k' : κ) (l : List (κ × ν)) :
    findList k (l.filter fun e => e.1 ≠ k') = if k = k' then none else findList k l := by
  induction l with
  | nil => simp [findList]
  | cons e rest ih =>
      by_cases he : e.1 = k'
      · by_cases hk : k = k' <;> simp_all [findList]
      · by_cases hk : k = e.1 <;> simp_all [findList]

@[simp] theorem find?_erase (m : SortedMap κ ν) (k k' : κ) :
    (m.erase k').find? k = if k = k' then none else m.find? k :=
  findList_filter_ne k k' m.entries

theorem size_eq_card_keys (m : SortedMap κ ν) : m.size = m.keys.toFinset.card := by
  rw [List.toFinset_card_of_nodup m.keys_nodup, keys, List.length_map, size]

theorem keys_toFinset_insert (m : SortedMap κ ν) (k : κ) (v : ν) :
    (m.insert k v).keys.toFinset = Insert.insert k m.keys.toFinset := by
  ext k'
  simp [mem_keys_insert]

theorem keys_toFinset_erase (m : SortedMap κ ν) (k : κ) :
    (m.erase k).keys.toFinset = m.keys.toFinset.erase k := by
  ext k'
  simp only [List.mem_toFinset, Finset.mem_erase, mem_keys_iff_find?_isSome, find?_erase]
  by_cases hk : k' = k <;> simp [hk]

theorem size_eq_zero_iff {m : SortedMap κ ν} : m.size = 0 ↔ ∀ k, m.find? k = none := by
  rw [size_eq_card_keys, Finset.card_eq_zero, Finset.eq_empty_iff_forall_notMem]
  simp [find?_eq_none_iff]

theorem countBy_eq_sum (m : SortedMap κ ν) (p : ν → Bool) :
    m.countBy p = ∑ k ∈ m.keys.toFinset, (m.find? k).elim 0 fun v => if p v then 1 else 0 :=
  sumBy_eq_sum m _

/-- Writing `v` over the value `v₀` at `k` moves the count by what `p` says of each. -/
theorem countBy_insert_of_find?_eq_some {m : SortedMap κ ν} {k : κ} {v₀ : ν} (v : ν) (p : ν → Bool)
    (h : m.find? k = some v₀) :
    (m.insert k v).countBy p + (if p v₀ then 1 else 0) = m.countBy p + (if p v then 1 else 0) := by
  have hk : k ∈ m.keys.toFinset := by
    rw [List.mem_toFinset, mem_keys_iff_find?_isSome, h]
    rfl
  rw [countBy_eq_sum, countBy_eq_sum, keys_toFinset_insert, Finset.insert_eq_of_mem hk,
    ← Finset.add_sum_erase _ _ hk, ← Finset.add_sum_erase _ _ hk]
  have hrest : ∑ x ∈ m.keys.toFinset.erase k, ((m.insert k v).find? x).elim 0
        (fun v => if p v then 1 else 0) =
      ∑ x ∈ m.keys.toFinset.erase k, (m.find? x).elim 0 fun v => if p v then 1 else 0 := by
    apply Finset.sum_congr rfl
    intro x hx
    rw [find?_insert_of_ne _ _ (Finset.ne_of_mem_erase hx)]
  rw [hrest, find?_insert_self, h]
  simp only [Option.elim]
  omega

theorem countBy_insert_of_find?_eq_none {m : SortedMap κ ν} {k : κ} (v : ν) (p : ν → Bool)
    (h : m.find? k = none) : (m.insert k v).countBy p = m.countBy p + if p v then 1 else 0 := by
  rw [countBy, sumBy_insert_of_find?_eq_none v _ h, countBy, Nat.add_comm]

theorem countBy_erase_add {m : SortedMap κ ν} {k : κ} {v₀ : ν} (p : ν → Bool)
    (h : m.find? k = some v₀) : (m.erase k).countBy p + (if p v₀ then 1 else 0) = m.countBy p := by
  have hk : k ∈ m.keys.toFinset := by
    rw [List.mem_toFinset, mem_keys_iff_find?_isSome, h]
    rfl
  rw [countBy_eq_sum, countBy_eq_sum, keys_toFinset_erase, ← Finset.add_sum_erase _ _ hk, h]
  have hrest : ∑ x ∈ m.keys.toFinset.erase k, ((m.erase k).find? x).elim 0
        (fun v => if p v then 1 else 0) =
      ∑ x ∈ m.keys.toFinset.erase k, (m.find? x).elim 0 fun v => if p v then 1 else 0 := by
    apply Finset.sum_congr rfl
    intro x hx
    rw [find?_erase, if_neg (Finset.ne_of_mem_erase hx)]
  rw [hrest]
  simp only [Option.elim]
  omega

/-- Apply `f` to the value at `k`, if there is one (a write through `m[k]`
to an entry that exists). -/
def modify (m : SortedMap κ ν) (k : κ) (f : ν → ν) : SortedMap κ ν :=
  match m.find? k with
  | some v => m.insert k (f v)
  | none => m

@[simp] theorem find?_modify (m : SortedMap κ ν) (k k' : κ) (f : ν → ν) :
    (m.modify k' f).find? k = if k = k' then (m.find? k').map f else m.find? k := by
  unfold modify
  split
  next v hv =>
    by_cases hk : k = k'
    · subst hk
      simp [hv]
    · simp [hk]
  next hv =>
    by_cases hk : k = k'
    · subst hk
      simp [hv]
    · simp [hk]

/-- Lookup after `modify`, as a function of the key. -/
theorem find?_modify_eq_update (m : SortedMap κ ν) (k : κ) (f : ν → ν) :
    (m.modify k f).find? = Function.update m.find? k ((m.find? k).map f) := by
  funext k'
  rw [find?_modify, Function.update_apply]

/-- Lookup after `insert`, as a function of the key. -/
theorem find?_insert_eq_update (m : SortedMap κ ν) (k : κ) (v : ν) :
    (m.insert k v).find? = Function.update m.find? k (some v) := by
  funext k'
  rw [find?_insert, Function.update_apply]

/-- Lookup after `erase`, as a function of the key. -/
theorem find?_erase_eq_update (m : SortedMap κ ν) (k : κ) :
    (m.erase k).find? = Function.update m.find? k none := by
  funext k'
  rw [find?_erase, Function.update_apply]

theorem countBy_modify_add {m : SortedMap κ ν} {k : κ} {v₀ : ν} (f : ν → ν) (p : ν → Bool)
    (h : m.find? k = some v₀) :
    (m.modify k f).countBy p + (if p v₀ then 1 else 0) = m.countBy p + (if p (f v₀) then 1 else 0) := by
  unfold modify
  rw [h]
  exact countBy_insert_of_find?_eq_some (f v₀) p h

/-- A write that keeps what `p` says of the value keeps the count. -/
theorem countBy_modify_of_forall {m : SortedMap κ ν} (k : κ) {f : ν → ν} {p : ν → Bool}
    (hf : ∀ v, p (f v) = p v) : (m.modify k f).countBy p = m.countBy p := by
  cases h : m.find? k with
  | none => simp [modify, h]
  | some v₀ =>
    have := countBy_modify_add f p h
    rw [hf] at this
    omega

theorem countBy_eq_length_filter (m : SortedMap κ ν) (p : ν → Bool) :
    m.countBy p = (m.entries.filter fun e => p e.2).length := by
  rw [countBy, sumBy]
  induction m.entries with
  | nil => rfl
  | cons e rest ih => by_cases he : p e.2 <;> simp [he, ih]; omega

/-- Every entry is counted by `p` or by its negation. -/
theorem countBy_add_countBy_not (m : SortedMap κ ν) (p : ν → Bool) :
    m.countBy p + m.countBy (fun v => !p v) = m.size := by
  rw [countBy_eq_length_filter, countBy_eq_length_filter, size]
  induction m.entries with
  | nil => rfl
  | cons e rest ih => by_cases he : p e.2 <;> simp [he] <;> omega

/-- The count by `p` depends on the map only through what `p` says of each value. -/
theorem countBy_congr {m m' : SortedMap κ ν} {p : ν → Bool}
    (h : ∀ k, (m'.find? k).map p = (m.find? k).map p) : m'.countBy p = m.countBy p := by
  have hkeys : m'.keys.toFinset = m.keys.toFinset := by
    ext k
    rw [List.mem_toFinset, List.mem_toFinset, mem_keys_iff_find?_isSome, mem_keys_iff_find?_isSome,
      ← Option.isSome_map (f := p), h k, Option.isSome_map]
  rw [countBy_eq_sum, countBy_eq_sum, hkeys]
  apply Finset.sum_congr rfl
  intro k _
  have hk := h k
  cases hm' : m'.find? k <;> cases hm : m.find? k <;> simp_all

/-- The count by `p` is the number of keys whose value `p` holds of. -/
theorem countBy_eq_card {m : SortedMap κ ν} {p : ν → Bool} {s : Finset κ}
    (h : ∀ k, k ∈ s ↔ ∃ v, m.find? k = some v ∧ p v = true) : m.countBy p = s.card := by
  have hs : s = m.keys.toFinset.filter fun k => (m.find? k).elim false p := by
    ext k
    rw [h, Finset.mem_filter, List.mem_toFinset, mem_keys_iff_find?_isSome]
    cases m.find? k <;> simp
  rw [hs, Finset.card_filter, countBy_eq_sum]
  apply Finset.sum_congr rfl
  intro k _
  cases m.find? k <;> rfl

end SortedMap
