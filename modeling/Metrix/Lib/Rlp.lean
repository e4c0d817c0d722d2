import Mathlib

/-! RLP, the recursive length prefix serialization, by its data model: an
item is a byte string or a list of items. The byte layout of an item is not
modelled, only which item a writer puts at each position of a list and what a
reader takes back from it.

Two kinds of codec are used. A `VectorCodec` writes a vector as one item and
reads one back, with no law attached: its round trip is the separate
proposition `VectorCodec.RoundTrip`, which a user of RLP takes as an
assumption. An `ItemCodec` carries its round trip as a field; the codecs of
numbers, byte strings, pairs and lists below are built from one another, and
each gives a vector codec whose round trip is proved. -/

/-- An RLP item. -/
inductive RlpItem where
  | str (bytes : List UInt8)
  | list (items : List RlpItem)

namespace Rlp

/-- A writer of vectors of `α` as one item of `R` (the `<<` of a vector
into a stream) and its reader (`toVector`). -/
structure VectorCodec (R α : Type) where
  enc : List α → R
  dec : R → List α

/-- Reading back what was written gives the vector. -/
def VectorCodec.RoundTrip {R α : Type} (c : VectorCodec R α) : Prop :=
  ∀ xs, c.dec (c.enc xs) = xs

theorem VectorCodec.RoundTrip.dec_enc {R α : Type} {c : VectorCodec R α} (hc : c.RoundTrip)
    (xs : List α) : c.dec (c.enc xs) = xs :=
  hc xs

/-- A list of items written as one value of `V`, and the reader of the item
at a position. -/
structure ListStream (R V : Type) where
  out : List R → V
  item : V → ℕ → R

/-- Each position of a written list reads back the item written there. -/
def ListStream.RoundTrip {R V : Type} (s : ListStream R V) : Prop :=
  ∀ (items : List R) (i : ℕ) (h : i < items.length), s.item (s.out items) i = items[i]

theorem ListStream.RoundTrip.item_out {R V : Type} {s : ListStream R V} (hs : s.RoundTrip)
    (items : List R) (i : ℕ) (h : i < items.length) : s.item (s.out items) i = items[i] :=
  hs items i h

/-- RLP's own list: the items as one list item, position `i` read as its
`i`-th item. -/
def stream : ListStream RlpItem RlpItem where
  out := .list
  item
    | .list items, i => items.getD i (.str [])
    | .str _, _ => .str []

theorem stream_roundTrip : stream.RoundTrip := by
  intro items i h
  simp [stream, List.getD_eq_getElem?_getD, h]

/-- A value as one item and back, with the round trip. -/
structure ItemCodec (α : Type) where
  toItem : α → RlpItem
  ofItem : RlpItem → α
  ofItem_toItem : ∀ x, ofItem (toItem x) = x

namespace ItemCodec

variable {α β : Type}

/-- A byte string as itself. -/
def bytes : ItemCodec (List UInt8) where
  toItem := .str
  ofItem
    | .str b => b
    | .list _ => []
  ofItem_toItem _ := rfl

/-- The minimal big-endian bytes of a number, as RLP writes an integer. -/
def beBytes (n : ℕ) : List UInt8 := ((Nat.digits 256 n).map Nat.toUInt8).reverse

/-- The number of big-endian bytes. -/
def ofBeBytes (b : List UInt8) : ℕ := Nat.ofDigits 256 (b.reverse.map UInt8.toNat)

theorem ofBeBytes_beBytes (n : ℕ) : ofBeBytes (beBytes n) = n := by
  have hdigits : ((Nat.digits 256 n).map Nat.toUInt8).map UInt8.toNat = Nat.digits 256 n := by
    rw [List.map_map, List.map_congr_left (g := id) ?_, List.map_id]
    intro d hd
    have hlt : d < 256 := Nat.digits_lt_base (by norm_num) hd
    simp [Nat.toUInt8, UInt8.toNat_ofNat', Nat.mod_eq_of_lt hlt]
  rw [ofBeBytes, beBytes, List.reverse_reverse, hdigits, Nat.ofDigits_digits]

/-- A number as its minimal big-endian bytes. -/
def nat : ItemCodec ℕ where
  toItem n := .str (beBytes n)
  ofItem
    | .str b => ofBeBytes b
    | .list _ => 0
  ofItem_toItem n := ofBeBytes_beBytes n

/-- A codec through a map with a left inverse. -/
def map (c : ItemCodec α) (f : β → α) (g : α → β) (h : ∀ x, g (f x) = x) : ItemCodec β where
  toItem x := c.toItem (f x)
  ofItem i := g (c.ofItem i)
  ofItem_toItem x := by rw [c.ofItem_toItem, h]

/-- A pair as a list of two items. -/
def pair (a : ItemCodec α) (b : ItemCodec β) : ItemCodec (α × β) where
  toItem p := .list [a.toItem p.1, b.toItem p.2]
  ofItem
    | .list [x, y] => (a.ofItem x, b.ofItem y)
    | _ => (a.ofItem (.str []), b.ofItem (.str []))
  ofItem_toItem p := by simp [a.ofItem_toItem, b.ofItem_toItem]

/-- A list as a list of items. -/
def list (c : ItemCodec α) : ItemCodec (List α) where
  toItem xs := .list (xs.map c.toItem)
  ofItem
    | .list items => items.map c.ofItem
    | .str _ => []
  ofItem_toItem xs := by simp [Function.comp_def, c.ofItem_toItem]

/-- A vector of values as one list item. -/
def vector (c : ItemCodec α) : VectorCodec RlpItem α := ⟨c.list.toItem, c.list.ofItem⟩

theorem vector_roundTrip (c : ItemCodec α) : c.vector.RoundTrip := c.list.ofItem_toItem

/-- A bit vector as its number. -/
def bitVec (w : ℕ) : ItemCodec (BitVec w) :=
  nat.map BitVec.toNat (BitVec.ofNat w) fun x => by
    apply BitVec.eq_of_toNat_eq
    simp

/-- A 32-bit word as its number. -/
def uint32 : ItemCodec UInt32 := nat.map UInt32.toNat UInt32.ofNat fun _ => UInt32.ofNat_toNat

/-- An element of `Fin n` as its number. -/
def fin (n : ℕ) [NeZero n] : ItemCodec (Fin n) := nat.map Fin.val (Fin.ofNat n) Fin.ofNat_val_eq_self

/-- A string as the list of its characters' code points. -/
def string : ItemCodec String :=
  ((nat.map Char.toNat Char.ofNat Char.ofNat_toNat).list).map String.toList String.ofList
    fun _ => String.ofList_toList

end ItemCodec

end Rlp
