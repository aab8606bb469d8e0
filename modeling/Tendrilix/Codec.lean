import Tendrilix.Bounded
import Tendrilix.Bytes

/-!
# Codecs

A codec writes a value in front of other bytes and reads it off them again. What is read need not be
what was written: `Yields c a b` says that `a` comes back as `b`.
-/

namespace Tendrilix

structure Codec (α : Type) where
  write : α → Bytes
  read : Bytes → Option (α × Bytes)

namespace Codec

variable {α β : Type}

def Yields (c : Codec α) (a b : α) : Prop := ∀ rest, c.read (c.write a ++ rest) = some (b, rest)

def pair (c : Codec α) (d : Codec β) : Codec (α × β) where
  write p := c.write p.1 ++ d.write p.2
  read bytes := do
    let (a, bytes) ← c.read bytes
    let (b, bytes) ← d.read bytes
    return ((a, b), bytes)

def convert (c : Codec α) (into : β → α) (back : α → Option β) : Codec β where
  write b := c.write (into b)
  read bytes := do
    let (a, bytes) ← c.read bytes
    let b ← back a
    return (b, bytes)

def option (tag : Codec Bool) (c : Codec α) : Codec (Option α) where
  write
    | none => tag.write false
    | some a => tag.write true ++ c.write a
  read bytes := do
    let (present, bytes) ← tag.read bytes
    if present then
      let (a, bytes) ← c.read bytes
      return (some a, bytes)
    else return (none, bytes)

def either (variant : Codec ℕ) (c : Codec α) (d : Codec β) : Codec (α ⊕ β) where
  write
    | .inl a => variant.write 0 ++ c.write a
    | .inr b => variant.write 1 ++ d.write b
  read bytes := do
    let (v, bytes) ← variant.read bytes
    match v with
    | 0 =>
      let (a, bytes) ← c.read bytes
      return (.inl a, bytes)
    | 1 =>
      let (b, bytes) ← d.read bytes
      return (.inr b, bytes)
    | _ => none

def writeMany (c : Codec α) (items : List α) : Bytes := (items.map c.write).flatten

def readMany (c : Codec α) : ℕ → Bytes → Option (List α × Bytes)
  | 0, bytes => some ([], bytes)
  | n + 1, bytes => do
    let (a, bytes) ← c.read bytes
    let (items, bytes) ← c.readMany n bytes
    return (a :: items, bytes)

def tuple (n : ℕ) (c : Codec α) : Codec (List α) where
  write := c.writeMany
  read := c.readMany n

/-- A list with its length in front, read into a vector with room for `capacity` items. -/
def list (capacity : Option ℕ) (length : Codec ℕ) (c : Codec α) : Codec (List α) where
  write items := length.write items.length ++ c.writeMany items
  read bytes := do
    let (n, bytes) ← length.read bytes
    let (items, bytes) ← c.readMany n bytes
    let items ← Bounded.collect capacity items
    return (items, bytes)

section Yields

variable {c : Codec α} {d : Codec β} {tag : Codec Bool} {number : Codec ℕ}

theorem Yields.pair {a a' : α} {b b' : β} (ha : c.Yields a a') (hb : d.Yields b b') :
    (c.pair d).Yields (a, b) (a', b') := by
  intro rest
  simp [Codec.pair, ha _, hb rest]

theorem Yields.convert {into : β → α} {back : α → Option β} {a : α} {b b' : β}
    (h : c.Yields (into b) a) (hback : back a = some b') : (c.convert into back).Yields b b' := by
  intro rest
  simp [Codec.convert, h rest, hback]

theorem Yields.option {f : α → α} (htag : ∀ present, tag.Yields present present)
    (o : Option α) (h : ∀ a ∈ o, c.Yields a (f a)) : (Codec.option tag c).Yields o (o.map f) := by
  intro rest
  cases o with
  | none => simp [Codec.option, htag false rest]
  | some a => simp [Codec.option, htag true _, h a rfl rest]

theorem Yields.inl {a a' : α} (hvariant : number.Yields 0 0) (h : c.Yields a a') :
    (Codec.either number c d).Yields (.inl a) (.inl a') := by
  intro rest
  simp [Codec.either, hvariant _, h rest]

theorem Yields.inr {b b' : β} (hvariant : number.Yields 1 1) (h : d.Yields b b') :
    (Codec.either number c d).Yields (.inr b) (.inr b') := by
  intro rest
  simp [Codec.either, hvariant _, h rest]

theorem readMany_writeMany {f : α → α} {items : List α} (h : ∀ a ∈ items, c.Yields a (f a))
    (rest : Bytes) : c.readMany items.length (c.writeMany items ++ rest) = some (items.map f, rest) := by
  induction items with
  | nil => rfl
  | cons a items ih =>
    have htail := ih fun a ha => h a (by simp [ha])
    have hhead := h a (by simp) (c.writeMany items ++ rest)
    rw [writeMany] at htail hhead ⊢
    rw [List.length_cons, readMany, List.map_cons, List.flatten_cons, List.append_assoc, hhead]
    simp [htail]

theorem Yields.tuple {f : α → α} {items : List α} {n : ℕ} (hn : items.length = n)
    (h : ∀ a ∈ items, c.Yields a (f a)) : (Codec.tuple n c).Yields items (items.map f) := by
  intro rest
  subst hn
  exact readMany_writeMany h rest

theorem Yields.list {capacity : Option ℕ} {f : α → α} {items : List α}
    (hlength : ∀ n, number.Yields n n) (hfits : ∀ room ∈ capacity, items.length ≤ room)
    (h : ∀ a ∈ items, c.Yields a (f a)) :
    (Codec.list capacity number c).Yields items (items.map f) := by
  intro rest
  have hcollect : Bounded.collect capacity (items.map f) = some (items.map f) := by
    rw [Bounded.collect, if_neg]
    cases capacity with
    | none => simp
    | some room => simpa using hfits room rfl
  have hnumber := hlength items.length (c.writeMany items ++ rest)
  simp [Codec.list, hnumber, readMany_writeMany h rest, hcollect]

end Yields

end Codec

end Tendrilix
