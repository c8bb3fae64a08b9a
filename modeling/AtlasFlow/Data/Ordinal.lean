import Mathlib

/-!
# Ordinal order

Texts compared as the platform stores them, by their UTF-16 units, and lists sorted by a text of their items.
-/

namespace Ordinal

/-- The UTF-16 units of a character. -/
def unitsOf (c : Char) : List Nat :=
  if c.toNat < 0x10000 then [c.toNat]
  else [0xD800 + (c.toNat - 0x10000) / 0x400, 0xDC00 + (c.toNat - 0x10000) % 0x400]

def units (text : List Char) : List Nat := text.flatMap unitsOf

/-- `StringComparer.Ordinal`. -/
def le (a b : List Char) : Bool := decide (units a ≤ units b)

variable {α : Type}

/-- `OrderBy(key, StringComparer.Ordinal)`, which is stable. -/
def sortBy (key : α → List Char) (items : List α) : List α := items.mergeSort fun a b => le (key a) (key b)

theorem sortBy_perm (key : α → List Char) (items : List α) : (sortBy key items).Perm items :=
  List.mergeSort_perm _ _

@[simp] theorem mem_sortBy {key : α → List Char} {items : List α} {item : α} :
    item ∈ sortBy key items ↔ item ∈ items := (sortBy_perm key items).mem_iff

end Ordinal
