/-!
# Tables

A table gives values to keys and keeps its entries in the order in which their
keys came in. What it gives to a key after an insertion or an erasure is all that
is used of it.
-/
namespace Gateway

/-- Keys with their values. -/
structure Table (κ α : Type) where
  entries : List (κ × α) := []

namespace Table

variable {κ α : Type} [DecidableEq κ]

/-- What a key has, if it has anything. -/
def get? (t : Table κ α) (k : κ) : Option α := go t.entries
where
  go : List (κ × α) → Option α
  | [] => none
  | (j, a) :: rest => if j = k then some a else go rest

/-- Gives `a` to `k`, in the place of what `k` had. -/
def insert (t : Table κ α) (k : κ) (a : α) : Table κ α := ⟨go t.entries⟩
where
  go : List (κ × α) → List (κ × α)
  | [] => [(k, a)]
  | (j, b) :: rest => if j = k then (k, a) :: rest else (j, b) :: go rest

/-- Takes from `k` what it has. -/
def erase (t : Table κ α) (k : κ) : Table κ α := ⟨t.entries.filter fun e => e.1 ≠ k⟩

/-- Changes what `k` has, if it has anything. -/
def modify (t : Table κ α) (k : κ) (f : α → α) : Table κ α :=
  ⟨t.entries.map fun (j, a) => if j = k then (j, f a) else (j, a)⟩

/-- What the keys have, in the order of the keys. -/
def values (t : Table κ α) : List α := t.entries.map (·.2)

/-- The sum of a number over all values. -/
def sum (f : α → Nat) (t : Table κ α) : Nat :=
  -- the numeral is its zero, whatever else is imported
  @List.sum Nat _ Zero.ofOfNat0 (t.values.map f)

theorem get?_insert (t : Table κ α) (j k : κ) (a : α) :
    (t.insert k a).get? j = if k = j then some a else t.get? j := by
  obtain ⟨l⟩ := t
  simp only [get?, insert]
  induction l with
  | nil => simp [insert.go, get?.go]
  | cons e l ih => grind [insert.go, get?.go]

theorem get?_erase (t : Table κ α) (j k : κ) :
    (t.erase k).get? j = if k = j then none else t.get? j := by
  obtain ⟨l⟩ := t
  simp only [get?, erase]
  induction l with
  | nil => simp [get?.go]
  | cons e l ih => grind [get?.go]

theorem get?_modify (t : Table κ α) (j k : κ) (f : α → α) :
    (t.modify k f).get? j = if k = j then (t.get? j).map f else t.get? j := by
  obtain ⟨l⟩ := t
  simp only [get?, modify]
  induction l with
  | nil => simp [get?.go]
  | cons e l ih => grind [get?.go]

end Table

end Gateway
