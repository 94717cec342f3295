/-!
# Registries

A registry holds what has been connected to a token until it is taken out: one by
one with the key that its insertion gave, or all at once in the order of insertion.

Two registries are given. `Slots` reuses the places of what was removed; a key
names a place and the number of times it had been vacated, so that an old key never
reaches a later occupant, and what is taken out at once is put in order by sequence
numbers. `Arrivals` is the plain list of what is connected, in order.
-/
namespace Gateway.Signal

/-- What an insertion gives, to take out again what was inserted. -/
structure Key where
  place : Nat
  turn : Nat
  deriving DecidableEq, Repr

/-- What a token needs of the place where it keeps its callbacks. -/
class Registry (R : Type → Type) where
  empty : {α : Type} → R α
  insert : {α : Type} → R α → α → R α × Key
  remove : {α : Type} → R α → Key → R α
  /-- What is registered, in the order of insertion. -/
  toList : {α : Type} → R α → List α
  /-- The registry after everything has been taken out. -/
  clear : {α : Type} → R α → R α

/-! ## Slots -/

/-- What is in a slot, with the number of its insertion among all. -/
structure Occupant (α : Type) where
  sequence : Nat
  value : α

/-- A place that can be used again and again. -/
structure Slot (α : Type) where
  /-- How often the slot has been vacated. -/
  turn : Nat
  occupant : Option (Occupant α)

/-- A registry that reuses the places of what was taken out. -/
structure Slots (α : Type) where
  slots : List (Slot α) := []
  /-- The places of vacant slots, the last vacated first. -/
  vacant : List Nat := []
  nextSequence : Nat := 0

namespace Slots

variable {α : Type}

/-- Takes the slot last vacated, or a new one. -/
def insert (s : Slots α) (a : α) : Slots α × Key :=
  let occupant := some ⟨s.nextSequence, a⟩
  match s.vacant with
  | [] =>
    (⟨s.slots ++ [⟨0, occupant⟩], [], s.nextSequence + 1⟩, ⟨s.slots.length, 0⟩)
  | place :: vacant =>
    let turn := ((s.slots[place]?).map (·.turn)).getD 0
    (⟨s.slots.set place ⟨turn, occupant⟩, vacant, s.nextSequence + 1⟩, ⟨place, turn⟩)

/-- Vacates a slot, so that the key of its occupant is used up. -/
def vacate (s : Slots α) (place : Nat) : Slots α :=
  match s.slots[place]? with
  | some ⟨turn, some _⟩ => ⟨s.slots.set place ⟨turn + 1, none⟩, place :: s.vacant, s.nextSequence⟩
  | _ => s

/-- Takes out what the key stands for, if that is still there. -/
def remove (s : Slots α) (k : Key) : Slots α :=
  match s.slots[k.place]? with
  | some slot => if slot.turn = k.turn then s.vacate k.place else s
  | none => s

/-- Puts an occupant into a list in ascending order of sequence numbers. -/
def place (x : Occupant α) : List (Occupant α) → List (Occupant α)
  | [] => [x]
  | y :: ys => if x.sequence ≤ y.sequence then x :: y :: ys else y :: place x ys

/-- What is in the slots, in the order of insertion. -/
def toList (s : Slots α) : List α :=
  ((s.slots.filterMap (·.occupant)).foldr place []).map (·.value)

/-- Vacates every slot, from the first to the last. -/
def clear (s : Slots α) : Slots α := (List.range s.slots.length).foldl vacate s

end Slots

instance : Registry Slots where
  empty := {}
  insert := Slots.insert
  remove := Slots.remove
  toList := Slots.toList
  clear := Slots.clear

/-! ## Arrivals -/

/-- A registry that lists what is in it, each entry with the number of its insertion. -/
structure Arrivals (α : Type) where
  list : List (Nat × α) := []
  /-- How many have ever arrived. -/
  count : Nat := 0

instance : Registry Arrivals where
  empty := {}
  insert s a := (⟨s.list ++ [(s.count, a)], s.count + 1⟩, ⟨s.count, 0⟩)
  remove s k := ⟨s.list.filter fun e => e.1 ≠ k.place, s.count⟩
  toList s := s.list.map (·.2)
  clear s := ⟨[], s.count⟩

end Gateway.Signal
