/-!
# Condition variables

A condition variable holds the tickets of those who wait, in the order in which
they came, with whatever is known of their owners. It has no state of its own to
wait for: a release lets go exactly those who wait at that moment.
-/
namespace Gateway.Signal

/-- Who waits at a condition variable, the first to come in front. -/
structure Condvar (α : Type) where
  waiting : List (Nat × α) := []
  nextTicket : Nat := 0

namespace Condvar

variable {α : Type}

/-- Lets someone wait, under a ticket of their own. -/
def register (v : Condvar α) (a : α) : Condvar α × Nat :=
  (⟨v.waiting ++ [(v.nextTicket, a)], v.nextTicket + 1⟩, v.nextTicket)

/-- Whether the wait under a ticket has not been let go. -/
def waits (v : Condvar α) (ticket : Nat) : Bool := v.waiting.any fun e => e.1 = ticket

/-- The owner of a ticket that still waits. -/
def owner? (v : Condvar α) (ticket : Nat) : Option α :=
  (v.waiting.find? fun e => e.1 = ticket).map (·.2)

/-- Ends the wait under a ticket. -/
def withdraw (v : Condvar α) (ticket : Nat) : Condvar α :=
  { v with waiting := v.waiting.filter fun e => e.1 ≠ ticket }

/-- Everyone who waits, in order, and the variable without them. -/
def release (v : Condvar α) : List α × Condvar α :=
  (v.waiting.map (·.2), { v with waiting := [] })

/-- How many wait. -/
def count (v : Condvar α) : Nat := v.waiting.length

end Condvar

end Gateway.Signal
