import Fleet.Tree.Outcome

/-!
# Subscribers

Those who want to hear of the events of a tree subscribe and get a number, which is not given out
again. Events are delivered one after another, each to all subscribers in the order in which they
subscribed.
-/

namespace Fleet

/-- **The subscribers of a tree.** -/
structure Subscribers where
  /-- The number for the next one. -/
  next : Nat := 0
  /-- Those who are subscribed, in their order. -/
  active : List Nat := []
deriving DecidableEq, Repr

namespace Subscribers

/-- One more subscriber, and its number. -/
def add (s : Subscribers) : Subscribers × Nat := (⟨s.next + 1, s.active ++ [s.next]⟩, s.next)

/-- One subscriber less, and whether there was one of the number. -/
def remove (s : Subscribers) (n : Nat) : Subscribers × Bool :=
  ({ s with active := s.active.filter (· ≠ n) }, s.active.contains n)

/-- **Who hears what**, in order. -/
def deliver (s : Subscribers) (events : List Event) : List (Nat × Event) :=
  events.flatMap fun e => s.active.map fun n => (n, e)

end Subscribers

end Fleet
