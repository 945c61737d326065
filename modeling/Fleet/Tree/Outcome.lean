import Fleet.Tree.Apply

/-!
# Events and outcomes

An operation on a tree by its owner is *loud*: it changes the tree and publishes a patch that lets
every replica follow (`Event`). An `Outcome` is all that such an operation leaves behind: the tree,
the events in the order in which they were published, and the result or the error. The tree and the
events are also there when the operation ends in an error, so "a refused operation changes nothing"
is a statement about operations, not about this type.

An event without entries is not published. A replica that hears of an event applies the patch in
the manner in which it is meant (`Tree.hear`).
-/

namespace Fleet

/-- **A published patch** and the manner in which it is meant. -/
structure Event where
  manner : Tree.Manner
  patch : Patch
deriving DecidableEq

namespace Event

/-- The publication of an update. -/
def update (patch : Patch) : Event := ⟨.update, patch⟩

/-- The publication of a deletion. -/
def delete (patch : Patch) : Event := ⟨.delete, patch⟩

/-- What is published of an event: itself, unless its patch is empty. -/
def published (e : Event) : List Event := if e.patch.isEmpty then [] else [e]

end Event

/-- **An event reaches a replica**, to which its patch travels as a plain value. -/
def Tree.hear (t : Tree) (now : Time) (e : Event) : Except TreeError Tree := do
  let p ← Patch.ofValue e.patch.toValue
  t.apply now e.manner p

/-- **What a loud operation leaves behind.** -/
structure Outcome (α : Type) where
  tree : Tree
  events : List Event
  result : Except TreeError α

namespace Outcome

variable {α β : Type}

/-- The operation was refused before it did anything. -/
def refused (t : Tree) (e : TreeError) : Outcome α := ⟨t, [], .error e⟩

/-- The operation changed nothing and published nothing. -/
def quiet (t : Tree) (a : α) : Outcome α := ⟨t, [], .ok a⟩

/-- The operation changed the tree and published one event. -/
def loud (t : Tree) (event : Event) (a : α) : Outcome α := ⟨t, event.published, .ok a⟩

/-- The outcome with another result. -/
def map (f : α → β) (o : Outcome α) : Outcome β := ⟨o.tree, o.events, o.result.map f⟩

/-- **One operation after another.** The second starts from the tree that the first left behind,
unless the first ended in an error. -/
def andThen (o : Outcome α) (next : α → Tree → Outcome β) : Outcome β :=
  match o.result with
  | .ok a =>
    let o' := next a o.tree
    ⟨o'.tree, o.events ++ o'.events, o'.result⟩
  | .error e => ⟨o.tree, o.events, .error e⟩

end Outcome

end Fleet
