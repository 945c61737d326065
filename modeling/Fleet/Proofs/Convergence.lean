import Fleet.Proofs.Restoring

/-!
# Replicas converge

A replica is set up from the snapshot of a tree, with a table of bounds of its own, and from then on
hears of every event of the tree, each at a clock of its own. It never falls out of step: every
event can be read and applied, and after every command the replica has the snapshot of the tree
(`Tree.ofSnapshot_keepsUp`).

The invariant that carries this is that the replica *is* the tree up to its table of bounds
(`Tree.Told.hearAll`). It is kept because events tell of every step at any clock and with any table.
-/

namespace Fleet

namespace Tree

/-! ### Hearing of events -/

/-- **Events reach a replica** one after another, the one of number `n` at the clock `hearing n`. -/
def hearAll (hearing : Nat → Time) (r : Tree) : List Event → Except TreeError Tree
  | [] => .ok r
  | e :: rest => do
    let r ← r.hear (hearing 0) e
    hearAll (fun n => hearing (n + 1)) r rest

variable {t u : Tree}

theorem hear_of_tells {e : Event} (ht : t.WellFormed) (h : e.Tells t u) (hu : u.Finite)
    (table : BoundsTable) (now : Time) :
    { t with bounds := table }.hear now e = .ok { u with bounds := table } := by
  have hread : Patch.ofValue e.patch.toValue = .ok e.patch := Patch.ofValue_toValue (h.writable hu)
  rw [hear, hread, ok_bind]
  -- the replica has a table and a clock of its own, which is why `takes` is said of all of them
  exact (apply_eq_ok_iff (ht.withBounds table)).mpr (h.takes table now)

/-- **The events of a chain of steps take a replica along**, whatever its table and its clocks. -/
theorem Told.hearAll {events : List Event} (h : Told Finite t events u) (ht : t.WellFormed)
    (table : BoundsTable) (hearing : Nat → Time) :
    Tree.hearAll hearing { t with bounds := table } events = .ok { u with bounds := table } := by
  induction h generalizing hearing with
  | done t => rfl
  | step hstep hfinite _ ih =>
    rw [Tree.hearAll, hear_of_tells ht hstep hfinite, ok_bind]
    exact ih hstep.wellFormed fun n => hearing (n + 1)

/-! ### Turns -/

/-- **A turn**: a command is carried out, and its events are heard of later. -/
structure Turn where
  /-- The clock of the tree. -/
  now : Time
  command : Command
  /-- The clock of the replica, for every event of the command. -/
  hearing : Nat → Time

/-- All commands can be carried out: their doubles are finite, and an identifier that is drawn for a
view is not in use. -/
def Admissible (t : Tree) : List Turn → Prop
  | [] => True
  | turn :: rest =>
    turn.command.Finite ∧ turn.command.Fresh t ∧
      Admissible (turn.command.run turn.now t).tree rest

/-- **A replica keeps up with a tree over some turns**: it has the same snapshot, before the first
turn and again whenever it has heard of all events of a turn. -/
def KeepsUp (r t : Tree) : List Turn → Prop
  | [] => r.snapshot = t.snapshot
  | turn :: rest =>
    r.snapshot = t.snapshot ∧
      ∃ r', hearAll turn.hearing r (turn.command.run turn.now t).events = .ok r' ∧
        KeepsUp r' (turn.command.run turn.now t).tree rest

/-- A replica that is the tree up to its table keeps up with it. -/
theorem keepsUp_withBounds (ht : t.WellFormed) (hfinite : t.Finite) {turns : List Turn}
    (hturns : t.Admissible turns) (table : BoundsTable) :
    KeepsUp { t with bounds := table } t turns := by
  induction turns generalizing t with
  | nil => rfl
  | cons turn rest ih =>
    obtain ⟨hcommand, hfresh, hrest⟩ := hturns
    have htold : (turn.command.run turn.now t).Told Finite t :=
      (Command.told ht hfresh).imp fun u hu => hu ⟨hfinite, hcommand⟩
    exact ⟨rfl, _, htold.hearAll ht table turn.hearing,
      ih (htold.wellFormed ht) (htold.last hfinite) hrest⟩

/-- **A replica that is set up from a snapshot keeps up** with the tree for good. -/
theorem ofSnapshot_keepsUp (ht : t.Reachable) (hfinite : t.Finite) (table : BoundsTable)
    {turns : List Turn} (hturns : t.Admissible turns) :
    ∃ r, ofSnapshot table t.snapshot = .ok r ∧ r.KeepsUp t turns :=
  ⟨_, restore_snapshot ht.wellFormed _, keepsUp_withBounds ht.wellFormed hfinite hturns table⟩

/-- Turns with a sensor whose bounds are looked up in different tables. -/
def hallTurns : List Turn := [
  ⟨10, .addView ⟨7⟩ "climate" ["10.0.0.7.3"], fun _ => 0⟩,
  ⟨11, .addEndpoint "10.0.0.7" 3 ((Endpoint.Params.sensor 1 "inlet").withDeviceName "hall"),
    fun _ => 99⟩,
  ⟨12, .recordValue "10.0.0.7.3" .null, fun n => .ofNat n⟩,
  ⟨13, .renameDevice "10.0.0.7" "lobby", fun _ => 5⟩,
  ⟨14, .setMin "10.0.0.7.3" 4, fun _ => 6⟩,
  ⟨15, .removeEndpoint "10.0.0.7" 4, fun _ => 7⟩,
  ⟨16, .reset, fun _ => 8⟩]

theorem ofSnapshot_keepsUp_hall :
    ∃ r, ofSnapshot .standard (ofBounds (.ofFallback ⟨0, 1⟩)).snapshot = .ok r ∧
      r.KeepsUp (ofBounds (.ofFallback ⟨0, 1⟩)) hallTurns := by
  have hfinite : (ofBounds (.ofFallback ⟨0, 1⟩)).Finite := by
    refine ⟨fun eid => ⟨?_, ?_⟩, fun ip d hd => nomatch hd⟩
    · show (0 : Float).isFinite = true
      decide
    · show (1 : Float).isFinite = true
      decide
  have hfour : (4 : Float).isFinite = true := by decide
  exact ofSnapshot_keepsUp (.ofBounds _) hfinite .standard
    ⟨trivial, rfl, ⟨nofun, nofun⟩, trivial, trivial, trivial, trivial, trivial, hfour, trivial,
      trivial, trivial, trivial, trivial, trivial⟩

end Tree

end Fleet
