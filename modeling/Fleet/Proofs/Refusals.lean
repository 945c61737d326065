import Fleet.Proofs.Merging

/-!
# Refused operations leave no trace

An operation that ends in an error leaves the tree as it was and publishes nothing
(`Outcome.Atomic`). Most operations see to that by looking before they act, and then do one thing
(`Outcome.Single`). The one that takes several steps with something to fail in each is merging a
found device. What is checked before its first step is enough for all that follow
(`Tree.merge_cases`), so it too is all or nothing (`Tree.atomic_merge`).

Since the procedures that change a tree in place leave behind what the definitions say, this holds
of them too: an error leaves nothing half done (`Tree.Operation.all_or_nothing`).
-/

namespace Fleet

open Patch (DeviceChange)

variable {α β : Type}

/-! ### Refusals -/

namespace Outcome

variable {t : Tree}

/-- **Whatever ends in an error has done nothing**: the tree is as it was, and silent. -/
def Atomic (t : Tree) (o : Outcome α) : Prop :=
  ∀ e, o.result = .error e → o.tree = t ∧ o.events = []

theorem atomic_refused (e : TreeError) : (refused t e : Outcome α).Atomic t :=
  fun _ _ => ⟨rfl, rfl⟩

theorem atomic_of_ok {o : Outcome α} {a : α} (h : o.result = .ok a) : o.Atomic t := by
  intro e he
  rw [h] at he
  cases he

theorem Atomic.map {o : Outcome α} (h : o.Atomic t) (f : α → β) : (o.map f).Atomic t := by
  intro e he
  cases hr : o.result with
  | error e' => exact h e' hr
  | ok a =>
    rw [Outcome.map, hr] at he
    cases he

/-- **One thing was done at most**: the operation was refused, or it changed nothing, or it left
another tree behind and published that. -/
inductive Single (t : Tree) : Outcome α → Prop where
  | refused (e : TreeError) : Single t (.refused t e)
  | quiet (a : α) : Single t (.quiet t a)
  | loud (u : Tree) (e : Event) (a : α) : Single t (.loud u e a)

theorem Single.map {o : Outcome α} (h : o.Single t) (f : α → β) : (o.map f).Single t := by
  cases h with
  | refused e => exact .refused e
  | quiet a => exact .quiet (f a)
  | loud u e a => exact .loud u e (f a)

theorem Single.atomic {o : Outcome α} (h : o.Single t) : o.Atomic t := by
  cases h with
  | refused e => exact atomic_refused e
  | quiet a => exact atomic_of_ok rfl
  | loud u e a => exact atomic_of_ok rfl

/-- Hence one event was published at most. -/
theorem Single.length_events_le {o : Outcome α} (h : o.Single t) : o.events.length ≤ 1 := by
  cases h with
  | refused e => exact Nat.zero_le 1
  | quiet a => exact Nat.zero_le 1
  | loud u e a =>
    unfold Outcome.loud Event.published
    split
    · exact Nat.zero_le 1
    · exact Nat.le_refl 1

end Outcome

namespace Tree

variable {t : Tree} {now : Time} {ip : String} {eid : Eid}

/-! ### Operations that do one thing -/

theorem single_reached {o : Option (Outcome α)} (h : ∀ o', o = some o' → o'.Single t) :
    (t.reached o).Single t := by
  cases o with
  | none => exact .quiet ()
  | some o => exact (h o rfl).map _

theorem single_changeDevice (r : Except TreeError (Device × DeviceChange)) :
    (t.changeDevice ip r).Single t := by
  cases r with
  | error e => exact .refused e
  | ok p => exact .loud _ _ _

/-- A device that is reached is changed or not. -/
theorem single_reached_changeDevice (get : Option Device)
    (f : Device → Except TreeError (Device × DeviceChange)) :
    (t.reached (get.map fun d => t.changeDevice ip (f d))).Single t := by
  refine single_reached fun o ho => ?_
  obtain ⟨d, -, rfl⟩ := Option.map_eq_some_iff.mp ho
  exact single_changeDevice _

theorem single_addDevice (name : String) : (t.addDevice now ip name).Single t := by
  unfold addDevice
  split
  · exact .refused _
  · split
    · exact .refused _
    · exact .loud _ _ _

theorem single_removeDevice : (t.removeDevice ip).Single t := by
  unfold removeDevice
  split
  · exact .refused _
  · exact .loud _ _ _

theorem single_reduceDevice {o : Outcome (Patch × Endpoint)} (ho : t.reduceDevice ip eid = some o) :
    o.Single t := by
  obtain ⟨d, -, rfl⟩ := Option.map_eq_some_iff.mp ho
  split
  · exact .refused _
  · exact .loud _ _ _

theorem single_removeEndpoint : (t.removeEndpoint ip eid).Single t := by
  unfold removeEndpoint
  split
  · exact .refused _
  · next ho => exact (single_reduceDevice ho).map _

theorem endpoint?_of_createEndpoint {d d' : Device} {c : DeviceChange} {table : BoundsTable}
    {params : Endpoint.Params} (h : d.createEndpoint table now eid params = .ok (d', c)) :
    ∃ e, d'.endpoint? eid = some e := by
  unfold Device.createEndpoint at h
  split at h
  · cases h
  · obtain ⟨e, -, h⟩ := bind_eq_ok_iff.mp h
    cases h
    exact ⟨e, by rw [Device.endpoint?_put, if_pos rfl]⟩

/-- The endpoint that was added is found, so the last lookup does not fail. -/
theorem single_addEndpoint (params : Endpoint.Params) :
    (t.addEndpoint now ip eid params).Single t := by
  unfold addEndpoint
  extract_lets created
  have hthere : ∀ d c, created = .ok (d, c) → ∃ e, d.endpoint? eid = some e := by
    intro d c h
    cases hd : t.device? ip with
    | some d₀ =>
      simp only [created, hd] at h
      exact endpoint?_of_createEndpoint h
    | none =>
      simp only [created, hd] at h
      split at h
      · cases h
      · obtain ⟨d₀, -, h⟩ := bind_eq_ok_iff.mp h
        obtain ⟨⟨d₁, c₁⟩, hd₁, h⟩ := bind_eq_ok_iff.mp h
        cases h
        exact endpoint?_of_createEndpoint hd₁
  clear_value created
  cases created with
  | error e => exact .refused e
  | ok p =>
    obtain ⟨d, c⟩ := p
    obtain ⟨e, he⟩ := hthere d c rfl
    simp only [he]
    exact .loud _ _ _

theorem single_setValue {name : String} {v : Value} {o : Outcome Patch}
    (ho : t.setValue now name v = some o) : o.Single t := by
  obtain ⟨⟨ip, eid⟩, -, ho⟩ := Option.bind_eq_some_iff.mp ho
  obtain ⟨d, -, rfl⟩ := Option.map_eq_some_iff.mp ho
  exact single_changeDevice _

theorem single_setMin {name : String} {x : Float} {o : Outcome Patch}
    (ho : t.setMin name x = some o) : o.Single t := by
  obtain ⟨⟨ip, eid⟩, -, ho⟩ := Option.bind_eq_some_iff.mp ho
  obtain ⟨d, -, ho⟩ := Option.bind_eq_some_iff.mp ho
  cases ho
  exact single_changeDevice _

theorem single_setMax {name : String} {x : Float} {o : Outcome Patch}
    (ho : t.setMax name x = some o) : o.Single t := by
  obtain ⟨⟨ip, eid⟩, -, ho⟩ := Option.bind_eq_some_iff.mp ho
  obtain ⟨d, -, ho⟩ := Option.bind_eq_some_iff.mp ho
  cases ho
  exact single_changeDevice _

theorem single_recordValue (name : String) (v : Value) :
    (t.recordValue now name v).Single t := by
  unfold recordValue
  cases ho : t.setValue now name v with
  | none => exact .refused _
  | some o => exact single_setValue ho

theorem single_addView (id : Uuid) (name : String) (references : List String) :
    (t.addView id name references).Single t := by
  unfold addView
  split <;> exact .loud _ _ _

theorem single_addViewAs (id : Uuid) (name : String) (references : List String) :
    (t.addViewAs id name references).Single t := by
  unfold addViewAs
  split
  · exact .refused _
  · exact .loud _ _ _

theorem single_removeView (id : Uuid) : (t.removeView id).Single t := by
  unfold removeView
  split
  · exact .refused _
  · exact .loud _ _ _

theorem single_reached_changeView (get : Option View) (id : Uuid) (f : View → View) :
    (t.reached (get.map fun v => t.changeView id (f v))).Single t := by
  refine single_reached fun o ho => ?_
  obtain ⟨v, -, rfl⟩ := Option.map_eq_some_iff.mp ho
  exact .loud _ _ _

/-- **A command does one thing at most**, unless it is a merge. -/
theorem Command.single {c : Command} (hc : ∀ found times, c ≠ .merge found times) (now : Time) :
    (c.run now t).Single t := by
  cases c with
  | addDevice ip name => exact (single_addDevice name).map _
  | removeDevice ip => exact single_removeDevice.map _
  | touchDevice ip => exact single_reached_changeDevice (t.device? ip) _
  | renameDevice ip name => exact single_reached_changeDevice (t.device? ip) _
  | extendDevice ip eid params => exact single_reached_changeDevice (t.device? ip) _
  | reduceDevice ip eid => exact single_reached fun _ ho => single_reduceDevice ho
  | addEndpoint ip eid params => exact (single_addEndpoint params).map _
  | removeEndpoint ip eid => exact single_removeEndpoint.map _
  | setValueAt ip eid v => exact single_reached_changeDevice (t.deviceWith? ip eid) _
  | setValue name v => exact single_reached fun _ ho => single_setValue ho
  | setMin name x => exact single_reached fun _ ho => single_setMin ho
  | setMax name x => exact single_reached fun _ ho => single_setMax ho
  | recordValue name v => exact (single_recordValue name v).map _
  | addView id name references => exact (single_addView id name references).map _
  | addViewAs id name references => exact (single_addViewAs id name references).map _
  | removeView id => exact (single_removeView id).map _
  | renameView id name => exact single_reached_changeView (t.view? id) id _
  | setReferences id references => exact single_reached_changeView (t.view? id) id _
  | reset => exact .loud _ _ _
  | merge found times => exact absurd rfl (hc found times)

/-! ### Every operation -/

/-- **A merge is all or nothing**, although it is done by several operations. -/
theorem atomic_merge (ht : t.WellFormed) (times : MergeTimes) (found : Discovery.Device) :
    (t.merge times found).Atomic t := by
  obtain ⟨e, hrefused⟩ | ⟨r, hr, -⟩ := merge_cases ht times found
  · rw [hrefused]
    exact Outcome.atomic_refused e
  · exact Outcome.atomic_of_ok hr

/-- **A command is all or nothing.** -/
theorem Command.atomic (ht : t.WellFormed) (now : Time) (c : Command) :
    (c.run now t).Atomic t := by
  by_cases hmerge : ∃ found times, c = .merge found times
  · obtain ⟨found, times, rfl⟩ := hmerge
    exact (atomic_merge ht times found).map _
  · exact (single (fun found times h => hmerge ⟨found, times, h⟩) now).atomic

/-- **An operation on a tree**: a command of its owner, a patch of another replica, or a snapshot
that replaces its content. -/
inductive Operation where
  | command (c : Command)
  | apply (manner : Manner) (p : Patch)
  | restore (s : Snapshot)

/-- The outcome of getting another tree, quietly, or an error. -/
def replaced (t : Tree) : Except TreeError Tree → Outcome Unit
  | .ok u => .quiet u ()
  | .error e => .refused t e

/-- **What an operation leaves behind.** -/
def Operation.run (now : Time) (t : Tree) : Operation → Outcome Unit
  | command c => c.run now t
  | apply manner p => t.replaced (t.apply now manner p)
  | restore s => t.replaced (t.restore s)

/-- The procedure of a command. -/
def Command.inPlace (now : Time) : Command → Procedure Tree Unit
  | addDevice ip name => (InPlace.addDevice now ip name).silent
  | removeDevice ip => (InPlace.removeDevice ip).silent
  | touchDevice ip => (InPlace.touchDevice now ip).silent
  | renameDevice ip name => (InPlace.renameDevice now ip name).silent
  | extendDevice ip eid params => (InPlace.extendDevice now ip eid params).silent
  | reduceDevice ip eid => (InPlace.reduceDevice ip eid).silent
  | addEndpoint ip eid params => (InPlace.addEndpoint now ip eid params).silent
  | removeEndpoint ip eid => (InPlace.removeEndpoint ip eid).silent
  | setValueAt ip eid v => (InPlace.setValueAt now ip eid v).silent
  | setValue name v => (InPlace.setValue now name v).silent
  | setMin name x => (InPlace.setBound name "minvalue" fun b => { b with min := x }).silent
  | setMax name x => (InPlace.setBound name "maxvalue" fun b => { b with max := x }).silent
  | recordValue name v => (InPlace.recordValue now name v).silent
  | addView id name references => (InPlace.addView id name references).silent
  | addViewAs id name references => (InPlace.addViewAs id name references).silent
  | removeView id => (InPlace.removeView id).silent
  | renameView id name => (InPlace.changeView id fun v => { v with name }).silent
  | setReferences id references => (InPlace.changeView id fun v => { v with references }).silent
  | reset => InPlace.reset.silent
  | merge found times => (InPlace.merge times found).silent

/-- **The procedure of an operation**, step by step on the tree that is held. -/
def Operation.inPlace (now : Time) : Operation → Procedure Tree Unit
  | command c => c.inPlace now
  | apply manner p => InPlace.apply now manner p
  | restore s => InPlace.restore s

theorem Operation.atomic (ht : t.WellFormed) (now : Time) (op : Operation) :
    (op.run now t).Atomic t := by
  have hreplaced : ∀ r, (t.replaced r).Atomic t := by
    intro r
    cases r with
    | ok u => exact Outcome.atomic_of_ok rfl
    | error e => exact Outcome.atomic_refused e
  cases op with
  | command c => exact c.atomic ht now
  | apply manner p => exact hreplaced _
  | restore s => exact hreplaced _

/-- A command that is carried out in place leaves behind what its definition says. -/
theorem Command.run_inPlace (ht : t.WellFormed) (now : Time) (c : Command) :
    (c.inPlace now).run t = (c.run now t).trace := by
  have hplain : ∀ {α : Type} {p : Procedure Tree α} {o : Outcome α}, p.run t = o.trace →
      p.silent.run t = o.silent.trace := fun h => congrArg Trace.silent h
  have hreached : ∀ {α : Type} {p : Procedure Tree (Option α)} {o : Option (Outcome α)},
      p.run t = t.reachedTrace o → p.silent.run t = (t.reached o).trace :=
    fun h => (congrArg Trace.silent h).trans (silent_reachedTrace _)
  cases c with
  | addDevice ip name => exact hplain (run_addDevice name)
  | removeDevice ip => exact hplain run_removeDevice
  | touchDevice ip => exact hreached (run_touchDevice ht)
  | renameDevice ip name => exact hreached (run_renameDevice ht name)
  | extendDevice ip eid params => exact hreached (run_extendDevice ht params)
  | reduceDevice ip eid => exact hreached (run_reduceDevice ht)
  | addEndpoint ip eid params => exact hplain (run_addEndpoint ht params)
  | removeEndpoint ip eid => exact hplain run_removeEndpoint
  | setValueAt ip eid v => exact hreached (run_setValueAt ht v)
  | setValue name v => exact hreached (run_setValue ht name v)
  | setMin name x => exact hreached (run_setBound ht name "minvalue" _)
  | setMax name x => exact hreached (run_setBound ht name "maxvalue" _)
  | recordValue name v => exact hplain (run_recordValue ht name v)
  | addView id name references => exact hplain (run_addView id name references)
  | addViewAs id name references => exact hplain (run_addViewAs id name references)
  | removeView id => exact hplain (run_removeView id)
  | renameView id name => exact hreached (run_changeView ht id _ fun _ => rfl)
  | setReferences id references => exact hreached (run_changeView ht id _ fun _ => rfl)
  | reset => exact hplain run_reset
  | merge found times => exact hplain (run_merge ht times found)

theorem Operation.run_inPlace (ht : t.WellFormed) (now : Time) (op : Operation) :
    (op.inPlace now).run t = (op.run now t).trace := by
  have hreplaced : ∀ r : Except TreeError Tree,
      Trace.settled t (r.map fun u => (u, ())) = (t.replaced r).trace := by
    intro r
    cases r <;> rfl
  cases op with
  | command c => exact c.run_inPlace ht now
  | apply manner p => exact (run_apply manner p).trans (hreplaced _)
  | restore s => exact (run_restore s).trans (hreplaced _)

/-- **Every operation is carried out in whole or not at all.** Done step by step on the tree that is
held, it leaves behind what its definition says; and if it ends in an error, the tree is as it was
and nothing has been published. -/
theorem Operation.all_or_nothing (h : t.Reachable) (now : Time) (op : Operation) :
    (op.inPlace now).run t = (op.run now t).trace ∧
    ∀ e, ((op.inPlace now).run t).result = .error e →
      ((op.inPlace now).run t).state = t ∧ ((op.inPlace now).run t).events = [] := by
  have hrun := op.run_inPlace h.wellFormed now
  refine ⟨hrun, fun e he => ?_⟩
  rw [hrun] at he ⊢
  exact op.atomic h.wellFormed now e he

/-- The hall is found under another name, and with an endpoint that cannot be created. -/
theorem Operation.all_or_nothing_merge :
    let hall := ((Command.addDevice "hall" "Hall").run 0 (.ofBounds (.ofFallback ⟨0, 1⟩))).tree
    let found : Discovery.Device := ⟨"hall", "Lobby", [⟨1, .ofFunction .actor 1 "lamp"⟩, ⟨2, {}⟩]⟩
    let op : Operation := .command (.merge found (.always 1))
    ((op.inPlace 1).run hall).result = .error .missingType ∧
      ((op.inPlace 1).run hall).state = hall ∧ ((op.inPlace 1).run hall).events = [] := by
  intro hall found op
  have hreach : hall.Reachable := .command (.ofBounds _) 0 _
  have herror : ((op.inPlace 1).run hall).result = .error .missingType := rfl
  exact ⟨herror, (all_or_nothing hreach 1 _).2 _ herror⟩

end Tree

end Fleet
