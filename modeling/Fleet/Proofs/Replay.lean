import Fleet.Proofs.Restoring

/-!
# Replaying a log

A replica may get a snapshot that is newer than some of the patches which are still on their way to
it. Applying such a log again, to the very tree that it once led to, rolls fields back, deletes and
creates again, and may be refused on the way; but if it is not refused, it leads to that tree once
more (`Tree.Leads.again`).

The reason is found at every single place of the tree (`Place.runAll_again`). If the log empties the
place at all, then what stands there afterwards depends only on what the log does after that. If it
does not, the log changes some fields and says what they are in the end; and changing them once more
to what they are is no change. What has to be known of a kind of place is collected in
`Place.LastWins`: later changes win field by field.

Clocks do not matter. They are used for a created endpoint only, and a change that creates one says
when that was (`Patch.Takes.withClock`).
-/

namespace Fleet

open Patch (Entry DeviceChange EndpointChange ViewChange)

/-! ### Later changes win -/

namespace Place

variable {α γ : Type}

/-- **Later changes win, field by field.** -/
structure LastWins (place : Place α γ) : Prop where
  /-- Two changes amount to one. -/
  merge : ∀ c c', ∃ m, ∀ a, place.update (place.update a c) c' = place.update a m
  /-- A change that is made again changes nothing. -/
  again : ∀ a c, place.update (place.update a c) c = place.update a c
  /-- What was created from a change is what the change says. -/
  created : ∀ a c, place.create c = some a → place.update a c = a

variable {place : Place α γ}

/-- **Acts that do not empty a place** change nothing, or amount to one change of what is there or
was created. -/
theorem LastWins.merge_acts (h : place.LastWins) {acts : List (Act γ)} (hacts : .remove ∉ acts) :
    (∀ a, place.runAll a acts = some a) ∨
      ∃ m, (∀ a, place.runAll (some a) acts = some (some (place.update a m))) ∧
        ∀ b, place.runAll none acts = some b → ∃ a, b = some (place.update a m) := by
  induction acts with
  | nil => exact .inl fun a => rfl
  | cons act rest ih =>
    rw [List.mem_cons, not_or] at hacts
    cases act with
    | remove => exact absurd rfl hacts.1
    | keep => exact ih hacts.2
    | change c =>
      right
      rcases ih hacts.2 with hsame | ⟨m, hsome, hnone⟩
      -- nothing happens after this change
      · refine ⟨c, fun a => hsame _, fun b hb => ?_⟩
        rw [runAll_cons, run_none_change] at hb
        obtain ⟨b', hb', hb⟩ := Option.bind_eq_some_iff.mp hb
        obtain ⟨a, ha, rfl⟩ := Option.map_eq_some_iff.mp hb'
        rw [hsame] at hb
        cases hb
        exact ⟨a, by rw [h.created a c ha]⟩
      -- the acts after this change amount to one more
      · obtain ⟨m', hm'⟩ := h.merge c m
        refine ⟨m', fun a => ?_, fun b hb => ?_⟩
        · rw [runAll_cons, run_some_change, Option.bind_some, hsome, hm']
        · rw [runAll_cons, run_none_change] at hb
          obtain ⟨b', hb', hb⟩ := Option.bind_eq_some_iff.mp hb
          obtain ⟨a, ha, rfl⟩ := Option.map_eq_some_iff.mp hb'
          rw [hsome] at hb
          cases hb
          exact ⟨a, by rw [← hm', h.created a c ha]⟩

/-- **Acts at a place that are done again** lead to what they led to before. -/
theorem LastWins.runAll_again (h : place.LastWins) {acts : List (Act γ)} {a b b' : Option α}
    (hb : place.runAll a acts = some b) (hb' : place.runAll b acts = some b') : b' = b := by
  by_cases hacts : .remove ∈ acts
  -- the place is emptied, and what happens after that is the same both times
  · obtain ⟨before, after, rfl⟩ := List.append_of_mem hacts
    have hend : ∀ {a b}, place.runAll a (before ++ .remove :: after) = some b →
        place.runAll none after = some b := by
      intro a b hab
      rw [runAll_append] at hab
      obtain ⟨a', -, hab⟩ := Option.bind_eq_some_iff.mp hab
      exact hab
    exact Option.some.inj ((hend hb').symm.trans (hend hb))
  -- the fields that are changed are what they should be
  · rcases h.merge_acts hacts with hsame | ⟨m, hsome, hnone⟩
    · exact Option.some.inj (hb'.symm.trans (hsame b))
    · obtain ⟨x, rfl⟩ : ∃ x, b = some (place.update x m) := by
        cases a with
        | none => exact hnone b hb
        | some x => exact ⟨x, Option.some.inj (hb.symm.trans (hsome x))⟩
      rw [hsome, h.again] at hb'
      exact (Option.some.inj hb').symm

end Place

theorem Header.place_lastWins (ip : String) : (Header.place ip).LastWins where
  merge c c' := by
    refine ⟨{ name := c'.name.or c.name, lastUpdate := c'.lastUpdate.or c.lastUpdate }, fun h => ?_⟩
    simp only [Header.place, Option.getD_or]
  again h c := by
    obtain ⟨name, lastUpdate, endpoints⟩ := c
    cases name <;> cases lastUpdate <;> rfl
  created h c hc := by
    obtain ⟨name, lastUpdate, endpoints⟩ := c
    simp only [Header.place] at hc
    split at hc
    · split at hc
      · cases hc
      · cases hc
        rfl
    · cases hc

theorem View.place_lastWins (id : Uuid) : (View.place id).LastWins where
  merge c c' := by
    refine ⟨{ name := c'.name.or c.name, references := c'.references.or c.references }, fun v => ?_⟩
    simp only [View.place, Option.getD_or]
  again v c := by
    obtain ⟨id', name, references⟩ := c
    cases name <;> cases references <;> rfl
  created v c hc := by
    obtain ⟨id', name, references⟩ := c
    simp only [View.place] at hc
    split at hc
    · next name' references' =>
      cases hc
      rfl
    · cases hc

theorem Endpoint.update_again (e : Endpoint) (c : EndpointChange) :
    (e.update c).update c = e.update c := by
  obtain ⟨ip, eid, typeCode, description, lastValue, lastUpdate, role⟩ := e
  obtain ⟨time, value, params, minvalue, maxvalue⟩ := c
  cases time <;> cases value <;> cases minvalue <;> cases maxvalue <;> cases role <;> rfl

theorem Endpoint.place_lastWins (table : BoundsTable) (now : Time) (ip : String) (eid : Eid) :
    (Endpoint.place table now ip eid).LastWins where
  merge c c' := by
    refine ⟨{
      lastUpdate := c'.lastUpdate.or c.lastUpdate
      lastValue := c'.lastValue.or c.lastValue
      minvalue := c'.minvalue.or c.minvalue
      maxvalue := c'.maxvalue.or c.maxvalue }, fun e => ?_⟩
    obtain ⟨ip, eid, typeCode, description, lastValue, lastUpdate, role⟩ := e
    cases role <;>
      simp only [Endpoint.place, Endpoint.update, Role.update, Bounds.update, Option.getD_or]
  again := Endpoint.update_again
  created e c hc := by
    have hcreate : Endpoint.ofChange table now ip eid c = .ok e := toOption_eq_some_iff.mp hc
    unfold Endpoint.ofChange at hcreate
    split at hcreate
    · cases hcreate
    · obtain ⟨e', -, rfl⟩ := map_eq_ok_iff.mp hcreate
      exact e'.update_again c

/-! ### Clocks -/

/-- What is done is a change with a property, or no change at all. -/
def Act.Satisfies {γ : Type} (P : γ → Prop) : Act γ → Prop
  | .change c => P c
  | _ => True

/-- **A dated change creates the same endpoint at any clock.** -/
theorem Endpoint.ofChange_clock {c : EndpointChange} (hc : c.Dated) (table : BoundsTable)
    (now now' : Time) (ip : String) (eid : Eid) :
    ofChange table now ip eid c = ofChange table now' ip eid c := by
  unfold ofChange
  cases hparams : c.params with
  | none => rfl
  | some params =>
    obtain ⟨time, htime⟩ := hc params hparams
    dsimp only
    unfold create
    by_cases hip : ip = ""
    · rw [if_pos hip, if_pos hip]
    · rw [if_neg hip, if_neg hip]
      cases params.requiredType with
      | error e => rfl
      | ok typeCode =>
        cases params.requiredFunction with
        | error e => rfl
        | ok function =>
          -- the two endpoints differ in the time only, which the change replaces
          simp only [ok_bind, Except.map, update, htime, Option.getD_some]

theorem Endpoint.runAll_clock {table : BoundsTable} {ip : String} {eid : Eid}
    {acts : List (Act EndpointChange)} (h : ∀ act ∈ acts, act.Satisfies EndpointChange.Dated)
    (now now' : Time) (a : Option Endpoint) :
    (place table now ip eid).runAll a acts = (place table now' ip eid).runAll a acts := by
  induction acts generalizing a with
  | nil => rfl
  | cons act rest ih =>
    have hfirst : (place table now ip eid).run a act = (place table now' ip eid).run a act := by
      cases act with
      | keep => rfl
      | remove => rfl
      | change c =>
        cases a with
        | some e => rfl
        | none =>
          have hc : c.Dated := h _ List.mem_cons_self
          have hcreate := ofChange_clock hc table now now' ip eid
          simp only [Place.run_none_change, place, hcreate]
    rw [Place.runAll_cons, Place.runAll_cons, hfirst]
    exact congrArg _ (funext fun b => ih (fun act hact => h act (List.mem_cons_of_mem _ hact)) b)

namespace Patch

variable {p : Patch} {manner : Tree.Manner} {now : Time} {t u : Tree}

theorem endpointActs_satisfy {P : EndpointChange → Prop}
    (h : ∀ ip e, p.devices.get? ip = some e → e.Satisfies fun c =>
      ∀ key e', c.endpoints.get? key = some e' → e'.Satisfies P) (ip : String) (eid : Eid) :
    ∀ act ∈ p.endpointActs manner ip eid, act.Satisfies P := by
  intro act hact
  cases he : p.devices.get? ip with
  | none =>
    rw [endpointActs_none he] at hact
    exact absurd hact List.not_mem_nil
  | some e =>
    rw [endpointActs_some he] at hact
    cases e with
    | tombstone =>
      rw [List.mem_singleton.mp hact]
      trivial
    | change c =>
      obtain ⟨q, hq, hact⟩ := List.mem_filterMap.mp hact
      split at hact
      · have hentry := h ip _ he q.1 q.2 (SortedMap.get?_eq_some_iff.mpr hq)
        cases hact
        cases hchange : q.2 with
        | tombstone => trivial
        | change c' =>
          rw [hchange] at hentry
          cases manner
          · exact hentry
          · trivial
      · cases hact

/-- **A dated patch does the same at any clock.** -/
theorem Takes.withClock (hp : p.Dated) (h : p.Takes manner now t u) (now' : Time) :
    p.Takes manner now' t u := by
  refine ⟨h.legible, h.wellFormed, h.bounds, h.headers, fun ip eid => ?_, h.views⟩
  rw [Endpoint.runAll_clock (endpointActs_satisfy hp ip eid) now' now]
  exact h.endpoints ip eid

end Patch

/-! ### Logs -/

/-- **A log of patches leads from one tree to another** if they are accepted one after another, each
at some clock. -/
inductive Tree.Leads : Tree → List Event → Tree → Prop where
  | done (t : Tree) : Leads t [] t
  | step {t u v : Tree} {e : Event} {log : List Event} (now : Time)
      (h : t.apply now e.manner e.patch = .ok u) (rest : Leads u log v) : Leads t (e :: log) v

namespace Tree.Leads

variable {t u v : Tree} {log more : List Event}

theorem append (h : t.Leads log u) (h' : u.Leads more v) : t.Leads (log ++ more) v := by
  induction h with
  | done t => exact h'
  | step now hstep _ ih => exact .step now hstep (ih h')

theorem split (h : t.Leads (log ++ more) v) : ∃ u, t.Leads log u ∧ u.Leads more v := by
  induction log generalizing t with
  | nil => exact ⟨t, .done t, h⟩
  | cons e log ih =>
    cases h with
    | step now hstep hrest =>
      obtain ⟨u, hlog, hmore⟩ := ih hrest
      exact ⟨u, .step now hstep hlog, hmore⟩

theorem wellFormed (h : t.Leads log u) (ht : t.WellFormed) : u.WellFormed := by
  induction h with
  | done t => exact ht
  | step now hstep _ ih => exact ih (takes_of_apply ht hstep).wellFormed

theorem bounds (h : t.Leads log u) (ht : t.WellFormed) : u.bounds = t.bounds := by
  induction h with
  | done t => rfl
  | step now hstep _ ih =>
    have htakes := takes_of_apply ht hstep
    exact (ih htakes.wellFormed).trans htakes.bounds

/-- **A dated log leads to one tree at most.** -/
theorem unique (ht : t.WellFormed) (hdated : ∀ e ∈ log, e.patch.Dated) (h : t.Leads log u)
    (h' : t.Leads log v) : u = v := by
  induction h with
  | done t =>
    cases h'
    rfl
  | step now hstep _ ih =>
    cases h' with
    | step now' hstep' hrest =>
      have htakes := takes_of_apply ht hstep
      -- the other log took the step at a clock of its own
      have htakes' := (takes_of_apply ht hstep').withClock (hdated _ List.mem_cons_self) now
      rw [← htakes.unique htakes'] at hrest
      exact ih htakes.wellFormed (fun e he => hdated e (List.mem_cons_of_mem _ he)) hrest

/-- **What a dated log does at every place**, as acts one after another. -/
theorem places (ht : t.WellFormed) (hdated : ∀ e ∈ log, e.patch.Dated) (h : t.Leads log u) :
    (∀ ip, (Header.place ip).runAll (t.header? ip)
      (log.flatMap fun e => e.patch.headerActs e.manner ip) = some (u.header? ip)) ∧
    (∀ ip eid, (Endpoint.place t.bounds 0 ip eid).runAll (t.endpointAt? ip eid)
      (log.flatMap fun e => e.patch.endpointActs e.manner ip eid) = some (u.endpointAt? ip eid)) ∧
    ∀ id, (View.place id).runAll (t.view? id)
      (log.flatMap fun e => e.patch.viewActs e.manner id) = some (u.view? id) := by
  induction h with
  | done t => exact ⟨fun ip => rfl, fun ip eid => rfl, fun id => rfl⟩
  | step now hstep _ ih =>
    have htakes := (takes_of_apply ht hstep).withClock (hdated _ List.mem_cons_self) 0
    obtain ⟨hheaders, hendpoints, hviews⟩ :=
      ih htakes.wellFormed fun e he => hdated e (List.mem_cons_of_mem _ he)
    refine ⟨fun ip => ?_, fun ip eid => ?_, fun id => ?_⟩
    · rw [List.flatMap_cons, Place.runAll_append, htakes.headers, Option.bind_some]
      exact hheaders ip
    · rw [List.flatMap_cons, Place.runAll_append, htakes.endpoints, Option.bind_some,
        ← htakes.bounds]
      exact hendpoints ip eid
    · rw [List.flatMap_cons, Place.runAll_append, htakes.views, Option.bind_some]
      exact hviews id

/-- **A log that is applied again** leads to the same tree again, unless it is refused. -/
theorem again (ht : t.WellFormed) (hdated : ∀ e ∈ log, e.patch.Dated) (h : t.Leads log u)
    (h' : u.Leads log v) : v = u := by
  have hu := h.wellFormed ht
  have hbounds := h'.bounds hu
  -- the two runs differ in their clocks, and `places` takes both to clock 0
  obtain ⟨hheaders, hendpoints, hviews⟩ := h.places ht hdated
  obtain ⟨hheaders', hendpoints', hviews'⟩ := h'.places hu hdated
  refine ext_places (h'.wellFormed hu) hu hbounds (fun ip => ?_) (fun ip eid => ?_) fun id => ?_
  · exact (Header.place_lastWins ip).runAll_again (hheaders ip) (hheaders' ip)
  · have hagain := hendpoints' ip eid
    rw [h.bounds ht] at hagain
    exact (Endpoint.place_lastWins t.bounds 0 ip eid).runAll_again (hendpoints ip eid) hagain
  · exact (View.place_lastWins id).runAll_again (hviews id) (hviews' id)

end Tree.Leads

namespace Tree

/-- Patches are applied one after another, the one of number `n` at the clock `clock n`. -/
def applyAll (clock : Nat → Time) (t : Tree) : List Event → Except TreeError Tree
  | [] => .ok t
  | e :: rest => do
    let t ← t.apply (clock 0) e.manner e.patch
    applyAll (fun n => clock (n + 1)) t rest

theorem leads_of_applyAll {clock : Nat → Time} {t u : Tree} {log : List Event}
    (h : applyAll clock t log = .ok u) : t.Leads log u := by
  induction log generalizing clock t with
  | nil =>
    cases h
    exact .done _
  | cons e rest ih =>
    obtain ⟨t', ht', h⟩ := bind_eq_ok_iff.mp h
    exact .step (clock 0) ht' (ih h)

/-- **Stale patches are harmless**: a log that once led to a tree, and is accepted when it is
applied to that tree again, leads to that tree, at whatever clocks. -/
theorem applyAll_again {clock clock' : Nat → Time} {t u v : Tree} {log : List Event}
    (ht : t.Reachable) (hdated : ∀ e ∈ log, e.patch.Dated) (h : applyAll clock t log = .ok u)
    (h' : applyAll clock' u log = .ok v) : v = u :=
  (leads_of_applyAll h).again ht.wellFormed hdated (leads_of_applyAll h')

/-- A log that creates a sensor, deletes it and creates an actor under its number. -/
def hallLog : List Event := [
  .update (.device "10.0.0.7" (.change (DeviceChange.withEndpoint
    { name := some "hall", lastUpdate := some 5 } 3
    (.change { lastUpdate := some 5, params := some (.sensor 1 "inlet"), minvalue := some 4 })))),
  .delete (.endpointTombstone "10.0.0.7" 3),
  .update (.device "10.0.0.7" (.change (DeviceChange.withEndpoint {} 3
    (.change { lastUpdate := some 6, params := some (.actor 2 "valve") })))),
  .update (.device "10.0.0.7" (.change { name := some "lobby", lastUpdate := some 7 }))]

/-- What the log leads to. -/
def hallTree : Tree where
  devices := .singleton "10.0.0.7"
    ⟨"10.0.0.7", "lobby", 7, .singleton 3 ⟨"10.0.0.7", 3, 2, "valve", .zero, 6, .actor⟩⟩

theorem applyAll_again_hall :
    applyAll (fun _ => 20) (ofBounds .standard) hallLog = .ok hallTree ∧
      ∃ v, applyAll .ofNat hallTree hallLog = .ok v ∧ v = hallTree := by
  have hfirst : applyAll (fun _ => 20) (ofBounds .standard) hallLog = .ok hallTree :=
    toOption_eq_some_iff.mp (by decide +kernel)
  have hagain : applyAll .ofNat hallTree hallLog = .ok hallTree :=
    toOption_eq_some_iff.mp (by decide +kernel)
  exact ⟨hfirst, hallTree, hagain,
    applyAll_again (.ofBounds .standard) (by decide +kernel) hfirst hagain⟩

end Tree

end Fleet
