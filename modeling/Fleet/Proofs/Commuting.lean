import Fleet.Proofs.Replay

/-!
# Events that commute

Two replicas that hear of the same events in different orders agree if the events commute. To
commute (`Event.Commutes`) is said of whole trees: whatever tree the events are applied to, both
orders are refused, or lead to the same tree.

What makes events commute is found in their patches. Patches are *independent* (`Patch.Independent`)
if they have no view and no endpoint in common and, where they have a device in common, neither
removes it or says anything of its header. Then at most one of them does anything at an endpoint or
a view, and at a header both only ask whether it is there (`Patch.Independent.takes_swap`).

A log that commutes with another one event by event can be moved past it as a whole
(`Tree.Leads.swap`).
-/

namespace Fleet

open Patch (Entry DeviceChange EndpointChange ViewChange actsFor)

/-! ### Independent patches -/

namespace Patch

/-- No key of the one denotes what a key of the other denotes. -/
def KeysApart {κ β : Type} (read : String → Option κ) (entries entries' : List (String × β)) :
    Prop :=
  ∀ p ∈ entries, ∀ q ∈ entries', ∀ k ∈ read p.1, read q.1 ≠ some k

instance {κ β : Type} [DecidableEq κ] (read : String → Option κ)
    (entries entries' : List (String × β)) : Decidable (KeysApart read entries entries') :=
  inferInstanceAs (Decidable (∀ p ∈ entries, ∀ q ∈ entries', ∀ k ∈ read p.1, read q.1 ≠ some k))

/-- The change says nothing of the header of the device. -/
def DeviceChange.Bare (c : DeviceChange) : Prop := c.name = none ∧ c.lastUpdate = none

instance (c : DeviceChange) : Decidable c.Bare :=
  inferInstanceAs (Decidable (c.name = none ∧ c.lastUpdate = none))

/-- **Entries of the same device have nothing in common**: both are changes, they say nothing of its
header, and their keys denote different endpoints. -/
def Entry.Independent : Entry DeviceChange → Entry DeviceChange → Prop
  | .change c, .change d =>
    c.Bare ∧ d.Bare ∧ KeysApart Eid.ofText? c.endpoints.entries d.endpoints.entries
  | _, _ => False

instance : DecidableRel Entry.Independent
  | .change c, .change d => inferInstanceAs (Decidable (c.Bare ∧ d.Bare ∧ _))
  | .change _, .tombstone | .tombstone, .change _ | .tombstone, .tombstone => .isFalse id

/-- **Patches have nothing in common**: no view, and of a device at most different endpoints. -/
structure Independent (p q : Patch) : Prop where
  devices : ∀ ip x, p.devices.get? ip = some x → ∀ y ∈ q.devices.get? ip, x.Independent y
  views : KeysApart Uuid.ofText? p.views.entries q.views.entries

instance (p q : Patch) : Decidable (p.Independent q) :=
  decidable_of_iff
    ((∀ ip x, p.devices.get? ip = some x → ∀ y ∈ q.devices.get? ip, x.Independent y) ∧
      KeysApart Uuid.ofText? p.views.entries q.views.entries)
    ⟨fun h => ⟨h.1, h.2⟩, fun h => ⟨h.devices, h.views⟩⟩

theorem KeysApart.symm {κ β : Type} {read : String → Option κ}
    {entries entries' : List (String × β)} (h : KeysApart read entries entries') :
    KeysApart read entries' entries :=
  fun q hq p hp k hk hread => h p hp q hq k hread hk

theorem Entry.Independent.symm {x y : Entry DeviceChange} (h : x.Independent y) :
    y.Independent x := by
  cases x with
  | tombstone => exact h.elim
  | change c =>
    cases y with
    | tombstone => exact h.elim
    | change d => exact ⟨h.2.1, h.1, h.2.2.symm⟩

theorem Independent.symm {p q : Patch} (h : p.Independent q) : q.Independent p :=
  ⟨fun ip y hy x hx => (h.devices ip x hx y hy).symm, h.views.symm⟩

/-- Of entries whose keys are apart, one at most has anything to do. -/
theorem actsFor_eq_nil_or {κ γ : Type} [DecidableEq κ] {read : String → Option κ}
    {manner manner' : Tree.Manner} {entries entries' : List (String × Entry γ)}
    (h : KeysApart read entries entries') (k : κ) :
    actsFor read manner entries k = [] ∨ actsFor read manner' entries' k = [] := by
  by_cases hdenoted : ∃ p ∈ entries, read p.1 = some k
  · obtain ⟨p, hp, hk⟩ := hdenoted
    exact .inr (actsFor_eq_nil fun q hq hread => h p hp q hq k hk hread)
  · exact .inl (actsFor_eq_nil fun p hp hread => hdenoted ⟨p, hp, hread⟩)

variable {p q : Patch} {manner manner' : Tree.Manner}

theorem Independent.endpointActs_eq_nil (h : p.Independent q) (ip : String) (eid : Eid) :
    p.endpointActs manner ip eid = [] ∨ q.endpointActs manner' ip eid = [] := by
  cases hx : p.devices.get? ip with
  | none => exact .inl (endpointActs_none hx)
  | some x =>
    cases hy : q.devices.get? ip with
    | none => exact .inr (endpointActs_none hy)
    | some y =>
      have hxy := h.devices ip x hx y hy
      rw [endpointActs_some hx, endpointActs_some hy]
      cases x with
      | tombstone => exact hxy.elim
      | change c =>
        cases y with
        | tombstone => exact hxy.elim
        | change d => exact actsFor_eq_nil_or hxy.2.2 eid

theorem Independent.headerActs_swap (h : p.Independent q) (ip : String) (a : Option Header) :
    (Header.place ip).runAll a (p.headerActs manner ip ++ q.headerActs manner' ip) =
      (Header.place ip).runAll a (q.headerActs manner' ip ++ p.headerActs manner ip) := by
  cases hx : p.devices.get? ip with
  | none => rw [headerActs_none hx, List.nil_append, List.append_nil]
  | some x =>
    cases hy : q.devices.get? ip with
    | none => rw [headerActs_none hy, List.nil_append, List.append_nil]
    | some y =>
      have hxy := h.devices ip x hx y hy
      rw [headerActs_some hx, headerActs_some hy]
      cases x with
      | tombstone => exact hxy.elim
      | change c =>
        cases y with
        | tombstone => exact hxy.elim
        | change d =>
          obtain ⟨⟨hname, htime⟩, ⟨hname', htime'⟩, -⟩ := hxy
          -- a bare change leaves a header as it is and creates none, and a deletion keeps both
          cases a <;> cases manner <;> cases manner' <;>
            simp only [List.singleton_append, Place.runAll_cons, Place.runAll_nil, Entry.act,
              Place.run, Header.place, hname, htime, hname', htime', Option.map_none,
              Option.bind_none, Option.bind_some, Option.getD_none]

/-- Where one of two patches does nothing, it does not matter which of them comes first. -/
theorem runAll_swap {α γ : Type} {place place' : Place α γ} {acts acts' : List (Act γ)}
    (hone : acts = [] ∨ acts' = []) {a b c : Option α} (hfirst : place.runAll a acts = some b)
    (hsecond : place'.runAll b acts' = some c) :
    (place'.runAll a acts').bind (fun a => place.runAll a acts) = some c := by
  rcases hone with rfl | rfl
  · rw [Option.some.inj hfirst, hsecond]
    rfl
  · rw [Place.runAll_nil, Option.bind_some, hfirst]
    exact hsecond

/-- **Independent patches can be swapped**, each keeping its clock. -/
theorem Independent.takes_swap (h : p.Independent q) {now now' : Time} {t v u : Tree}
    (ht : t.WellFormed) (hp : p.Takes manner now t v) (hq : q.Takes manner' now' v u) :
    ∃ w, q.Takes manner' now' t w ∧ p.Takes manner now w u := by
  -- at every place the acts of `q` and then those of `p` lead to what is there in the end
  have hheaders : ∀ ip, (Header.place ip).runAll (t.header? ip)
      (q.headerActs manner' ip ++ p.headerActs manner ip) = some (u.header? ip) := by
    intro ip
    calc (Header.place ip).runAll (t.header? ip)
          (q.headerActs manner' ip ++ p.headerActs manner ip)
      _ = (Header.place ip).runAll (t.header? ip)
          (p.headerActs manner ip ++ q.headerActs manner' ip) := (h.headerActs_swap ip _).symm
      _ = (Header.place ip).runAll (v.header? ip) (q.headerActs manner' ip) := by
        rw [Place.runAll_append, hp.headers, Option.bind_some]
      _ = some (u.header? ip) := hq.headers ip
  have hendpoints : ∀ ip eid, ((Endpoint.place t.bounds now' ip eid).runAll (t.endpointAt? ip eid)
      (q.endpointActs manner' ip eid)).bind (fun a =>
        (Endpoint.place t.bounds now ip eid).runAll a (p.endpointActs manner ip eid)) =
      some (u.endpointAt? ip eid) := by
    intro ip eid
    have hsecond := hq.endpoints ip eid
    rw [hp.bounds] at hsecond
    exact runAll_swap (h.endpointActs_eq_nil ip eid) (hp.endpoints ip eid) hsecond
  have hviews : ∀ id, ((View.place id).runAll (t.view? id) (q.viewActs manner' id)).bind (fun a =>
      (View.place id).runAll a (p.viewActs manner id)) = some (u.view? id) :=
    fun id => runAll_swap (actsFor_eq_nil_or h.views id) (hp.views id) (hq.views id)
  -- the second patch is accepted first, since what it does to the tree is not refused
  obtain ⟨w, hw⟩ : ∃ w, t.apply now' manner' q = .ok w := by
    refine Tree.exists_apply ht hq.legible (fun ip hnone => ?_) fun ip eid hnone => ?_
    · have hheader := hheaders ip
      rw [Place.runAll_append, hnone] at hheader
      cases hheader
    · have hendpoint := hendpoints ip eid
      rw [hnone] at hendpoint
      cases hendpoint
  have hw := Tree.takes_of_apply ht hw
  refine ⟨w, hw, hp.legible, hq.wellFormed, ?_, fun ip => ?_, fun ip eid => ?_, fun id => ?_⟩
  · rw [hq.bounds, hp.bounds, hw.bounds]
  · have hheader := hheaders ip
    rw [Place.runAll_append, hw.headers] at hheader
    exact hheader
  · have hendpoint := hendpoints ip eid
    rw [hw.endpoints] at hendpoint
    rw [hw.bounds]
    exact hendpoint
  · have hview := hviews id
    rw [hw.views] at hview
    exact hview

end Patch

/-! ### Events -/

/-- **Two events commute** if every tree takes them in either order alike. -/
def Event.Commutes (e f : Event) : Prop :=
  ∀ t u : Tree, t.WellFormed → (t.Leads [e, f] u ↔ t.Leads [f, e] u)

/-- **Events with independent patches commute.** -/
theorem Patch.Independent.commutes {e f : Event} (h : e.patch.Independent f.patch) :
    e.Commutes f := by
  have hswap : ∀ {e f : Event} {t u : Tree}, e.patch.Independent f.patch → t.WellFormed →
      t.Leads [e, f] u → t.Leads [f, e] u := by
    intro e f t u hef ht hleads
    cases hleads with
    | step now hfirst hrest =>
      cases hrest with
      | step now' hsecond hnone =>
        cases hnone
        have hfirst := Tree.takes_of_apply ht hfirst
        obtain ⟨w, hw, hu⟩ :=
          hef.takes_swap ht hfirst (Tree.takes_of_apply hfirst.wellFormed hsecond)
        exact .step now' ((Tree.apply_eq_ok_iff ht).mpr hw)
          (.step now ((Tree.apply_eq_ok_iff hw.wellFormed).mpr hu) (.done u))
  exact fun t u ht => ⟨hswap h ht, hswap h.symm ht⟩

theorem Event.Commutes.symm {e f : Event} (h : e.Commutes f) : f.Commutes e :=
  fun t u ht => (h t u ht).symm

/-! ### Logs -/

namespace Tree

variable {t u : Tree} {log more : List Event}

theorem Leads.move {e : Event} (hcommutes : ∀ f ∈ log, e.Commutes f) (ht : t.WellFormed)
    (h : t.Leads (e :: log) u) : t.Leads (log ++ [e]) u := by
  induction log generalizing t with
  | nil => exact h
  | cons f rest ih =>
    -- the first two events change places, and the event is moved past the rest
    obtain ⟨v, hpair, hrest⟩ : ∃ v, t.Leads [e, f] v ∧ v.Leads rest u := Leads.split h
    have hswapped := (hcommutes f List.mem_cons_self t v ht).mp hpair
    cases hswapped with
    | step now hfirst hlast =>
      have hmoved := hlast.append hrest
      exact .step now hfirst (ih (fun f' hf' => hcommutes f' (List.mem_cons_of_mem _ hf'))
        (takes_of_apply ht hfirst).wellFormed hmoved)

/-- **Logs that commute event by event can be swapped.** -/
theorem Leads.swap (hcommutes : ∀ e ∈ log, ∀ f ∈ more, e.Commutes f) (ht : t.WellFormed)
    (h : t.Leads (log ++ more) u) : t.Leads (more ++ log) u := by
  induction log generalizing t with
  | nil =>
    rw [List.append_nil]
    exact h
  | cons e rest ih =>
    cases h with
    -- the rest is swapped behind the first event, which is then moved past all of `more`
    | step now hfirst hrest =>
      have hswapped := ih (fun f hf => hcommutes f (List.mem_cons_of_mem _ hf))
        (takes_of_apply ht hfirst).wellFormed hrest
      obtain ⟨v, hmore, hlog⟩ := hswapped.split
      have hmoved := Leads.move (hcommutes e List.mem_cons_self) ht (.step now hfirst hmore)
      have hall := hmoved.append hlog
      rw [List.append_assoc, List.singleton_append] at hall
      exact hall

/-! ### Chains of steps as logs -/

/-- **What is told leads to where it went**, at the clock zero as at any other. -/
theorem Told.leads {ok : Tree → Prop} (h : Told ok t log u) (ht : t.WellFormed) :
    t.Leads log u := by
  induction h with
  | done t => exact .done t
  | step hstep _ _ ih =>
    exact .step 0 ((apply_eq_ok_iff ht).mpr (hstep.takes_self 0)) (ih hstep.wellFormed)

theorem Told.dated {ok : Tree → Prop} (h : Told ok t log u) : ∀ e ∈ log, e.patch.Dated := by
  induction h with
  | done t => exact fun e he => absurd he List.not_mem_nil
  | step hstep _ _ ih =>
    intro e he
    rcases List.mem_cons.mp he with rfl | he
    · exact hstep.dated
    · exact ih e he

end Tree

end Fleet
