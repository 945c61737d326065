import Fleet.Proofs.Refusals

/-!
# What an endpoint is never changes

The type, the function, the description and the unit of an endpoint are its *nature*
(`Endpoint.Nature`). A change of an endpoint that is there does not reach its nature, whatever
description comes with the change. So an operation could give an endpoint another nature only by
taking it out and creating it again, and no operation does both:

* of the keys of an update one at most denotes the endpoint, so at most one thing is done to it;
* a deletion creates nothing;
* a command does one thing at most (`Outcome.Single`), which again is an update or a deletion,
  except for a merge;
* a merge publishes several events, but all that it does is to add devices and endpoints that were
  not there (`Tree.Extends`).

That leaves restoring a snapshot, which puts other endpoints in the place of those that are there.
Along every run without it an endpoint has one nature for as long as it is there
(`Tree.nature_constant`).
-/

namespace Fleet

open Patch (Entry DeviceChange EndpointChange KeysDiffer actsFor)

/-! ### The nature of an endpoint -/

/-- **What an endpoint is**: its type, its function, its description and its unit. -/
structure Endpoint.Nature where
  typeCode : UInt8
  function : Function
  description : String
  unit : Option String
deriving DecidableEq, Repr

namespace Endpoint

variable {table : BoundsTable} {now : Time} {ip : String} {eid : Eid}

/-- What the endpoint is. -/
def nature (e : Endpoint) : Nature := ⟨e.typeCode, e.function, e.description, e.unit⟩

@[simp] theorem nature_update (e : Endpoint) (c : EndpointChange) :
    (e.update c).nature = e.nature := by
  obtain ⟨ip, eid, typeCode, description, lastValue, lastUpdate, role⟩ := e
  cases role <;> rfl

/-- One act leaves the nature of an endpoint as it is, or takes the endpoint out. -/
theorem nature_of_run {e e' : Endpoint} {act : Act EndpointChange}
    (h : (place table now ip eid).run (some e) act = some (some e')) : e'.nature = e.nature := by
  cases act with
  | keep =>
    cases h
    rfl
  | remove => cases h
  | change c =>
    cases h
    exact nature_update e c

/-- So does one act at most. -/
theorem nature_of_runAll {e e' : Endpoint} {acts : List (Act EndpointChange)}
    (hlength : acts.length ≤ 1)
    (h : (place table now ip eid).runAll (some e) acts = some (some e')) :
    e'.nature = e.nature := by
  obtain ⟨act, hact⟩ := Place.exists_run_of_length_le hlength
  rw [hact] at h
  exact nature_of_run h

end Endpoint

/-! ### Patches -/

/-- Acts without a change put nothing where nothing is. -/
theorem Place.eq_of_runAll {α γ : Type} {place : Place α γ} {acts : List (Act γ)} {a : Option α}
    {x : α} (hacts : ∀ c, .change c ∉ acts) (h : place.runAll a acts = some (some x)) :
    a = some x := by
  induction acts generalizing a with
  | nil => exact Option.some.inj h
  | cons act rest ih =>
    have hrest : ∀ c, .change c ∉ rest := fun c hc => hacts c (List.mem_cons_of_mem _ hc)
    rw [runAll_cons] at h
    cases act with
    | keep => exact ih hrest h
    | remove => cases ih hrest h
    | change c => exact absurd List.mem_cons_self (hacts c)

namespace Patch

variable {p : Patch} {manner : Tree.Manner} {now : Time} {t u : Tree}

/-- Of different keys one at most denotes a thing, so at most one thing is done to it. -/
theorem length_actsFor_le {κ γ : Type} [DecidableEq κ] {read : String → Option κ}
    {entries : List (String × Entry γ)} (h : KeysDiffer read entries) (k : κ) :
    (actsFor read manner entries k).length ≤ 1 := by
  induction entries with
  | nil => exact Nat.zero_le 1
  | cons p rest ih =>
    obtain ⟨key, e⟩ := p
    obtain ⟨hother, hrest⟩ := List.pairwise_cons.mp h
    rw [actsFor_cons]
    by_cases hk : read key = some k
    -- this key denotes the thing, so the others do not
    · rw [if_pos hk, actsFor_eq_nil fun q hq => hother q hq k hk]
      exact Nat.le_refl 1
    · rw [if_neg hk]
      exact ih hrest

/-- **An update does one thing at most** to an endpoint. -/
theorem Legible.length_endpointActs_le (h : p.Legible .update) (ip : String) (eid : Eid) :
    (p.endpointActs .update ip eid).length ≤ 1 := by
  cases he : p.devices.get? ip with
  | none =>
    rw [endpointActs_none he]
    exact Nat.zero_le 1
  | some e =>
    rw [endpointActs_some he]
    cases e with
    | tombstone => exact Nat.le_refl 1
    | change c => exact length_actsFor_le ((h.devices ip c he).differ rfl) eid

/-- **A deletion changes no endpoint.** -/
theorem change_notMem_endpointActs (p : Patch) (ip : String) (eid : Eid) (c : EndpointChange) :
    .change c ∉ p.endpointActs .delete ip eid := by
  intro hmem
  cases he : p.devices.get? ip with
  | none =>
    rw [endpointActs_none he] at hmem
    cases hmem
  | some e =>
    rw [endpointActs_some he] at hmem
    cases e with
    | tombstone => cases List.mem_singleton.mp hmem
    | change c' =>
      obtain ⟨⟨key, e⟩, -, hact⟩ := List.mem_filterMap.mp hmem
      split at hact
      · cases e <;> cases hact
      · cases hact

end Patch

namespace Tree

/-- **Endpoints that are in both trees are of one nature.** -/
def KeepsNatures (t u : Tree) : Prop :=
  ∀ ip eid e e', t.endpointAt? ip eid = some e → u.endpointAt? ip eid = some e' →
    e'.nature = e.nature

variable {α : Type} {t u v : Tree} {now : Time} {ip : String} {eid : Eid}

theorem KeepsNatures.refl (t : Tree) : t.KeepsNatures t := by
  intro ip eid e e' he he'
  cases he.symm.trans he'
  rfl

/-- **A patch changes the nature of no endpoint.** -/
theorem keepsNatures_of_takes {p : Patch} {manner : Manner} (h : p.Takes manner now t u) :
    t.KeepsNatures u := by
  intro ip eid e e' he he'
  have hrun := h.endpoints ip eid
  rw [he, he'] at hrun
  -- the endpoint before, run through the acts for it, is the endpoint after
  cases manner with
  | delete =>
    cases Place.eq_of_runAll (Patch.change_notMem_endpointActs p ip eid) hrun
    rfl
  | update =>
    exact Endpoint.nature_of_runAll (h.legible.length_endpointActs_le ip eid) hrun

/-! ### Commands that do one thing -/

/-- **A chain of one step at most** changes the nature of no endpoint. -/
theorem Told.keepsNatures {ok : Tree → Prop} {events : List Event} (h : Told ok t events u)
    (hlength : events.length ≤ 1) : t.KeepsNatures u := by
  cases h with
  | done => exact .refl t
  | step hstep _ rest =>
    cases List.length_eq_zero_iff.mp (Nat.le_zero.mp (Nat.le_of_succ_le_succ hlength))
    rw [rest.eq_of_nil]
    exact keepsNatures_of_takes (hstep.takes_self 0)

/-! ### Merging -/

/-- **All endpoints are as they were**, and there may be others. -/
def Extends (t u : Tree) : Prop :=
  ∀ ip eid e, t.endpointAt? ip eid = some e → u.endpointAt? ip eid = some e

theorem Extends.refl (t : Tree) : t.Extends t := fun _ _ _ he => he

theorem Extends.keepsNatures (h : t.Extends u) : t.KeepsNatures u := by
  intro ip eid e e' he he'
  cases (h ip eid e he).symm.trans he'
  rfl

/-- **A merge only adds** endpoints, although it publishes several events. -/
theorem extends_merge (ht : t.WellFormed) (times : MergeTimes) (found : Discovery.Device) :
    t.Extends (t.merge times found).tree := by
  obtain ⟨e, hrefused⟩ | ⟨r, -, hmerged⟩ := merge_cases ht times found
  · rw [hrefused]
    exact .refl t
  · exact fun ip eid e he => hmerged.endpointAt?_of_some he

/-! ### Operations and runs -/

theorem Command.keepsNatures (ht : t.WellFormed) (now : Time) (c : Command) :
    t.KeepsNatures (c.run now t).tree := by
  by_cases hmerge : ∃ found times, c = .merge found times
  · obtain ⟨found, times, rfl⟩ := hmerge
    exact (extends_merge ht times found).keepsNatures
  · by_cases hfresh : c.Fresh t
    · have htold : Told _ t (c.run now t).events (c.run now t).tree := c.told ht hfresh
      have hsingle : (c.run now t).Single t :=
        c.single (fun found times h => hmerge ⟨found, times, h⟩) now
      exact htold.keepsNatures hsingle.length_events_le
    · rw [c.tree_run_of_not_fresh hfresh]
      exact .refl t

/-- What holds of the tree that was to be replaced and of the one that may replace it. -/
theorem replaced_tree {P : Tree → Prop} {r : Except TreeError Tree} (ht : P t)
    (hr : ∀ u, r = .ok u → P u) : P (t.replaced r).tree := by
  cases r with
  | error e => exact ht
  | ok u => exact hr u rfl

/-- **An operation changes the nature of no endpoint**, unless it restores a snapshot. -/
theorem Operation.keepsNatures (ht : t.WellFormed) (now : Time) {op : Operation}
    (hop : ∀ s, op ≠ .restore s) : t.KeepsNatures (op.run now t).tree := by
  cases op with
  | command c => exact c.keepsNatures ht now
  | apply manner p =>
    exact replaced_tree (.refl t) fun u hu => keepsNatures_of_takes (takes_of_apply ht hu)
  | restore s => exact absurd rfl (hop s)

theorem Reachable.operation (h : t.Reachable) (now : Time) (op : Operation) :
    (op.run now t).tree.Reachable := by
  cases op with
  | command c => exact h.command now c
  | apply manner p => exact replaced_tree h fun u hu => h.apply hu
  | restore s => exact replaced_tree h fun u hu => h.restore hu

/-- **The tree after operations**, each done at its time. -/
def operate (t : Tree) : List (Time × Operation) → Tree
  | [] => t
  | (now, op) :: rest => (op.run now t).tree.operate rest

/-- **What an endpoint is never changes.** No operation on a reachable tree but restoring a snapshot
gives an endpoint that is there before and after it another type, function, description or unit.
Hence an endpoint that is there throughout a run of such operations is at the end of one nature with
what it was at the beginning. -/
theorem nature_constant (h : t.Reachable) :
    (∀ now op, (∀ s, op ≠ .restore s) → t.KeepsNatures (Operation.run now t op).tree) ∧
    ∀ ops : List (Time × Operation), (∀ q ∈ ops, ∀ s, q.2 ≠ .restore s) → ∀ ip eid e,
      t.endpointAt? ip eid = some e →
      (∀ before, before <+: ops → (t.operate before).endpointAt? ip eid ≠ none) →
      ∃ e', (t.operate ops).endpointAt? ip eid = some e' ∧ e'.nature = e.nature := by
  refine ⟨fun now op hop => op.keepsNatures h.wellFormed now hop,
    fun ops hops ip eid e he hthere => ?_⟩
  induction ops generalizing t e with
  | nil => exact ⟨e, he, rfl⟩
  | cons q rest ih =>
    obtain ⟨now, op⟩ := q
    -- the endpoint is there after the first operation, and of the same nature
    have hfirst : ((op.run now t).tree).endpointAt? ip eid ≠ none :=
      hthere [(now, op)] (List.prefix_cons_inj _ |>.mpr List.nil_prefix)
    obtain ⟨e₁, he₁⟩ := Option.ne_none_iff_exists'.mp hfirst
    have hnature : e₁.nature = e.nature :=
      op.keepsNatures h.wellFormed now (hops _ List.mem_cons_self) ip eid e e₁ he he₁
    obtain ⟨e', he', hnature'⟩ := ih (h.operation now op)
      (fun q hq => hops q (List.mem_cons_of_mem _ hq)) e₁ he₁ fun before hbefore =>
        hthere ((now, op) :: before) (List.prefix_cons_inj _ |>.mpr hbefore)
    exact ⟨e', he', hnature'.trans hnature⟩

/-- A lamp in a new hall. -/
def lampTree : Tree := ((Command.addEndpoint "hall" 7
  ((Endpoint.Params.actor 2 "lamp").withDeviceName "Hall")).run 5 (.ofBounds .standard)).tree

/-- The lamp is described as something else by an update and by a merge, and then set. -/
def lampOperations : List (Time × Operation) := [
  (6, .apply .update (.device "hall" (.change (DeviceChange.withEndpoint {} 7
    (.change { lastValue := some .zero, params := some (.infrastructure 9 "meter") }))))),
  (7, .command (.merge ⟨"hall", "Lobby", [⟨7, .actor 4 "valve"⟩, ⟨8, .actor 4 "valve"⟩]⟩
    (.always 7))),
  (8, .command (.setValueAt "hall" 7 .zero))]

theorem nature_constant_lamp :
    (∃ e, lampTree.endpointAt? "hall" 7 = some e ∧ e.nature = ⟨2, .actor, "lamp", none⟩) ∧
    ∃ e', (lampTree.operate lampOperations).endpointAt? "hall" 7 = some e' ∧
      e'.lastUpdate = 8 ∧ e'.nature = ⟨2, .actor, "lamp", none⟩ := by
  have hreach : lampTree.Reachable := .command (.ofBounds _) 5 _
  have hlast : ((lampTree.operate lampOperations).endpointAt? "hall" 7).map (·.lastUpdate) =
      some 8 := by decide +kernel
  have hops : ∀ q ∈ lampOperations, ∀ s, q.2 ≠ .restore s := by
    unfold lampOperations
    simp
  have hthere : ∀ before, before <+: lampOperations →
      (lampTree.operate before).endpointAt? "hall" 7 ≠ none := by
    have htake : ∀ k < 4,
        (lampTree.operate (lampOperations.take k)).endpointAt? "hall" 7 ≠ none := by decide +kernel
    intro before hbefore
    rw [List.prefix_iff_eq_take.mp hbefore]
    exact htake _ (Nat.lt_succ_of_le hbefore.length_le)
  have hlamp : (lampTree.endpointAt? "hall" 7).map Endpoint.nature =
      some ⟨2, .actor, "lamp", none⟩ := by decide +kernel
  obtain ⟨e, he, hnature⟩ := Option.map_eq_some_iff.mp hlamp
  obtain ⟨e', he', hsame⟩ := (nature_constant hreach).2 lampOperations hops "hall" 7 e he hthere
  rw [he', Option.map_some, Option.some.injEq] at hlast
  exact ⟨⟨e, he, hnature⟩, e', he', hlast, hsame.trans hnature⟩

end Tree

end Fleet
