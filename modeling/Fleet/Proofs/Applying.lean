import Fleet.Proofs.Places

/-!
# Applying a patch acts at every place

Applying a patch stages its entries against the tree as it is and commits them afterwards. The main
result of this module, `Tree.apply_eq_ok_iff`, says what comes of it: a patch is applied to a
well-formed tree exactly if it takes it to some tree (`Patch.Takes`), and that tree is the outcome.

It is proved from the inside out. The steps that the entries of a device come down to concern
different endpoints (`Device.stageEntries_spec`), so committing them acts at the place of each
endpoint (`Device.update_spec`, `Device.prune_spec`). The steps of a patch concern different devices
(`Tree.get?_foldl_devices`), and of several steps on one view the last one counts
(`Tree.get?_foldl_views`). The other direction, that staging succeeds if no act is refused, takes
the same way.
-/

namespace Fleet

open Patch (Entry DeviceChange EndpointChange ViewChange KeysRead KeysDiffer actsFor)

/-! ### Acts for a key -/

section

variable {κ γ : Type} [DecidableEq κ] {read : String → Option κ} {manner : Tree.Manner}

theorem actsFor_cons {key : String} {e : Entry γ} {entries : List (String × Entry γ)} {k : κ} :
    actsFor read manner ((key, e) :: entries) k =
      (if read key = some k then [e.act manner] else []) ++ actsFor read manner entries k := by
  unfold actsFor
  rw [List.filterMap_cons]
  by_cases h : read key = some k
  · rw [if_pos h, if_pos h]
    rfl
  · rw [if_neg h, if_neg h]
    rfl

theorem actsFor_eq_nil {entries : List (String × Entry γ)} {k : κ}
    (h : ∀ p ∈ entries, read p.1 ≠ some k) : actsFor read manner entries k = [] := by
  unfold actsFor
  rw [List.filterMap_eq_nil_iff]
  intro p hp
  rw [if_neg (h p hp)]

end

/-! ### A single endpoint -/

namespace Endpoint

variable {table : BoundsTable} {now : Time} {ip : String} {eid : Eid}

theorem create_belongs {params : Params} {e : Endpoint}
    (h : create table now ip eid params = .ok e) : e.ip = ip ∧ e.eid = eid := by
  unfold create at h
  split at h
  · cases h
  · obtain ⟨_, -, h⟩ := bind_eq_ok_iff.mp h
    obtain ⟨_, -, h⟩ := bind_eq_ok_iff.mp h
    cases h
    exact ⟨rfl, rfl⟩

/-- **Whether an endpoint can be created** is no question of the time. -/
theorem create_at {params : Params} {e : Endpoint} (h : create table now ip eid params = .ok e)
    (later : Time) : create table later ip eid params = .ok { e with lastUpdate := later } := by
  unfold create at h ⊢
  split at h
  · cases h
  · next hip =>
    obtain ⟨_, htype, h⟩ := bind_eq_ok_iff.mp h
    obtain ⟨_, hfunction, h⟩ := bind_eq_ok_iff.mp h
    cases h
    rw [if_neg hip, htype, ok_bind, hfunction, ok_bind]

theorem ofChange_belongs {c : EndpointChange} {e : Endpoint}
    (h : ofChange table now ip eid c = .ok e) : e.ip = ip ∧ e.eid = eid := by
  unfold ofChange at h
  split at h
  · cases h
  · obtain ⟨e', he', rfl⟩ := map_eq_ok_iff.mp h
    have hbelongs := create_belongs he'
    exact hbelongs

/-- What stands at the place of an endpoint belongs there after an act. -/
theorem belongs_of_run {a b : Option Endpoint} {act : Act EndpointChange}
    (ha : ∀ e, a = some e → e.ip = ip ∧ e.eid = eid)
    (h : (place table now ip eid).run a act = some b) :
    ∀ e, b = some e → e.ip = ip ∧ e.eid = eid := by
  intro e he
  subst he
  cases act with
  | keep => exact ha e (Option.some.inj h)
  | remove => cases h
  | change c =>
    cases a with
    | some e' =>
      cases h
      exact ha e' rfl
    | none =>
      obtain ⟨e', he', heq⟩ := Option.map_eq_some_iff.mp h
      cases heq
      exact ofChange_belongs (toOption_eq_some_iff.mp he')

theorem belongs_of_runAll {a b : Option Endpoint} {acts : List (Act EndpointChange)}
    (ha : ∀ e, a = some e → e.ip = ip ∧ e.eid = eid)
    (h : (place table now ip eid).runAll a acts = some b) :
    ∀ e, b = some e → e.ip = ip ∧ e.eid = eid := by
  induction acts generalizing a with
  | nil =>
    cases h
    exact ha
  | cons act rest ih =>
    obtain ⟨a', ha', h⟩ := Option.bind_eq_some_iff.mp h
    exact ih (belongs_of_run ha ha') h

end Endpoint

/-! ### The steps of a device -/

namespace Device

variable {table : BoundsTable} {now : Time} {ip : String} {d : Device}

/-- The number of the endpoint that a step is about. -/
def Step.eid : Step → Eid
  | remove eid => eid
  | update eid _ => eid
  | create e => e.eid

/-- What a step makes of the endpoint that it is about. -/
def Step.effect : Step → Option Endpoint → Option Endpoint
  | remove _, _ => none
  | update _ c, e => e.map (·.update c)
  | create e, _ => some e

theorem endpoint?_put {e : Endpoint} {eid l : Eid} :
    (d.put eid e).endpoint? l = if l = eid then some e else d.endpoint? l := SortedMap.get?_insert

theorem endpoint?_without {eid l : Eid} :
    (d.without eid).endpoint? l = if l = eid then none else d.endpoint? l := SortedMap.get?_erase

/-- **A step concerns one endpoint** and leaves the others alone. -/
theorem endpoint?_run (s : Step) (eid : Eid) :
    (s.run d).endpoint? eid =
      if eid = s.eid then s.effect (d.endpoint? eid) else d.endpoint? eid := by
  cases s with
  | remove l => exact endpoint?_without
  | create e => exact endpoint?_put
  | update l c =>
    cases he : d.endpoint? l with
    | none =>
      have hrun : (Step.update l c).run d = d := by simp only [Step.run, he]
      rw [hrun]
      by_cases hl : eid = l
      · subst hl
        simp [Step.eid, Step.effect, he]
      · exact (if_neg hl).symm
    | some e =>
      have hrun : (Step.update l c).run d = d.put l (e.update c) := by simp only [Step.run, he]
      rw [hrun, endpoint?_put]
      by_cases hl : eid = l
      · subst hl
        simp [Step.eid, Step.effect, he]
      · rw [if_neg hl, if_neg (show ¬ eid = Step.eid (.update l c) from hl)]

theorem frame_run (s : Step) : (s.run d).ip = d.ip ∧ (s.run d).header = d.header := by
  cases s with
  | remove => exact ⟨rfl, rfl⟩
  | create => exact ⟨rfl, rfl⟩
  | update l c =>
    simp only [Step.run]
    cases d.endpoint? l with
    | none => exact ⟨rfl, rfl⟩
    | some e => exact ⟨rfl, rfl⟩

theorem frame_foldl_run (steps : List Step) :
    (steps.foldl Step.run d).ip = d.ip ∧ (steps.foldl Step.run d).header = d.header := by
  induction steps generalizing d with
  | nil => exact ⟨rfl, rfl⟩
  | cons s rest ih => exact ⟨ih.1.trans (frame_run s).1, ih.2.trans (frame_run s).2⟩

/-- What an entry is staged as does what the entry does at the place of the endpoint. -/
theorem stageEntry_spec (hd : d.WellFormed ip) {eid : Eid} {e : Entry EndpointChange} {s : Step}
    (h : d.stageEntry table now eid e = .ok s) :
    s.eid = eid ∧ (Endpoint.place table now ip eid).run (d.endpoint? eid) (e.act .update) =
      some (s.effect (d.endpoint? eid)) := by
  cases e with
  | tombstone =>
    cases h
    exact ⟨rfl, rfl⟩
  | change c =>
    unfold stageEntry at h
    simp only at h
    cases he : d.endpoint? eid with
    | some e =>
      have hhas : d.hasEndpoint eid = true := SortedMap.contains_eq_true_iff.mpr ⟨e, he⟩
      rw [if_pos hhas] at h
      cases h
      exact ⟨rfl, rfl⟩
    | none =>
      have hhas : d.hasEndpoint eid = false := SortedMap.contains_eq_false_iff.mpr he
      rw [hhas] at h
      obtain ⟨e, hcreate, rfl⟩ := map_eq_ok_iff.mp h
      rw [hd.address] at hcreate
      refine ⟨(Endpoint.ofChange_belongs hcreate).2, ?_⟩
      simp only [Entry.act, Place.run_none_change, Endpoint.place, hcreate]
      rfl

theorem stageEntry_ok (hd : d.WellFormed ip) {eid : Eid} {e : Entry EndpointChange}
    (h : (Endpoint.place table now ip eid).run (d.endpoint? eid) (e.act .update) ≠ none) :
    ∃ s, d.stageEntry table now eid e = .ok s := by
  cases e with
  | tombstone => exact ⟨_, rfl⟩
  | change c =>
    unfold stageEntry
    simp only
    cases hhas : d.hasEndpoint eid with
    | true => exact ⟨.update eid c, rfl⟩
    | false =>
      have he : d.endpoint? eid = none := SortedMap.contains_eq_false_iff.mp hhas
      simp only [he, Entry.act, Place.run_none_change, Endpoint.place] at h
      rw [hd.address]
      cases hcreate : Endpoint.ofChange table now ip eid c with
      | error _ => simp [hcreate, Except.toOption] at h
      | ok e => exact ⟨.create e, rfl⟩

theorem requiredEid_eq_ok_iff {key : String} {eid : Eid} :
    requiredEid key = .ok eid ↔ Eid.ofText? key = some eid := by
  unfold requiredEid
  cases Eid.ofText? key with
  | none => simp
  | some l => simp

/-- **Staging the entries of a change** reads every key, as a number that no entry before has, and
committing the steps does what the entries do at the place of every endpoint. The steps are staged
against `d` and committed to a device that agrees with it where nothing was done yet. -/
theorem stageEntries_spec (hd : d.WellFormed ip) {entries : List (String × Entry EndpointChange)}
    {seen : List Eid} {steps : List Step} (h : d.stageEntries table now seen entries = .ok steps)
    {d' : Device} (hd' : ∀ eid, eid ∉ seen → d'.endpoint? eid = d.endpoint? eid) :
    KeysRead Eid.ofText? entries ∧ KeysDiffer Eid.ofText? entries ∧
      (∀ p ∈ entries, ∀ eid ∈ seen, Eid.ofText? p.1 ≠ some eid) ∧
      ∀ eid, (Endpoint.place table now ip eid).runAll (d'.endpoint? eid)
        (actsFor Eid.ofText? .update entries eid) =
          some ((steps.foldl Step.run d').endpoint? eid) := by
  induction entries generalizing seen steps d' with
  | nil =>
    cases h
    exact ⟨fun p hp => absurd hp List.not_mem_nil, List.Pairwise.nil,
      fun p hp => absurd hp List.not_mem_nil, fun eid => rfl⟩
  | cons p rest ih =>
    obtain ⟨key, e⟩ := p
    rw [stageEntries, bind_eq_ok_iff] at h
    obtain ⟨k, hkey, h⟩ := h
    rw [requiredEid_eq_ok_iff] at hkey
    by_cases hseen : k ∈ seen
    -- a number that came before, which staging refuses
    · rw [if_pos hseen] at h
      cases h
    · rw [if_neg hseen] at h
      obtain ⟨s, hs, h⟩ := bind_eq_ok_iff.mp h
      obtain ⟨steps', hsteps, h⟩ := bind_eq_ok_iff.mp h
      cases h
      obtain ⟨hk, hrun⟩ := stageEntry_spec hd hs
      -- committing the first step spoils the agreement with `d` at `k` only
      have hagree : ∀ eid, eid ∉ k :: seen → (s.run d').endpoint? eid = d.endpoint? eid := by
        intro eid hnew
        rw [List.mem_cons, not_or] at hnew
        rw [endpoint?_run, hk, if_neg hnew.1, hd' eid hnew.2]
      obtain ⟨hread, hdiffer, hfresh, hacts⟩ := ih hsteps hagree
      refine ⟨?_, ?_, ?_, fun eid => ?_⟩
      · intro q hq
        rcases List.mem_cons.mp hq with rfl | hq
        · exact ⟨k, hkey⟩
        · exact hread q hq
      · refine List.pairwise_cons.mpr ⟨fun q hq l hl => ?_, hdiffer⟩
        have hkl : k = l := Option.some.inj (hkey.symm.trans hl)
        exact hkl ▸ hfresh q hq k List.mem_cons_self
      · intro q hq eid heid
        rcases List.mem_cons.mp hq with rfl | hq
        · intro hread
          have hke : k = eid := Option.some.inj (hkey.symm.trans hread)
          exact hseen (hke ▸ heid)
        · exact hfresh q hq eid (List.mem_cons_of_mem _ heid)
      · rw [actsFor_cons, List.foldl_cons]
        by_cases heid : Eid.ofText? key = some eid
        -- the endpoint of this entry, with which no later entry is concerned
        · have hke : k = eid := Option.some.inj (hkey.symm.trans heid)
          subst hke
          have hlater : actsFor Eid.ofText? .update rest k = [] :=
            actsFor_eq_nil fun q hq => hfresh q hq k List.mem_cons_self
          have htail := hacts k
          rw [hlater, Place.runAll_nil, endpoint?_run, if_pos hk.symm] at htail
          rw [if_pos heid, hlater, List.append_nil, Place.runAll_singleton, hd' k hseen, hrun,
            ← hd' k hseen]
          exact htail
        -- another endpoint, which the step leaves alone
        · have hne : eid ≠ s.eid := fun heq => heid (by rw [heq, hk, hkey])
          have htail := hacts eid
          rw [endpoint?_run, if_neg hne] at htail
          rw [if_neg heid, List.nil_append]
          exact htail

/-- The entries of a change can be staged if their keys denote different numbers and nothing that
they do is refused. -/
theorem stageEntries_ok (hd : d.WellFormed ip) {entries : List (String × Entry EndpointChange)}
    {seen : List Eid} (hread : KeysRead Eid.ofText? entries)
    (hdiffer : KeysDiffer Eid.ofText? entries)
    (hfresh : ∀ p ∈ entries, ∀ eid ∈ seen, Eid.ofText? p.1 ≠ some eid)
    (hacts : ∀ eid, (Endpoint.place table now ip eid).runAll (d.endpoint? eid)
      (actsFor Eid.ofText? .update entries eid) ≠ none) :
    ∃ steps, d.stageEntries table now seen entries = .ok steps := by
  induction entries generalizing seen with
  | nil => exact ⟨[], rfl⟩
  | cons p rest ih =>
    obtain ⟨key, e⟩ := p
    obtain ⟨k, hkey⟩ : ∃ k, Eid.ofText? key = some k := hread (key, e) List.mem_cons_self
    obtain ⟨hfirst, hdiffer⟩ := List.pairwise_cons.mp hdiffer
    have hseen : k ∉ seen := fun hmem =>
      hfresh (key, e) List.mem_cons_self k hmem hkey
    have hlater : ∀ q ∈ rest, Eid.ofText? q.1 ≠ some k := fun q hq => hfirst q hq k hkey
    -- the first entry is alone at its number, so what it does is all that is done there
    obtain ⟨s, hs⟩ : ∃ s, d.stageEntry table now k e = .ok s := by
      refine stageEntry_ok hd fun hnone => hacts k ?_
      rw [actsFor_cons, if_pos hkey, actsFor_eq_nil hlater, List.append_nil,
        Place.runAll_singleton, hnone]
    have hfresh' : ∀ q ∈ rest, ∀ eid ∈ k :: seen, Eid.ofText? q.1 ≠ some eid := by
      intro q hq eid heid
      rcases List.mem_cons.mp heid with rfl | heid
      · exact hlater q hq
      · exact hfresh q (List.mem_cons_of_mem _ hq) eid heid
    obtain ⟨steps, hsteps⟩ := ih (fun q hq => hread q (List.mem_cons_of_mem _ hq)) hdiffer hfresh'
      (fun eid => by
        by_cases heid : Eid.ofText? key = some eid
        · have hke : k = eid := Option.some.inj (hkey.symm.trans heid)
          rw [← hke, actsFor_eq_nil hlater]
          simp
        · have hacts := hacts eid
          rw [actsFor_cons, if_neg heid, List.nil_append] at hacts
          exact hacts)
    refine ⟨s :: steps, ?_⟩
    rw [stageEntries, requiredEid_eq_ok_iff.mpr hkey, ok_bind, if_neg hseen, hs, ok_bind, hsteps]
    rfl

/-! ### Deletions in a device -/

theorem frame_foldl_without (eids : List Eid) :
    (eids.foldl without d).ip = d.ip ∧ (eids.foldl without d).header = d.header := by
  induction eids generalizing d with
  | nil => exact ⟨rfl, rfl⟩
  | cons eid rest ih => exact ih (d := d.without eid)

/-- **The tombstones of a change** empty their places one after another. -/
theorem tombstones_spec (table : BoundsTable) (now : Time) (ip : String)
    {entries : List (String × Entry EndpointChange)} {eids : List Eid}
    (h : tombstones entries = .ok eids) :
    KeysRead Eid.ofText? entries ∧ ∀ (d : Device) eid,
      (Endpoint.place table now ip eid).runAll (d.endpoint? eid)
        (actsFor Eid.ofText? .delete entries eid) =
          some ((eids.foldl without d).endpoint? eid) := by
  induction entries generalizing eids with
  | nil =>
    cases h
    exact ⟨fun p hp => absurd hp List.not_mem_nil, fun d eid => rfl⟩
  | cons p rest ih =>
    obtain ⟨key, e⟩ := p
    rw [tombstones, bind_eq_ok_iff] at h
    obtain ⟨k, hkey, h⟩ := h
    rw [requiredEid_eq_ok_iff] at hkey
    obtain ⟨later, hlater, h⟩ := bind_eq_ok_iff.mp h
    obtain ⟨hread, hacts⟩ := ih hlater
    refine ⟨fun q hq => ?_, fun d eid => ?_⟩
    · rcases List.mem_cons.mp hq with rfl | hq
      · exact ⟨k, hkey⟩
      · exact hread q hq
    · rw [actsFor_cons, hkey]
      cases e with
      -- of a deletion a change is read and then passed over
      | change c =>
        cases h
        by_cases heid : some k = some eid
        · rw [if_pos heid, List.singleton_append, Place.runAll_cons]
          exact hacts d eid
        · rw [if_neg heid, List.nil_append]
          exact hacts d eid
      | tombstone =>
        cases h
        have htail := hacts (d.without k) eid
        rw [endpoint?_without] at htail
        by_cases heid : some k = some eid
        · rw [if_pos (Option.some.inj heid).symm] at htail
          rw [if_pos heid, List.singleton_append, Place.runAll_cons]
          exact htail
        · rw [if_neg fun heq => heid (congrArg some heq.symm)] at htail
          rw [if_neg heid, List.nil_append]
          exact htail

theorem tombstones_ok {entries : List (String × Entry EndpointChange)}
    (h : KeysRead Eid.ofText? entries) : ∃ eids, tombstones entries = .ok eids := by
  induction entries with
  | nil => exact ⟨[], rfl⟩
  | cons p rest ih =>
    obtain ⟨key, e⟩ := p
    obtain ⟨k, hkey⟩ : ∃ k, Eid.ofText? key = some k := h (key, e) List.mem_cons_self
    obtain ⟨eids, heids⟩ := ih fun q hq => h q (List.mem_cons_of_mem _ hq)
    rw [tombstones, requiredEid_eq_ok_iff.mpr hkey, ok_bind, heids, ok_bind]
    exact ⟨_, rfl⟩

end Device

/-! ### The entry of a device -/

namespace Patch

/-- A deletion does nothing to an endpoint that is not there. -/
theorem runAll_none_of_delete {γ α : Type} (place : Place α γ) {κ : Type} [DecidableEq κ]
    {read : String → Option κ} (entries : List (String × Entry γ)) (k : κ) :
    place.runAll none (actsFor read .delete entries k) = some none := by
  induction entries with
  | nil => rfl
  | cons p rest ih =>
    obtain ⟨key, e⟩ := p
    rw [actsFor_cons]
    by_cases hk : read key = some k
    · rw [if_pos hk, List.singleton_append, Place.runAll_cons]
      cases e <;> exact ih
    · rw [if_neg hk, List.nil_append]
      exact ih

/-- **The entry of a device takes** what is at an address to something else, header and endpoints
alike. -/
structure Entry.Takes (e : Entry DeviceChange) (manner : Tree.Manner) (table : BoundsTable)
    (now : Time) (ip : String) (a b : Option Device) : Prop where
  legible : ∀ c, e = .change c → c.Legible manner
  wellFormed : ∀ d, b = some d → d.WellFormed ip
  header : (Header.place ip).run (a.map Device.header) (e.act manner) = some (b.map Device.header)
  endpoints : ∀ eid,
    (Endpoint.place table now ip eid).runAll (a.bind (·.endpoint? eid))
      (e.endpointActs manner eid) = some (b.bind (·.endpoint? eid))

theorem Entry.takes_tombstone {manner : Tree.Manner} {table : BoundsTable} {now : Time}
    {ip : String} (a : Option Device) :
    (Entry.tombstone).Takes manner table now ip a none where
  legible _ h := nomatch h
  wellFormed _ h := nomatch h
  header := rfl
  endpoints _ := rfl

end Patch

namespace Device

variable {table : BoundsTable} {now : Time} {ip : String} {d : Device}

/-- **A change that is applied to a device** takes it to the outcome. -/
theorem update_spec (hd : d.WellFormed ip) {c : DeviceChange} {d' : Device}
    (h : d.update table now c = .ok d') :
    (Entry.change c).Takes .update table now ip (some d) (some d') := by
  obtain ⟨steps, hsteps, rfl⟩ := map_eq_ok_iff.mp h
  have hsame : ∀ eid, eid ∉ [] → (d.updateHeader c).endpoint? eid = d.endpoint? eid :=
    fun eid _ => rfl
  obtain ⟨hread, hdiffer, -, hacts⟩ := stageEntries_spec hd hsteps hsame
  obtain ⟨haddress, hheader⟩ := frame_foldl_run (d := d.updateHeader c) steps
  refine ⟨fun c' hc => ?_, fun d'' hd'' => ?_, congrArg (fun h => some (some h)) hheader.symm,
    hacts⟩
  · cases hc
    exact ⟨hread, fun _ => hdiffer⟩
  · cases hd''
    exact ⟨haddress.trans hd.address, hd.named, fun eid =>
      Endpoint.belongs_of_runAll (hd.endpoints eid) (hacts eid)⟩

theorem update_ok (hd : d.WellFormed ip) {c : DeviceChange} (hc : c.Legible .update)
    (hacts : ∀ eid, (Endpoint.place table now ip eid).runAll (d.endpoint? eid)
      (actsFor Eid.ofText? .update c.endpoints.entries eid) ≠ none) :
    ∃ d', d.update table now c = .ok d' := by
  have hfresh : ∀ p ∈ c.endpoints.entries, ∀ eid ∈ [], Eid.ofText? p.1 ≠ some eid :=
    fun p _ eid heid => absurd heid List.not_mem_nil
  obtain ⟨steps, hsteps⟩ := stageEntries_ok hd hc.read (hc.differ rfl) hfresh hacts
  exact ⟨_, map_eq_ok_iff.mpr ⟨steps, hsteps, rfl⟩⟩

theorem wellFormed_create (name : String) (lastUpdate : Time) (hip : ip ≠ "") :
    (⟨ip, name, lastUpdate, ∅⟩ : Device).WellFormed ip :=
  ⟨rfl, hip, fun _ _ h => nomatch h⟩

/-- **A change that creates a device** takes nothing to the device. -/
theorem ofChange_spec {c : DeviceChange} {d' : Device} (h : ofChange table now ip c = .ok d') :
    (Entry.change c).Takes .update table now ip none (some d') := by
  unfold ofChange at h
  split at h
  · next name lastUpdate hname htime =>
    obtain ⟨d, hd, h⟩ := bind_eq_ok_iff.mp h
    unfold create at hd
    by_cases hip : ip = ""
    · rw [if_pos hip] at hd
      cases hd
    · rw [if_neg hip] at hd
      cases hd
      -- a device is created empty and then changed, so only the header has to be looked at
      have htakes := update_spec (wellFormed_create name lastUpdate hip) h
      refine ⟨htakes.legible, htakes.wellFormed, ?_, htakes.endpoints⟩
      rw [← htakes.header]
      simp only [Option.map_none, Option.map_some, Entry.act, Place.run_none_change,
        Place.run_some_change, Header.place, hname, htime, if_neg hip, Option.getD_some]
  · cases h

/-- A device can be created from a change that is legible if nothing that it does is refused. -/
theorem ofChange_ok {c : DeviceChange} (hc : c.Legible .update)
    (hheader : (Header.place ip).run none (.change c) ≠ none)
    (hacts : ∀ eid, (Endpoint.place table now ip eid).runAll none
      (actsFor Eid.ofText? .update c.endpoints.entries eid) ≠ none) :
    ∃ d', ofChange table now ip c = .ok d' := by
  cases hname : c.name with
  | none => simp [Header.place, hname] at hheader
  | some name =>
    cases htime : c.lastUpdate with
    | none => simp [Header.place, hname, htime] at hheader
    | some lastUpdate =>
      have hip : ip ≠ "" := by
        intro hip
        simp [Header.place, hname, htime, hip] at hheader
      obtain ⟨d', hd'⟩ := update_ok (wellFormed_create name lastUpdate hip) hc hacts
      refine ⟨d', ?_⟩
      simp only [ofChange, hname, htime, create, if_neg hip, ok_bind]
      exact hd'

/-- **A deletion that is applied to a device** takes it to the outcome. -/
theorem prune_spec (hd : d.WellFormed ip) {c : DeviceChange} {d' : Device}
    (h : d.prune c = .ok d') :
    (Entry.change c).Takes .delete table now ip (some d) (some d') := by
  obtain ⟨eids, heids, rfl⟩ := map_eq_ok_iff.mp h
  obtain ⟨hread, hacts⟩ := tombstones_spec table now ip heids
  obtain ⟨haddress, hheader⟩ := frame_foldl_without (d := d) eids
  refine ⟨fun c' hc => ?_, fun d'' hd'' => ?_, congrArg (fun h => some (some h)) hheader.symm,
    hacts d⟩
  · cases hc
    exact ⟨hread, nofun⟩
  · cases hd''
    exact ⟨haddress.trans hd.address, hd.named, fun eid =>
      Endpoint.belongs_of_runAll (hd.endpoints eid) (hacts d eid)⟩

end Device

/-! ### A single view -/

namespace View

theorem requiredId_eq_ok_iff {key : String} {id : Uuid} :
    requiredId key = .ok id ↔ Uuid.ofText? key = some id := by
  unfold requiredId
  cases Uuid.ofText? key with
  | none => simp
  | some l => simp

/-- A change with a name and references makes the same of whatever stands there. -/
theorem run_change {id : Uuid} {c : ViewChange} {name : String} {references : List String}
    (hname : c.name = some name) (hreferences : c.references = some references)
    (a : Option View) : (place id).run a (.change c) = some (some ⟨id, name, references⟩) := by
  cases a <;> simp [place, hname, hreferences]

/-- **A change that a view accepts** is whole, and makes the same of whatever stands there. -/
theorem update_spec {v w : View} {c : ViewChange} (h : v.update c = .ok w) :
    c.Whole v.id ∧ ∀ a, (place v.id).run a (.change c) = some (some w) := by
  unfold update at h
  split at h
  · cases h
  · next hsame =>
    split at h
    · next name references hname hreferences =>
      cases h
      refine ⟨⟨fun id' hid' => ?_, ⟨name, hname⟩, ⟨references, hreferences⟩⟩,
        run_change hname hreferences⟩
      simpa [hid'] using hsame
    · cases h

end View

/-! ### The devices of a tree -/

namespace Tree

variable {t : Tree} {now : Time} {manner : Manner}

/-- What the entry of a device comes down to, in either manner. -/
def stageDevice (t : Tree) (now : Time) :
    Manner → String × Entry DeviceChange → Except TreeError (Option (String × Step Device))
  | .update => t.updateDevice now
  | .delete => t.pruneDevice

/-- What the entry of a view comes down to, in either manner. -/
def stageView (t : Tree) :
    Manner → String × Entry ViewChange → Except TreeError (Option (Uuid × Step View))
  | .update => t.updateView
  | .delete => pruneView

/-- A patch is staged. -/
def stagePatch (t : Tree) (now : Time) (manner : Manner) (p : Patch) : Except TreeError Staged := do
  let devices ← stageAll (t.stageDevice now manner) p.devices.entries
  let views ← stageAll (t.stageView manner) p.views.entries
  .ok ⟨devices, views⟩

/-- **Applying a patch** is staging and committing it, in either manner. -/
theorem apply_eq (t : Tree) (now : Time) (manner : Manner) (p : Patch) :
    t.apply now manner p = (t.stagePatch now manner p).map t.commit := by
  cases manner <;> rfl

/-- What stands at a key after a step, if there is one. -/
def outcome {κ α : Type} : Option (κ × Step α) → Option α → Option α
  | none, a => a
  | some (_, .remove), _ => none
  | some (_, .put a), _ => some a

/-- **What the entry of a device comes down to** takes what is at the address to the outcome. -/
theorem stageDevice_spec (ht : t.WellFormed) {ip : String} {e : Entry DeviceChange}
    {o : Option (String × Step Device)} (h : t.stageDevice now manner (ip, e) = .ok o) :
    (∀ q, o = some q → q.1 = ip) ∧
      e.Takes manner t.bounds now ip (t.device? ip) (outcome o (t.device? ip)) := by
  cases e with
  -- a tombstone is not looked into, in either manner
  | tombstone =>
    have hstep : t.stageDevice now manner (ip, .tombstone) = .ok (some (ip, .remove)) := by
      cases manner <;> rfl
    cases hstep.symm.trans h
    exact ⟨fun q hq => by cases hq; rfl, Entry.takes_tombstone _⟩
  | change c =>
    cases hd : t.device? ip with
    | some d =>
      cases manner with
      | update =>
        simp only [stageDevice, updateDevice, hd] at h
        obtain ⟨d', hd', h⟩ := bind_eq_ok_iff.mp h
        cases h
        exact ⟨fun q hq => by cases hq; rfl, Device.update_spec (ht.devices ip d hd) hd'⟩
      | delete =>
        simp only [stageDevice, pruneDevice, hd] at h
        obtain ⟨d', hd', h⟩ := map_eq_ok_iff.mp h
        cases h
        exact ⟨fun q hq => by cases hq; rfl, Device.prune_spec (ht.devices ip d hd) hd'⟩
    | none =>
      cases manner with
      | update =>
        simp only [stageDevice, updateDevice, hd] at h
        obtain ⟨d', hd', h⟩ := bind_eq_ok_iff.mp h
        cases h
        exact ⟨fun q hq => by cases hq; rfl, Device.ofChange_spec hd'⟩
      | delete =>
        simp only [stageDevice, pruneDevice, hd] at h
        obtain ⟨eids, heids, h⟩ := map_eq_ok_iff.mp h
        cases h
        -- nothing is there, but the keys are read all the same
        have hread := (Device.tombstones_spec t.bounds now ip heids).1
        exact ⟨nofun, fun c' hc => by cases hc; exact ⟨hread, nofun⟩, nofun, rfl,
          fun eid => Patch.runAll_none_of_delete _ _ _⟩

/-- The entry of a device can be staged if it is legible and nothing that it does is refused. -/
theorem stageDevice_ok (ht : t.WellFormed) {ip : String} {e : Entry DeviceChange}
    (hlegible : ∀ c, e = .change c → c.Legible manner)
    (hheader : (Header.place ip).run (t.header? ip) (e.act manner) ≠ none)
    (hacts : ∀ eid, (Endpoint.place t.bounds now ip eid).runAll (t.endpointAt? ip eid)
      (e.endpointActs manner eid) ≠ none) :
    ∃ o, t.stageDevice now manner (ip, e) = .ok o := by
  unfold header? endpointAt? at *
  cases e with
  | tombstone => cases manner <;> exact ⟨_, rfl⟩
  | change c =>
    cases hd : t.device? ip with
    -- the device is there, so its header is none of the reasons to refuse the change
    | some d =>
      rw [hd] at hacts
      cases manner with
      | update =>
        obtain ⟨d', hd'⟩ := Device.update_ok (ht.devices ip d hd) (hlegible c rfl) hacts
        simp only [stageDevice, updateDevice, hd, hd', ok_bind]
        exact ⟨_, rfl⟩
      | delete =>
        obtain ⟨eids, heids⟩ := Device.tombstones_ok (hlegible c rfl).read
        simp only [stageDevice, pruneDevice, hd, Device.prune, heids]
        exact ⟨_, rfl⟩
    -- the device has to be created, while of a deletion only the numbers are read
    | none =>
      rw [hd] at hacts hheader
      cases manner with
      | update =>
        obtain ⟨d', hd'⟩ := Device.ofChange_ok (hlegible c rfl) hheader hacts
        simp only [stageDevice, updateDevice, hd, hd', ok_bind]
        exact ⟨_, rfl⟩
      | delete =>
        obtain ⟨eids, heids⟩ := Device.tombstones_ok (hlegible c rfl).read
        simp only [stageDevice, pruneDevice, hd, heids]
        exact ⟨_, rfl⟩

/-! ### Staging entry after entry -/

section

variable {α β κ : Type}

theorem stageAll_ok {stage : α → Except TreeError (Option β)} {as : List α}
    (h : ∀ a ∈ as, ∃ o, stage a = .ok o) : ∃ bs, stageAll stage as = .ok bs := by
  induction as with
  | nil => exact ⟨[], rfl⟩
  | cons a rest ih =>
    obtain ⟨o, ho⟩ := h a List.mem_cons_self
    obtain ⟨bs, hbs⟩ := ih fun b hb => h b (List.mem_cons_of_mem _ hb)
    rw [stageAll, ho, ok_bind, hbs]
    exact ⟨_, rfl⟩

theorem exists_of_stageAll {stage : α → Except TreeError (Option β)} {as : List α} {bs : List β}
    (h : stageAll stage as = .ok bs) : ∀ a ∈ as, ∃ o, stage a = .ok o := by
  induction as generalizing bs with
  | nil => exact fun a ha => absurd ha List.not_mem_nil
  | cons a rest ih =>
    rw [stageAll] at h
    obtain ⟨o, ho, h⟩ := bind_eq_ok_iff.mp h
    obtain ⟨bs', hbs, -⟩ := bind_eq_ok_iff.mp h
    intro b hb
    rcases List.mem_cons.mp hb with rfl | hb
    · exact ⟨o, ho⟩
    · exact ih hbs b hb

variable [Ord κ] [Std.TransOrd κ] [Std.LawfulEqOrd κ] [DecidableEq κ]

/-- **What an entry comes down to** changes a map at its own key. -/
theorem get?_foldl_outcome {o : Option (κ × Step α)} {k : κ} (ho : ∀ q, o = some q → q.1 = k)
    (m : SortedMap κ α) (l : κ) :
    (o.toList.foldl Step.run m).get? l = if l = k then outcome o (m.get? l) else m.get? l := by
  cases o with
  | none => exact (ite_self _).symm
  | some q =>
    obtain ⟨k', s⟩ := q
    cases ho _ rfl
    cases s with
    | remove => exact SortedMap.get?_erase
    | put a => exact SortedMap.get?_insert

/-- **The steps of entries under different keys** change a map at these keys and nowhere else. -/
theorem get?_foldl_devices {stage : κ × β → Except TreeError (Option (κ × Step α))}
    (hkey : ∀ p o, stage p = .ok o → ∀ q, o = some q → q.1 = p.1) {entries : List (κ × β)}
    (hnodup : (entries.map Prod.fst).Nodup) {steps : List (κ × Step α)}
    (h : stageAll stage entries = .ok steps) (m : SortedMap κ α) :
    (∀ k, k ∉ entries.map Prod.fst → (steps.foldl Step.run m).get? k = m.get? k) ∧
      ∀ k b o, (k, b) ∈ entries → stage (k, b) = .ok o →
        (steps.foldl Step.run m).get? k = outcome o (m.get? k) := by
  induction entries generalizing steps m with
  | nil =>
    cases h
    exact ⟨fun k _ => rfl, fun k b o hmem => absurd hmem List.not_mem_nil⟩
  | cons p rest ih =>
    obtain ⟨l, c⟩ := p
    rw [List.map_cons, List.nodup_cons] at hnodup
    rw [stageAll] at h
    obtain ⟨o₁, ho₁, h⟩ := bind_eq_ok_iff.mp h
    obtain ⟨steps', hsteps, h⟩ := bind_eq_ok_iff.mp h
    cases h
    have hfirst := get?_foldl_outcome (hkey (l, c) o₁ ho₁) m
    obtain ⟨hother, hown⟩ := ih hnodup.2 hsteps (o₁.toList.foldl Step.run m)
    rw [List.foldl_append]
    refine ⟨fun k hk => ?_, fun k b o hmem ho => ?_⟩
    · rw [List.map_cons, List.mem_cons, not_or] at hk
      rw [hother k hk.2, hfirst, if_neg hk.1]
    · rcases List.mem_cons.mp hmem with heq | hmem
      -- the first entry: no later one has its key
      · cases heq
        cases ho₁.symm.trans ho
        rw [hother l hnodup.1, hfirst, if_pos rfl]
      · have hne : k ≠ l := fun heq => hnodup.1 (heq ▸ List.mem_map.mpr ⟨_, hmem, rfl⟩)
        rw [hown k b o hmem ho, hfirst, if_neg hne]

end

/-! ### The views of a tree -/

/-- **What the entry of a view comes down to** is what the entry does, whatever stands there. -/
theorem stageView_spec (ht : t.WellFormed) {key : String} {e : Entry ViewChange}
    {o : Option (Uuid × Step View)} (h : t.stageView manner (key, e) = .ok o) :
    ∃ id, Uuid.ofText? key = some id ∧ (∀ q, o = some q → q.1 = id) ∧
      (manner = .update → ∀ c, e = .change c → c.Whole id) ∧
      ∀ a, (View.place id).run a (e.act manner) = some (outcome o a) := by
  cases manner with
  | update =>
    simp only [stageView, updateView] at h
    obtain ⟨id, hid, h⟩ := bind_eq_ok_iff.mp h
    refine ⟨id, View.requiredId_eq_ok_iff.mp hid, ?_⟩
    cases e with
    | tombstone =>
      cases h
      refine ⟨fun q hq => ?_, fun _ c hc => ?_, fun a => rfl⟩
      · cases hq
        rfl
      · cases hc
    | change c =>
      -- a view that is there and one that is made are changed in the same way
      obtain ⟨w, ho, hwhole, hrun⟩ : ∃ w, o = some (id, .put w) ∧ c.Whole id ∧
          ∀ a, (View.place id).run a (.change c) = some (some w) := by
        cases hv : t.view? id with
        | none =>
          simp only [hv] at h
          obtain ⟨w, hw, h⟩ := bind_eq_ok_iff.mp h
          cases h
          exact ⟨w, rfl, View.update_spec hw⟩
        | some v =>
          simp only [hv] at h
          obtain ⟨w, hw, h⟩ := bind_eq_ok_iff.mp h
          cases h
          have hsame := View.update_spec hw
          rw [ht.views id v hv] at hsame
          exact ⟨w, rfl, hsame⟩
      cases ho
      refine ⟨fun q hq => ?_, fun _ c' hc' => ?_, hrun⟩
      · cases hq
        rfl
      · cases hc'
        exact hwhole
  | delete =>
    simp only [stageView, pruneView] at h
    obtain ⟨id, hid, h⟩ := map_eq_ok_iff.mp h
    refine ⟨id, View.requiredId_eq_ok_iff.mp hid, ?_⟩
    cases e with
    | tombstone =>
      cases h
      refine ⟨fun q hq => ?_, fun hm => ?_, fun a => rfl⟩
      · cases hq
        rfl
      · cases hm
    | change c =>
      cases h
      refine ⟨fun q hq => ?_, fun hm => ?_, fun a => rfl⟩
      · cases hq
      · cases hm

/-- The entry of a view can be staged if its key is an identifier and its change is whole. -/
theorem stageView_ok (ht : t.WellFormed) {key : String} {e : Entry ViewChange} {id : Uuid}
    (hkey : Uuid.ofText? key = some id)
    (hwhole : manner = .update → ∀ c, e = .change c → c.Whole id) :
    ∃ o, t.stageView manner (key, e) = .ok o := by
  have hrequired := View.requiredId_eq_ok_iff.mpr hkey
  cases manner with
  | delete =>
    simp only [stageView, pruneView, hrequired]
    exact ⟨_, rfl⟩
  | update =>
    simp only [stageView, updateView, hrequired, ok_bind]
    cases e with
    | tombstone => exact ⟨_, rfl⟩
    | change c =>
      obtain ⟨hsame, ⟨name, hname⟩, ⟨references, hreferences⟩⟩ := hwhole rfl c rfl
      -- a whole change replaces any view of the identifier, a blank new one as well
      have hupdate : ∀ v : View, v.id = id → ∃ w, v.update c = .ok w := by
        intro v hv
        unfold View.update
        have hnot : ¬ c.id.any (· ≠ v.id) := by
          cases hid : c.id with
          | none => simp
          | some id' => simp [hv, hsame id' hid]
        rw [if_neg hnot, hname, hreferences]
        exact ⟨_, rfl⟩
      cases hv : t.view? id with
      | none =>
        obtain ⟨w, hw⟩ := hupdate ⟨id, "", []⟩ rfl
        simp only [View.ofChange, hw, ok_bind]
        exact ⟨_, rfl⟩
      | some v =>
        obtain ⟨w, hw⟩ := hupdate v (ht.views id v hv)
        simp only [hw, ok_bind]
        exact ⟨_, rfl⟩

/-- **The steps of entries of views** do at every identifier what the entries do, one after
another. -/
theorem runAll_foldl_views (ht : t.WellFormed) {entries : List (String × Entry ViewChange)}
    {steps : List (Uuid × Step View)} (h : stageAll (t.stageView manner) entries = .ok steps)
    (m : SortedMap Uuid View) (id : Uuid) :
    (View.place id).runAll (m.get? id) (actsFor Uuid.ofText? manner entries id) =
      some ((steps.foldl Step.run m).get? id) := by
  induction entries generalizing steps m with
  | nil =>
    cases h
    rfl
  | cons p rest ih =>
    obtain ⟨key, e⟩ := p
    rw [stageAll] at h
    obtain ⟨o, ho, h⟩ := bind_eq_ok_iff.mp h
    obtain ⟨steps', hsteps, h⟩ := bind_eq_ok_iff.mp h
    cases h
    obtain ⟨l, hkey, hown, -, hrun⟩ := stageView_spec ht ho
    have hlater := ih hsteps (o.toList.foldl Step.run m)
    rw [get?_foldl_outcome hown] at hlater
    rw [actsFor_cons, hkey, List.foldl_append]
    -- unlike devices, views may be named twice: what the later entries do starts from `hlater`
    by_cases hid : id = l
    · subst hid
      rw [if_pos rfl] at hlater
      rw [if_pos rfl, List.singleton_append, Place.runAll_cons, hrun, Option.bind_some]
      exact hlater
    · rw [if_neg hid] at hlater
      rw [if_neg fun heq => hid (Option.some.inj heq).symm, List.nil_append]
      exact hlater

end Tree

/-! ### The whole patch -/

namespace View

theorem belongs_of_runAll {id : Uuid} {a b : Option View} {acts : List (Act ViewChange)}
    (ha : ∀ v, a = some v → v.id = id) (h : (place id).runAll a acts = some b) :
    ∀ v, b = some v → v.id = id := by
  induction acts generalizing a with
  | nil =>
    cases h
    exact ha
  | cons act rest ih =>
    obtain ⟨a', ha', h⟩ := Option.bind_eq_some_iff.mp h
    refine ih (fun v hv => ?_) h
    subst hv
    cases act with
    | keep => exact ha v (Option.some.inj ha')
    | remove => cases ha'
    | change c =>
      cases a with
      | some w => cases ha'; rfl
      | none =>
        obtain ⟨w, hw, heq⟩ := Option.map_eq_some_iff.mp ha'
        cases heq
        simp only [place] at hw
        split at hw
        · cases hw; rfl
        · cases hw

end View

namespace Patch

variable {p : Patch} {manner : Tree.Manner} {now : Time} {t u u' : Tree}

theorem Takes.unique (h : p.Takes manner now t u) (h' : p.Takes manner now t u') : u = u' :=
  Tree.ext_places h.wellFormed h'.wellFormed (h.bounds.trans h'.bounds.symm)
    (fun ip => Option.some.inj ((h.headers ip).symm.trans (h'.headers ip)))
    (fun ip eid => Option.some.inj ((h.endpoints ip eid).symm.trans (h'.endpoints ip eid)))
    fun id => Option.some.inj ((h.views id).symm.trans (h'.views id))

theorem headerActs_some {ip : String} {e : Entry DeviceChange} (h : p.devices.get? ip = some e) :
    p.headerActs manner ip = [e.act manner] := by
  rw [headerActs, h]
  rfl

theorem headerActs_none {ip : String} (h : p.devices.get? ip = none) :
    p.headerActs manner ip = [] := by
  rw [headerActs, h]
  rfl

theorem endpointActs_some {ip : String} {eid : Eid} {e : Entry DeviceChange}
    (h : p.devices.get? ip = some e) :
    p.endpointActs manner ip eid = e.endpointActs manner eid := by
  rw [endpointActs, h]
  rfl

theorem endpointActs_none {ip : String} {eid : Eid} (h : p.devices.get? ip = none) :
    p.endpointActs manner ip eid = [] := by
  rw [endpointActs, h]
  rfl

end Patch

namespace Tree

variable {p : Patch} {manner : Manner} {now : Time} {t u : Tree}

/-- A patch that was applied takes the tree to the outcome. -/
theorem takes_of_apply (ht : t.WellFormed) (h : t.apply now manner p = .ok u) :
    p.Takes manner now t u := by
  rw [apply_eq] at h
  obtain ⟨staged, hstaged, rfl⟩ := map_eq_ok_iff.mp h
  obtain ⟨devices, hdevices, hstaged⟩ := bind_eq_ok_iff.mp hstaged
  obtain ⟨views, hviews, hstaged⟩ := bind_eq_ok_iff.mp hstaged
  cases hstaged
  have hkey : ∀ p o, t.stageDevice now manner p = .ok o → ∀ q, o = some q → q.1 = p.1 :=
    fun _ _ ho => (stageDevice_spec ht ho).1
  obtain ⟨hother, hown⟩ := get?_foldl_devices hkey (SortedMap.nodup_keys p.devices) hdevices
    t.devices
  -- an address without an entry keeps its device; at the others the entry takes it to the outcome
  have hnone : ∀ ip, p.devices.get? ip = none →
      (t.commit ⟨devices, views⟩).device? ip = t.device? ip := by
    intro ip hip
    refine hother ip fun hmem => ?_
    obtain ⟨e, he⟩ := SortedMap.mem_keys_iff.mp hmem
    rw [hip] at he
    cases he
  have hsome : ∀ ip e, p.devices.get? ip = some e → e.Takes manner t.bounds now ip (t.device? ip)
      ((t.commit ⟨devices, views⟩).device? ip) := by
    intro ip e he
    have hmem := SortedMap.get?_eq_some_iff.mp he
    obtain ⟨o, ho⟩ := exists_of_stageAll hdevices _ hmem
    have hcommit : (t.commit ⟨devices, views⟩).device? ip = outcome o (t.device? ip) :=
      hown ip e o hmem ho
    rw [hcommit]
    exact (stageDevice_spec ht ho).2
  have hview := runAll_foldl_views ht hviews t.views
  refine ⟨⟨fun ip c hc => (hsome ip _ hc).legible c rfl, fun q hq => ?_,
    fun hm key c id hc hid => ?_⟩, ⟨fun ip d hd => ?_, fun id => ?_⟩, rfl, fun ip => ?_,
    fun ip eid => ?_, hview⟩
  -- the keys of views are identifiers, and their changes are whole
  · obtain ⟨o, ho⟩ := exists_of_stageAll hviews q hq
    obtain ⟨id, hid, -⟩ := stageView_spec ht ho
    exact ⟨id, hid⟩
  · obtain ⟨o, ho⟩ := exists_of_stageAll hviews _ (SortedMap.get?_eq_some_iff.mp hc)
    obtain ⟨id', hid', -, hwhole, -⟩ := stageView_spec ht ho
    cases hid.symm.trans hid'
    exact hwhole hm c rfl
  -- the outcome is well-formed
  · cases he : p.devices.get? ip with
    | none => exact ht.devices ip d (hnone ip he ▸ hd)
    | some e => exact (hsome ip e he).wellFormed d hd
  · exact View.belongs_of_runAll (ht.views id) (hview id)
  -- the headers and the endpoints
  · unfold header?
    cases he : p.devices.get? ip with
    | none => rw [hnone ip he, Patch.headerActs_none he, Place.runAll_nil]
    | some e =>
      rw [Patch.headerActs_some he, Place.runAll_singleton]
      exact (hsome ip e he).header
  · unfold endpointAt?
    cases he : p.devices.get? ip with
    | none => rw [hnone ip he, Patch.endpointActs_none he, Place.runAll_nil]
    | some e =>
      rw [Patch.endpointActs_some he]
      exact (hsome ip e he).endpoints eid

/-- **A patch is accepted** if it is legible and nothing that it does is refused. -/
theorem exists_apply (ht : t.WellFormed) (hlegible : p.Legible manner)
    (hheaders : ∀ ip, (Header.place ip).runAll (t.header? ip) (p.headerActs manner ip) ≠ none)
    (hendpoints : ∀ ip eid, (Endpoint.place t.bounds now ip eid).runAll (t.endpointAt? ip eid)
      (p.endpointActs manner ip eid) ≠ none) :
    ∃ u, t.apply now manner p = .ok u := by
  obtain ⟨devices, hdevices⟩ : ∃ devices,
      stageAll (t.stageDevice now manner) p.devices.entries = .ok devices := by
    refine stageAll_ok fun q hq => ?_
    obtain ⟨ip, e⟩ := q
    have he := SortedMap.get?_eq_some_iff.mpr hq
    have hheader := hheaders ip
    rw [Patch.headerActs_some he, Place.runAll_singleton] at hheader
    refine stageDevice_ok ht (fun c hc => hlegible.devices ip c (hc ▸ he)) hheader fun eid => ?_
    have hendpoint := hendpoints ip eid
    rw [Patch.endpointActs_some he] at hendpoint
    exact hendpoint
  obtain ⟨views, hviews⟩ : ∃ views,
      stageAll (t.stageView manner) p.views.entries = .ok views := by
    refine stageAll_ok fun q hq => ?_
    obtain ⟨key, e⟩ := q
    have he := SortedMap.get?_eq_some_iff.mpr hq
    obtain ⟨id, hid⟩ := hlegible.views _ hq
    exact stageView_ok ht hid fun hm c hc => hlegible.whole hm key c id (hc ▸ he) hid
  refine ⟨t.commit ⟨devices, views⟩, ?_⟩
  rw [apply_eq, stagePatch, hdevices, ok_bind, hviews, ok_bind]
  rfl

/-- **Applying a patch is acting at every place.** -/
theorem apply_eq_ok_iff (ht : t.WellFormed) :
    t.apply now manner p = .ok u ↔ p.Takes manner now t u := by
  refine ⟨takes_of_apply ht, fun h => ?_⟩
  obtain ⟨u', hu'⟩ : ∃ u', t.apply now manner p = .ok u' := by
    refine exists_apply ht h.legible (fun ip => ?_) fun ip eid => ?_
    · rw [h.headers ip]
      exact Option.some_ne_none _
    · rw [h.endpoints ip eid]
      exact Option.some_ne_none _
  rw [hu', (takes_of_apply ht hu').unique h]

end Tree

end Fleet
