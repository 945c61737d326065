import Fleet.Proofs.Descriptions
import Mathlib.Data.List.Pairwise

/-!
# What an update means

An update is staged entry by entry, for the tree, for every device and for every endpoint, and what
was staged is committed in three places again. This module says which updates a tree accepts and
what they leave behind, without a word about either.

* A patch is *acceptable* to a tree (`Patch.Acceptable`) if its keys can be read, if no two keys in
  a device denote one endpoint, and if it describes in full whatever is not there yet.
* Its *effects* (`Patch.Effects`) are stated for every device, every endpoint and every view by
  itself: what is not named stays as it was, what has a tombstone is gone, and a change replaces
  what it gives.

Unlike the keys of endpoints, several keys of a patch may denote one view. Then the last of them, in
the order of the keys, decides what becomes of the view (`Patch.Decides`).

The effects leave nothing open (`Patch.Effects.unique`), so they and the acceptance together are the
whole of an update: `Tree.applyUpdate_exact`.
-/

namespace Fleet

open Patch (Entry DeviceChange EndpointChange ViewChange KeysRead KeysDiffer actsFor)

namespace Patch

/-! ### The entries of a patch -/

/-- **The change has an entry for the endpoint**, under a key that denotes its number. -/
def DeviceChange.Has (c : DeviceChange) (eid : Eid) (e : Entry EndpointChange) : Prop :=
  ∃ key, Eid.ofText? key = some eid ∧ c.endpoints.get? key = some e

/-- **The entry decides about the view**: it is the last one, in the order of the keys, whose key
denotes the view. -/
def Decides (p : Patch) (id : Uuid) (e : Entry ViewChange) : Prop :=
  ∃ before key after, p.views.entries = before ++ (key, e) :: after ∧
    Uuid.ofText? key = some id ∧ ∀ q ∈ after, Uuid.ofText? q.1 ≠ some id

section

variable {κ γ : Type} {read : String → Option κ}

theorem keysRead_iff {m : SortedMap String γ} :
    KeysRead read m.entries ↔ ∀ key ∈ m.keys, ∃ k, read key = some k := by
  unfold KeysRead SortedMap.keys
  rw [List.forall_mem_map]

theorem keysDiffer_iff {m : SortedMap String γ} : KeysDiffer read m.entries ↔
    ∀ key ∈ m.keys, ∀ key' ∈ m.keys, ∀ k, read key = some k → read key' = some k → key = key' := by
  constructor
  · intro h key hkey key' hkey' k hk hk'
    obtain ⟨p, hp, rfl⟩ := List.mem_map.mp hkey
    obtain ⟨q, hq, rfl⟩ := List.mem_map.mp hkey'
    have hsymm : Std.Symm fun p q : String × γ => ∀ k, read p.1 = some k → read q.1 ≠ some k :=
      ⟨fun p q hpq k hq hp => hpq k hp hq⟩
    by_contra hne
    exact h.forall hp hq (fun heq => hne (congrArg Prod.fst heq)) k hk hk'
  · intro h
    have hnodup : m.entries.Pairwise fun p q => p.1 ≠ q.1 :=
      List.pairwise_map.mp (SortedMap.nodup_keys m)
    refine hnodup.imp_of_mem fun {p q} hp hq hne k hk hk' => hne ?_
    exact h p.1 (List.mem_map_of_mem hp) q.1 (List.mem_map_of_mem hq) k hk hk'

/-- Of keys that differ, the one that denotes a thing does all that is done to it. -/
theorem actsFor_eq_singleton [DecidableEq κ] {manner : Tree.Manner}
    {entries : List (String × Entry γ)} (hdiffer : KeysDiffer read entries) {key : String}
    {e : Entry γ} (hmem : (key, e) ∈ entries) {k : κ} (hk : read key = some k) :
    actsFor read manner entries k = [e.act manner] := by
  have hact : e.act manner ∈ actsFor read manner entries k :=
    List.mem_filterMap.mpr ⟨(key, e), hmem, if_pos hk⟩
  have hle : (actsFor read manner entries k).length ≤ 1 := length_actsFor_le hdiffer k
  cases hacts : actsFor read manner entries k with
  | nil =>
    rw [hacts] at hact
    cases hact
  | cons act rest =>
    rw [hacts] at hact hle
    cases List.length_eq_zero_iff.mp (Nat.le_zero.mp (Nat.le_of_succ_le_succ hle))
    rw [List.mem_singleton.mp hact]

end

section

variable {p : Patch} {c : DeviceChange} {ip : String} {eid : Eid} {id : Uuid}

/-- What the entry for an endpoint says is all that the patch does to it. -/
theorem endpointActs_of_has (hdiffer : KeysDiffer Eid.ofText? c.endpoints.entries)
    (hc : p.devices.get? ip = some (.change c)) {e : Entry EndpointChange} (he : c.Has eid e) :
    p.endpointActs .update ip eid = [e.act .update] := by
  obtain ⟨key, hkey, he⟩ := he
  rw [endpointActs_some hc]
  exact actsFor_eq_singleton hdiffer (SortedMap.get?_eq_some_iff.mp he) hkey

/-- To an endpoint without an entry nothing is done. -/
theorem endpointActs_of_not_has (hc : p.devices.get? ip = some (.change c))
    (h : ∀ e, ¬ c.Has eid e) : p.endpointActs .update ip eid = [] := by
  rw [endpointActs_some hc]
  exact actsFor_eq_nil fun q hq hkey => h q.2 ⟨q.1, hkey, SortedMap.get?_eq_some_iff.mpr hq⟩

theorem viewActs_of_unnamed {manner : Tree.Manner}
    (h : ∀ key ∈ p.views.keys, Uuid.ofText? key ≠ some id) : p.viewActs manner id = [] :=
  actsFor_eq_nil fun q hq => h q.1 (List.mem_map_of_mem hq)

/-- **What is done to a view last** is what the entry says that decides about it. -/
theorem exists_run_of_decides {manner : Tree.Manner} {e : Entry ViewChange} (h : p.Decides id e)
    {a b : Option View} (hrun : (View.place id).runAll a (p.viewActs manner id) = some b) :
    ∃ before, (View.place id).run before (e.act manner) = some b := by
  obtain ⟨before, key, after, hentries, hkey, hafter⟩ := h
  have happend : actsFor Uuid.ofText? manner (before ++ (key, e) :: after) id =
      actsFor Uuid.ofText? manner before id ++
        actsFor Uuid.ofText? manner ((key, e) :: after) id := List.filterMap_append
  rw [viewActs, hentries, happend, actsFor_cons, if_pos hkey, actsFor_eq_nil hafter,
    List.append_nil, Place.runAll_append] at hrun
  obtain ⟨before, -, hrun⟩ := Option.bind_eq_some_iff.mp hrun
  exact ⟨before, Place.runAll_singleton _ _ _ ▸ hrun⟩

theorem get?_of_decides {e : Entry ViewChange} (h : p.Decides id e) :
    ∃ key, Uuid.ofText? key = some id ∧ p.views.get? key = some e := by
  obtain ⟨before, key, after, hentries, hkey, -⟩ := h
  refine ⟨key, hkey, SortedMap.get?_eq_some_iff.mpr ?_⟩
  rw [hentries]
  exact List.mem_append_right _ List.mem_cons_self

/-- **A view that is named at all** is decided about. -/
theorem exists_decides (h : ∃ key ∈ p.views.keys, Uuid.ofText? key = some id) :
    ∃ e, p.Decides id e := by
  obtain ⟨key, hmem, hkey⟩ := h
  obtain ⟨q, hq, rfl⟩ := List.mem_map.mp hmem
  have hnamed : ∃ q ∈ p.views.entries, Uuid.ofText? q.1 = some id := ⟨q, hq, hkey⟩
  obtain ⟨before, r, after, hentries, hr, hafter⟩ := exists_last hnamed
  exact ⟨r.2, before, r.1, after, hentries, hr, hafter⟩

end

/-! ### What is acceptable -/

/-- **The change of the device at an address is acceptable** to the tree. -/
structure DeviceChange.Acceptable (t : Tree) (ip : String) (c : DeviceChange) : Prop where
  read : ∀ key ∈ c.endpoints.keys, ∃ eid, Eid.ofText? key = some eid
  differ : ∀ key ∈ c.endpoints.keys, ∀ key' ∈ c.endpoints.keys, ∀ eid,
    Eid.ofText? key = some eid → Eid.ofText? key' = some eid → key = key'
  /-- A new device has an address, a name and a time. -/
  header : t.device? ip = none →
    ip ≠ "" ∧ (∃ name, c.name = some name) ∧ ∃ time, c.lastUpdate = some time
  /-- A new endpoint has a description with a type and a function. -/
  described : ∀ eid e, c.Has eid (.change e) → t.endpointAt? ip eid = none →
    ∃ params, e.params = some params ∧ params.Complete

/-- **The patch is acceptable** to the tree. -/
structure Acceptable (t : Tree) (p : Patch) : Prop where
  devices : ∀ ip c, p.devices.get? ip = some (.change c) → c.Acceptable t ip
  views : ∀ key ∈ p.views.keys, ∃ id, Uuid.ofText? key = some id
  whole : ∀ key c id, p.views.get? key = some (.change c) → Uuid.ofText? key = some id → c.Whole id

/-! ### What it does -/

/-- **What becomes of a device** that is changed, or made if there was none before. -/
structure DeviceChange.Effects (c : DeviceChange) (table : BoundsTable) (now : Time) (ip : String)
    (before : Option Device) (d : Device) : Prop where
  address : d.ip = ip
  name : c.name.or (before.map Device.name) = some d.name
  lastUpdate : c.lastUpdate.or (before.map Device.lastUpdate) = some d.lastUpdate
  unnamed : ∀ eid, (∀ e, ¬ c.Has eid e) → d.endpoint? eid = before.bind (·.endpoint? eid)
  removed : ∀ eid, c.Has eid .tombstone → d.endpoint? eid = none
  amended : ∀ eid e a, c.Has eid (.change e) → before.bind (·.endpoint? eid) = some a →
    ∃ b, d.endpoint? eid = some b ∧ e.Amends a b
  created : ∀ eid e, c.Has eid (.change e) → before.bind (·.endpoint? eid) = none →
    ∃ b, d.endpoint? eid = some b ∧ e.Creates table now ip eid b

/-- **What becomes of a tree** to which the patch is applied as an update. -/
structure Effects (p : Patch) (now : Time) (t u : Tree) : Prop where
  bounds : u.bounds = t.bounds
  unnamedDevice : ∀ ip, p.devices.get? ip = none → u.device? ip = t.device? ip
  removedDevice : ∀ ip, p.devices.get? ip = some .tombstone → u.device? ip = none
  changedDevice : ∀ ip c, p.devices.get? ip = some (.change c) →
    ∃ d, u.device? ip = some d ∧ c.Effects t.bounds now ip (t.device? ip) d
  unnamedView : ∀ id, (∀ key ∈ p.views.keys, Uuid.ofText? key ≠ some id) → u.view? id = t.view? id
  removedView : ∀ id, p.Decides id .tombstone → u.view? id = none
  changedView : ∀ id c, p.Decides id (.change c) →
    ∃ v, u.view? id = some v ∧ v.id = id ∧ c.name = some v.name ∧ c.references = some v.references

end Patch

/-! ### Single places -/

/-- **What a change makes of a header**, or of none. -/
theorem Header.run_change_eq_some_iff {ip : String} {c : DeviceChange}
    {before after : Option Header} : (place ip).run before (.change c) = some after ↔
      (before = none → ip ≠ "") ∧ ∃ h, after = some h ∧
        c.name.or (before.map Header.name) = some h.name ∧
        c.lastUpdate.or (before.map Header.lastUpdate) = some h.lastUpdate := by
  cases before with
  | some h =>
    rw [Place.run_some_change]
    simp only [place, Option.map_some, Option.or_some, Option.some.injEq, reduceCtorEq,
      false_implies, true_and]
    constructor
    · rintro rfl
      exact ⟨_, rfl, rfl, rfl⟩
    · rintro ⟨⟨name, lastUpdate⟩, rfl, rfl, rfl⟩
      rfl
  -- a header is created of a name and a time, at an address that is not empty
  | none =>
    rw [Place.run_none_change]
    simp only [place, Option.map_none, Option.or_none, forall_const]
    cases hname : c.name with
    | none => simp
    | some name =>
      cases htime : c.lastUpdate with
      | none => simp
      | some time =>
        by_cases hip : ip = ""
        · simp [hip]
        · simp only [if_neg hip, Option.map_some, Option.some.injEq]
          constructor
          · rintro rfl
            exact ⟨hip, _, rfl, rfl, rfl⟩
          · rintro ⟨-, ⟨_, _⟩, rfl, rfl, rfl⟩
            rfl

/-- **What a whole change makes of a view**, or of none. -/
theorem View.run_change_eq_some_iff {id : Uuid} {c : ViewChange} (hc : c.Whole id)
    {before after : Option View} : (place id).run before (.change c) = some after ↔
      ∃ v, after = some v ∧ v.id = id ∧ c.name = some v.name ∧
        c.references = some v.references := by
  obtain ⟨-, ⟨name, hname⟩, ⟨references, hreferences⟩⟩ := hc
  rw [run_change hname hreferences, hname, hreferences, Option.some.injEq]
  constructor
  · rintro rfl
    exact ⟨_, rfl, rfl, rfl, rfl⟩
  · rintro ⟨⟨_, _, _⟩, rfl, rfl, hname, hreferences⟩
    cases hname
    cases hreferences
    rfl

theorem Endpoint.run_change_none_iff {table : BoundsTable} {now : Time} {ip : String} {eid : Eid}
    {c : EndpointChange} {after : Option Endpoint} :
    (place table now ip eid).run none (.change c) = some after ↔
      ip ≠ "" ∧ ∃ e, after = some e ∧ c.Creates table now ip eid e := by
  rw [Place.run_none_change, Option.map_eq_some_iff]
  simp only [place, toOption_eq_some_iff, EndpointChange.ofChange_eq_ok_iff]
  constructor
  · rintro ⟨e, ⟨hip, he⟩, rfl⟩
    exact ⟨hip, e, rfl, he⟩
  · rintro ⟨hip, e, rfl, he⟩
    exact ⟨e, ⟨hip, he⟩, rfl⟩

/-! ### What is accepted -/

namespace Patch

variable {p : Patch} {t u u' : Tree} {now : Time}

/-- An acceptable patch is legible. -/
theorem Acceptable.legible (h : p.Acceptable t) : p.Legible .update where
  devices ip c hc := ⟨keysRead_iff.mpr (h.devices ip c hc).read,
    fun _ => keysDiffer_iff.mpr (h.devices ip c hc).differ⟩
  views := keysRead_iff.mpr h.views
  whole _ := h.whole

/-- **A patch that a tree takes** is acceptable to it. -/
theorem Takes.acceptable (h : p.Takes .update now t u) : p.Acceptable t where
  devices ip c hc := by
    have hlegible := h.legible.devices ip c hc
    have hdiffer := hlegible.differ rfl
    have hheader := h.headers ip
    rw [headerActs_some hc, Place.runAll_singleton, Entry.act, Header.run_change_eq_some_iff]
      at hheader
    obtain ⟨hip, hdr, -, hname, htime⟩ := hheader
    refine ⟨keysRead_iff.mp hlegible.read, keysDiffer_iff.mp hdiffer, fun hnone => ?_,
      fun eid e he hnone => ?_⟩
    -- without a header before, the change has to give all of it
    · have hnone := Tree.header?_eq_none_iff.mpr hnone
      rw [hnone, Option.map_none, Option.or_none] at hname htime
      exact ⟨hip hnone, ⟨_, hname⟩, _, htime⟩
    -- and without an endpoint before, one was created
    · have hrun := h.endpoints ip eid
      rw [endpointActs_of_has hdiffer hc he, Place.runAll_singleton, Entry.act, hnone,
        Endpoint.run_change_none_iff] at hrun
      obtain ⟨hip, created, -, hcreated⟩ := hrun
      exact (EndpointChange.exists_ofChange_iff.mp
        ⟨created, EndpointChange.ofChange_eq_ok_iff.mpr ⟨hip, hcreated⟩⟩).2
  views := keysRead_iff.mp h.legible.views
  whole := h.legible.whole rfl

/-- A device that is changed has an address. -/
theorem Acceptable.address_ne (h : p.Acceptable t) (ht : t.WellFormed) {ip : String}
    {c : DeviceChange} (hc : p.devices.get? ip = some (.change c)) : ip ≠ "" := by
  cases hd : t.device? ip with
  | none => exact ((h.devices ip c hc).header hd).1
  | some d => exact (ht.devices ip d hd).named

/-- Nothing that an acceptable patch does to a header is refused. -/
theorem Acceptable.headers (h : p.Acceptable t) (ip : String) :
    (Header.place ip).runAll (t.header? ip) (p.headerActs .update ip) ≠ none := by
  cases he : p.devices.get? ip with
  | none =>
    rw [headerActs_none he]
    exact Option.some_ne_none _
  | some e =>
    rw [headerActs_some he, Place.runAll_singleton]
    cases e with
    | tombstone => exact Option.some_ne_none _
    | change c =>
      rw [Option.ne_none_iff_exists']
      cases hheader : t.header? ip with
      | some header => exact ⟨_, rfl⟩
      | none =>
        obtain ⟨hip, ⟨name, hname⟩, time, htime⟩ :=
          (h.devices ip c he).header (Tree.header?_eq_none_iff.mp hheader)
        exact ⟨some ⟨name, time⟩, Header.run_change_eq_some_iff.mpr ⟨fun _ => hip, _, rfl,
          Option.or_none.trans hname, Option.or_none.trans htime⟩⟩

/-- Nor is anything that it does to an endpoint. -/
theorem Acceptable.endpoints (h : p.Acceptable t) (ht : t.WellFormed) (now : Time) (ip : String)
    (eid : Eid) : (Endpoint.place t.bounds now ip eid).runAll (t.endpointAt? ip eid)
      (p.endpointActs .update ip eid) ≠ none := by
  cases he : p.devices.get? ip with
  | none =>
    rw [endpointActs_none he]
    exact Option.some_ne_none _
  | some e =>
    cases e with
    | tombstone =>
      rw [endpointActs_some he]
      exact Option.some_ne_none _
    | change c =>
      have hc := h.devices ip c he
      by_cases hhas : ∃ entry, c.Has eid entry
      · obtain ⟨entry, hentry⟩ := hhas
        rw [endpointActs_of_has (keysDiffer_iff.mpr hc.differ) he hentry, Place.runAll_singleton,
          Option.ne_none_iff_exists']
        cases entry with
        | tombstone => exact ⟨_, rfl⟩
        | change e =>
          -- only a change of an endpoint that is not there can be refused
          cases hendpoint : t.endpointAt? ip eid with
          | some a => exact ⟨_, rfl⟩
          | none =>
            have hdescribed := hc.described eid e hentry hendpoint
            obtain ⟨b, hb⟩ :=
              EndpointChange.exists_ofChange_iff.mpr ⟨h.address_ne ht he, hdescribed⟩
            obtain ⟨hip, hcreates⟩ := EndpointChange.ofChange_eq_ok_iff.mp hb
            exact ⟨some b, Endpoint.run_change_none_iff.mpr ⟨hip, b, rfl, hcreates⟩⟩
      · rw [endpointActs_of_not_has he fun entry hentry => hhas ⟨entry, hentry⟩]
        exact Option.some_ne_none _

/-- **An acceptable patch is applied.** -/
theorem Acceptable.exists_applyUpdate (h : p.Acceptable t) (ht : t.WellFormed) (now : Time) :
    ∃ u, t.applyUpdate now p = .ok u := by
  have happly : ∃ u, t.apply now .update p = .ok u :=
    Tree.exists_apply ht h.legible h.headers (h.endpoints ht now)
  exact happly

/-! ### What it does -/

/-- **A patch has its effects** on a tree that takes it. -/
theorem Takes.effects (h : p.Takes .update now t u) (ht : t.WellFormed) : p.Effects now t u where
  bounds := h.bounds
  unnamedDevice ip hip := by
    refine Tree.device?_congr h.wellFormed ht ?_ fun eid => ?_
    · have hheader := h.headers ip
      rw [headerActs_none hip, Place.runAll_nil] at hheader
      exact (Option.some.inj hheader).symm
    · have hendpoint := h.endpoints ip eid
      rw [endpointActs_none hip, Place.runAll_nil] at hendpoint
      exact (Option.some.inj hendpoint).symm
  removedDevice ip hip := by
    have hheader := h.headers ip
    rw [headerActs_some hip, Place.runAll_singleton] at hheader
    exact Tree.header?_eq_none_iff.mp (Option.some.inj hheader).symm
  changedDevice ip c hc := by
    have hdiffer := (h.legible.devices ip c hc).differ rfl
    have hheader := h.headers ip
    rw [headerActs_some hc, Place.runAll_singleton, Entry.act, Header.run_change_eq_some_iff]
      at hheader
    obtain ⟨-, hdr, hafter, hname, htime⟩ := hheader
    obtain ⟨d, hd, rfl⟩ := Option.map_eq_some_iff.mp hafter
    have hplace : ∀ eid, u.endpointAt? ip eid = d.endpoint? eid := by
      intro eid
      rw [Tree.endpointAt?, hd, Option.bind_some]
    refine ⟨d, hd, (h.wellFormed.devices ip d hd).address, ?_, ?_, fun eid hnot => ?_,
      fun eid he => ?_, fun eid e a he ha => ?_, fun eid e he hnone => ?_⟩
    -- the header
    · rw [Tree.header?, Option.map_map] at hname
      exact hname
    · rw [Tree.header?, Option.map_map] at htime
      exact htime
    -- the endpoints: not named, removed, amended, created
    · have hrun := h.endpoints ip eid
      rw [endpointActs_of_not_has hc hnot, Place.runAll_nil, hplace] at hrun
      exact (Option.some.inj hrun).symm
    · have hrun := h.endpoints ip eid
      rw [endpointActs_of_has hdiffer hc he, Place.runAll_singleton, hplace] at hrun
      exact (Option.some.inj hrun).symm
    · have hrun := h.endpoints ip eid
      have ha : t.endpointAt? ip eid = some a := ha
      rw [endpointActs_of_has hdiffer hc he, Place.runAll_singleton, hplace, ha] at hrun
      exact ⟨a.update e, (Option.some.inj hrun).symm, EndpointChange.amends_iff.mpr rfl⟩
    · have hrun := h.endpoints ip eid
      have hnone : t.endpointAt? ip eid = none := hnone
      rw [endpointActs_of_has hdiffer hc he, Place.runAll_singleton, hplace, hnone, Entry.act,
        Endpoint.run_change_none_iff] at hrun
      obtain ⟨-, b, hb, hcreates⟩ := hrun
      exact ⟨b, hb, hcreates⟩
  unnamedView id hid := by
    have hrun := h.views id
    rw [viewActs_of_unnamed hid, Place.runAll_nil] at hrun
    exact (Option.some.inj hrun).symm
  removedView id hid := by
    obtain ⟨before, hrun⟩ := exists_run_of_decides hid (h.views id)
    exact (Option.some.inj hrun).symm
  changedView id c hid := by
    obtain ⟨before, hrun⟩ := exists_run_of_decides hid (h.views id)
    obtain ⟨key, hkey, hentry⟩ := get?_of_decides hid
    exact (View.run_change_eq_some_iff (h.legible.whole rfl key c id hentry hkey)).mp hrun

/-- **What becomes of a device is settled** by the change of it. -/
theorem DeviceChange.Effects.unique {c : DeviceChange} {table : BoundsTable} {ip : String}
    {before : Option Device} {d d' : Device} (hip : ip ≠ "")
    (h : c.Effects table now ip before d) (h' : c.Effects table now ip before d') : d = d' := by
  have hname : d.name = d'.name := Option.some.inj (h.name.symm.trans h'.name)
  have htime : d.lastUpdate = d'.lastUpdate :=
    Option.some.inj (h.lastUpdate.symm.trans h'.lastUpdate)
  have hheader : d.header = d'.header := by rw [Device.header, Device.header, hname, htime]
  refine Device.ext_endpoints (h.address.trans h'.address.symm) hheader fun eid => ?_
  by_cases hhas : ∃ entry, c.Has eid entry
  · obtain ⟨entry, hentry⟩ := hhas
    cases entry with
    | tombstone => rw [h.removed eid hentry, h'.removed eid hentry]
    | change e =>
      cases hbefore : before.bind (·.endpoint? eid) with
      | some a =>
        obtain ⟨b, hb, hamends⟩ := h.amended eid e a hentry hbefore
        obtain ⟨b', hb', hamends'⟩ := h'.amended eid e a hentry hbefore
        rw [hb, hb', EndpointChange.amends_iff.mp hamends, EndpointChange.amends_iff.mp hamends']
      | none =>
        obtain ⟨b, hb, hcreates⟩ := h.created eid e hentry hbefore
        obtain ⟨b', hb', hcreates'⟩ := h'.created eid e hentry hbefore
        -- both are what creating the endpoint gives
        have hok := EndpointChange.ofChange_eq_ok_iff.mpr ⟨hip, hcreates⟩
        have hok' := EndpointChange.ofChange_eq_ok_iff.mpr ⟨hip, hcreates'⟩
        cases hok.symm.trans hok'
        rw [hb, hb']
  · have hnot : ∀ entry, ¬ c.Has eid entry := fun entry hentry => hhas ⟨entry, hentry⟩
    rw [h.unnamed eid hnot, h'.unnamed eid hnot]

/-- **The effects leave nothing open.** -/
theorem Effects.unique (hp : p.Acceptable t) (ht : t.WellFormed) (h : p.Effects now t u)
    (h' : p.Effects now t u') : u = u' := by
  -- both trees are the same place by place, because the effects leave nothing open anywhere
  refine Tree.ext_parts (h.bounds.trans h'.bounds.symm) (fun ip => ?_) fun id => ?_
  · cases he : p.devices.get? ip with
    | none => rw [h.unnamedDevice ip he, h'.unnamedDevice ip he]
    | some e =>
      cases e with
      | tombstone => rw [h.removedDevice ip he, h'.removedDevice ip he]
      | change c =>
        obtain ⟨d, hd, heffects⟩ := h.changedDevice ip c he
        obtain ⟨d', hd', heffects'⟩ := h'.changedDevice ip c he
        rw [hd, hd', heffects.unique (hp.address_ne ht he) heffects']
  · by_cases hnamed : ∃ key ∈ p.views.keys, Uuid.ofText? key = some id
    · obtain ⟨e, he⟩ := exists_decides hnamed
      cases e with
      | tombstone => rw [h.removedView id he, h'.removedView id he]
      | change c =>
        obtain ⟨⟨_, _, _⟩, hv, rfl, hname, hreferences⟩ := h.changedView id c he
        obtain ⟨⟨_, _, _⟩, hv', rfl, hname', hreferences'⟩ := h'.changedView _ c he
        cases hname.symm.trans hname'
        cases hreferences.symm.trans hreferences'
        rw [hv, hv']
    · have hnot : ∀ key ∈ p.views.keys, Uuid.ofText? key ≠ some id :=
        fun key hkey hid => hnamed ⟨key, hkey, hid⟩
      rw [h.unnamedView id hnot, h'.unnamedView id hnot]

end Patch

/-! ### The whole of an update -/

namespace Tree

variable {p : Patch} {t u : Tree} {now : Time}

/-- A patch that was applied was acceptable, and the outcome shows its effects. -/
theorem of_applyUpdate (ht : t.WellFormed) (h : t.applyUpdate now p = .ok u) :
    p.Acceptable t ∧ p.Effects now t u := by
  have htakes : p.Takes .update now t u := takes_of_apply ht h
  exact ⟨htakes.acceptable, htakes.effects ht⟩

/-- **The exact meaning of an update.** A reachable tree accepts those patches that are acceptable
to it and no others, and the tree that a patch leaves behind is the one that shows its effects. -/
theorem applyUpdate_exact (h : t.Reachable) (now : Time) (p : Patch) :
    ((∃ u, t.applyUpdate now p = .ok u) ↔ p.Acceptable t) ∧
    ∀ u, t.applyUpdate now p = .ok u ↔ p.Acceptable t ∧ p.Effects now t u := by
  have ht := h.wellFormed
  refine ⟨⟨fun ⟨u, hu⟩ => (of_applyUpdate ht hu).1, fun hp => hp.exists_applyUpdate ht now⟩,
    fun u => ⟨of_applyUpdate ht, fun ⟨hp, heffects⟩ => ?_⟩⟩
  -- the patch is applied, and its outcome shows the same effects
  obtain ⟨u', hu'⟩ := hp.exists_applyUpdate ht now
  rw [hu', (of_applyUpdate ht hu').2.unique hp ht heffects]

/-- The hall gets another name and its lamp a time, a meter is put beside the lamp, a new device
comes with a sensor, and a view is made. -/
def hallUpdate : Patch where
  devices := .ofList [
    ("hall", .change { name := some "Lobby", endpoints := .ofList [
      ("+07", .change { lastUpdate := some 8 }),
      (" 9", .change { params := some {
        typeCode := some (.string "+3 "), function := some "infrastructure" } })] }),
    ("roof", .change { name := some "Roof", lastUpdate := some 6, endpoints := .ofList [
      ("3", .change { params := some (.sensor 1 "outside"), minvalue := some 5 })] })]
  views := .ofList [
    (Uuid.text ⟨1⟩, .change { name := some "All", references := some ["hall.7", "hall.9"] })]

theorem applyUpdate_exact_hall : ∃ u, lampTree.applyUpdate 9 hallUpdate = .ok u ∧
    hallUpdate.Acceptable lampTree ∧ hallUpdate.Effects 9 lampTree u ∧
    u.header? "hall" = some ⟨"Lobby", 5⟩ := by
  have hreach : lampTree.Reachable := .command (.ofBounds _) 5 _
  have hheader : (lampTree.applyUpdate 9 hallUpdate).toOption.bind (·.header? "hall") =
      some ⟨"Lobby", 5⟩ := by decide +kernel
  obtain ⟨u, hu, hheader⟩ := Option.bind_eq_some_iff.mp hheader
  have hu := toOption_eq_some_iff.mp hu
  obtain ⟨hacceptable, heffects⟩ := ((applyUpdate_exact hreach 9 hallUpdate).2 u).mp hu
  exact ⟨u, hu, hacceptable, heffects, hheader⟩

/-- A view has a tombstone under one spelling of its identifier and a change under the other. -/
def twiceNamed : Patch where
  views := .ofList [
    ("000000AB-0000-0000-0000-000000000000", .tombstone),
    ("000000ab-0000-0000-0000-000000000000", .change { name := some "All", references := some [] })]

/-- **A view with a tombstone may be there afterwards**: a later key that denotes it as well
decides. -/
theorem applyUpdate_removed_stays : (ofBounds .standard).Reachable ∧
    twiceNamed.Acceptable (ofBounds .standard) ∧
    ∃ u key id, (ofBounds .standard).applyUpdate 0 twiceNamed = .ok u ∧
      twiceNamed.views.get? key = some .tombstone ∧ Uuid.ofText? key = some id ∧
      u.view? id = some ⟨id, "All", []⟩ := by
  have hreach : (ofBounds .standard).Reachable := .ofBounds _
  have hview : ((ofBounds .standard).applyUpdate 0 twiceNamed).toOption.bind
      (·.view? ⟨0xAB000000000000000000000000⟩) =
        some ⟨⟨0xAB000000000000000000000000⟩, "All", []⟩ := by decide +kernel
  obtain ⟨u, hu, hview⟩ := Option.bind_eq_some_iff.mp hview
  have hu := toOption_eq_some_iff.mp hu
  exact ⟨hreach, (of_applyUpdate hreach.wellFormed hu).1, u,
    "000000AB-0000-0000-0000-000000000000", _, hu, by decide +kernel, by decide +kernel, hview⟩

end Tree

end Fleet
