import Fleet.Proofs.SnapshotCodec
import Fleet.Proofs.Texts

/-!
# Snapshots that survive a file

The text of a snapshot is read back as the snapshot (`Tree.ofFile_snapshot`) if every double in the
tree is finite and one that its written form gives back, and if no value that was reported nests too
deep. In a file there are five containers around such a value: the snapshot, its devices, a device,
its endpoints, and the endpoint. So of the 127 levels of brackets that a reader allows, 122 are left
for the value (`valueDepth`).

`Tree.Storable` is what does not depend on how doubles are written. The rest is `Tree.Faithful`.
-/

namespace Fleet

open Json (Node Refusal Slot present maxDepth)

/-! ### Documents that can be read back -/

namespace Json

variable {α : Type} {k : Nat} {write : α → Json}

/-- **The document can be read back** where there is room for so many levels of brackets. -/
def Legible (k : Nat) (document : Json) : Prop := document.Faithful ∧ document.depth ≤ k

theorem legible_array_iff {items : List Json} :
    (array items).Legible (k + 1) ↔ ∀ item ∈ items, item.Legible k := by
  rw [Legible, faithful_array, depth_array_le_iff]
  exact ⟨fun h item hitem => ⟨h.1 item hitem, h.2 item hitem⟩,
    fun h => ⟨fun item hitem => (h item hitem).1, fun item hitem => (h item hitem).2⟩⟩

theorem legible_object_iff {members : List (String × Json)} :
    (object members).Legible (k + 1) ↔ ∀ p ∈ members, p.2.Legible k := by
  rw [Legible, faithful_object, depth_object_le_iff]
  exact ⟨fun h p hp => ⟨h.1 p hp, h.2 p hp⟩,
    fun h => ⟨fun p hp => (h p hp).1, fun p hp => (h p hp).2⟩⟩

theorem legible_string (s : String) : (string s).Legible k := ⟨nofun, Nat.zero_le k⟩

theorem legible_ofUInt64 (n : UInt64) : (ofUInt64 n).Legible k := ⟨nofun, Nat.zero_le k⟩

theorem legible_ofFloat {x : Float} (h : Number.ReadsBack x) : (ofFloat x).Legible k := by
  unfold ofFloat Number.ofFloat?
  split
  · next n hn =>
    split at hn
    · cases hn
      refine ⟨fun y hy => ?_, Nat.zero_le k⟩
      rw [List.mem_singleton.mp hy]
      exact h
    · cases hn
  · exact ⟨fun _ hx => absurd hx List.not_mem_nil, Nat.zero_le k⟩

theorem legible_ofList {as : List α} (h : ∀ a ∈ as, (write a).Legible k) :
    (ofList write as).Legible (k + 1) := by
  refine legible_array_iff.mpr fun item hitem => ?_
  obtain ⟨a, ha, rfl⟩ := List.mem_map.mp hitem
  exact h a ha

theorem legible_ofMap {m : SortedMap String α}
    (h : ∀ key a, m.get? key = some a → (write a).Legible k) :
    (ofMap id write m).Legible (k + 1) := by
  refine legible_object_iff.mpr fun p hp => ?_
  obtain ⟨q, hq, rfl⟩ := List.mem_map.mp hp
  exact h q.1 q.2 (SortedMap.get?_eq_some_iff.mpr hq)

/-- **A record can be read back** if what was written of it can. -/
theorem legible_present (slots : List Slot)
    (h : ∀ slot ∈ slots, ∀ document, slot.2 = some document → document.Legible k) :
    (object (present slots)).Legible (k + 1) := by
  refine legible_object_iff.mpr fun p hp => ?_
  obtain ⟨slot, hslot, heq⟩ := List.mem_filterMap.mp hp
  obtain ⟨document, hdocument, rfl⟩ := Option.map_eq_some_iff.mp heq
  exact h slot hslot document hdocument

end Json

/-! ### Trees that can be stored -/

/-- **How deep a value may nest** in a file, where five containers stand around it. -/
def valueDepth : Nat := maxDepth - 5

namespace Endpoint

/-- **The value of the endpoint fits** into a file. -/
def Shallow (e : Endpoint) : Prop := e.lastValue.json.depth ≤ valueDepth

instance (e : Endpoint) : Decidable e.Shallow := inferInstanceAs (Decidable (_ ≤ _))

/-- **All doubles in the endpoint** are such as their written forms give back. -/
structure Faithful (e : Endpoint) : Prop where
  lastValue : e.lastValue.json.Faithful
  minvalue : ∀ x ∈ e.minvalue, Json.Number.ReadsBack x
  maxvalue : ∀ x ∈ e.maxvalue, Json.Number.ReadsBack x

instance (e : Endpoint) : Decidable e.Faithful :=
  decidable_of_iff (e.lastValue.json.Faithful ∧ (∀ x ∈ e.minvalue, Json.Number.ReadsBack x) ∧
      ∀ x ∈ e.maxvalue, Json.Number.ReadsBack x)
    ⟨fun h => ⟨h.1, h.2.1, h.2.2⟩, fun h => ⟨h.lastValue, h.minvalue, h.maxvalue⟩⟩

end Endpoint

namespace Tree

/-- **The tree can be stored**, as far as this does not depend on how doubles are written. -/
structure Storable (t : Tree) : Prop where
  finite : t.Finite
  shallow : t.Everywhere Endpoint.Shallow

/-- **Every double in the tree is one that its written form gives back.** -/
def Faithful (t : Tree) : Prop := t.Everywhere Endpoint.Faithful

instance (t : Tree) : Decidable t.Faithful :=
  inferInstanceAs (Decidable (t.Everywhere Endpoint.Faithful))

end Tree

/-! ### Records -/

theorem EndpointRecord.legible {e : Endpoint} {k : Nat} (hfaithful : e.Faithful)
    (hdepth : e.lastValue.json.depth ≤ k) : (ofEndpoint e).toJson.Legible (k + 1) := by
  rw [toJson_eq_present]
  refine Json.legible_present _ fun slot hslot document hdocument => ?_
  simp only [slots, ofEndpoint, List.mem_cons, List.not_mem_nil, or_false] at hslot
  rcases hslot with rfl | rfl | rfl | rfl | rfl | rfl | rfl | rfl
  · cases hdocument
    exact Json.legible_ofUInt64 _
  · cases hdocument
    exact Json.legible_string _
  · cases hdocument
    exact Json.legible_string _
  · cases hdocument
    exact ⟨hfaithful.lastValue, hdepth⟩
  · cases hdocument
    exact Json.legible_ofUInt64 _
  · obtain ⟨x, hx, rfl⟩ := Option.map_eq_some_iff.mp hdocument
    exact Json.legible_ofFloat (hfaithful.minvalue x hx)
  · obtain ⟨x, hx, rfl⟩ := Option.map_eq_some_iff.mp hdocument
    exact Json.legible_ofFloat (hfaithful.maxvalue x hx)
  · obtain ⟨s, -, rfl⟩ := Option.map_eq_some_iff.mp hdocument
    exact Json.legible_string _

theorem DeviceRecord.legible {ip : String} {d : Device} {k : Nat} (hd : d.WellFormed ip)
    (h : ∀ eid e, d.endpoint? eid = some e → e.Faithful ∧ e.lastValue.json.depth ≤ k) :
    (ofDevice d).toJson.Legible (k + 3) := by
  refine Json.legible_present (ofDevice d).slots fun slot hslot document hdocument => ?_
  simp only [slots, List.mem_cons, List.not_mem_nil, or_false] at hslot
  rcases hslot with rfl | rfl | rfl
  · cases hdocument
    exact Json.legible_string _
  · cases hdocument
    exact Json.legible_ofUInt64 _
  · cases hdocument
    refine Json.legible_ofMap fun key r hr => ?_
    obtain ⟨eid, e, he, -, rfl⟩ := (get?_endpoints_ofDevice hd).mp hr
    exact EndpointRecord.legible (h eid e he).1 (h eid e he).2

theorem ViewRecord.legible (r : ViewRecord) (k : Nat) : r.toJson.Legible (k + 2) := by
  refine Json.legible_present r.slots fun slot hslot document hdocument => ?_
  simp only [slots, List.mem_cons, List.not_mem_nil, or_false] at hslot
  rcases hslot with rfl | rfl
  · cases hdocument
    exact Json.legible_string _
  · cases hdocument
    exact Json.legible_ofList fun s _ => Json.legible_string s

/-! ### Snapshots of trees -/

namespace Tree

variable {t : Tree}

theorem legible_snapshot (ht : t.WellFormed) (hshallow : t.Everywhere Endpoint.Shallow)
    (hfaithful : t.Faithful) : t.snapshot.toJson.Legible maxDepth := by
  refine Json.legible_present t.snapshot.slots fun slot hslot document hdocument => ?_
  simp only [Snapshot.slots, List.mem_cons, List.not_mem_nil, or_false] at hslot
  rcases hslot with rfl | rfl
  · cases hdocument
    refine Json.legible_ofMap fun ip r hr => ?_
    obtain ⟨d, hd, rfl⟩ := get?_devices_snapshot.mp hr
    exact DeviceRecord.legible (ht.devices ip d hd) fun eid e he =>
      ⟨hfaithful ip d hd eid e he, hshallow ip d hd eid e he⟩
  · cases hdocument
    exact Json.legible_ofMap fun _ r _ => r.legible _

/-- **A snapshot is read back from its text** if the endpoints of the tree that it was taken of can
be stored and their doubles are given back. -/
theorem ofFile_snapshot (ht : t.WellFormed) (hfinite : t.Everywhere Endpoint.Finite)
    (hshallow : t.Everywhere Endpoint.Shallow) (hfaithful : t.Faithful) :
    Snapshot.ofFile t.snapshot.fileText = .ok t.snapshot := by
  obtain ⟨hread, hdepth⟩ := legible_snapshot ht hshallow hfaithful
  have hrecovers : Json.Recovers .written Snapshot.read Snapshot.toJson t.snapshot :=
    Snapshot.recovers (finite_snapshot ht hfinite)
  exact mapError_eq_ok_iff.mpr (Json.readText_pretty hrecovers hread hdepth)

theorem ofFile_of_everywhere (ht : t.WellFormed)
    (h : t.Everywhere fun e => e.Finite ∧ e.Shallow ∧ e.Faithful) :
    Snapshot.ofFile t.snapshot.fileText = .ok t.snapshot :=
  ofFile_snapshot ht (fun ip d hd eid e he => (h ip d hd eid e he).1)
    (fun ip d hd eid e he => (h ip d hd eid e he).2.1)
    (fun ip d hd eid e he => (h ip d hd eid e he).2.2)

end Tree

end Fleet
