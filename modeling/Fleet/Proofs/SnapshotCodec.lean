import Fleet.Proofs.Forms
import Fleet.Proofs.Restoring
import Fleet.Proofs.Telling

/-!
# Snapshots that survive

A snapshot whose doubles are finite is recovered from what it is written as
(`Snapshot.recovers`), in the order of the text and in the order of the names alike. Other doubles
are written as `null`, which is read as a missing bound.

The snapshot of a tree holds everything in the tree that is not a key, and restoring it makes up
nothing: `Tree.ofSnapshot_decoded` says that a tree is what its own plain value describes, under
whatever table of bounds. Every record names its bounds, its value and its times, so the defaults
of a new endpoint, which come from the table and from the clock, are all replaced.
-/

namespace Fleet

open Json (Node Refusal Form Recovers Slot present)
open Json.Schema (Fills)

variable {form : Form}

/-- Whether a double that may be missing is finite can be decided. -/
instance (o : Option Float) : Decidable (FiniteIfGiven o) :=
  match o with
  | none => .isTrue nofun
  | some x => decidable_of_iff (x.isFinite = true) (by simp [FiniteIfGiven])

instance (e : Endpoint) : Decidable e.Finite := inferInstanceAs (Decidable (_ ∧ _))

instance (d : Device) : Decidable d.Finite :=
  inferInstanceAs (Decidable (∀ eid e, d.endpoints.get? eid = some e → e.Finite))

/-- A finite double that may be missing is recovered. -/
theorem recovers_finite (form : Form) {o : Option Float} (h : FiniteIfGiven o) : ∀ x, o = some x →
    Recovers form Node.readFloat Json.ofFloat x ∧ Json.ofFloat x ≠ .null := by
  intro x hx
  refine ⟨Json.recovers_float (h x hx), ?_⟩
  unfold Json.ofFloat Json.Number.ofFloat?
  rw [dif_pos (h x hx)]
  exact nofun

/-! ### Records of endpoints -/

namespace EndpointRecord

/-- Both bounds of a record are finite, as far as it has them. -/
structure Finite (r : EndpointRecord) : Prop where
  minvalue : FiniteIfGiven r.minvalue
  maxvalue : FiniteIfGiven r.maxvalue

/-- What is written of a record, in the order in which it is written. -/
def slots (r : EndpointRecord) : List Slot := [
  ("type", some r.typeCode.json),
  ("function", some (.string r.function)),
  ("description", some (.string r.description)),
  ("last_value", some r.lastValue.json),
  ("last_update", some (.ofUInt64 r.lastUpdate)),
  ("minvalue", r.minvalue.map Json.ofFloat),
  ("maxvalue", r.maxvalue.map Json.ofFloat),
  ("unit", r.unit.map Json.string)]

/-- What is written of a record, in the order of the names. -/
def ordered (r : EndpointRecord) : List Slot := [
  ("description", some (.string r.description)),
  ("function", some (.string r.function)),
  ("last_update", some (.ofUInt64 r.lastUpdate)),
  ("last_value", some r.lastValue.json),
  ("maxvalue", r.maxvalue.map Json.ofFloat),
  ("minvalue", r.minvalue.map Json.ofFloat),
  ("type", some r.typeCode.json),
  ("unit", r.unit.map Json.string)]

theorem toJson_eq_present (r : EndpointRecord) : r.toJson = .object (present r.slots) := by
  simp only [toJson, Json.member_eq_present, Json.member?_eq_present, ← Json.present_append]
  rfl

theorem perm_slots (r : EndpointRecord) : r.slots.Perm r.ordered :=
  Json.perm_of_indices (n := 8) rfl [2, 1, 4, 3, 6, 5, 0, 7] (by decide)

/-- The record as it is being read. -/
def draft (r : EndpointRecord) : Draft :=
  { r with typeCode := some r.typeCode, function := some r.function }

theorem fills {r : EndpointRecord} (h : r.Finite) :
    schema.Fills form (form.arrange r.slots r.ordered) {} r.draft := by
  have hunit : ∀ s, r.unit = some s →
      Recovers form Node.readString Json.string s ∧ Json.string s ≠ .null :=
    fun s _ => ⟨Json.recovers_string s, nofun⟩
  have hmin := recovers_finite form h.minvalue
  have hmax := recovers_finite form h.maxvalue
  cases form with
  | written =>
    exact .of rfl (Json.recovers_value r.typeCode) <|
      .of rfl (Json.recovers_string r.function) <|
      .of rfl (Json.recovers_string r.description) <|
      .of rfl (Json.recovers_value r.lastValue) <|
      .of rfl (Json.recovers_uint64 r.lastUpdate) <|
      .optional rfl hmin rfl <| .optional rfl hmax rfl <| .optional rfl hunit rfl .nil
  | canonical =>
    exact .of rfl (Json.recovers_string r.description) <|
      .of rfl (Json.recovers_string r.function) <|
      .of rfl (Json.recovers_uint64 r.lastUpdate) <|
      .of rfl (Json.recovers_value r.lastValue) <|
      .optional rfl hmax rfl <| .optional rfl hmin rfl <|
      .of rfl (Json.recovers_value r.typeCode) <| .optional rfl hunit rfl .nil

/-- **The record of an endpoint is recovered** if its bounds are finite. -/
theorem recovers {r : EndpointRecord} (h : r.Finite) : Recovers form read toJson r := by
  intro node hnode
  rw [r.toJson_eq_present] at hnode
  have hnames : r.ordered.map Prod.fst = ["description", "function", "last_update", "last_value",
      "maxvalue", "minvalue", "type", "unit"] := rfl
  rw [read, Json.Schema.read_of_fills r.perm_slots hnames (by decide) (fills h) hnode]
  rfl

end EndpointRecord

/-! ### Records of devices -/

namespace DeviceRecord

/-- All doubles in a record are finite. -/
def Finite (r : DeviceRecord) : Prop := ∀ key e, r.endpoints.get? key = some e → e.Finite

/-- What is written of a record, in the order in which it is written. -/
def slots (r : DeviceRecord) : List Slot := [
  ("name", some (.string r.name)),
  ("last_update", some (.ofUInt64 r.lastUpdate)),
  ("endpoints", some (.ofMap id EndpointRecord.toJson r.endpoints))]

/-- What is written of a record, in the order of the names. -/
def ordered (r : DeviceRecord) : List Slot := [
  ("endpoints", some (.ofMap id EndpointRecord.toJson r.endpoints)),
  ("last_update", some (.ofUInt64 r.lastUpdate)),
  ("name", some (.string r.name))]

theorem perm_slots (r : DeviceRecord) : r.slots.Perm r.ordered :=
  Json.perm_of_indices (n := 3) rfl [2, 1, 0] (by decide)

/-- **The record of a device is recovered** if all its doubles are finite. -/
theorem recovers {r : DeviceRecord} (h : r.Finite) : Recovers form read toJson r := by
  intro node hnode
  have hendpoints : Recovers form (Node.readMap Json.Name.key EndpointRecord.read)
      (Json.ofMap id EndpointRecord.toJson) r.endpoints :=
    Json.recovers_map fun key e he => EndpointRecord.recovers (h key e he)
  have hfills : schema.Fills form (form.arrange r.slots r.ordered) {}
      ⟨some r.name, some r.lastUpdate, r.endpoints⟩ := by
    cases form with
    | written =>
      exact .of rfl (Json.recovers_string r.name) <|
        .of rfl (Json.recovers_uint64 r.lastUpdate) <| .of rfl hendpoints .nil
    | canonical =>
      exact .of rfl hendpoints <|
        .of rfl (Json.recovers_uint64 r.lastUpdate) <| .of rfl (Json.recovers_string r.name) .nil
  have hnames : r.ordered.map Prod.fst = ["endpoints", "last_update", "name"] := rfl
  rw [read, Json.Schema.read_of_fills r.perm_slots hnames (by decide) hfills hnode]
  rfl

end DeviceRecord

/-! ### Records of views -/

namespace ViewRecord

/-- What is written of a record, in the order in which it is written. -/
def slots (r : ViewRecord) : List Slot := [
  ("name", some (.string r.name)),
  ("devices", some (.ofList .string r.references))]

/-- What is written of a record, in the order of the names. -/
def ordered (r : ViewRecord) : List Slot := [
  ("devices", some (.ofList .string r.references)),
  ("name", some (.string r.name))]

theorem perm_slots (r : ViewRecord) : r.slots.Perm r.ordered :=
  Json.perm_of_indices (n := 2) rfl [1, 0] (by decide)

/-- **The record of a view is recovered.** -/
theorem recovers (r : ViewRecord) : Recovers form read toJson r := by
  intro node hnode
  have hreferences : Recovers form (Node.readList Node.readString) (Json.ofList Json.string)
      r.references := Json.recovers_list fun s _ => Json.recovers_string s
  have hfills : schema.Fills form (form.arrange r.slots r.ordered) {}
      ⟨some r.name, r.references⟩ := by
    cases form with
    | written => exact .of rfl (Json.recovers_string r.name) <| .of rfl hreferences .nil
    | canonical => exact .of rfl hreferences <| .of rfl (Json.recovers_string r.name) .nil
  have hnames : r.ordered.map Prod.fst = ["devices", "name"] := rfl
  rw [read, Json.Schema.read_of_fills r.perm_slots hnames (by decide) hfills hnode]
  rfl

end ViewRecord

/-! ### Snapshots -/

namespace Snapshot

/-- All doubles in a snapshot are finite. -/
def Finite (s : Snapshot) : Prop := ∀ ip r, s.devices.get? ip = some r → r.Finite

/-- What is written of a snapshot. -/
def slots (s : Snapshot) : List Slot := [
  ("devices", some (.ofMap id DeviceRecord.toJson s.devices)),
  ("views", some (.ofMap id ViewRecord.toJson s.views))]

/-- **A snapshot is recovered** if all its doubles are finite. -/
theorem recovers {s : Snapshot} (h : s.Finite) : Recovers form read toJson s := by
  intro node hnode
  have hdevices : Recovers form (Node.readMap Json.Name.key DeviceRecord.read)
      (Json.ofMap id DeviceRecord.toJson) s.devices :=
    Json.recovers_map fun ip r hr => DeviceRecord.recovers (h ip r hr)
  have hviews : Recovers form (Node.readMap Json.Name.key ViewRecord.read)
      (Json.ofMap id ViewRecord.toJson) s.views :=
    Json.recovers_map fun _ r _ => ViewRecord.recovers r
  have hfills : schema.Fills form (form.arrange s.slots s.slots) {} s := by
    cases form <;> exact .of rfl hdevices <| .of rfl hviews .nil
  have hnames : s.slots.map Prod.fst = ["devices", "views"] := rfl
  exact Json.Schema.read_of_fills (List.Perm.refl _) hnames (by decide) hfills hnode

/-- A snapshot is what its plain value is read as. -/
theorem readFrom_toValue {s : Snapshot} (h : s.Finite) : Json.readFrom read s.toValue = .ok s := by
  have hrecovers : Recovers .canonical read toJson s := recovers h
  exact hrecovers _ (Node.json?_ofJson _)

end Snapshot

/-! ### Trees -/

namespace Tree

variable {t : Tree}

theorem finite_snapshot (ht : t.WellFormed) (h : ∀ ip d, t.device? ip = some d → d.Finite) :
    t.snapshot.Finite := by
  intro ip r hr key e he
  obtain ⟨d, hd, rfl⟩ := get?_devices_snapshot.mp hr
  obtain ⟨eid, e, hendpoint, -, rfl⟩ :=
    (DeviceRecord.get?_endpoints_ofDevice (ht.devices ip d hd)).mp he
  have hfinite := h ip d hd eid e hendpoint
  exact ⟨hfinite.1, hfinite.2⟩

/-- **A tree is what its plain value describes.** The plain value of a tree in which all doubles are
finite is read as the snapshot of the tree, and a new tree with any table of bounds, or any other
tree, that is given this snapshot then holds exactly the devices and the views of the tree. -/
theorem Reachable.decoded (ht : t.Reachable) (hfinite : ∀ ip d, t.device? ip = some d → d.Finite) :
    Json.readFrom Snapshot.read t.toValue = .ok t.snapshot ∧
    (∀ table, ofSnapshot table t.snapshot = .ok { t with bounds := table }) ∧
    ∀ r : Tree, r.restore t.snapshot = .ok { t with bounds := r.bounds } :=
  ⟨Snapshot.readFrom_toValue (finite_snapshot ht.wellFormed hfinite),
    fun table => restore_snapshot ht.wellFormed (.ofBounds table), restore_snapshot ht.wellFormed⟩

/-- A tree with bounds of its own, a value that is `null`, and a view. -/
def boilerTree : Tree :=
  [Command.addDevice "hall" "Hall",
    .addEndpoint "hall" 7 { Endpoint.Params.ofFunction .sensor 4 "boiler" with unit := some "bar" },
    .setValueAt "hall" 7 .null,
    .addViewAs ⟨1⟩ "Heating" ["hall.7"]].foldl
      (fun t c => (c.run 9 t).tree) (.ofBounds (.ofFallback ⟨1, 6⟩))

theorem Reachable.decoded_boiler :
    boilerTree.Reachable ∧ (∀ ip d, boilerTree.device? ip = some d → d.Finite) ∧
    Json.readFrom Snapshot.read boilerTree.toValue = .ok boilerTree.snapshot ∧
    ofSnapshot .standard boilerTree.snapshot = .ok { boilerTree with bounds := .standard } ∧
    boilerTree.device? "hall" ≠ none ∧ BoundsTable.standard.lookup 7 ≠ ⟨1, 6⟩ := by
  have hreach : boilerTree.Reachable :=
    .command (.command (.command (.command (.ofBounds _) 9 _) 9 _) 9 _) 9 _
  have hfinite : ∀ ip d, boilerTree.device? ip = some d → d.Finite :=
    show ∀ ip d, boilerTree.devices.get? ip = some d → d.Finite by decide +kernel
  obtain ⟨hread, hnew, -⟩ := Reachable.decoded hreach hfinite
  exact ⟨hreach, hfinite, hread, hnew .standard, by decide +kernel, by decide +kernel⟩

end Tree

end Fleet
