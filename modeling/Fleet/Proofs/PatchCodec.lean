import Fleet.Patch.Document
import Fleet.Proofs.Records

/-!
# Patches that survive the wire

A patch is sent as a plain value and read from it at the other end. What is read is what was sent
exactly if the patch is *writable* (`Patch.Writable`):

* no change in it is blank, since a blank change is written as a tombstone;
* all its doubles are finite, since any other double is written as `null`;
* no description in it has `null` for its type, since that is read as a missing type.

The two main results are `Patch.ofValue_toValue`, that a writable patch is read back, and
`Patch.writable_of_ofValue`, that every patch that was read is writable. So a patch that a replica
has accepted can be relayed: its re-encoding is read as the same patch.

Both follow the nesting of the format: descriptions, changes of endpoints, entries, changes of
devices and of views, patches.
-/

namespace Fleet

open Json (Node Refusal ReadsBack Yields present Slot)

/-- A double that may be missing is finite. -/
def FiniteIfGiven (o : Option Float) : Prop := ∀ x, o = some x → x.isFinite = true

/-! ### Descriptions -/

namespace Endpoint.Params

/-- **The description survives the wire.** -/
structure Writable (p : Params) : Prop where
  minvalue : FiniteIfGiven p.minvalue
  maxvalue : FiniteIfGiven p.maxvalue
  typeCode : p.typeCode ≠ some Value.null

/-- What is written of a description, in the order of the names. -/
def slots (p : Params) : List Slot := [
  ("description", p.description.map Json.string),
  ("function", p.function.map Json.string),
  ("maxvalue", p.maxvalue.map Json.ofFloat),
  ("minvalue", p.minvalue.map Json.ofFloat),
  ("name", p.name.map Json.string),
  ("type", p.typeCode.map Value.json),
  ("unit", p.unit.map Json.string)]

theorem toJson_eq_present (p : Params) :
    ∃ written, p.toJson = .object (present written) ∧ written.Perm p.slots := by
  -- a description is written in the order of declaration
  refine ⟨[("type", p.typeCode.map Value.json), ("function", p.function.map Json.string),
    ("description", p.description.map Json.string), ("minvalue", p.minvalue.map Json.ofFloat),
    ("maxvalue", p.maxvalue.map Json.ofFloat), ("unit", p.unit.map Json.string),
    ("name", p.name.map Json.string)], ?_, ?_⟩
  · simp only [toJson, Json.member?_eq_present, ← Json.present_append]
    rfl
  · exact Json.perm_of_indices (n := 7) rfl [2, 1, 4, 3, 6, 0, 5] (by decide)

theorem sorted_ofFloat_ne_null {x : Float} (h : x.isFinite = true) :
    (Json.ofFloat x).sorted ≠ .null := by
  unfold Json.ofFloat Json.Number.ofFloat?
  rw [dif_pos h]
  exact nofun

theorem readsBack_float {o : Option Float} (h : FiniteIfGiven o) : ∀ x, o = some x →
    ReadsBack Node.readFloat Json.ofFloat x ∧ (Json.ofFloat x).sorted ≠ .null :=
  fun x hx => ⟨Node.readsBack_readFloat (h x hx), sorted_ofFloat_ne_null (h x hx)⟩

theorem readsBack_string {o : Option String} : ∀ s, o = some s →
    ReadsBack Node.readString Json.string s ∧ (Json.string s).sorted ≠ .null :=
  fun s _ => ⟨Node.readsBack_readString s, nofun⟩

/-- **A writable description is read back.** -/
theorem readsBack {p : Params} (h : p.Writable) : ReadsBack read toJson p := by
  obtain ⟨slots, hjson, hperm⟩ := p.toJson_eq_present
  -- the type may be any value but `null`, which would be read as a missing one
  have htype : ∀ v, p.typeCode = some v →
      ReadsBack Node.readValue Value.json v ∧ v.json.sorted ≠ .null := by
    intro v hv
    refine ⟨Node.readsBack_readValue v, fun hnull => h.typeCode ?_⟩
    rw [Json.sorted_eq_self v.json v.canonical] at hnull
    rw [hv]
    obtain ⟨document, canonical⟩ := v
    subst hnull
    rfl
  have hnames : p.slots.map Prod.fst =
      ["description", "function", "maxvalue", "minvalue", "name", "type", "unit"] := rfl
  unfold ReadsBack read
  rw [hjson, Json.Schema.read_present hperm hnames (by decide) (by decide)]
  simp only [Params.slots, Json.Schema.fillAll]
  rw [Json.Schema.fill_optional rfl readsBack_string rfl, ok_bind,
    Json.Schema.fill_optional rfl readsBack_string rfl, ok_bind,
    Json.Schema.fill_optional rfl (readsBack_float h.maxvalue) rfl, ok_bind,
    Json.Schema.fill_optional rfl (readsBack_float h.minvalue) rfl, ok_bind,
    Json.Schema.fill_optional rfl readsBack_string rfl, ok_bind,
    Json.Schema.fill_optional rfl htype rfl, ok_bind,
    Json.Schema.fill_optional rfl readsBack_string rfl, ok_bind]

theorem yields_readOptional_readValue :
    Yields (Node.readOptional Node.readValue) fun o => o ≠ some Value.null := by
  intro node o h hnull
  subst hnull
  by_cases hnode : node = .null
  · rw [hnode] at h
    cases h
  · rw [Node.readOptional_of_ne_null hnode] at h
    obtain ⟨v, hv, heq⟩ := map_eq_ok_iff.mp h
    cases heq
    exact hnode (Node.eq_null_of_readValue hv)

theorem keeps_fields : ∀ f ∈ fields, f.Keeps Writable := by
  intro f hf
  have hfloat := Node.yields_readOptional Node.yields_readFloat
  simp only [fields, List.mem_cons, List.not_mem_nil, or_false] at hf
  rcases hf with rfl | rfl | rfl | rfl | rfl | rfl | rfl
  · exact Json.Field.keeps_of yields_readOptional_readValue
      fun v p hv hp => ⟨hp.minvalue, hp.maxvalue, hv⟩
  · exact Json.Field.keeps_of_set fun s p hp => ⟨hp.minvalue, hp.maxvalue, hp.typeCode⟩
  · exact Json.Field.keeps_of_set fun s p hp => ⟨hp.minvalue, hp.maxvalue, hp.typeCode⟩
  · exact Json.Field.keeps_of hfloat fun x p hx hp => ⟨hx, hp.maxvalue, hp.typeCode⟩
  · exact Json.Field.keeps_of hfloat fun x p hx hp => ⟨hp.minvalue, hx, hp.typeCode⟩
  · exact Json.Field.keeps_of_set fun s p hp => ⟨hp.minvalue, hp.maxvalue, hp.typeCode⟩
  · exact Json.Field.keeps_of_set fun s p hp => ⟨hp.minvalue, hp.maxvalue, hp.typeCode⟩

theorem writable_empty : Writable {} := ⟨nofun, nofun, nofun⟩

/-- **A description that was read is writable.** -/
theorem yields_read : Yields read Writable :=
  Json.Schema.yields_read writable_empty keeps_fields

end Endpoint.Params

namespace Patch

open Endpoint.Params (readsBack_float readsBack_string)

/-! ### Changes of endpoints -/

namespace EndpointChange

/-- **The doubles and the description** of a change survive the wire. -/
structure Exact (c : EndpointChange) : Prop where
  minvalue : FiniteIfGiven c.minvalue
  maxvalue : FiniteIfGiven c.maxvalue
  params : ∀ p, c.params = some p → p.Writable

/-- **The change survives the wire.** -/
structure Writable (c : EndpointChange) : Prop extends Exact c where
  notBlank : c.isBlank = false

/-- What is written of a change, in the order of the names. -/
def slots (c : EndpointChange) : List Slot := [
  ("last_update", c.lastUpdate.map Json.ofUInt64),
  ("last_value", c.lastValue.map Value.json),
  ("maxvalue", c.maxvalue.map Json.ofFloat),
  ("minvalue", c.minvalue.map Json.ofFloat),
  ("params", c.params.map Endpoint.Params.toJson)]

theorem toJson_eq_present (c : EndpointChange) :
    ∃ written, c.toJson = .object (present written) ∧ written.Perm c.slots := by
  refine ⟨[("last_update", c.lastUpdate.map Json.ofUInt64),
    ("last_value", c.lastValue.map Value.json),
    ("params", c.params.map Endpoint.Params.toJson), ("minvalue", c.minvalue.map Json.ofFloat),
    ("maxvalue", c.maxvalue.map Json.ofFloat)], ?_, ?_⟩
  · simp only [toJson, Json.member?_eq_present, ← Json.present_append]
    rfl
  · exact Json.perm_of_indices (n := 5) rfl [0, 1, 4, 3, 2] (by decide)

theorem readsBack_time {o : Option Time} : ∀ t, o = some t →
    ReadsBack Node.readUInt64 Json.ofUInt64 t ∧ (Json.ofUInt64 t).sorted ≠ .null :=
  fun t _ => ⟨Node.readsBack_readUInt64 t, nofun⟩

/-- **A change whose doubles and description survive is read back.** -/
theorem readsBack {c : EndpointChange} (h : c.Exact) : ReadsBack read toJson c := by
  obtain ⟨slots, hjson, hperm⟩ := c.toJson_eq_present
  have hnames : c.slots.map Prod.fst =
      ["last_update", "last_value", "maxvalue", "minvalue", "params"] := rfl
  -- a value is read as it is, `null` included, so its field is not an optional one
  have hvalue : ∀ draft : EndpointChange, draft.lastValue = none →
      schema.fill ("last_value", c.lastValue.map Value.json) draft =
        .ok { draft with lastValue := c.lastValue } := by
    intro draft hnone
    have hfield : schema.field? "last_value" =
        some (.of "last_value" Node.readValue fun v c => { c with lastValue := some v }) := rfl
    cases c.lastValue with
    | none =>
      obtain ⟨_, _, _, _, _⟩ := draft
      cases hnone
      rfl
    | some v => exact Json.Schema.fill_of hfield (Node.readsBack_readValue v) draft
  have hparams : ∀ p, c.params = some p →
      ReadsBack Endpoint.Params.read Endpoint.Params.toJson p ∧ p.toJson.sorted ≠ .null :=
    fun p hp => ⟨Endpoint.Params.readsBack (h.params p hp), nofun⟩
  unfold ReadsBack read
  rw [hjson, Json.Schema.read_present hperm hnames (by decide) (by decide)]
  simp only [EndpointChange.slots, Json.Schema.fillAll]
  rw [Json.Schema.fill_optional rfl readsBack_time rfl, ok_bind, hvalue _ rfl, ok_bind,
    Json.Schema.fill_optional rfl (readsBack_float h.maxvalue) rfl, ok_bind,
    Json.Schema.fill_optional rfl (readsBack_float h.minvalue) rfl, ok_bind,
    Json.Schema.fill_optional rfl hparams rfl, ok_bind]

/-- The doubles and the description of a change that was read survive the wire. -/
theorem yields_read : Yields read Exact := by
  refine Json.Schema.yields_read ⟨nofun, nofun, nofun⟩ fun f hf => ?_
  have hfloat := Node.yields_readOptional Node.yields_readFloat
  have hparams := Node.yields_readOptional Endpoint.Params.yields_read
  simp only [schema, List.mem_cons, List.not_mem_nil, or_false] at hf
  rcases hf with rfl | rfl | rfl | rfl | rfl
  · exact Json.Field.keeps_of_set fun t c hc => ⟨hc.minvalue, hc.maxvalue, hc.params⟩
  · exact Json.Field.keeps_of_set fun v c hc => ⟨hc.minvalue, hc.maxvalue, hc.params⟩
  · exact Json.Field.keeps_of hparams fun p c hp hc => ⟨hc.minvalue, hc.maxvalue, hp⟩
  · exact Json.Field.keeps_of hfloat fun x c hx hc => ⟨hx, hc.maxvalue, hc.params⟩
  · exact Json.Field.keeps_of hfloat fun x c hx hc => ⟨hc.minvalue, hx, hc.params⟩

end EndpointChange

/-! ### Entries -/

namespace Entry

variable {α : Type}

/-- A change with the property, or a tombstone. -/
def Satisfies (P : α → Prop) : Entry α → Prop
  | tombstone => True
  | change a => P a

instance (P : α → Prop) [DecidablePred P] (e : Entry α) : Decidable (e.Satisfies P) :=
  match e with
  | tombstone => .isTrue trivial
  | change a => inferInstanceAs (Decidable (P a))

theorem Satisfies.imp {P Q : α → Prop} (h : ∀ a, P a → Q a) {e : Entry α} (he : e.Satisfies P) :
    e.Satisfies Q := by
  cases e with
  | tombstone => trivial
  | change a => exact h a he

/-- What an entry is written as is read as that entry, unless a change is blank. A change that is
not blank is not written as an empty object, from which a blank one would be read. -/
theorem readsBack {readChange : Node → Except Refusal α} {write : α → Json} {isBlank : α → Bool}
    {blank : α} (hempty : readChange (.object [] true) = .ok blank) (hblank : isBlank blank = true)
    {e : Entry α} (h : e.Satisfies fun a => ReadsBack readChange write a ∧ isBlank a = false) :
    ReadsBack (Entry.read readChange isBlank) (Entry.toJson write) e := by
  unfold ReadsBack Entry.read
  rw [Node.readValue_ofJson, ok_bind]
  cases e with
  | tombstone => rfl
  | change a =>
    obtain ⟨hread, hnot⟩ := h
    have hread : readChange (.ofJson (write a).sorted) = .ok a := hread
    -- an empty object stands for a tombstone, and it is not what a change is written as
    have hne : (write a).sorted ≠ .object [] := by
      intro heq
      rw [heq] at hread
      have hsame : blank = a := Except.ok.inj (hempty.symm.trans hread)
      rw [← hsame, hblank] at hnot
      cases hnot
    have hjson : (Value.ofJson (toJson write (change a)).sorted).json = (write a).sorted :=
      Json.sorted_sorted _
    rw [if_neg (by rw [hjson]; exact hne), Json.readFrom, Node.ofValue, hjson, hread, ok_bind, hnot]
    rfl

/-- **What is read as an entry** is a tombstone or a change that is not blank. -/
theorem satisfies_of_read {readChange : Node → Except Refusal α} {isBlank : α → Bool}
    {P : α → Prop} {node : Node}
    (h : ∀ v, node.readValue = .ok v → ∀ a, Json.readFrom readChange v = .ok a → P a) {e : Entry α}
    (he : Entry.read readChange isBlank node = .ok e) :
    e.Satisfies fun a => P a ∧ isBlank a = false := by
  unfold Entry.read at he
  obtain ⟨v, hv, he⟩ := bind_eq_ok_iff.mp he
  split at he
  · cases he
    trivial
  · obtain ⟨a, ha, he⟩ := bind_eq_ok_iff.mp he
    split at he
    · cases he
    · next hnot =>
      cases he
      exact ⟨h v hv a ha, by simpa using hnot⟩

theorem yields_read {readChange : Node → Except Refusal α} {isBlank : α → Bool} {P : α → Prop}
    (h : Yields readChange P) :
    Yields (Entry.read readChange isBlank) (Satisfies fun a => P a ∧ isBlank a = false) :=
  fun _ _ he => satisfies_of_read (fun _ _ a ha => h _ a ha) he

end Entry

/-! ### Changes of devices -/

namespace DeviceChange

/-- **The entries of a change** survive the wire. -/
def Exact (c : DeviceChange) : Prop :=
  ∀ key e, c.endpoints.get? key = some e → e.Satisfies EndpointChange.Writable

/-- **The change survives the wire.** -/
structure Writable (c : DeviceChange) : Prop where
  exact : c.Exact
  notBlank : c.isBlank = false

/-- What is written of a change, in the order of the names. -/
def slots (c : DeviceChange) : List Slot := [
  ("endpoints", if c.endpoints.isEmpty then none
    else some (Json.ofMap id (Entry.toJson EndpointChange.toJson) c.endpoints)),
  ("last_update", c.lastUpdate.map Json.ofUInt64),
  ("name", c.name.map Json.string)]

theorem toJson_eq_present (c : DeviceChange) :
    ∃ written, c.toJson = .object (present written) ∧ written.Perm c.slots := by
  refine ⟨[("name", c.name.map Json.string), ("last_update", c.lastUpdate.map Json.ofUInt64),
    ("endpoints", if c.endpoints.isEmpty then none
      else some (Json.ofMap id (Entry.toJson EndpointChange.toJson) c.endpoints))], ?_, ?_⟩
  · simp only [toJson, Json.member?_eq_present, Json.memberMap_eq_present, ← Json.present_append]
    rfl
  · exact Json.perm_of_indices (n := 3) rfl [2, 1, 0] (by decide)

theorem readsBack_endpointEntry {e : Entry EndpointChange}
    (h : e.Satisfies EndpointChange.Writable) :
    ReadsBack (Entry.read EndpointChange.read EndpointChange.isBlank)
      (Entry.toJson EndpointChange.toJson) e :=
  Entry.readsBack (show EndpointChange.read (.object [] true) = .ok {} from rfl) rfl
    (h.imp fun _ hc => ⟨EndpointChange.readsBack hc.toExact, hc.notBlank⟩)

/-- **A change whose entries survive is read back.** -/
theorem readsBack {c : DeviceChange} (h : c.Exact) : ReadsBack read toJson c := by
  obtain ⟨slots, hjson, hperm⟩ := c.toJson_eq_present
  have hnames : c.slots.map Prod.fst = ["endpoints", "last_update", "name"] := rfl
  unfold ReadsBack read
  rw [hjson, Json.Schema.read_present hperm hnames (by decide) (by decide)]
  simp only [DeviceChange.slots, Json.Schema.fillAll]
  rw [Json.Schema.fill_map rfl (fun key e he => readsBack_endpointEntry (h key e he)) rfl, ok_bind,
    Json.Schema.fill_optional rfl EndpointChange.readsBack_time rfl, ok_bind,
    Json.Schema.fill_optional rfl readsBack_string rfl, ok_bind]

/-- The entries of a change that was read survive the wire. -/
theorem yields_read : Yields read Exact := by
  have hentry : Yields (Entry.read EndpointChange.read EndpointChange.isBlank)
      (Entry.Satisfies EndpointChange.Writable) := fun node e he =>
    (Entry.yields_read EndpointChange.yields_read node e he).imp fun c hc => ⟨hc.1, hc.2⟩
  have hempty : Exact {} := fun key e he => nomatch he
  refine Json.Schema.yields_read hempty fun f hf => ?_
  simp only [schema, List.mem_cons, List.not_mem_nil, or_false] at hf
  rcases hf with rfl | rfl | rfl
  · exact Json.Field.keeps_of_set fun s c hc => hc
  · exact Json.Field.keeps_of_set fun t c hc => hc
  · exact Json.Field.keeps_of (Node.yields_readMap hentry) fun m c hm _ => hm

end DeviceChange

/-! ### Changes of views -/

namespace ViewChange

/-- What is written of a change, in the order of the names. -/
def slots (c : ViewChange) : List Slot := [
  ("devices", c.references.map (Json.ofList Json.string)),
  ("id", c.id.map fun id : Uuid => Json.string id.text),
  ("name", c.name.map Json.string)]

theorem toJson_eq_present (c : ViewChange) :
    ∃ written, c.toJson = .object (present written) ∧ written.Perm c.slots := by
  refine ⟨[("id", c.id.map fun id : Uuid => Json.string id.text),
    ("name", c.name.map Json.string),
    ("devices", c.references.map (Json.ofList Json.string))], ?_, ?_⟩
  · simp only [toJson, Json.member?_eq_present, ← Json.present_append]
    rfl
  · exact Json.perm_of_indices (n := 3) rfl [2, 0, 1] (by decide)

/-- **A change of a view is read back.** -/
theorem readsBack (c : ViewChange) : ReadsBack read toJson c := by
  obtain ⟨slots, hjson, hperm⟩ := c.toJson_eq_present
  have hnames : c.slots.map Prod.fst = ["devices", "id", "name"] := rfl
  have hreferences : ∀ refs, c.references = some refs →
      ReadsBack (Node.readList Node.readString) (Json.ofList Json.string) refs ∧
        (Json.ofList Json.string refs).sorted ≠ .null :=
    fun refs _ => ⟨Node.readsBack_readList fun s _ => Node.readsBack_readString s, nofun⟩
  have hid : ∀ id, c.id = some id →
      ReadsBack Node.readUuid (fun id : Uuid => Json.string id.text) id ∧
        (Json.string id.text).sorted ≠ .null :=
    fun id _ => ⟨Node.readsBack_readUuid id, nofun⟩
  unfold ReadsBack read
  rw [hjson, Json.Schema.read_present hperm hnames (by decide) (by decide)]
  simp only [ViewChange.slots, Json.Schema.fillAll]
  rw [Json.Schema.fill_optional rfl hreferences rfl, ok_bind,
    Json.Schema.fill_optional rfl hid rfl, ok_bind,
    Json.Schema.fill_optional rfl readsBack_string rfl, ok_bind]

end ViewChange

end Patch

/-! ### Patches -/

namespace Patch

/-- **The patch survives the wire.** -/
structure Writable (p : Patch) : Prop where
  devices : ∀ ip e, p.devices.get? ip = some e → e.Satisfies DeviceChange.Writable
  views : ∀ key e, p.views.get? key = some e → e.Satisfies fun c => c.isBlank = false

/-- What is written of a patch. -/
def slots (p : Patch) : List Slot := [
  ("devices", if p.devices.isEmpty then none
    else some (Json.ofMap id (Entry.toJson DeviceChange.toJson) p.devices)),
  ("views", if p.views.isEmpty then none
    else some (Json.ofMap id (Entry.toJson ViewChange.toJson) p.views))]

theorem toJson_eq_present (p : Patch) : p.toJson = .object (present p.slots) := by
  simp only [toJson, Json.memberMap_eq_present, ← Json.present_append]
  rfl

/-- **A writable patch is read back.** -/
theorem ofValue_toValue {p : Patch} (h : p.Writable) : ofValue p.toValue = .ok p := by
  have hnames : p.slots.map Prod.fst = ["devices", "views"] := rfl
  have hdevice : ∀ ip e, p.devices.get? ip = some e →
      ReadsBack (Entry.read DeviceChange.read DeviceChange.isBlank)
        (Entry.toJson DeviceChange.toJson) e := fun ip e he =>
    Entry.readsBack (show DeviceChange.read (.object [] true) = .ok {} from rfl) rfl
      ((h.devices ip e he).imp fun c hc => ⟨DeviceChange.readsBack hc.exact, hc.notBlank⟩)
  have hview : ∀ key e, p.views.get? key = some e →
      ReadsBack (Entry.read ViewChange.read ViewChange.isBlank)
        (Entry.toJson ViewChange.toJson) e := fun key e he =>
    Entry.readsBack (show ViewChange.read (.object [] true) = .ok {} from rfl) rfl
      ((h.views key e he).imp fun c hc => ⟨ViewChange.readsBack c, hc⟩)
  have hread : ReadsBack read toJson p := by
    unfold ReadsBack read
    rw [p.toJson_eq_present,
      Json.Schema.read_present (List.Perm.refl _) hnames (by decide) (by decide)]
    simp only [slots, Json.Schema.fillAll]
    rw [Json.Schema.fill_map rfl hdevice rfl, ok_bind, Json.Schema.fill_map rfl hview rfl, ok_bind]
  unfold ReadsBack at hread
  rw [ofValue, Json.readFrom, toValue, Node.ofValue, Value.ofJson, hread]
  rfl

/-- **A patch that was read is writable.** -/
theorem yields_read : Yields read Writable := by
  have hdevice : Yields (Entry.read DeviceChange.read DeviceChange.isBlank)
      (Entry.Satisfies DeviceChange.Writable) := fun node e he =>
    (Entry.yields_read DeviceChange.yields_read node e he).imp fun c hc => ⟨hc.1, hc.2⟩
  have hany : Yields ViewChange.read fun _ => True := fun _ _ _ => trivial
  have hview : Yields (Entry.read ViewChange.read ViewChange.isBlank)
      (Entry.Satisfies fun c => c.isBlank = false) := fun node e he =>
    (Entry.yields_read hany node e he).imp fun c hc => hc.2
  refine Json.Schema.yields_read ⟨nofun, nofun⟩ fun f hf => ?_
  simp only [schema, List.mem_cons, List.not_mem_nil, or_false] at hf
  rcases hf with rfl | rfl
  · exact Json.Field.keeps_of (Node.yields_readMap hdevice) fun m p hm hp => ⟨hm, hp.views⟩
  · exact Json.Field.keeps_of (Node.yields_readMap hview) fun m p hm hp => ⟨hp.devices, hm⟩

/-- **Every patch that data denote is writable.** -/
theorem writable_of_ofValue {v : Value} {p : Patch} (h : ofValue v = .ok p) : p.Writable :=
  yields_read _ _ (mapError_eq_ok_iff.mp h)

end Patch

end Fleet
