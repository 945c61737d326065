import Fleet.Proofs.Kinds
import Fleet.Proofs.SnapshotCodec
import Fleet.Proofs.Texts
import Mathlib.Data.List.Basic

/-!
# What a frame carries

A message whose doubles are finite and read back from their written form is read from its frame as
it was written if brackets nest at most 127 deep in it, and else it is refused
(`Message.decode_encode`).

With room for all brackets the frame denotes the document of the message, and the message is
recovered from that as a snapshot or a value is (`Json.Recovers`). Without it, some container is
unfit. Being unfit is not enough to be refused, since a reader may pass over what it does not know.
But of the data of a message nothing is passed over: a reader that *needs room* for a document
(`Json.NeedsRoom`) has come upon every container in it, and so had room for all of them.
-/

namespace Fleet.Json

variable {α β ρ : Type} {read : Node → Except Refusal α} {document : Json} {outer : Nat}

/-! ### Readers that need room -/

/-- **The reader needs room** for the document: if anything is read from it inside of so many
containers, there was room for all its brackets. -/
def NeedsRoom (read : Node → Except Refusal α) (document : Json) : Prop :=
  ∀ outer ≤ maxDepth, ∀ a, read (.inside outer document) = .ok a →
    document.depth + outer ≤ maxDepth

theorem needsRoom_of_depth_eq_zero (h : document.depth = 0) : NeedsRoom read document := by
  intro outer houter _ _
  rw [h, Nat.zero_add]
  exact houter

theorem needsRoom_readValue (document : Json) : NeedsRoom Node.readValue document := by
  intro outer houter v h
  obtain ⟨found, hfound, -⟩ := Option.map_eq_some_iff.mp (eq_some_of_required h)
  exact Node.room_of_json?_inside document houter hfound

theorem NeedsRoom.bind (h : NeedsRoom read document) (next : α → Except Refusal β) :
    NeedsRoom (fun node => read node >>= next) document := by
  intro outer houter b hb
  obtain ⟨a, ha, -⟩ := bind_eq_ok_iff.mp hb
  exact h outer houter a ha

theorem NeedsRoom.map (h : NeedsRoom read document) (f : α → β) :
    NeedsRoom (fun node => (read node).map f) document := by
  intro outer houter b hb
  obtain ⟨a, ha, -⟩ := map_eq_ok_iff.mp hb
  exact h outer houter a ha

theorem room_of_readItems {items : List Json} (h : ∀ item ∈ items, NeedsRoom read item)
    (houter : outer ≤ maxDepth) {as : List α}
    (hread : Node.readItems read (Node.insideItems outer items) = .ok as) :
    ∀ item ∈ items, item.depth + outer ≤ maxDepth := by
  induction items generalizing as with
  | nil => exact fun _ hitem => nomatch hitem
  | cons item rest ih =>
    obtain ⟨hfirst, hrest⟩ := List.forall_mem_cons.mp h
    obtain ⟨a, ha, hread⟩ := bind_eq_ok_iff.mp hread
    obtain ⟨later, hlater, -⟩ := bind_eq_ok_iff.mp hread
    exact List.forall_mem_cons.mpr ⟨hfirst outer houter a ha, ih hrest hlater⟩

/-- **A list needs room** if all its items do. -/
theorem needsRoom_list {write : α → Json} {as : List α}
    (h : ∀ a ∈ as, NeedsRoom read (write a)) :
    NeedsRoom (Node.readList read) (ofList write as) := by
  intro outer houter _ hread
  rw [ofList, Node.inside] at hread
  split at hread
  · next hroom =>
    exact depth_array_add_le_iff.mpr ⟨hroom, room_of_readItems
      (List.forall_mem_map.mpr h) hroom (eq_ok_of_whenClosed hread)⟩
  · cases hread

theorem room_of_readMembers {members : List (String × Json)}
    (h : ∀ p ∈ members, NeedsRoom read p.2) (houter : outer ≤ maxDepth)
    {m m' : SortedMap String α}
    (hread : Node.readMembers Name.key read m (Node.insideMembers outer members) = .ok m') :
    ∀ p ∈ members, p.2.depth + outer ≤ maxDepth := by
  induction members generalizing m with
  | nil => exact fun _ hp => nomatch hp
  | cons p rest ih =>
    obtain ⟨hfirst, hrest⟩ := List.forall_mem_cons.mp h
    obtain ⟨_, -, hread⟩ := bind_eq_ok_iff.mp hread
    obtain ⟨a, ha, hread⟩ := bind_eq_ok_iff.mp hread
    exact List.forall_mem_cons.mpr ⟨hfirst outer houter a ha, ih hrest hread⟩

/-- **A map needs room** if all its values do. -/
theorem needsRoom_map {write : α → Json} {m : SortedMap String α}
    (h : ∀ k a, m.get? k = some a → NeedsRoom read (write a)) :
    NeedsRoom (Node.readMap Name.key read) (ofMap id write m) := by
  intro outer houter _ hread
  rw [ofMap, Node.inside] at hread
  split at hread
  · next hroom =>
    have hvalues : ∀ p ∈ m.entries.map fun p => (id p.1, write p.2), NeedsRoom read p.2 :=
      List.forall_mem_map.mpr fun p hp => h p.1 p.2 (SortedMap.get?_eq_some_iff.mpr hp)
    exact depth_object_add_le_iff.mpr
      ⟨hroom, room_of_readMembers hvalues hroom (eq_ok_of_whenClosed hread)⟩
  · cases hread

namespace Schema

variable {s : Schema ρ}

/-- **The record has a field for the slot**, and it needs room for what stands there. -/
def Knows (s : Schema ρ) (slot : Slot) : Prop :=
  ∀ document ∈ slot.2, ∃ f, s.field? slot.1 = some f ∧
    ∀ draft, NeedsRoom (fun node => f.put node draft) document

/-- A document that is read by itself. -/
theorem knows_of {name : String} {set : α → ρ → ρ} {other : Option String}
    (hfield : s.field? name = some (.of name read set other)) (h : NeedsRoom read document) :
    s.Knows (name, some document) := by
  rintro _ ⟨rfl⟩
  exact ⟨_, hfield, fun _ => h.map _⟩

/-- A document without brackets. -/
theorem knows_flat {name : String} (hfield : (s.field? name).isSome) (h : document.depth = 0) :
    s.Knows (name, some document) := by
  rintro _ ⟨rfl⟩
  obtain ⟨f, hf⟩ := Option.isSome_iff_exists.mp hfield
  exact ⟨f, hf, fun _ => needsRoom_of_depth_eq_zero h⟩

/-- A document without brackets that may be missing. -/
theorem knows_optional {name : String} {write : α → Json} (hfield : (s.field? name).isSome)
    (h : ∀ a, (write a).depth = 0) (o : Option α) : s.Knows (name, o.map write) := by
  cases o with
  | none => exact fun _ hdocument => nomatch hdocument
  | some a => exact knows_flat hfield (h a)

theorem room_of_readMembers {slots : List Slot} (h : slots.Forall s.Knows)
    (houter : outer ≤ maxDepth) {seen : List String} {draft last : ρ}
    (hread : s.readMembers seen draft (Node.insideMembers outer (present slots)) = .ok last) :
    ∀ p ∈ present slots, p.2.depth + outer ≤ maxDepth := by
  induction slots generalizing seen draft with
  | nil => exact fun _ hp => nomatch hp
  | cons slot rest ih =>
    obtain ⟨name, o⟩ := slot
    obtain ⟨hfirst, hrest⟩ := (List.forall_cons _ _ _).mp h
    cases o with
    | none => exact ih hrest hread
    | some document =>
      obtain ⟨f, hfield, hroom⟩ : ∃ f, s.field? name = some f ∧
        ∀ draft, NeedsRoom (fun node => f.put node draft) document := hfirst document rfl
      have hmember : Node.insideMembers outer (present ((name, some document) :: rest)) =
          (.written name, .inside outer document) :: Node.insideMembers outer (present rest) := rfl
      rw [hmember, readMembers, Name.key_written, ok_bind] at hread
      simp only [hfield] at hread
      -- the field is filled, for which the document needed room
      split at hread
      · cases hread
      · obtain ⟨next, hnext, hread⟩ := bind_eq_ok_iff.mp hread
        exact List.forall_mem_cons.mpr ⟨hroom draft outer houter next hnext, ih hrest hread⟩

/-- **A record needs room** if it has a field for everything that is written of it. -/
theorem needsRoom_read {slots : List Slot} (h : slots.Forall s.Knows) (start : ρ) :
    NeedsRoom (s.read start) (object (present slots)) := by
  intro outer houter _ hread
  rw [Node.inside] at hread
  split at hread
  · next hroom =>
    exact depth_object_add_le_iff.mpr
      ⟨hroom, room_of_readMembers h hroom (eq_ok_of_whenClosed hread)⟩
  · cases hread

end Schema

end Fleet.Json

namespace Fleet

open Json (Node NeedsRoom Recovers Slot needsRoom_of_depth_eq_zero needsRoom_readValue
  needsRoom_list needsRoom_map)
open Json.Schema (knows_of knows_flat knows_optional needsRoom_read)

/-! ### Snapshots -/

theorem EndpointRecord.needsRoom (r : EndpointRecord) : NeedsRoom read r.toJson := by
  have hknows : r.slots.Forall schema.Knows :=
    ⟨knows_of rfl (needsRoom_readValue _), knows_flat rfl rfl, knows_flat rfl rfl,
      knows_of rfl (needsRoom_readValue _), knows_flat rfl rfl,
      knows_optional rfl Json.depth_ofFloat _, knows_optional rfl Json.depth_ofFloat _,
      knows_optional rfl (fun _ => rfl) _⟩
  rw [r.toJson_eq_present]
  exact (needsRoom_read hknows {}).bind _

theorem DeviceRecord.needsRoom (r : DeviceRecord) : NeedsRoom read r.toJson := by
  have hknows : r.slots.Forall schema.Knows :=
    ⟨knows_flat rfl rfl, knows_flat rfl rfl, knows_of rfl (needsRoom_map fun _ e _ => e.needsRoom)⟩
  exact (needsRoom_read hknows {}).bind _

theorem ViewRecord.needsRoom (r : ViewRecord) : NeedsRoom read r.toJson := by
  have hknows : r.slots.Forall schema.Knows :=
    ⟨knows_flat rfl rfl, knows_of rfl (needsRoom_list fun _ _ => needsRoom_of_depth_eq_zero rfl)⟩
  exact (needsRoom_read hknows {}).bind _

/-- **Nothing in a snapshot is passed over.** -/
theorem Snapshot.needsRoom (s : Snapshot) : NeedsRoom read s.toJson := by
  have hknows : s.slots.Forall schema.Knows :=
    ⟨knows_of rfl (needsRoom_map fun _ d _ => d.needsRoom),
      knows_of rfl (needsRoom_map fun _ v _ => v.needsRoom)⟩
  exact needsRoom_read hknows {}

/-! ### Reports -/

namespace ErrorReport

/-- What is written of a report. -/
def slots (r : ErrorReport) : List Slot := [
  ("kind", some (.string r.kind.name)),
  ("detail", some (.string r.detail))]

/-- What is written of a report, in the order of the names. -/
def ordered (r : ErrorReport) : List Slot := [
  ("detail", some (.string r.detail)),
  ("kind", some (.string r.kind.name))]

theorem perm_slots (r : ErrorReport) : r.slots.Perm r.ordered := .swap _ _ []

theorem needsRoom (r : ErrorReport) (buffered : Bool) : NeedsRoom (read buffered) r.toJson := by
  have hknows : r.slots.Forall (schema buffered).Knows := ⟨knows_flat rfl rfl, knows_flat rfl rfl⟩
  exact (needsRoom_read hknows ⟨none, none⟩).bind _

theorem recovers_kind (buffered : Bool) (kind : ErrorKind) :
    Recovers .written (ErrorKind.read buffered) (fun kind => .string kind.name) kind := by
  intro node hnode
  rw [Json.Node.eq_string_of_json? hnode]
  cases kind <;> rfl

/-- **A report is recovered.** -/
theorem recovers (r : ErrorReport) (buffered : Bool) :
    Recovers .written (read buffered) toJson r := by
  intro node hnode
  have hfills : (schema buffered).Fills .written r.slots ⟨none, none⟩
      ⟨some r.kind, some r.detail⟩ :=
    .of (a := r.kind) rfl (recovers_kind buffered r.kind) <|
      .of rfl (Json.recovers_string r.detail) .nil
  have hnames : r.ordered.map Prod.fst = ["detail", "kind"] := rfl
  rw [read, Json.Schema.read_of_fills r.perm_slots hnames (by decide) hfills hnode]
  rfl

end ErrorReport

/-! ### Messages -/

namespace Message

/-- All doubles in the message are finite. -/
def Finite : Message → Prop
  | init s => s.Finite
  | _ => True

/-- **A message is read from its frame** by its kind: the data, if there are any, are those of the
kind. -/
theorem read_inside (m : Message) : read (.inside 0 m.toJson) =
    match m.data? with
    | none => m.kind.readMissing
    | some data => m.kind.readData false (.inside 1 data) := by
  have hfield : schema.field? "data" = some ⟨"data", Draft.putData, none⟩ := rfl
  cases hdata : m.data? with
  | none =>
    have hdocument : m.toJson = .object [("event", .string m.name)] := by
      rw [toJson, hdata]
      rfl
    rw [hdocument]
    show ((schema.readMembers [] .blank [(.written "event", .string m.kind.name)] >>= _) >>= _) = _
    rw [readMembers_event]
    rfl
  | some data =>
    have hdocument : m.toJson = .object [("event", .string m.name), ("data", data)] := by
      rw [toJson, hdata]
      rfl
    rw [hdocument]
    show ((schema.readMembers [] .blank [(.written "event", .string m.kind.name),
      (.written "data", .inside 1 data)] >>= _) >>= _) = _
    rw [readMembers_event, Json.Schema.readMembers, Json.Name.key_written, ok_bind]
    simp only [hfield]
    rw [if_neg (by decide), Draft.putData]
    cases m.kind.readData false (.inside 1 data) <;> rfl

/-- Nothing in the data of a message is passed over. -/
theorem needsRoom_data {m : Message} {data : Json} (hdata : m.data? = some data) :
    NeedsRoom (m.kind.readData false) data := by
  cases m with
  | init s =>
    cases hdata
    exact s.needsRoom.map _
  | update v | delete v =>
    cases hdata
    exact (needsRoom_readValue _).map _
  | error r =>
    cases hdata
    exact (r.needsRoom false).map _
  | _ => cases hdata

/-- **The data of a message are recovered** if all doubles are finite. -/
theorem readData_of_json? {m : Message} (hfinite : m.Finite) {data : Json}
    (hdata : m.data? = some data) {node : Node} (hnode : node.json? = some data) :
    m.kind.readData false node = .ok m := by
  cases m with
  | init s =>
    cases hdata
    have hrecovers : Recovers .written Snapshot.read Snapshot.toJson s := Snapshot.recovers hfinite
    exact map_eq_ok_iff.mpr ⟨s, hrecovers node hnode, rfl⟩
  | update v | delete v =>
    cases hdata
    have hrecovers : Recovers .written Node.readValue Value.json v := Json.recovers_value v
    exact map_eq_ok_iff.mpr ⟨v, hrecovers node hnode, rfl⟩
  | error r =>
    cases hdata
    exact map_eq_ok_iff.mpr ⟨r, r.recovers false node hnode, rfl⟩
  | _ => cases hdata

theorem readMissing_of_data? {m : Message} (hdata : m.data? = none) :
    m.kind.readMissing = .ok m := by
  cases m with
  | init s | update v | delete v | error r => cases hdata
  | _ => rfl

/-- A message nests deeper than its data. -/
theorem depth_toJson_le_iff (m : Message) {k : Nat} :
    m.toJson.depth ≤ k + 1 ↔ ∀ data ∈ m.data?, data.depth ≤ k := by
  rw [toJson, Json.depth_object_le_iff]
  cases m.data? with
  | none => simp [Json.member, Json.member?]
  | some data => simp [Json.member, Json.member?]

/-- **What is read from the frame of a message** whose doubles are finite and such that their
written form gives them back: the message if there is room for its brackets, and else nothing. -/
theorem decode_of_faithful {m : Message} (hfinite : m.Finite) (hfaithful : m.toJson.Faithful) :
    decode m.encode = if m.toJson.depth ≤ 127 then .ok m else .error (.unreadable "") := by
  have hdecode : decode m.encode = (read (.inside 0 m.toJson)).mapError fun _ => .unreadable "" :=
    congrArg (Except.mapError _) (Json.readText_compact read hfaithful)
  rw [hdecode, read_inside]
  cases hdata : m.data? with
  | none =>
    -- without data there is one pair of brackets only
    have hdepth : m.toJson.depth ≤ 126 + 1 := m.depth_toJson_le_iff.mpr (by simp [hdata])
    rw [if_pos hdepth]
    dsimp only
    rw [readMissing_of_data? hdata]
    rfl
  | some data =>
    dsimp only
    by_cases hdepth : m.toJson.depth ≤ 127
    · have hroom : data.depth + 1 ≤ Json.maxDepth :=
        Nat.succ_le_succ (m.depth_toJson_le_iff.mp hdepth data hdata)
      rw [if_pos hdepth, readData_of_json? hfinite hdata (Node.json?_inside data hroom)]
      rfl
    · rw [if_neg hdepth]
      cases hread : m.kind.readData false (.inside 1 data) with
      | error e => rfl
      -- something was read, so there was room for the data
      | ok m' =>
        have hroom : data.depth + 1 ≤ Json.maxDepth :=
          needsRoom_data hdata 1 (by decide) m' hread
        refine absurd (m.depth_toJson_le_iff.mpr fun data' hdata' => ?_) hdepth
        cases hdata.symm.trans hdata'
        exact Nat.le_of_succ_le_succ hroom

/-- **A frame is read as the message that was written** if brackets nest at most 127 deep in it, and
it is refused if they nest deeper. The doubles in the message have to be finite, and such that their
written form gives them back. -/
theorem decode_encode {m : Message} (hfinite : m.Finite) (hfaithful : m.toJson.Faithful) :
    (m.toJson.depth ≤ 127 → decode m.encode = .ok m) ∧
    (127 < m.toJson.depth → ∃ e, decode m.encode = .error e ∧ e.kind = "DeserializationError") := by
  rw [decode_of_faithful hfinite hfaithful]
  exact ⟨fun hdepth => if_pos hdepth, fun hdepth => ⟨_, if_neg (Nat.not_le.mpr hdepth), rfl⟩⟩

/-- A snapshot with one sensor, whose value is in so many lists, one in the other. -/
def deepSnapshot (n : Nat) : Snapshot where
  devices := .singleton "hall" ⟨"Hall", 5, .singleton "3" {
    typeCode := .number (.ofUInt64 1)
    function := "sensor"
    description := "inlet \"A\""
    lastValue := .ofJson (Nat.repeat (fun document => .array [document]) n .null)
    lastUpdate := 6
    minvalue := some 4
    maxvalue := some 30.5
    unit := none }⟩

theorem finite_deepSnapshot (n : Nat) : (deepSnapshot n).Finite := by
  intro ip r hr key e he
  obtain ⟨-, ⟨⟩⟩ := Option.ite_none_right_eq_some.mp (SortedMap.get?_singleton.symm.trans hr)
  obtain ⟨-, ⟨⟩⟩ := Option.ite_none_right_eq_some.mp (SortedMap.get?_singleton.symm.trans he)
  have hmin : FiniteIfGiven (some 4) := by decide +kernel
  have hmax : FiniteIfGiven (some 30.5) := by decide +kernel
  exact ⟨hmin, hmax⟩

theorem decode_encode_deep :
    (init (deepSnapshot 121)).toJson.depth = 127 ∧
    decode (init (deepSnapshot 121)).encode = .ok (init (deepSnapshot 121)) ∧
    (init (deepSnapshot 122)).toJson.depth = 128 ∧
    ∃ e, decode (init (deepSnapshot 122)).encode = .error e ∧ e.kind = "DeserializationError" := by
  have hfinite : ∀ n, (init (deepSnapshot n)).Finite := finite_deepSnapshot
  have hfaithful : (init (deepSnapshot 121)).toJson.Faithful := by decide +kernel
  have hfaithful' : (init (deepSnapshot 122)).toJson.Faithful := by decide +kernel
  have hdepth : (init (deepSnapshot 121)).toJson.depth = 127 := by decide +kernel
  have hdepth' : (init (deepSnapshot 122)).toJson.depth = 128 := by decide +kernel
  exact ⟨hdepth, (decode_encode (hfinite 121) hfaithful).1 (Nat.le_of_eq hdepth), hdepth',
    (decode_encode (hfinite 122) hfaithful').2 (by rw [hdepth']; decide)⟩

end Message

end Fleet
