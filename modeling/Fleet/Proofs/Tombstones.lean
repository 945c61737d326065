import Fleet.Proofs.Parts
import Fleet.Proofs.PatchCodec

/-!
# Tombstones are empty objects

In a document a tombstone is an empty object, and a change is anything else. So it is a matter of
shape whether a key deletes or changes, at all three levels of a patch, and two things could go
wrong on the way from one replica to another: a change could be written as an empty object, or be
read from something that had become one.

* What is written is read back just for the writable patches: those without blank changes, without
  doubles that are not finite, and without `null` for a type.
* Every patch that was read is writable, whether from data or from a text.
* The entries of a patch that was read are those of the document (`Patch.Shaped`): a key has an
  entry if something stands under it, and the entry is a tombstone if that is the empty object. The
  document may give the fields of a record by name or by place, repeat the keys of a map, and repeat
  the members of a change; of several the last one counts.

`Patch.codec_exact` is all of this. For the last point the readers are followed to the part of the
document that they read: a record to the part of a field (`Schema.part_of_read`), a map to the
member of a key (`Node.member_of_readMap`), an entry to the plain value that it is read through
(`Patch.Entry.read_spec`).
-/

namespace Fleet

namespace Json

variable {α ρ : Type}

/-! ### What readers find -/

theorem required_eq_ok_iff {o : Option α} {a : α} : required o = .ok a ↔ o = some a := by
  cases o with
  | none => exact ⟨nofun, nofun⟩
  | some b => exact ⟨fun h => by cases h; rfl, fun h => by cases h; rfl⟩

/-- The field does not touch what is taken from the draft. -/
def Field.Leaves (f : Field ρ) (get : ρ → α) : Prop :=
  ∀ a, f.Keeps fun draft => get draft = a

theorem Field.leaves_of {β : Type} {name : String} {read : Node → Except Refusal β}
    {set : β → ρ → ρ} {other : Option String} {get : ρ → α}
    (hset : ∀ b draft, get (set b draft) = get draft) : (Field.of name read set other).Leaves get :=
  fun _ => Field.keeps_of_set fun b draft h => (hset b draft).trans h

/-- **One field alone** decides what is taken from the draft: it stands at a place, has one name,
and no other field has this name or touches what it reads. -/
structure Schema.Sole (fields : List (Field ρ)) (i : Nat) (name : String)
    (read : Node → Except Refusal α) (get : ρ → α) : Prop where
  here : ∃ f, fields[i]? = some f ∧ f.name = name ∧ f.otherName = none ∧
    ∀ node draft draft', f.put node draft = .ok draft' → read node = .ok (get draft')
  others : ∀ j f, fields[j]? = some f → j ≠ i →
    f.name ≠ name ∧ f.otherName ≠ some name ∧ f.Leaves get

/-- What a part of the document says of what is taken from the draft: it was read from the part, or
there is no part and it is as before. -/
def ReadFrom (read : Node → Except Refusal α) (part : Option Node) (before after : α) : Prop :=
  match part with
  | some node => read node = .ok after
  | none => after = before

namespace Schema

variable {s : Schema ρ} {i : Nat} {name : String} {read : Node → Except Refusal α} {get : ρ → α}

/-- A member of the name is for the field, and members of other names are for others. -/
theorem Sole.field?_spec (h : Sole s.fields i name read get) :
    (∃ f, s.field? name = some f ∧
      ∀ node draft draft', f.put node draft = .ok draft' → read node = .ok (get draft')) ∧
    ∀ other f, s.field? other = some f → other ≠ name → f.Leaves get := by
  obtain ⟨f, hf, hname, hother, hput⟩ := h.here
  constructor
  · have hsome : (s.field? name).isSome := by
      rw [field?, List.find?_isSome]
      exact ⟨f, List.mem_of_getElem? hf, by simp [hname]⟩
    obtain ⟨g, hg⟩ := Option.isSome_iff_exists.mp hsome
    obtain ⟨j, hj⟩ := List.mem_iff_getElem?.mp (List.mem_of_find?_eq_some hg)
    have hanswers : g.name = name ∨ g.otherName = some name := by
      simpa using List.find?_some hg
    -- a field that answers to the name is the one at the place
    by_cases hij : j = i
    · subst hij
      rw [hf] at hj
      cases hj
      exact ⟨f, hg, hput⟩
    · obtain ⟨hne, hne', -⟩ := h.others j g hj hij
      exact absurd hanswers (by simp [hne, hne'])
  · intro other g hg hne
    obtain ⟨j, hj⟩ := List.mem_iff_getElem?.mp (List.mem_of_find?_eq_some hg)
    have hanswers : g.name = other ∨ g.otherName = some other := by
      simpa using List.find?_some hg
    by_cases hij : j = i
    · subst hij
      rw [hf] at hj
      cases hj
      simp [hname, hother, hne.symm] at hanswers
    · exact (h.others j g hj hij).2.2

/-- **Members**: the last one of the name is read. -/
theorem part_of_readMembers (h : Sole s.fields i name read get) {members : List (Name × Node)}
    {seen : List String} {draft draft' : ρ}
    (hread : s.readMembers seen draft members = .ok draft') :
    ReadFrom read (lastUnder? (some name) (members.map fun p => (p.1.text, p.2)))
      (get draft) (get draft') := by
  obtain ⟨⟨f, hf, hput⟩, hothers⟩ := h.field?_spec
  induction members generalizing seen draft with
  | nil =>
    cases hread
    rfl
  | cons p rest ih =>
    obtain ⟨n, node⟩ := p
    rw [readMembers] at hread
    obtain ⟨text, htext, hread⟩ := bind_eq_ok_iff.mp hread
    have htext : n.text = some text := required_eq_ok_iff.mp htext
    rw [List.map_cons, lastUnder?, htext]
    -- what comes of the first member only matters if the rest has none of the name
    have hfirst : ∀ {seen' : List String} {middle : ρ},
        s.readMembers seen' middle rest = .ok draft' →
        ReadFrom read (if some text = some name then some node else none) (get draft) (get middle) →
        ReadFrom read ((lastUnder? (some name) (rest.map fun p => (p.1.text, p.2))).or
          (if some text = some name then some node else none)) (get draft) (get draft') := by
      intro seen' middle hrest hmiddle
      have hlast := ih hrest
      cases hlater : lastUnder? (some name) (rest.map fun p => (p.1.text, p.2)) with
      | some part =>
        rw [hlater] at hlast
        exact hlast
      | none =>
        rw [hlater] at hlast
        have hsame : get draft' = get middle := hlast
        rw [Option.none_or, hsame]
        exact hmiddle
    cases hfield : s.field? text with
    -- a member that is passed over is not one of the name
    | none =>
      have hne : text ≠ name := fun heq => by
        rw [heq, hf] at hfield
        cases hfield
      simp only [hfield] at hread
      split at hread
      · cases hread
      · exact hfirst hread (by rw [if_neg (by simpa using hne)]; rfl)
    | some g =>
      simp only [hfield] at hread
      split at hread
      · cases hread
      · obtain ⟨middle, hmiddle, hread⟩ := bind_eq_ok_iff.mp hread
        refine hfirst hread ?_
        by_cases hname : text = name
        · rw [if_pos (by rw [hname])]
          rw [hname, hf] at hfield
          cases hfield
          exact hput _ _ _ hmiddle
        · rw [if_neg (by simpa using hname)]
          exact hothers text g hfield hname (get draft) node draft middle rfl hmiddle

/-- **Items**: the one at the place is read. -/
theorem part_of_readItems {fields : List (Field ρ)} (h : Sole fields i name read get)
    {items : List Node} {draft draft' : ρ} (hread : readItems draft fields items = .ok draft') :
    ReadFrom read items[i]? (get draft) (get draft') := by
  induction fields generalizing i items draft with
  | nil =>
    obtain ⟨f, hf, -⟩ := h.here
    cases hf
  | cons f rest ih =>
    cases items with
    | nil =>
      cases hread
      rfl
    | cons node items =>
      rw [readItems] at hread
      obtain ⟨middle, hmiddle, hread⟩ := bind_eq_ok_iff.mp hread
      cases i with
      | zero =>
        obtain ⟨g, hg, -, -, hput⟩ := h.here
        cases hg
        -- the fields after it do not touch what was read
        have hafter : ∀ g ∈ rest, g.Keeps fun d => get d = get middle := by
          intro g hg
          obtain ⟨j, hj⟩ := List.mem_iff_getElem?.mp hg
          exact (h.others (j + 1) g hj (Nat.succ_ne_zero j)).2.2 _
        have hsame : get draft' = get middle :=
          keeps_readItems rest items (fun g hg item _ => hafter g hg item) rfl hread
        rw [hsame]
        exact hput _ _ _ hmiddle
      | succ i =>
        have hsole : Sole rest i name read get :=
          ⟨h.here, fun j g hg hne => h.others (j + 1) g hg (by simpa using hne)⟩
        have hbefore : get middle = get draft :=
          (h.others 0 f rfl (Nat.succ_ne_zero i).symm).2.2 _ _ _ _ rfl hmiddle
        rw [← hbefore]
        exact ih hsole hread

/-- **A record**: the part that stands for the field is read. -/
theorem part_of_read (h : Sole s.fields i name read get) {start draft : ρ} {node : Node}
    (hread : s.read start node = .ok draft) :
    ReadFrom read (node.part? i name) (get start) (get draft) := by
  unfold Schema.read at hread
  split at hread
  · exact part_of_readMembers h (eq_ok_of_whenClosed hread)
  · exact part_of_readItems h (eq_ok_of_whenClosed hread)
  · cases hread

end Schema

/-! ### Maps -/

namespace Node

variable {read : Node → Except Refusal α}

theorem member_of_readMembers {members : List (Name × Node)} {m m' : SortedMap String α}
    (h : readMembers Name.key read m members = .ok m') (key : String) :
    (m'.get? key).map .ok =
      ((lastUnder? (some key) (members.map fun p => (p.1.text, p.2))).map read).or
        ((m.get? key).map .ok) := by
  induction members generalizing m with
  | nil =>
    cases h
    rfl
  | cons p rest ih =>
    obtain ⟨n, node⟩ := p
    rw [readMembers] at h
    obtain ⟨text, htext, h⟩ := bind_eq_ok_iff.mp h
    obtain ⟨a, ha, h⟩ := bind_eq_ok_iff.mp h
    have htext : n.text = some text := required_eq_ok_iff.mp htext
    rw [ih h, List.map_cons, lastUnder?, htext, SortedMap.get?_insert]
    cases lastUnder? (some key) (rest.map fun p => (p.1.text, p.2)) with
    | some part => rfl
    | none =>
      by_cases hkey : key = text
      · subst hkey
        simp [ha]
      · rw [if_neg hkey, if_neg fun h => hkey (Option.some.inj h).symm]
        rfl

/-- **A map**: under each key is what was read from the member. -/
theorem member_of_readMap {node : Node} {m : SortedMap String α}
    (h : readMap Name.key read node = .ok m) (key : String) :
    (m.get? key).map .ok = (node.member? key).map read := by
  unfold readMap at h
  split at h
  · rw [member_of_readMembers (eq_ok_of_whenClosed h)]
    exact Option.or_none
  · cases h

end Node

/-- **A map that is the field of a record**: under each key is what was read from the entry. -/
theorem Schema.entry_of_read {s : Schema ρ} {i : Nat} {name : String}
    {read : Node → Except Refusal α} {get : ρ → SortedMap String α}
    (h : Sole s.fields i name (Node.readMap Name.key read) get) {start draft : ρ}
    (hstart : get start = ∅) {node : Node} (hread : s.read start node = .ok draft) (key : String) :
    ((get draft).get? key).map .ok = (node.entryAt? i name key).map read := by
  have hpart := part_of_read h hread
  unfold Node.entryAt?
  cases hnode : node.part? i name with
  | some part =>
    rw [hnode] at hpart
    exact Node.member_of_readMap hpart key
  | none =>
    rw [hnode] at hpart
    have hsame : get draft = get start := hpart
    rw [hsame, hstart]
    rfl

end Json

namespace Patch

open Json (Node Refusal Schema)

/-! ### Entries -/

section

variable {α : Type} {readChange : Node → Except Refusal α} {isBlank : α → Bool} {node : Node}

/-- **An entry** is a tombstone if it was read from the empty object, and a change is that of the
plain value that the part denotes. -/
theorem Entry.read_spec {e : Entry α} (h : Entry.read readChange isBlank node = .ok e) :
    e.isTombstone = node.isEmptyObject ∧
      ∀ c, e = .change c → ∃ v, node.value? = some v ∧ readChange (.ofValue v) = .ok c := by
  unfold Entry.read at h
  obtain ⟨v, hv, h⟩ := bind_eq_ok_iff.mp h
  have hv : node.value? = some v := Json.required_eq_ok_iff.mp hv
  have hshape : node.isEmptyObject = true ↔ v.json = .object [] := by
    rw [Node.isEmptyObject_iff, hv, Option.some.injEq]
    exact ⟨fun heq => congrArg Value.json heq, fun heq => by
      obtain ⟨document, canonical⟩ := v
      cases heq
      rfl⟩
  split at h
  · next hempty =>
    cases h
    exact ⟨(hshape.mpr hempty).symm, nofun⟩
  · next hnot =>
    obtain ⟨a, ha, h⟩ := bind_eq_ok_iff.mp h
    split at h
    · cases h
    · cases h
      refine ⟨(Bool.eq_false_iff.mpr fun htrue => hnot (hshape.mp htrue)).symm, ?_⟩
      intro c hc
      cases hc
      exact ⟨v, hv, ha⟩

/-- The tombstones in a map of entries. -/
theorem Entry.tombstones_eq {e : Option (Entry α)} {part : Option Node}
    (h : e.map .ok = part.map (Entry.read readChange isBlank)) :
    e.map isTombstone = part.map Node.isEmptyObject := by
  cases part with
  | none =>
    rw [Option.map_eq_none_iff.mp h]
    rfl
  | some node =>
    obtain ⟨e, rfl, he⟩ := Option.map_eq_some_iff.mp h
    exact congrArg some (Entry.read_spec he.symm).1

end

/-! ### Patches -/

theorem sole_endpoints : Schema.Sole DeviceChange.schema.fields 2 "endpoints"
    (Node.readMap Json.Name.key (Entry.read EndpointChange.read EndpointChange.isBlank))
    DeviceChange.endpoints where
  here := ⟨_, rfl, rfl, rfl, fun node draft draft' h => by
    obtain ⟨m, hm, rfl⟩ := map_eq_ok_iff.mp h
    exact hm⟩
  others j f hf hne := by
    rcases j with _ | _ | _ | j
    · cases hf
      exact ⟨by decide, nofun, Json.Field.leaves_of fun _ _ => rfl⟩
    · cases hf
      exact ⟨by decide, nofun, Json.Field.leaves_of fun _ _ => rfl⟩
    · exact absurd rfl hne
    · cases hf

theorem sole_devices : Schema.Sole schema.fields 0 "devices"
    (Node.readMap Json.Name.key (Entry.read DeviceChange.read DeviceChange.isBlank))
    Patch.devices where
  here := ⟨_, rfl, rfl, rfl, fun node draft draft' h => by
    obtain ⟨m, hm, rfl⟩ := map_eq_ok_iff.mp h
    exact hm⟩
  others j f hf hne := by
    rcases j with _ | _ | j
    · exact absurd rfl hne
    · cases hf
      exact ⟨by decide, nofun, Json.Field.leaves_of fun _ _ => rfl⟩
    · cases hf

theorem sole_views : Schema.Sole schema.fields 1 "views"
    (Node.readMap Json.Name.key (Entry.read ViewChange.read ViewChange.isBlank))
    Patch.views where
  here := ⟨_, rfl, rfl, rfl, fun node draft draft' h => by
    obtain ⟨m, hm, rfl⟩ := map_eq_ok_iff.mp h
    exact hm⟩
  others j f hf hne := by
    rcases j with _ | _ | j
    · cases hf
      exact ⟨by decide, nofun, Json.Field.leaves_of fun _ _ => rfl⟩
    · exact absurd rfl hne
    · cases hf

/-- **The entries of the patch are those of a document**, and the tombstones are its empty objects:
at the devices, at the endpoints of a device that is changed, and at the views. -/
structure Shaped (p : Patch) (root : Node) : Prop where
  devices : ∀ ip, (p.devices.get? ip).map Entry.isTombstone =
    (root.entryAt? 0 "devices" ip).map Node.isEmptyObject
  endpoints : ∀ ip c node, p.devices.get? ip = some (.change c) →
    root.entryAt? 0 "devices" ip = some node → ∀ key,
      (c.endpoints.get? key).map Entry.isTombstone =
        (node.entryAt? 2 "endpoints" key).map Node.isEmptyObject
  views : ∀ key, (p.views.get? key).map Entry.isTombstone =
    (root.entryAt? 1 "views" key).map Node.isEmptyObject

/-- **A patch has the shape of what it was read from.** -/
theorem shaped_of_read {root : Node} {p : Patch} (h : read root = .ok p) : p.Shaped root where
  devices ip := Entry.tombstones_eq (Schema.entry_of_read sole_devices rfl h ip)
  views key := Entry.tombstones_eq (Schema.entry_of_read sole_views rfl h key)
  endpoints ip c node hc hnode key := by
    have hentry := Schema.entry_of_read sole_devices rfl h ip
    rw [hc, hnode] at hentry
    -- the change was read from a plain value, which has the entries of the part
    obtain ⟨-, hchange⟩ := Entry.read_spec (Option.some.inj hentry).symm
    obtain ⟨v, hv, hread⟩ := hchange c rfl
    have hinner := Entry.tombstones_eq (Schema.entry_of_read sole_endpoints rfl hread key)
    rw [hinner, Node.isEmptyObject_entryAt? hv]

/-- **What is written is read back just for the writable patches, and whatever was read is writable
and has its tombstones where the document has empty objects.** -/
theorem codec_exact :
    (∀ p : Patch, ofValue p.toValue = .ok p ↔ p.Writable) ∧
    (∀ v p, ofValue v = .ok p → p.Writable ∧ p.Shaped (.ofValue v)) ∧
    ∀ text p, ofText text = .ok p → p.Writable ∧ p.Shaped (Json.Reading.ofText text).root := by
  refine ⟨fun p => ⟨writable_of_ofValue, ofValue_toValue⟩, ?_, ?_⟩
  · intro v p h
    have hread : read (.ofValue v) = .ok p := mapError_eq_ok_iff.mp h
    exact ⟨yields_read _ _ hread, shaped_of_read hread⟩
  · intro text p h
    have hread : read (Json.Reading.ofText text).root = .ok p :=
      Json.eq_ok_of_whenClosed (mapError_eq_ok_iff.mp h)
    exact ⟨yields_read _ _ hread, shaped_of_read hread⟩

/-- A change that gives the entries of a device by place, and the value `null` of an endpoint. -/
def atticText : String :=
  "\x7b\"devices\": \x7b\"hall\": \x7b\x7d, \"attic\": [null, null, " ++
    "\x7b\"7\": \x7b\x7d, \"8\": \x7b\"last_value\": null\x7d\x7d]\x7d\x7d"

/-- The patch that the text denotes. -/
def atticPatch : Patch where
  devices := .ofList [("hall", .tombstone), ("attic", .change {
    endpoints := .ofList [("7", .tombstone), ("8", .change { lastValue := some .null })] })]

theorem codec_exact_attic :
    ofText atticText = .ok atticPatch ∧ atticPatch.Writable ∧
      atticPatch.Shaped (Json.Reading.ofText atticText).root ∧
      ofValue atticPatch.toValue = .ok atticPatch := by
  have hread : (ofText atticText).toOption = some atticPatch := by decide +kernel
  obtain ⟨hiff, -, htext⟩ := codec_exact
  obtain ⟨hwritable, hshaped⟩ := htext _ _ (toOption_eq_some_iff.mp hread)
  exact ⟨toOption_eq_some_iff.mp hread, hwritable, hshaped, (hiff _).mpr hwritable⟩

end Patch

end Fleet
