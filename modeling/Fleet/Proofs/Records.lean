import Fleet.Json.Schema
import Fleet.Proofs.Basics
import Fleet.Proofs.Doubles
import Fleet.Proofs.Identifiers

/-!
# Reading back what was written

A patch travels as a plain value: it is written as a document, brought into canonical form, and read
from there. This module says for each way of writing that the reader of the same shape gives the
data back (`ReadsBack`), and for each reader what it can give at all (`Yields`).

* `Json.sorted_eq_self` and `Node.json?_ofJson`: a plain value is a document in canonical form, and
  a reader finds all of it.
* `Node.readsBack_ofList`, `Node.readsBack_ofMap` and their companions: scalars, lists and maps.
* `Schema.read_present`: records. What is written of a record is a list of *slots*, names with the
  documents that stand under them, if any (`present`). Canonical form puts the slots in the order of
  their names, and the reader fills them into the draft one after another (`Schema.fill`).
* `Schema.yields_read`: a property of drafts that every field keeps holds of every record.
-/

namespace Fleet.Json

/-! ### Plain values -/

mutual

/-- **A canonical document is its own canonical form.** -/
theorem sorted_eq_self : (document : Json) → document.Canonical → document.sorted = document
  | null, _ | bool _, _ | number _, _ | string _, _ => rfl
  | array items, h => by rw [sorted, sortedItems_eq_self items h]
  | object members, h => by
    rw [sorted, sortedMembers_eq_self members h.2,
      SortedMap.entries_ofList (List.Perm.refl members) h.1]

theorem sortedItems_eq_self : (items : List Json) → CanonicalItems items → sortedItems items = items
  | [], _ => rfl
  | item :: rest, h => by
    rw [sortedItems, sorted_eq_self item h.1, sortedItems_eq_self rest h.2]

theorem sortedMembers_eq_self :
    (members : List (String × Json)) → CanonicalMembers members → sortedMembers members = members
  | [], _ => rfl
  | (_, value) :: rest, h => by
    rw [sortedMembers, sorted_eq_self value h.1, sortedMembers_eq_self rest h.2]

end

@[simp] theorem sorted_sorted (document : Json) : document.sorted.sorted = document.sorted :=
  sorted_eq_self _ document.canonical_sorted

theorem sortedMembers_eq_map (members : List (String × Json)) :
    sortedMembers members = members.map fun p => (p.1, p.2.sorted) := by
  induction members with
  | nil => rfl
  | cons p rest ih => rw [sortedMembers, ih, List.map_cons]

end Fleet.Json

/-- A plain value is the one that its document denotes. -/
@[simp] theorem Fleet.Value.ofJson_json (v : Fleet.Value) : Fleet.Value.ofJson v.json = v := by
  obtain ⟨document, canonical⟩ := v
  unfold Fleet.Value.ofJson
  congr
  exact Fleet.Json.sorted_eq_self document canonical

namespace Fleet.Json

variable {α β κ ρ : Type}

namespace Node

mutual

/-- **A reader finds all of a document.** -/
theorem json?_ofJson : (document : Json) → (ofJson document).json? = some document
  | .null | .bool _ | .number _ | .string _ => rfl
  | .array items => by rw [ofJson, json?, jsonItems?_ofItems items]; rfl
  | .object members => by rw [ofJson, json?, jsonMembers?_ofMembers members]; rfl

theorem jsonItems?_ofItems : (items : List Json) → jsonItems? (ofItems items) = some items
  | [] => rfl
  | item :: rest => by
    rw [ofItems, jsonItems?, json?_ofJson item, jsonItems?_ofItems rest]
    rfl

theorem jsonMembers?_ofMembers :
    (members : List (String × Json)) → jsonMembers? (ofMembers members) = some members
  | [] => rfl
  | (name, value) :: rest => by
    rw [ofMembers, jsonMembers?, json?_ofJson value, jsonMembers?_ofMembers rest]
    rfl

end

theorem readValue_ofJson (document : Json) :
    (ofJson document).readValue = .ok (Value.ofJson document) := by
  rw [readValue, value?, json?_ofJson]
  rfl

end Node

/-! ### Readers and writers -/

/-- **The reader gives back what the writer wrote** of some data, once it is a plain value. -/
def ReadsBack (read : Node → Except Refusal α) (write : α → Json) (a : α) : Prop :=
  read (.ofJson (write a).sorted) = .ok a

/-- **What a reader can give at all** has the property. -/
def Yields (read : Node → Except Refusal α) (P : α → Prop) : Prop :=
  ∀ node a, read node = .ok a → P a

theorem eq_some_of_required {o : Option α} {a : α} (h : required o = .ok a) : o = some a := by
  cases o with
  | none => cases h
  | some b => exact congrArg some (Except.ok.inj h)

/-- Whether a container is closed is asked at the end, of what was read. -/
theorem eq_ok_of_whenClosed {closed : Bool} {r : Except Refusal α} {a : α}
    (h : (r >>= whenClosed closed) = .ok a) : r = .ok a := by
  obtain ⟨b, hb, h⟩ := bind_eq_ok_iff.mp h
  unfold whenClosed at h
  split at h
  · exact hb.trans h
  · cases h

/-- What stands in a container itself, and not in one inside of it. -/
def Node.parts : Node → List Node
  | array items _ => items
  | object members _ => members.map Prod.snd
  | _ => []

/-! ### Single values -/

namespace Node

theorem readsBack_readValue (v : Value) : ReadsBack readValue Value.json v := by
  unfold ReadsBack
  rw [sorted_eq_self v.json v.canonical, readValue_ofJson, Value.ofJson_json]

theorem readsBack_readString (s : String) : ReadsBack readString Json.string s := rfl

/-- A finite double is read back, and only a finite double is ever read. -/
theorem readsBack_readFloat {x : Float} (h : x.isFinite = true) :
    ReadsBack readFloat ofFloat x := by
  unfold ReadsBack ofFloat Number.ofFloat?
  rw [dif_pos h]
  rfl

theorem yields_readFloat : Yields readFloat fun x => x.isFinite = true := by
  intro node x h
  cases node with
  | number n =>
    cases h
    exact n.isFinite_toFloat
  | _ => cases h

theorem readsBack_readUInt64 (n : UInt64) : ReadsBack readUInt64 ofUInt64 n := by
  have hle : n.toNat ≤ UInt64.size - 1 := Nat.le_pred_of_lt n.toNat_lt
  have hnat : (Number.ofUInt64 n).natural? = some n.toNat := rfl
  change ((number (.ofUInt64 n)).readNat (UInt64.size - 1)).map UInt64.ofNat = .ok n
  rw [readNat, hnat, Option.filter_some, if_pos (by simpa using hle)]
  simp [required, Except.map]

theorem readsBack_readUuid (u : Uuid) :
    ReadsBack readUuid (fun u : Uuid => Json.string u.text) u := by
  change readUuid (.string u.text) = .ok u
  simp only [readUuid, readString, Except.bind, Uuid.ofText?_text, required]

theorem readOptional_of_ne_null {read : Node → Except Refusal α} {node : Node} (h : node ≠ null) :
    readOptional read node = (read node).map some := by
  cases node with
  | null => exact absurd rfl h
  | _ => rfl

theorem ofJson_ne_null {document : Json} (h : document ≠ .null) : ofJson document ≠ null := by
  cases document with
  | null => exact absurd rfl h
  | _ => exact nofun

/-- A value that is there is read back, unless it is written as `null`. -/
theorem readOptional_some {read : Node → Except Refusal α} {write : α → Json} {a : α}
    (h : ReadsBack read write a) (hnull : (write a).sorted ≠ .null) :
    readOptional read (.ofJson (write a).sorted) = .ok (some a) := by
  unfold ReadsBack at h
  rw [readOptional_of_ne_null (ofJson_ne_null hnull), h]
  rfl

theorem yields_readOptional {read : Node → Except Refusal α} {P : α → Prop} (h : Yields read P) :
    Yields (readOptional read) fun o => ∀ a, o = some a → P a := by
  intro node o ho a ha
  subst ha
  by_cases hnode : node = null
  · rw [hnode] at ho
    cases ho
  · rw [readOptional_of_ne_null hnode] at ho
    obtain ⟨a', ha', heq⟩ := map_eq_ok_iff.mp ho
    cases heq
    exact h _ _ ha'

theorem eq_null_of_json? {node : Node} (h : node.json? = some .null) : node = null := by
  cases node with
  | null => rfl
  | array items closed =>
    cases closed with
    | false => cases h
    | true =>
      obtain ⟨_, -, heq⟩ := Option.map_eq_some_iff.mp h
      cases heq
  | object members closed =>
    cases closed with
    | false => cases h
    | true =>
      obtain ⟨_, -, heq⟩ := Option.map_eq_some_iff.mp h
      cases heq
  | _ => cases h

theorem eq_null_of_readValue {node : Node} (h : node.readValue = .ok Value.null) :
    node = null := by
  unfold readValue required value? at h
  cases hdocument : node.json? with
  | none => rw [hdocument] at h; cases h
  | some document =>
    rw [hdocument] at h
    have hsorted : document.sorted = .null := congrArg Value.json (Except.ok.inj h)
    cases document with
    | null => exact eq_null_of_json? hdocument
    | _ => cases hsorted

end Node

/-! ### Lists -/

namespace Node

theorem readItems_ofItems {read : Node → Except Refusal α} {write : α → Json} {as : List α}
    (h : ∀ a ∈ as, ReadsBack read write a) :
    readItems read (ofItems (sortedItems (as.map write))) = .ok as := by
  induction as with
  | nil => rfl
  | cons a rest ih =>
    rw [List.map_cons, sortedItems, ofItems, readItems, h a List.mem_cons_self,
      ih fun b hb => h b (List.mem_cons_of_mem _ hb)]
    rfl

/-- **A list is read back** if its items are. -/
theorem readsBack_readList {read : Node → Except Refusal α} {write : α → Json} {as : List α}
    (h : ∀ a ∈ as, ReadsBack read write a) : ReadsBack (readList read) (ofList write) as := by
  unfold ReadsBack Json.ofList
  rw [sorted, ofJson, readList, readItems_ofItems h]
  rfl

theorem forall_of_readItems {read : Node → Except Refusal α} {P : α → Prop} (h : Yields read P)
    {items : List Node} {as : List α} (has : readItems read items = .ok as) : ∀ a ∈ as, P a := by
  induction items generalizing as with
  | nil =>
    cases has
    exact fun _ ha => nomatch ha
  | cons item rest ih =>
    obtain ⟨b, hb, has⟩ := bind_eq_ok_iff.mp has
    obtain ⟨bs, hbs, has⟩ := bind_eq_ok_iff.mp has
    cases has
    exact List.forall_mem_cons.mpr ⟨h item b hb, ih hbs⟩

/-- **All items of a list that was read** are ones that the reader of the items can give. -/
theorem yields_readList {read : Node → Except Refusal α} {P : α → Prop} (h : Yields read P) :
    Yields (readList read) fun as => ∀ a ∈ as, P a := by
  intro node as has
  unfold readList at has
  split at has
  · exact forall_of_readItems h (eq_ok_of_whenClosed has)
  · cases has

/-! ### Maps under texts -/

/-- The canonical form of a map that is kept under texts keeps the order of the entries. -/
theorem sorted_ofMap_id (write : α → Json) (m : SortedMap String α) :
    (Json.ofMap id write m).sorted =
      .object (m.entries.map fun p => (p.1, (write p.2).sorted)) := by
  -- the keys are those of `m`, in order already
  have hkeys : KeysIncrease (m.entries.map fun p => (p.1, (write p.2).sorted)) :=
    (m.mapValues fun _ a => (write a).sorted).increasing
  unfold Json.ofMap
  rw [sorted, sortedMembers_eq_map, List.map_map]
  exact congrArg Json.object (SortedMap.entries_ofList (List.Perm.refl _) hkeys)

theorem readMembers_ofMembers {read : Node → Except Refusal α} {write : α → Json}
    {entries : List (String × α)} (h : ∀ p ∈ entries, ReadsBack read write p.2)
    (m : SortedMap String α) :
    readMembers Name.key read m
        (ofMembers (entries.map fun p => (p.1, (write p.2).sorted))) =
      .ok (entries.foldl (fun m p => m.insert p.1 p.2) m) := by
  induction entries generalizing m with
  | nil => rfl
  | cons p rest ih =>
    rw [List.map_cons, ofMembers, readMembers, h p List.mem_cons_self, List.foldl_cons,
      ← ih fun q hq => h q (List.mem_cons_of_mem _ hq)]
    rfl

/-- **A map under texts is read back** if its values are. -/
theorem readsBack_readMap {read : Node → Except Refusal α} {write : α → Json}
    {m : SortedMap String α} (h : ∀ k a, m.get? k = some a → ReadsBack read write a) :
    ReadsBack (readMap Name.key read) (Json.ofMap id write) m := by
  unfold ReadsBack
  rw [sorted_ofMap_id, ofJson, readMap,
    readMembers_ofMembers fun p hp => h p.1 p.2 (SortedMap.get?_eq_some_iff.mpr hp)]
  exact congrArg Except.ok m.ofList_entries

section

variable [Ord κ] [Std.TransOrd κ] [Std.LawfulEqOrd κ] [DecidableEq κ]
  {key : Name → Except Refusal κ} {read : Node → Except Refusal α} {P : α → Prop}

theorem forall_of_readMembers (members : List (Name × Node))
    (h : ∀ p ∈ members, ∀ a, read p.2 = .ok a → P a) {m m' : SortedMap κ α}
    (hm : ∀ k a, m.get? k = some a → P a) (hread : readMembers key read m members = .ok m') :
    ∀ k a, m'.get? k = some a → P a := by
  induction members generalizing m with
  | nil =>
    cases hread
    exact hm
  | cons member rest ih =>
    obtain ⟨name, node⟩ := member
    rw [readMembers, bind_eq_ok_iff] at hread
    obtain ⟨k, -, hread⟩ := hread
    obtain ⟨a, ha, hread⟩ := bind_eq_ok_iff.mp hread
    refine ih (fun p hp => h p (List.mem_cons_of_mem _ hp)) (fun l b hb => ?_) hread
    rw [SortedMap.get?_insert] at hb
    split at hb
    · exact Option.some.inj hb ▸ h _ List.mem_cons_self a ha
    · exact hm l b hb

/-- **All values of a map that was read** are such as are read from the parts of the node. -/
theorem forall_of_readMap {node : Node} (h : ∀ part ∈ node.parts, ∀ a, read part = .ok a → P a)
    {m : SortedMap κ α} (hm : readMap key read node = .ok m) : ∀ k a, m.get? k = some a → P a := by
  unfold readMap at hm
  split at hm
  · exact forall_of_readMembers _ (fun p hp => h p.2 (List.mem_map_of_mem hp)) (by simp)
      (eq_ok_of_whenClosed hm)
  · cases hm

/-- **All values of a map that was read** are ones that the reader of the values can give. -/
theorem yields_readMap (h : Yields read P) :
    Yields (readMap key read) fun m => ∀ k a, m.get? k = some a → P a :=
  fun _ _ hm => forall_of_readMap (fun part _ => h part) hm

end

end Node

/-! ### Slots -/

/-- **What may stand under a name** in the object of a record: a document, or nothing. -/
abbrev Slot := String × Option Json

/-- The members of the slots that hold a document. -/
def present (slots : List Slot) : List (String × Json) :=
  slots.filterMap fun slot => slot.2.map fun document => (slot.1, document)

theorem present_append (a b : List Slot) : present (a ++ b) = present a ++ present b :=
  List.filterMap_append

theorem member?_eq_present (name : String) (write : α → Json) (o : Option α) :
    member? name write o = present [(name, o.map write)] := by
  cases o <;> rfl

theorem memberMap_eq_present (name : String) (write : α → Json) (m : SortedMap String α) :
    memberMap name id write m =
      present [(name, if m.isEmpty then none else some (ofMap id write m))] := by
  unfold memberMap
  split <;> rfl

/-- Slots in the order of indices that are a permutation of all of them. -/
theorem perm_of_indices {n : Nat} {slots : List Slot} (hn : n = slots.length)
    (indices : List (Fin n)) (h : indices.Perm (List.finRange n)) :
    slots.Perm (indices.map fun i => slots.get (i.cast hn)) := by
  have hall : ((List.finRange n).map fun i => slots.get (i.cast hn)) = slots :=
    List.ext_getElem (by simp [hn]) (by simp)
  have hperm := h.map fun i => slots.get (i.cast hn)
  rw [hall] at hperm
  exact hperm.symm

/-- The slot with the canonical form of its document. -/
def Slot.sorted (slot : Slot) : Slot := (slot.1, slot.2.map Json.sorted)

theorem sortedMembers_present (slots : List Slot) :
    sortedMembers (present slots) = present (slots.map Slot.sorted) := by
  induction slots with
  | nil => rfl
  | cons slot rest ih =>
    obtain ⟨name, document⟩ := slot
    cases document with
    | none => exact ih
    | some document => exact congrArg ((name, document.sorted) :: ·) ih

/-- **The canonical form of a record** has its slots in the order of their names. -/
theorem sorted_object_present {slots ordered : List Slot} (h : slots.Perm ordered)
    (hnames : (ordered.map Prod.fst).Pairwise fun a b => compare a b = .lt) :
    (object (present slots)).sorted = .object (present (ordered.map Slot.sorted)) := by
  have hincrease : KeysIncrease (present (ordered.map Slot.sorted)) := by
    unfold KeysIncrease present
    rw [List.filterMap_map, List.pairwise_filterMap]
    rw [List.pairwise_map] at hnames
    refine hnames.imp fun hlt p hp q hq => ?_
    obtain ⟨_, -, rfl⟩ := Option.map_eq_some_iff.mp hp
    obtain ⟨_, -, rfl⟩ := Option.map_eq_some_iff.mp hq
    exact hlt
  rw [Json.sorted, sortedMembers_present]
  exact congrArg object
    (SortedMap.entries_ofList ((h.map Slot.sorted).filterMap _) hincrease)

/-! ### Records -/

namespace Schema

/-- **A slot is filled into a draft**, which it leaves as it is if it holds no document. -/
def fill (s : Schema ρ) (slot : Slot) (draft : ρ) : Except Refusal ρ :=
  match slot.2, s.field? slot.1 with
  | none, _ => .ok draft
  | some document, some f => f.put (.ofJson document.sorted) draft
  | some _, none => .error .mismatch

/-- Slots are filled into a draft one after another. -/
def fillAll (s : Schema ρ) : List Slot → ρ → Except Refusal ρ
  | [], draft => .ok draft
  | slot :: rest, draft => do
    let draft ← s.fill slot draft
    s.fillAll rest draft

/-- Members of distinct names, each of which is that of a field, fill their slots. -/
theorem readMembers_present {s : Schema ρ} {slots : List Slot}
    (hfield : ∀ slot ∈ slots, (s.field? slot.1).map Field.name = some slot.1)
    (hnodup : (slots.map Prod.fst).Nodup) {seen : List String}
    (hseen : ∀ slot ∈ slots, slot.1 ∉ seen) (draft : ρ) :
    s.readMembers seen draft (Node.ofMembers (present (slots.map Slot.sorted))) =
      s.fillAll slots draft := by
  induction slots generalizing seen draft with
  | nil => rfl
  | cons slot rest ih =>
    obtain ⟨name, document⟩ := slot
    rw [List.map_cons, List.nodup_cons] at hnodup
    have hrest : ∀ slot ∈ rest, (s.field? slot.1).map Field.name = some slot.1 :=
      fun slot h => hfield slot (List.mem_cons_of_mem _ h)
    cases document with
    -- nothing is written of this slot, so its name is not seen either
    | none => exact ih hrest hnodup.2 (fun slot h => hseen slot (List.mem_cons_of_mem _ h)) draft
    | some document =>
      obtain ⟨f, hf, hname⟩ := Option.map_eq_some_iff.mp (hfield _ List.mem_cons_self)
      have hfill : s.fill (name, some document) draft =
          f.put (.ofJson document.sorted) draft := by
        unfold fill
        simp only [hf]
      have hnew : f.name ∉ seen := hname ▸ hseen _ List.mem_cons_self
      have hlater : ∀ slot ∈ rest, slot.1 ∉ f.name :: seen := by
        intro slot h hmem
        rcases List.mem_cons.mp hmem with heq | hmem
        · exact hnodup.1 (List.mem_map.mpr ⟨slot, h, heq.trans hname⟩)
        · exact hseen slot (List.mem_cons_of_mem _ h) hmem
      have hkey : Name.key ⟨some name, false⟩ = .ok name := rfl
      change s.readMembers seen draft ((⟨some name, false⟩, .ofJson document.sorted) ::
        Node.ofMembers (present (rest.map Slot.sorted))) = _
      rw [fillAll, hfill, Schema.readMembers, hkey, ok_bind]
      simp only [hf, if_neg hnew]
      exact congrArg _ (funext fun draft => ih hrest hnodup.2 hlater draft)

/-- **A record is read** by filling the slots that were written in the order of their names. -/
theorem read_present {s : Schema ρ} {slots ordered : List Slot} {names : List String}
    (h : slots.Perm ordered) (hordered : ordered.map Prod.fst = names)
    (hnames : names.Pairwise fun a b => compare a b = .lt)
    (hfield : ∀ name ∈ names, (s.field? name).map Field.name = some name) (start : ρ) :
    s.read start (.ofJson (object (present slots)).sorted) = s.fillAll ordered start := by
  subst hordered
  have hnodup : (ordered.map Prod.fst).Nodup := by
    rw [List.nodup_iff_pairwise_ne]
    exact hnames.imp fun hlt heq => by simp [heq, Std.ReflCmp.compare_self] at hlt
  have hunseen : ∀ slot ∈ ordered, slot.1 ∉ [] := fun _ _ => List.not_mem_nil
  have hmembers := readMembers_present (s := s)
    (fun slot hslot => hfield slot.1 (List.mem_map.mpr ⟨slot, hslot, rfl⟩)) hnodup hunseen start
  rw [sorted_object_present h hnames, Node.ofJson, Schema.read, hmembers]
  cases s.fillAll ordered start <;> rfl

/-! ### Filling a slot -/

/-- What is written of some data fills the slot of a field with the data. -/
theorem fill_of {s : Schema ρ} {name : String} {read : Node → Except Refusal α} {set : α → ρ → ρ}
    {other : Option String} (hfield : s.field? name = some (.of name read set other))
    {write : α → Json} {a : α} (h : ReadsBack read write a) (draft : ρ) :
    s.fill (name, some (write a)) draft = .ok (set a draft) := by
  unfold ReadsBack at h
  simp only [fill, hfield, Field.of, h]
  rfl

theorem fill_optional {s : Schema ρ} {name : String} {read : Node → Except Refusal α}
    {set : Option α → ρ → ρ} {other : Option String}
    (hfield : s.field? name = some (.of name (Node.readOptional read) set other))
    {write : α → Json} {o : Option α}
    (h : ∀ a, o = some a → ReadsBack read write a ∧ (write a).sorted ≠ .null) {draft : ρ}
    (hmissing : set none draft = draft) :
    s.fill (name, o.map write) draft = .ok (set o draft) := by
  cases o with
  | none => rw [hmissing]; rfl
  | some a =>
    obtain ⟨hread, hnull⟩ := h a rfl
    simp only [fill, Option.map_some, hfield, Field.of, Node.readOptional_some hread hnull]
    rfl

theorem fill_map {s : Schema ρ} {name : String} {read : Node → Except Refusal α}
    {set : SortedMap String α → ρ → ρ} {other : Option String}
    (hfield : s.field? name = some (.of name (Node.readMap Name.key read) set other))
    {write : α → Json} {m : SortedMap String α}
    (h : ∀ k a, m.get? k = some a → ReadsBack read write a) {draft : ρ}
    (hempty : set ∅ draft = draft) :
    s.fill (name, if m.isEmpty then none else some (ofMap id write m)) draft =
      .ok (set m draft) := by
  by_cases hm : m.isEmpty
  · rw [if_pos hm, SortedMap.isEmpty_iff.mp hm, hempty]
    rfl
  · rw [if_neg hm]
    exact fill_of hfield (Node.readsBack_readMap h) draft

end Schema

/-! ### What records can be -/

/-- **The field keeps a property** of the draft that it is put into. -/
def Field.Keeps (f : Field ρ) (P : ρ → Prop) : Prop :=
  ∀ node draft draft', P draft → f.put node draft = .ok draft' → P draft'

/-- The field keeps a property when it is read from a node. -/
def Field.KeepsOn (f : Field ρ) (node : Node) (P : ρ → Prop) : Prop :=
  ∀ draft draft', P draft → f.put node draft = .ok draft' → P draft'

/-- A field that is read by itself keeps a property if what can be read from the node does. -/
theorem Field.keepsOn_of {name : String} {read : Node → Except Refusal α} {set : α → ρ → ρ}
    {other : Option String} {P : ρ → Prop} {node : Node}
    (h : ∀ a draft, read node = .ok a → P draft → P (set a draft)) :
    (Field.of name read set other).KeepsOn node P := by
  intro draft draft' hdraft hput
  obtain ⟨a, ha, rfl⟩ := map_eq_ok_iff.mp hput
  exact h a draft ha hdraft

/-- A field that is read by itself keeps a property if all that can be read does. -/
theorem Field.keeps_of {name : String} {read : Node → Except Refusal α} {set : α → ρ → ρ}
    {other : Option String} {P : ρ → Prop} {Q : α → Prop} (hread : Yields read Q)
    (hset : ∀ a draft, Q a → P draft → P (set a draft)) :
    (Field.of name read set other).Keeps P :=
  fun node => keepsOn_of fun a draft ha hdraft => hset a draft (hread node a ha) hdraft

/-- A field that a property does not mention keeps it, whatever is read. -/
theorem Field.keeps_of_set {name : String} {read : Node → Except Refusal α} {set : α → ρ → ρ}
    {other : Option String} {P : ρ → Prop} (hset : ∀ a draft, P draft → P (set a draft)) :
    (Field.of name read set other).Keeps P :=
  fun _ => keepsOn_of fun a draft _ hdraft => hset a draft hdraft

namespace Schema

theorem keeps_readMembers {s : Schema ρ} {P : ρ → Prop} (members : List (Name × Node))
    (hkeeps : ∀ f ∈ s.fields, ∀ p ∈ members, f.KeepsOn p.2 P) {seen : List String}
    {draft draft' : ρ} (hdraft : P draft) (h : s.readMembers seen draft members = .ok draft') :
    P draft' := by
  induction members generalizing seen draft with
  | nil =>
    cases h
    exact hdraft
  | cons member rest ih =>
    obtain ⟨name, node⟩ := member
    have hrest : ∀ f ∈ s.fields, ∀ p ∈ rest, f.KeepsOn p.2 P :=
      fun f hf p hp => hkeeps f hf p (List.mem_cons_of_mem _ hp)
    rw [readMembers] at h
    obtain ⟨name, -, h⟩ := bind_eq_ok_iff.mp h
    split at h
    -- a member that is passed over
    · split at h
      · cases h
      · exact ih hrest hdraft h
    · next f hf =>
      split at h
      · cases h
      · obtain ⟨filled, hfilled, h⟩ := bind_eq_ok_iff.mp h
        have hfield := hkeeps f (List.mem_of_find?_eq_some hf) _ List.mem_cons_self
        exact ih hrest (hfield draft filled hdraft hfilled) h

theorem keeps_readItems {P : ρ → Prop} (fields : List (Field ρ)) (items : List Node)
    (hkeeps : ∀ f ∈ fields, ∀ item ∈ items, f.KeepsOn item P) {draft draft' : ρ} (hdraft : P draft)
    (h : readItems draft fields items = .ok draft') : P draft' := by
  induction fields generalizing items draft with
  | nil =>
    cases items with
    | nil =>
      cases h
      exact hdraft
    | cons item rest => cases h
  | cons f fields ih =>
    cases items with
    | nil =>
      cases h
      exact hdraft
    | cons item rest =>
      rw [readItems] at h
      obtain ⟨filled, hfilled, h⟩ := bind_eq_ok_iff.mp h
      have hfield := hkeeps f List.mem_cons_self item List.mem_cons_self
      exact ih rest
        (fun g hg i hi => hkeeps g (List.mem_cons_of_mem _ hg) i (List.mem_cons_of_mem _ hi))
        (hfield draft filled hdraft hfilled) h

/-- **A property of drafts that every field keeps** on the parts of a node holds of the record that
is read from the node. -/
theorem keeps_read {s : Schema ρ} {P : ρ → Prop} {node : Node} {start draft : ρ}
    (hstart : P start) (hkeeps : ∀ f ∈ s.fields, ∀ part ∈ node.parts, f.KeepsOn part P)
    (h : s.read start node = .ok draft) : P draft := by
  unfold read at h
  split at h
  · exact keeps_readMembers _ (fun f hf p hp => hkeeps f hf p.2 (List.mem_map_of_mem hp)) hstart
      (eq_ok_of_whenClosed h)
  · exact keeps_readItems s.fields _ hkeeps hstart (eq_ok_of_whenClosed h)
  · cases h

/-- **A property of drafts that every field keeps** holds of every record. -/
theorem yields_read {s : Schema ρ} {start : ρ} {P : ρ → Prop} (hstart : P start)
    (hkeeps : ∀ f ∈ s.fields, f.Keeps P) : Yields (s.read start) P :=
  fun _ _ h => keeps_read hstart (fun f hf part _ => hkeeps f hf part) h

end Schema

end Fleet.Json
