import Fleet.Proofs.Records

/-!
# Parts of what is read

A record is read from an object or from an array, so the part of a node that stands for a field is a
member of the field's name or an item at its place (`Node.part?`). Of several members with one name
the last one is meant (`lastUnder?`), which is also the one that stays in a plain value. In the
field of a map, an entry is a member again (`Node.entryAt?`).

An entry of a patch is first read as a plain value and then as a change. So what is inside of it is
looked up in a document in canonical form, not in the text. This makes no difference for what is
found: the parts of a node denote the parts of the value that it denotes (`Node.value?_part?`), and
so the same stands under a key in both (`Node.value?_entryAt?`).
-/

namespace Fleet

/-! ### The last one of a key -/

section

variable {κ ι α β : Type} [DecidableEq κ]

/-- **The last value under a key.** -/
def lastUnder? (k : κ) : List (κ × α) → Option α
  | [] => none
  | (l, a) :: rest => (lastUnder? k rest).or (if l = k then some a else none)

theorem lastUnder?_map [DecidableEq ι] {f : κ → ι} (hf : ∀ k l, f k = f l → k = l) (g : α → β)
    (k : κ) (entries : List (κ × α)) :
    lastUnder? (f k) (entries.map fun p => (f p.1, g p.2)) = (lastUnder? k entries).map g := by
  induction entries with
  | nil => rfl
  | cons p rest ih =>
    obtain ⟨l, a⟩ := p
    rw [List.map_cons, lastUnder?, lastUnder?, ih]
    by_cases hl : l = k
    · subst hl
      cases lastUnder? l rest <;> simp
    · rw [if_neg hl, if_neg fun h => hl (hf _ _ h)]
      cases lastUnder? k rest <;> rfl

variable [Ord κ] [Std.TransOrd κ] [Std.LawfulEqOrd κ]

/-- Entries that are inserted one after another: the last one of each key stays. -/
theorem SortedMap.get?_foldl_insert_last (entries : List (κ × α)) (m : SortedMap κ α) (k : κ) :
    (entries.foldl (fun m p => m.insert p.1 p.2) m).get? k =
      (lastUnder? k entries).or (m.get? k) := by
  induction entries generalizing m with
  | nil => rfl
  | cons p rest ih =>
    obtain ⟨l, a⟩ := p
    rw [List.foldl_cons, ih, SortedMap.get?_insert, lastUnder?, Option.or_assoc]
    by_cases hl : l = k
    · rw [if_pos hl, if_pos hl.symm]
      rfl
    · rw [if_neg hl, if_neg (Ne.symm hl)]
      rfl

/-- **The map of a list holds the last value of each key.** -/
theorem SortedMap.get?_ofList_last (entries : List (κ × α)) (k : κ) :
    (SortedMap.ofList entries).get? k = lastUnder? k entries := by
  rw [ofList, get?_foldl_insert_last]
  exact Option.or_none

theorem lastUnder?_entries (m : SortedMap κ α) (k : κ) : lastUnder? k m.entries = m.get? k := by
  rw [← SortedMap.get?_ofList_last, SortedMap.ofList_entries]

end

/-! ### Parts of a plain value -/

namespace Value

/-- The empty object. -/
def emptyObject : Value := .ofJson (.object [])

/-- The member of a name. -/
def member? (key : String) (v : Value) : Option Value :=
  match v.json with
  | .object members => (lastUnder? key members).map ofJson
  | _ => none

/-- The part that stands for the field of a record. -/
def part? (i : Nat) (name : String) (v : Value) : Option Value :=
  match v.json with
  | .array items => items[i]?.map ofJson
  | _ => v.member? name

theorem ofJson_sorted (document : Json) : ofJson document.sorted = ofJson document := by
  simp [ofJson]

/-- Only an object without members is the empty one. -/
theorem ofJson_object_eq_emptyObject_iff {members : List (String × Json)} :
    ofJson (.object members) = emptyObject ↔ members = [] := by
  constructor
  · intro h
    cases members with
    | nil => rfl
    | cons p rest =>
      -- the key of the first member is a key of the value
      obtain ⟨key, document⟩ := p
      have hjson : (SortedMap.ofList (Json.sortedMembers ((key, document) :: rest))).entries = [] :=
        Json.object.inj (congrArg Value.json h)
      have hnone : (SortedMap.ofList (Json.sortedMembers ((key, document) :: rest))).get? key =
          none := by
        rw [← lastUnder?_entries, hjson]
        rfl
      rw [SortedMap.get?_ofList_last, Json.sortedMembers, lastUnder?, if_pos rfl] at hnone
      simp at hnone
  · rintro rfl
    rfl

end Value

namespace Json.Node

/-! ### Parts of a node -/

/-- **The member of a name**: of several the last one. -/
def member? (key : String) : Node → Option Node
  | object members _ => lastUnder? (some key) (members.map fun p => (p.1.text, p.2))
  | _ => none

/-- **The part that stands for the field of a record**: the item at the place of the field, or the
member of its name. -/
def part? (i : Nat) (name : String) : Node → Option Node
  | array items _ => items[i]?
  | node => node.member? name

/-- **What stands under a key** in a map that is the field of a record. -/
def entryAt? (i : Nat) (name key : String) (node : Node) : Option Node :=
  (node.part? i name).bind (member? key)

/-- Whether this is the empty object. -/
def isEmptyObject : Node → Bool
  | object [] true => true
  | _ => false

/-! ### What they denote -/

variable {node : Node} {v : Value}

@[simp] theorem value?_ofValue (v : Value) : (ofValue v).value? = some v := by
  rw [value?, ofValue, json?_ofJson, Option.map_some, Value.ofJson_json]

theorem value?_object_eq_some {members : List (Name × Node)} {closed : Bool}
    (h : (object members closed).value? = some v) :
    closed = true ∧ ∃ documents, jsonMembers? members = some documents ∧
      v = .ofJson (.object documents) := by
  cases closed with
  | false => cases h
  | true =>
    obtain ⟨document, hdocument, rfl⟩ := Option.map_eq_some_iff.mp h
    obtain ⟨documents, hdocuments, rfl⟩ := Option.map_eq_some_iff.mp hdocument
    exact ⟨rfl, documents, hdocuments, rfl⟩

theorem value?_array_eq_some {items : List Node} {closed : Bool}
    (h : (array items closed).value? = some v) :
    ∃ documents, jsonItems? items = some documents ∧ v = .ofJson (.array documents) := by
  cases closed with
  | false => cases h
  | true =>
    obtain ⟨document, hdocument, rfl⟩ := Option.map_eq_some_iff.mp h
    obtain ⟨documents, hdocuments, rfl⟩ := Option.map_eq_some_iff.mp hdocument
    exact ⟨documents, hdocuments, rfl⟩

theorem jsonMembers?_eq_nil_iff {members : List (Name × Node)} :
    jsonMembers? members = some [] ↔ members = [] := by
  cases members with
  | nil => simp [jsonMembers?]
  | cons p rest =>
    obtain ⟨name, node⟩ := p
    simp [jsonMembers?, Option.bind_eq_some_iff]

/-- **Only the empty object denotes it.** -/
theorem isEmptyObject_iff : node.isEmptyObject = true ↔ node.value? = some .emptyObject := by
  constructor
  · intro h
    unfold isEmptyObject at h
    split at h
    · rfl
    · cases h
  · intro h
    cases node with
    | object members closed =>
      obtain ⟨rfl, documents, hdocuments, heq⟩ := value?_object_eq_some h
      rw [Value.ofJson_object_eq_emptyObject_iff.mp heq.symm] at hdocuments
      rw [jsonMembers?_eq_nil_iff.mp hdocuments]
      rfl
    | array items closed =>
      obtain ⟨documents, -, heq⟩ := value?_array_eq_some h
      cases congrArg Value.json heq
    | unfit => cases h
    | broken => cases h
    | _ => cases congrArg Value.json (Option.some.inj h)

theorem lastUnder?_jsonMembers? {members : List (Name × Node)} {documents : List (String × Json)}
    (h : jsonMembers? members = some documents) (key : String) :
    (lastUnder? (some key) (members.map fun p => (p.1.text, p.2))).map json? =
      (lastUnder? key documents).map some := by
  induction members generalizing documents with
  | nil =>
    cases h
    rfl
  | cons p rest ih =>
    obtain ⟨name, node⟩ := p
    obtain ⟨text, htext, h⟩ := Option.bind_eq_some_iff.mp h
    obtain ⟨document, hdocument, h⟩ := Option.bind_eq_some_iff.mp h
    obtain ⟨others, hothers, h⟩ := Option.bind_eq_some_iff.mp h
    cases h
    have hlast := ih hothers
    rw [List.map_cons, lastUnder?, lastUnder?]
    cases hrest : lastUnder? key others with
    | some d =>
      rw [hrest] at hlast
      obtain ⟨n, hn, hd⟩ := Option.map_eq_some_iff.mp hlast
      rw [hn]
      exact congrArg some hd
    | none =>
      rw [hrest] at hlast
      rw [Option.map_eq_none_iff.mp hlast]
      by_cases hkey : text = key <;> simp [htext, hkey, hdocument]

theorem getElem?_jsonItems? {items : List Node} {documents : List Json}
    (h : jsonItems? items = some documents) (i : Nat) :
    items[i]?.map json? = documents[i]?.map some := by
  induction items generalizing documents i with
  | nil =>
    cases h
    rfl
  | cons node rest ih =>
    obtain ⟨document, hdocument, h⟩ := Option.bind_eq_some_iff.mp h
    obtain ⟨others, hothers, h⟩ := Option.bind_eq_some_iff.mp h
    cases h
    cases i with
    | zero => exact congrArg some hdocument
    | succ i => simpa using ih hothers i

/-- The members of a node denote the members of its value. -/
theorem value?_member? (h : node.value? = some v) (key : String) :
    (node.member? key).map value? = (v.member? key).map some := by
  cases node with
  | object members closed =>
    obtain ⟨rfl, documents, hdocuments, rfl⟩ := value?_object_eq_some h
    -- sorting the members keeps the last one of every name
    have hlast : lastUnder? key (SortedMap.ofList (sortedMembers documents)).entries =
        (lastUnder? key documents).map Json.sorted := by
      rw [lastUnder?_entries, SortedMap.get?_ofList_last, sortedMembers_eq_map]
      exact lastUnder?_map (f := id) (fun _ _ h => h) Json.sorted key documents
    have hmember : (Value.ofJson (.object documents)).member? key =
        (lastUnder? key documents).map Value.ofJson := by
      change (lastUnder? key (SortedMap.ofList (sortedMembers documents)).entries).map _ = _
      rw [hlast, Option.map_map]
      exact congrArg (fun f => (lastUnder? key documents).map f) (funext Value.ofJson_sorted)
    calc (member? key (object members true)).map value?
      _ = ((lastUnder? (some key) (members.map fun p => (p.1.text, p.2))).map json?).map
            (Option.map Value.ofJson) := by rw [Option.map_map]; rfl
      _ = ((lastUnder? key documents).map some).map (Option.map Value.ofJson) := by
        rw [lastUnder?_jsonMembers? hdocuments]
      _ = ((Value.ofJson (.object documents)).member? key).map some := by
        rw [hmember, Option.map_map, Option.map_map]
        rfl
  | array items closed =>
    obtain ⟨documents, -, rfl⟩ := value?_array_eq_some h
    rfl
  -- such nodes denote nothing
  | unfit => cases h
  | broken => cases h
  | _ =>
    cases h
    rfl

/-- **The parts of a node denote the parts of its value.** -/
theorem value?_part? (h : node.value? = some v) (i : Nat) (name : String) :
    (node.part? i name).map value? = (v.part? i name).map some := by
  cases node with
  | array items closed =>
    obtain ⟨documents, hdocuments, rfl⟩ := value?_array_eq_some h
    -- items keep their positions, and only their own members are sorted
    have hsorted : sortedItems documents = documents.map Json.sorted := by
      clear h hdocuments
      induction documents with
      | nil => rfl
      | cons document rest ih => rw [sortedItems, ih, List.map_cons]
    have hpart : (Value.ofJson (.array documents)).part? i name =
        documents[i]?.map Value.ofJson := by
      change (sortedItems documents)[i]?.map Value.ofJson = _
      rw [hsorted, List.getElem?_map, Option.map_map]
      exact congrArg (fun f => documents[i]?.map f) (funext Value.ofJson_sorted)
    calc (part? i name (array items closed)).map value?
      _ = (items[i]?.map json?).map (Option.map Value.ofJson) := by rw [Option.map_map]; rfl
      _ = (documents[i]?.map some).map (Option.map Value.ofJson) := by
        rw [getElem?_jsonItems? hdocuments]
      _ = ((Value.ofJson (.array documents)).part? i name).map some := by
        rw [hpart, Option.map_map, Option.map_map]
        rfl
  | object members closed =>
    obtain ⟨-, documents, -, rfl⟩ := value?_object_eq_some h
    exact value?_member? h name
  | unfit => cases h
  | broken => cases h
  | _ =>
    cases h
    rfl

/-- **The same stands under a key** in a node and in the value that it denotes. -/
theorem value?_entryAt? (h : node.value? = some v) (i : Nat) (name key : String) :
    (node.entryAt? i name key).map value? = ((ofValue v).entryAt? i name key).map value? := by
  have hpart := value?_part? h i name
  have hpart' := value?_part? (value?_ofValue v) i name
  unfold entryAt?
  cases hv : v.part? i name with
  | none =>
    rw [hv] at hpart hpart'
    rw [Option.map_eq_none_iff.mp hpart, Option.map_eq_none_iff.mp hpart']
  | some w =>
    rw [hv] at hpart hpart'
    obtain ⟨n, hn, hw⟩ := Option.map_eq_some_iff.mp hpart
    obtain ⟨n', hn', hw'⟩ := Option.map_eq_some_iff.mp hpart'
    rw [hn, hn', Option.bind_some, Option.bind_some, value?_member? hw, value?_member? hw']

/-- In particular, the same entries are empty objects. -/
theorem isEmptyObject_entryAt? (h : node.value? = some v) (i : Nat) (name key : String) :
    ((ofValue v).entryAt? i name key).map isEmptyObject =
      (node.entryAt? i name key).map isEmptyObject := by
  have hempty : isEmptyObject = fun n => decide (n.value? = some Value.emptyObject) :=
    funext fun n => by simp [← isEmptyObject_iff]
  have hmap := congrArg (Option.map fun w => decide (w = some Value.emptyObject))
    (value?_entryAt? h i name key)
  rw [Option.map_map, Option.map_map] at hmap
  rw [hempty]
  exact hmap.symm

end Json.Node

end Fleet
