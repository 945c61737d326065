import Fleet.Json.Number
import Fleet.SortedMap

/-!
# Documents and plain values

`Json` is a document as it is written: the members of an object stand in the order in which they
are printed. Structured data are written as documents, their members in the order of declaration.

`Value` is a *plain value*, data of no particular structure: in every object the members are in
the order of their names and no name comes twice (`Json.Canonical`). `Value.ofJson` brings a
document into that form; of two members with one name the later one counts. Canonical documents
are equal exactly when they denote the same data, so equality of values is equality of documents.

The main statements are that bringing into canonical form yields a canonical document
(`Json.canonical_sorted`), and that `Value` has decidable equality.
-/

namespace Fleet

open Json (Number)

/-- **A JSON document.** -/
inductive Json where
  | null
  | bool (b : Bool)
  | number (n : Number)
  | string (s : String)
  | array (items : List Json)
  | object (members : List (String × Json))

namespace Json

instance : Inhabited Json := ⟨null⟩

/-! ### Equality -/

mutual

/-- Equality of documents. -/
def decEq : (a b : Json) → Decidable (a = b)
  | null, null => .isTrue rfl
  | bool a, bool b => if h : a = b then .isTrue (h ▸ rfl) else .isFalse (by simp [h])
  | number a, number b => if h : a = b then .isTrue (h ▸ rfl) else .isFalse (by simp [h])
  | string a, string b => if h : a = b then .isTrue (h ▸ rfl) else .isFalse (by simp [h])
  | array a, array b =>
    match decEqItems a b with
    | .isTrue h => .isTrue (h ▸ rfl)
    | .isFalse h => .isFalse (by simp [h])
  | object a, object b =>
    match decEqMembers a b with
    | .isTrue h => .isTrue (h ▸ rfl)
    | .isFalse h => .isFalse (by simp [h])
  | null, bool _ | null, number _ | null, string _ | null, array _ | null, object _
  | bool _, null | bool _, number _ | bool _, string _ | bool _, array _ | bool _, object _
  | number _, null | number _, bool _ | number _, string _ | number _, array _
  | number _, object _
  | string _, null | string _, bool _ | string _, number _ | string _, array _
  | string _, object _
  | array _, null | array _, bool _ | array _, number _ | array _, string _ | array _, object _
  | object _, null | object _, bool _ | object _, number _ | object _, string _
  | object _, array _ => .isFalse (by simp)

/-- Equality of the items of arrays. -/
def decEqItems : (a b : List Json) → Decidable (a = b)
  | [], [] => .isTrue rfl
  | a :: as, b :: bs =>
    match decEq a b, decEqItems as bs with
    | .isTrue h, .isTrue hs => .isTrue (by rw [h, hs])
    | .isFalse h, _ => .isFalse (by simp [h])
    | _, .isFalse hs => .isFalse (by simp [hs])
  | [], _ :: _ | _ :: _, [] => .isFalse (by simp)

/-- Equality of the members of objects. -/
def decEqMembers : (a b : List (String × Json)) → Decidable (a = b)
  | [], [] => .isTrue rfl
  | (k, a) :: as, (l, b) :: bs =>
    -- names first, which are cheap to tell apart
    if hk : k = l then
      match decEq a b, decEqMembers as bs with
      | .isTrue h, .isTrue hs => .isTrue (by rw [hk, h, hs])
      | .isFalse h, _ => .isFalse (by simp [h])
      | _, .isFalse hs => .isFalse (by simp [hs])
    else .isFalse (by simp [hk])
  | [], _ :: _ | _ :: _, [] => .isFalse (by simp)

end

instance : DecidableEq Json := decEq

mutual

/-- Whether two documents denote the same data when doubles are compared by value, so that the two
zeros agree. -/
def agrees : (a b : Json) → Bool
  | null, null => true
  | bool a, bool b => a == b
  | number a, number b => a.agrees b
  | string a, string b => a == b
  | array a, array b => agreesItems a b
  | object a, object b => agreesMembers a b
  | _, _ => false

/-- `agrees`, item by item. -/
def agreesItems : (a b : List Json) → Bool
  | [], [] => true
  | a :: as, b :: bs => agrees a b && agreesItems as bs
  | _, _ => false

/-- `agrees`, member by member in the order in which they stand. -/
def agreesMembers : (a b : List (String × Json)) → Bool
  | [], [] => true
  | (k, a) :: as, (l, b) :: bs => k == l && agrees a b && agreesMembers as bs
  | _, _ => false

end

/-! ### Canonical form -/

mutual

/-- **In every object the names increase**, so that none comes twice. -/
def Canonical : Json → Prop
  | array items => CanonicalItems items
  | object members => KeysIncrease members ∧ CanonicalMembers members
  | _ => True

/-- Every item is canonical. -/
def CanonicalItems : List Json → Prop
  | [] => True
  | item :: rest => item.Canonical ∧ CanonicalItems rest

/-- The value of every member is canonical. -/
def CanonicalMembers : List (String × Json) → Prop
  | [] => True
  | (_, value) :: rest => value.Canonical ∧ CanonicalMembers rest

end

mutual

/-- **The canonical form**: members in the order of their names, the last one of each name. -/
def sorted : Json → Json
  | array items => array (sortedItems items)
  | object members => object (SortedMap.ofList (sortedMembers members)).entries
  | document => document

/-- The canonical form of every item. -/
def sortedItems : List Json → List Json
  | [] => []
  | item :: rest => item.sorted :: sortedItems rest

/-- The canonical form of the value of every member. -/
def sortedMembers : List (String × Json) → List (String × Json)
  | [] => []
  | (name, value) :: rest => (name, value.sorted) :: sortedMembers rest

end

theorem canonicalMembers_iff {members : List (String × Json)} :
    CanonicalMembers members ↔ ∀ p ∈ members, p.2.Canonical := by
  induction members with
  | nil => simp [CanonicalMembers]
  | cons p rest ih => simp [CanonicalMembers, ih]

/-- Insertions put nothing into a map but the entries that are inserted. -/
theorem mem_foldl_insert {p : String × Json} (entries : List (String × Json)) :
    ∀ {m : SortedMap String Json},
      p ∈ (entries.foldl (fun m q => m.insert q.1 q.2) m).entries →
        p ∈ m.entries ∨ p ∈ entries := by
  induction entries with
  | nil => exact fun h => .inl h
  | cons q rest ih =>
    intro m h
    -- in the map that the rest is inserted into, or in the rest
    rcases ih h with h | h
    · rcases mem_keys_insertEntry h with h | h
      · exact .inr (h ▸ List.mem_cons_self)
      · exact .inl h
    · exact .inr (List.mem_cons_of_mem _ h)

theorem mem_of_mem_ofList {p : String × Json} {entries : List (String × Json)}
    (h : p ∈ (SortedMap.ofList entries).entries) : p ∈ entries := by
  rcases mem_foldl_insert entries h with h | h
  · simp [SortedMap.empty] at h
  · exact h

mutual

/-- **The canonical form is canonical.** -/
theorem canonical_sorted : (document : Json) → document.sorted.Canonical
  | null | bool _ | number _ | string _ => trivial
  | array items => canonicalItems_sorted items
  | object members =>
    ⟨(SortedMap.ofList (sortedMembers members)).increasing,
      canonicalMembers_iff.mpr fun p hp =>
        canonicalMembers_iff.mp (canonicalMembers_sorted members) p (mem_of_mem_ofList hp)⟩

/-- The canonical forms of items are canonical. -/
theorem canonicalItems_sorted : (items : List Json) → CanonicalItems (sortedItems items)
  | [] => trivial
  | item :: rest => ⟨canonical_sorted item, canonicalItems_sorted rest⟩

/-- The canonical forms of the values of members are canonical. -/
theorem canonicalMembers_sorted :
    (members : List (String × Json)) → CanonicalMembers (sortedMembers members)
  | [] => trivial
  | (_, value) :: rest => ⟨canonical_sorted value, canonicalMembers_sorted rest⟩

end

end Json

/-- **A plain value**: a document in canonical form. -/
structure Value where
  json : Json
  canonical : json.Canonical
deriving DecidableEq

namespace Value

/-- The plain value that a document denotes. -/
def ofJson (document : Json) : Value := ⟨document.sorted, document.canonical_sorted⟩

instance : Inhabited Value := ⟨⟨.null, trivial⟩⟩

/-- The value `null`. -/
def null : Value := ⟨.null, trivial⟩

/-- A number as a value. -/
def number (n : Json.Number) : Value := ⟨.number n, trivial⟩

/-- A text as a value. -/
def string (s : String) : Value := ⟨.string s, trivial⟩

/-- The integer zero, which an endpoint has before its first report. -/
def zero : Value := number .zero

end Value

end Fleet
