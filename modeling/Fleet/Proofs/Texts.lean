import Fleet.Proofs.Forms
import Fleet.Proofs.Nesting
import Fleet.Proofs.Tokens

/-!
# Documents are read back from their texts

Reading takes the tokens of a document off the text and leaves a node in the container around it,
whatever that is and whatever follows (`foldl_tokens`). Which node that is depends on the document
and on the number of containers around it only: `Node.inside` is the document with every container
for which there is no room left out as unfit. All that is asked of the document is that every double
in it is one that its written form gives back (`Faithful`).

A node of that kind denotes the document if the brackets of the document do not nest too deep, and
else it denotes nothing (`Node.json?_inside`, `Node.room_of_json?_inside`). So a document that is
not too deep is read back from either of its texts (`ofText?_pretty`, `ofText?_compact`).
-/

namespace Fleet.Json

/-! ### Doubles -/

mutual

/-- **The doubles in a document.** -/
def doubles : Json → List Float
  | number n => n.doubles
  | array items => itemDoubles items
  | object members => memberDoubles members
  | _ => []

/-- The doubles in the items. -/
def itemDoubles : List Json → List Float
  | [] => []
  | item :: rest => doubles item ++ itemDoubles rest

/-- The doubles in the values of the members. -/
def memberDoubles : List (String × Json) → List Float
  | [] => []
  | (_, value) :: rest => doubles value ++ memberDoubles rest

end

instance (x : Float) : Decidable (Number.ReadsBack x) := inferInstanceAs (Decidable (_ = _))

/-- **Every double is one that its written form gives back.** -/
def Faithful (document : Json) : Prop := ∀ x ∈ document.doubles, Number.ReadsBack x

instance (document : Json) : Decidable document.Faithful :=
  inferInstanceAs (Decidable (∀ x ∈ document.doubles, Number.ReadsBack x))

theorem faithful_array {items : List Json} :
    (array items).Faithful ↔ ∀ item ∈ items, item.Faithful := by
  induction items with
  | nil => simp [Faithful, doubles, itemDoubles]
  | cons item rest ih =>
    rw [List.forall_mem_cons, ← ih]
    exact List.forall_mem_append

theorem faithful_object {members : List (String × Json)} :
    (object members).Faithful ↔ ∀ p ∈ members, p.2.Faithful := by
  induction members with
  | nil => simp [Faithful, doubles, memberDoubles]
  | cons p rest ih =>
    rw [List.forall_mem_cons, ← ih]
    exact List.forall_mem_append

/-! ### Room -/

namespace Node

mutual

/-- **A document as it is found in a text**, inside of so many containers: whole, except that a
container is unfit if there is no room for it. -/
def inside (outer : Nat) : Json → Node
  | .null => null
  | .bool b => bool b
  | .number n => number n
  | .string s => string s
  | .array items => if outer < maxDepth then array (insideItems (outer + 1) items) true else unfit
  | .object members =>
    if outer < maxDepth then object (insideMembers (outer + 1) members) true else unfit

/-- The items of a document as they are found in a text. -/
def insideItems (outer : Nat) : List Json → List Node
  | [] => []
  | item :: rest => inside outer item :: insideItems outer rest

/-- The members of a document as they are found in a text. -/
def insideMembers (outer : Nat) : List (String × Json) → List (Name × Node)
  | [] => []
  | (name, value) :: rest => (.written name, inside outer value) :: insideMembers outer rest

end

end Node

theorem depth_array_add_le_iff {items : List Json} {j : Nat} :
    (array items).depth + j ≤ maxDepth ↔
      j < maxDepth ∧ ∀ item ∈ items, item.depth + (j + 1) ≤ maxDepth := by
  obtain ⟨k, hk⟩ : ∃ k, (array items).depth = k + 1 := ⟨_, rfl⟩
  constructor
  · intro h
    refine ⟨by omega, fun item hitem => ?_⟩
    have := depth_array_le_iff.mp (Nat.le_of_eq hk) item hitem
    omega
  · rintro ⟨hj, h⟩
    have hle : (array items).depth ≤ maxDepth - (j + 1) + 1 :=
      depth_array_le_iff.mpr fun item hitem => by
        have := h item hitem
        omega
    omega

theorem depth_object_add_le_iff {members : List (String × Json)} {j : Nat} :
    (object members).depth + j ≤ maxDepth ↔
      j < maxDepth ∧ ∀ p ∈ members, p.2.depth + (j + 1) ≤ maxDepth := by
  obtain ⟨k, hk⟩ : ∃ k, (object members).depth = k + 1 := ⟨_, rfl⟩
  constructor
  · intro h
    refine ⟨by omega, fun p hp => ?_⟩
    have := depth_object_le_iff.mp (Nat.le_of_eq hk) p hp
    omega
  · rintro ⟨hj, h⟩
    have hle : (object members).depth ≤ maxDepth - (j + 1) + 1 :=
      depth_object_le_iff.mpr fun p hp => by
        have := h p hp
        omega
    omega

namespace Node

mutual

/-- **With room for its brackets a document is found** as it is. -/
theorem json?_inside : (document : Json) → {outer : Nat} → document.depth + outer ≤ maxDepth →
    (inside outer document).json? = some document
  | .null, _, _ | .bool _, _, _ | .number _, _, _ | .string _, _, _ => rfl
  | .array items, _, h => by
    obtain ⟨hroom, hitems⟩ := depth_array_add_le_iff.mp h
    rw [inside, if_pos hroom, json?, if_pos rfl, jsonItems?_inside items hitems]
    rfl
  | .object members, _, h => by
    obtain ⟨hroom, hmembers⟩ := depth_object_add_le_iff.mp h
    rw [inside, if_pos hroom, json?, if_pos rfl, jsonMembers?_inside members hmembers]
    rfl

theorem jsonItems?_inside : (items : List Json) → {outer : Nat} →
    (∀ item ∈ items, item.depth + outer ≤ maxDepth) →
    jsonItems? (insideItems outer items) = some items
  | [], _, _ => rfl
  | item :: rest, _, h => jsonItems?_eq_cons_iff.mpr ⟨_, _, rfl,
      json?_inside item (h item List.mem_cons_self),
      jsonItems?_inside rest fun i hi => h i (List.mem_cons_of_mem _ hi)⟩

theorem jsonMembers?_inside : (members : List (String × Json)) → {outer : Nat} →
    (∀ p ∈ members, p.2.depth + outer ≤ maxDepth) →
    jsonMembers? (insideMembers outer members) = some members
  | [], _, _ => rfl
  | (name, value) :: rest, _, h => jsonMembers?_eq_cons_iff.mpr ⟨_, _, _, rfl,
      Name.text_written name, json?_inside value (h _ List.mem_cons_self),
      jsonMembers?_inside rest fun p hp => h p (List.mem_cons_of_mem _ hp)⟩

end

mutual

/-- **Without room for its brackets it is at fault**: what denotes anything has room. -/
theorem room_of_json?_inside : (document : Json) → {outer : Nat} → outer ≤ maxDepth →
    {found : Json} → (inside outer document).json? = some found →
    document.depth + outer ≤ maxDepth
  | .null, _, houter, _, _ | .bool _, _, houter, _, _ | .number _, _, houter, _, _
  | .string _, _, houter, _, _ => Nat.le_trans (Nat.le_of_eq (Nat.zero_add _)) houter
  | .array items, outer, _, _, h => by
    rw [inside] at h
    split at h
    · next hroom =>
      obtain ⟨found, hfound, -⟩ := Option.map_eq_some_iff.mp h
      exact depth_array_add_le_iff.mpr ⟨hroom, room_of_jsonItems?_inside items hroom hfound⟩
    · cases h
  | .object members, outer, _, _, h => by
    rw [inside] at h
    split at h
    · next hroom =>
      obtain ⟨found, hfound, -⟩ := Option.map_eq_some_iff.mp h
      exact depth_object_add_le_iff.mpr ⟨hroom, room_of_jsonMembers?_inside members hroom hfound⟩
    · cases h

theorem room_of_jsonItems?_inside : (items : List Json) → {outer : Nat} → outer ≤ maxDepth →
    {found : List Json} → jsonItems? (insideItems outer items) = some found →
    ∀ item ∈ items, item.depth + outer ≤ maxDepth
  | [], _, _, _, _ => nofun
  | item :: rest, _, houter, _, h => by
    obtain ⟨_, hitem, h⟩ := Option.bind_eq_some_iff.mp h
    obtain ⟨_, hrest, -⟩ := Option.bind_eq_some_iff.mp h
    exact List.forall_mem_cons.mpr ⟨room_of_json?_inside item houter hitem,
      room_of_jsonItems?_inside rest houter hrest⟩

theorem room_of_jsonMembers?_inside : (members : List (String × Json)) → {outer : Nat} →
    outer ≤ maxDepth → {found : List (String × Json)} →
    jsonMembers? (insideMembers outer members) = some found →
    ∀ p ∈ members, p.2.depth + outer ≤ maxDepth
  | [], _, _, _, _ => nofun
  | (_, value) :: rest, _, houter, _, h => by
    obtain ⟨_, -, h⟩ := Option.bind_eq_some_iff.mp h
    obtain ⟨_, hvalue, h⟩ := Option.bind_eq_some_iff.mp h
    obtain ⟨_, hrest, -⟩ := Option.bind_eq_some_iff.mp h
    exact List.forall_mem_cons.mpr ⟨room_of_json?_inside value houter hvalue,
      room_of_jsonMembers?_inside rest houter hrest⟩

end

end Node

/-! ### Reading tokens -/

/-- A container is closed as what it holds, or as unfit if there is no room for it. -/
theorem Progress.close_array (reversed : List Node) (outer : List Frame) :
    close (.array reversed :: outer) =
      put (if outer.length < maxDepth then .array reversed.reverse true else .unfit) outer := rfl

theorem Progress.close_object (reversed : List (Name × Node)) (pending : Option Name)
    (outer : List Frame) :
    close (.object reversed pending :: outer) =
      put (if outer.length < maxDepth then .object reversed.reverse true else .unfit) outer := rfl

mutual

/-- **The tokens of a document put its node** where a value is due. -/
theorem foldl_tokens (document : Json) (hfaithful : document.Faithful) (stack : List Frame)
    (mayClose : Bool) :
    document.tokens.foldl Progress.step (.reading stack (.value mayClose)) =
      .put (.inside stack.length document) stack :=
  match document with
  -- one token, which is its own node
  | null | bool b => rfl
  | number n => by
    rw [tokens, lexNumber_text hfaithful]
    rfl
  | string s => by
    show Progress.put (.ofName (.written s)) stack = _
    rw [Node.ofName_written]
    rfl
  -- nothing stands between the brackets, so the array is closed where its first item may begin
  | array [] => Progress.close_array [] stack
  -- the bracket puts a frame on the stack, the first item goes into it where the array might still
  -- be closed, the others go into it behind separators, and the last bracket takes it away
  | array (item :: items) => by
    obtain ⟨hitem, hitems⟩ := List.forall_mem_cons.mp (faithful_array.mp hfaithful)
    rw [tokens, List.foldl_cons, List.foldl_append, List.foldl_append]
    show Progress.step ((itemTokens items).foldl Progress.step
      (item.tokens.foldl Progress.step (.reading (.array [] :: stack) (.value true))))
        .closeArray = _
    rw [foldl_tokens item hitem]
    show Progress.step ((itemTokens items).foldl Progress.step
      (.reading (.array [.inside (stack.length + 1) item] :: stack) .separator)) .closeArray = _
    rw [foldl_itemTokens items hitems]
    show Progress.close (.array (_ ++ [_]) :: stack) = _
    rw [Progress.close_array, List.reverse_append, List.reverse_reverse]
    rfl
  | object [] => Progress.close_object [] none stack
  -- likewise, but the name of a member is kept in the frame until its value is there
  | object ((name, value) :: members) => by
    obtain ⟨hvalue, hmembers⟩ := List.forall_mem_cons.mp (faithful_object.mp hfaithful)
    rw [tokens, List.foldl_cons, List.foldl_cons, List.foldl_cons, List.foldl_append,
      List.foldl_append]
    show Progress.step ((memberTokens members).foldl Progress.step
      (value.tokens.foldl Progress.step
        (.reading (.object [] (some (.written name)) :: stack) (.value false)))) .closeObject = _
    rw [foldl_tokens value hvalue]
    show Progress.step ((memberTokens members).foldl Progress.step (.reading
      (.object [(.written name, .inside (stack.length + 1) value)] none :: stack) .separator))
        .closeObject = _
    rw [foldl_memberTokens members hmembers]
    show Progress.close (.object (_ ++ [_]) none :: stack) = _
    rw [Progress.close_object, List.reverse_append, List.reverse_reverse]
    rfl

theorem foldl_itemTokens (items : List Json) (hfaithful : ∀ item ∈ items, item.Faithful)
    (outer : List Frame) (reversed : List Node) :
    (itemTokens items).foldl Progress.step (.reading (.array reversed :: outer) .separator) =
      .reading (.array ((Node.insideItems (outer.length + 1) items).reverse ++ reversed) :: outer)
        .separator :=
  match items with
  | [] => rfl
  | item :: items => by
    obtain ⟨hitem, hitems⟩ := List.forall_mem_cons.mp hfaithful
    rw [itemTokens, List.foldl_cons, List.foldl_append]
    show (itemTokens items).foldl Progress.step
      (item.tokens.foldl Progress.step (.reading (.array reversed :: outer) (.value false))) = _
    rw [foldl_tokens item hitem]
    show (itemTokens items).foldl Progress.step
      (.reading (.array (.inside (outer.length + 1) item :: reversed) :: outer) .separator) = _
    rw [foldl_itemTokens items hitems, Node.insideItems, List.reverse_cons, List.append_assoc]
    rfl

theorem foldl_memberTokens (members : List (String × Json))
    (hfaithful : ∀ p ∈ members, p.2.Faithful) (outer : List Frame)
    (reversed : List (Name × Node)) :
    (memberTokens members).foldl Progress.step
        (.reading (.object reversed none :: outer) .separator) =
      .reading
        (.object ((Node.insideMembers (outer.length + 1) members).reverse ++ reversed) none ::
          outer)
        .separator :=
  match members with
  | [] => rfl
  | (name, value) :: members => by
    obtain ⟨hvalue, hmembers⟩ := List.forall_mem_cons.mp hfaithful
    rw [memberTokens, List.foldl_cons, List.foldl_cons, List.foldl_cons, List.foldl_append]
    show (memberTokens members).foldl Progress.step (value.tokens.foldl Progress.step
      (.reading (.object reversed (some (.written name)) :: outer) (.value false))) = _
    rw [foldl_tokens value hvalue]
    show (memberTokens members).foldl Progress.step (.reading
      (.object ((.written name, .inside (outer.length + 1) value) :: reversed) none :: outer)
        .separator) = _
    rw [foldl_memberTokens members hmembers, Node.insideMembers, List.reverse_cons,
      List.append_assoc]
    rfl

end

/-! ### Texts -/

variable {document : Json}

/-- **What is found in a text with the tokens of a document** is the node of the document, and
nothing else. -/
theorem ofTokens_tokens (hfaithful : document.Faithful) :
    Reading.ofTokens document.tokens = ⟨.inside 0 document, true⟩ := by
  rw [Reading.ofTokens, foldl_tokens document hfaithful]
  rfl

theorem ofText_pretty (hfaithful : document.Faithful) :
    Reading.ofText document.pretty = ⟨.inside 0 document, true⟩ := by
  rw [Reading.ofText, lex_pretty, ofTokens_tokens hfaithful]

theorem ofText_compact (hfaithful : document.Faithful) :
    Reading.ofText document.compact = ⟨.inside 0 document, true⟩ := by
  rw [Reading.ofText, lex_compact, ofTokens_tokens hfaithful]

/-- **A document is read back from its pretty text.** -/
theorem ofText?_pretty (hfaithful : document.Faithful) (hdepth : document.depth ≤ maxDepth) :
    ofText? document.pretty = some document := by
  rw [ofText?, ofText_pretty hfaithful]
  exact Node.json?_inside document hdepth

/-- **A document is read back from its compact text.** -/
theorem ofText?_compact (hfaithful : document.Faithful) (hdepth : document.depth ≤ maxDepth) :
    ofText? document.compact = some document := by
  rw [ofText?, ofText_compact hfaithful]
  exact Node.json?_inside document hdepth

section

variable {α : Type} {read : Node → Except Refusal α}

/-- Reading data from the compact text of a document is reading them from its node. -/
theorem readText_compact (read : Node → Except Refusal α) (hfaithful : document.Faithful) :
    readText read document.compact = read (.inside 0 document) := by
  rw [readText, ofText_compact hfaithful]
  cases read (.inside 0 document) <;> rfl

/-- **Data are read back from a pretty text** if they are recovered from the document. -/
theorem readText_pretty {write : α → Json} {a : α} (h : Recovers .written read write a)
    (hfaithful : (write a).Faithful) (hdepth : (write a).depth ≤ maxDepth) :
    readText read (write a).pretty = .ok a := by
  rw [readText, ofText_pretty hfaithful, h _ (Node.json?_inside (write a) hdepth)]
  rfl

end

end Fleet.Json
