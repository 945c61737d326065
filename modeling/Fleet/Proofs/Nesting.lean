import Fleet.Json.Reading
import Fleet.Proofs.Records

/-!
# How deep a text nests

Whatever a text holds, what a reader finds in it nests at most 127 deep (`depth_ofText`): a
container that is deeper is there, but it is unfit and has no parts. The invariant of reading is
that every node in the stack has room for its own brackets below those of the containers that are
still open (`Node.FitsAt`). It is proved for one token at a time, from what a token can do to the
stack (`Progress.step_reading`).

The depth of a document is that of the node as which a reader finds it. Canonical form does not nest
deeper (`depth_sorted_le`), since it only leaves members out.
-/

namespace Fleet.Json

/-! ### Depth -/

namespace Node

mutual

/-- **How deep the brackets of a part nest.** -/
def depth : Node → Nat
  | array items _ => itemsDepth items + 1
  | object members _ => membersDepth members + 1
  | _ => 0

/-- How deep the brackets of the items nest. -/
def itemsDepth : List Node → Nat
  | [] => 0
  | item :: rest => max item.depth (itemsDepth rest)

/-- How deep the brackets of the values of the members nest. -/
def membersDepth : List (Name × Node) → Nat
  | [] => 0
  | (_, value) :: rest => max value.depth (membersDepth rest)

end

theorem itemsDepth_le_iff {k : Nat} {items : List Node} :
    itemsDepth items ≤ k ↔ ∀ item ∈ items, item.depth ≤ k := by
  induction items with
  | nil => simp [itemsDepth]
  | cons item rest ih => rw [itemsDepth, Nat.max_le, ih, List.forall_mem_cons]

theorem membersDepth_le_iff {k : Nat} {members : List (Name × Node)} :
    membersDepth members ≤ k ↔ ∀ p ∈ members, p.2.depth ≤ k := by
  induction members with
  | nil => simp [membersDepth]
  | cons p rest ih => rw [membersDepth, Nat.max_le, ih, List.forall_mem_cons]

theorem depth_array_le_iff {k : Nat} {items : List Node} {closed : Bool} :
    (array items closed).depth ≤ k + 1 ↔ ∀ item ∈ items, item.depth ≤ k := by
  rw [depth, Nat.add_le_add_iff_right, itemsDepth_le_iff]

theorem depth_object_le_iff {k : Nat} {members : List (Name × Node)} {closed : Bool} :
    (object members closed).depth ≤ k + 1 ↔ ∀ p ∈ members, p.2.depth ≤ k := by
  rw [depth, Nat.add_le_add_iff_right, membersDepth_le_iff]

end Node

/-- **How deep the brackets of a document nest.** -/
def depth (document : Json) : Nat := (Node.ofJson document).depth

theorem itemsDepth_ofItems_le_iff {k : Nat} {items : List Json} :
    Node.itemsDepth (Node.ofItems items) ≤ k ↔ ∀ item ∈ items, item.depth ≤ k := by
  induction items with
  | nil => simp [Node.ofItems, Node.itemsDepth]
  | cons item rest ih =>
    rw [Node.ofItems, Node.itemsDepth, Nat.max_le, ih, List.forall_mem_cons]
    rfl

theorem membersDepth_ofMembers_le_iff {k : Nat} {members : List (String × Json)} :
    Node.membersDepth (Node.ofMembers members) ≤ k ↔ ∀ p ∈ members, p.2.depth ≤ k := by
  induction members with
  | nil => simp [Node.ofMembers, Node.membersDepth]
  | cons p rest ih =>
    rw [Node.ofMembers, Node.membersDepth, Nat.max_le, ih, List.forall_mem_cons]
    rfl

theorem depth_array_le_iff {k : Nat} {items : List Json} :
    (array items).depth ≤ k + 1 ↔ ∀ item ∈ items, item.depth ≤ k := by
  rw [depth, Node.ofJson, Node.depth, Nat.add_le_add_iff_right, itemsDepth_ofItems_le_iff]

theorem depth_object_le_iff {k : Nat} {members : List (String × Json)} :
    (object members).depth ≤ k + 1 ↔ ∀ p ∈ members, p.2.depth ≤ k := by
  rw [depth, Node.ofJson, Node.depth, Nat.add_le_add_iff_right, membersDepth_ofMembers_le_iff]

@[simp]
theorem depth_string (s : String) : (string s).depth = 0 := rfl

@[simp]
theorem depth_ofUInt64 (n : UInt64) : (ofUInt64 n).depth = 0 := rfl

@[simp]
theorem depth_ofFloat (x : Float) : (ofFloat x).depth = 0 := by
  unfold ofFloat
  split <;> rfl

mutual

/-- **Canonical form does not nest deeper.** -/
theorem depth_sorted_le : (document : Json) → document.sorted.depth ≤ document.depth
  | null | bool _ | number _ | string _ => Nat.le_refl _
  | array items => by
    obtain ⟨k, hk⟩ : ∃ k, (array items).depth = k + 1 := ⟨_, rfl⟩
    have hitems := depth_array_le_iff.mp (Nat.le_of_eq hk)
    rw [hk, sorted, depth_array_le_iff]
    exact depth_sortedItems_le items hitems
  | object members => by
    obtain ⟨k, hk⟩ : ∃ k, (object members).depth = k + 1 := ⟨_, rfl⟩
    have hmembers := depth_object_le_iff.mp (Nat.le_of_eq hk)
    rw [hk, sorted, depth_object_le_iff]
    exact fun p hp => depth_sortedMembers_le members hmembers p (mem_of_mem_ofList hp)

theorem depth_sortedItems_le : (items : List Json) → {k : Nat} →
    (∀ item ∈ items, item.depth ≤ k) → ∀ item ∈ sortedItems items, item.depth ≤ k
  | [], _, _ => nofun
  | item :: rest, _, h => by
    rw [sortedItems]
    intro item' hitem'
    rcases List.mem_cons.mp hitem' with rfl | hrest
    · exact Nat.le_trans (depth_sorted_le item) (h item List.mem_cons_self)
    · exact depth_sortedItems_le rest (fun i hi => h i (List.mem_cons_of_mem _ hi)) item' hrest

theorem depth_sortedMembers_le : (members : List (String × Json)) → {k : Nat} →
    (∀ p ∈ members, p.2.depth ≤ k) → ∀ p ∈ sortedMembers members, p.2.depth ≤ k
  | [], _, _ => nofun
  | (name, value) :: rest, _, h => by
    rw [sortedMembers]
    intro p hp
    rcases List.mem_cons.mp hp with rfl | hrest
    · exact Nat.le_trans (depth_sorted_le value) (h (name, value) List.mem_cons_self)
    · exact depth_sortedMembers_le rest (fun q hq => h q (List.mem_cons_of_mem _ hq)) p hrest

end

mutual

/-- **The document that a node denotes** nests as deep as the node. -/
theorem depth_of_json? : (node : Node) → {document : Json} → node.json? = some document →
    document.depth = node.depth
  | .null, _, h | .bool _, _, h | .number _, _, h | .string _, _, h => by
    cases h
    rfl
  | .unfit, _, h | .broken, _, h => nomatch h
  | .array _ false, _, h | .object _ false, _, h => nomatch h
  | .array items true, _, h => by
    obtain ⟨documents, hdocuments, rfl⟩ := Option.map_eq_some_iff.mp h
    show Node.itemsDepth (Node.ofItems documents) + 1 = Node.itemsDepth items + 1
    rw [itemsDepth_of_jsonItems? items hdocuments]
  | .object members true, _, h => by
    obtain ⟨documents, hdocuments, rfl⟩ := Option.map_eq_some_iff.mp h
    show Node.membersDepth (Node.ofMembers documents) + 1 = Node.membersDepth members + 1
    rw [membersDepth_of_jsonMembers? members hdocuments]

theorem itemsDepth_of_jsonItems? : (items : List Node) → {documents : List Json} →
    Node.jsonItems? items = some documents →
    Node.itemsDepth (Node.ofItems documents) = Node.itemsDepth items
  | [], _, h => by
    cases h
    rfl
  | item :: rest, _, h => by
    obtain ⟨document, hitem, h⟩ := Option.bind_eq_some_iff.mp h
    obtain ⟨documents, hrest, h⟩ := Option.bind_eq_some_iff.mp h
    cases h
    have hfirst : (Node.ofJson document).depth = item.depth := depth_of_json? item hitem
    rw [Node.ofItems, Node.itemsDepth, Node.itemsDepth, hfirst, itemsDepth_of_jsonItems? rest hrest]

theorem membersDepth_of_jsonMembers? : (members : List (Name × Node)) →
    {documents : List (String × Json)} → Node.jsonMembers? members = some documents →
    Node.membersDepth (Node.ofMembers documents) = Node.membersDepth members
  | [], _, h => by
    cases h
    rfl
  | (name, value) :: rest, _, h => by
    obtain ⟨key, -, h⟩ := Option.bind_eq_some_iff.mp h
    obtain ⟨document, hvalue, h⟩ := Option.bind_eq_some_iff.mp h
    obtain ⟨documents, hrest, h⟩ := Option.bind_eq_some_iff.mp h
    cases h
    have hfirst : (Node.ofJson document).depth = value.depth := depth_of_json? value hvalue
    rw [Node.ofMembers, Node.membersDepth, Node.membersDepth, hfirst,
      membersDepth_of_jsonMembers? rest hrest]

end

namespace Node

variable {node part : Node} {k : Nat}

/-- The parts of a container do not nest as deep as the container. -/
theorem depth_le_of_mem_parts (hpart : part ∈ node.parts) (h : node.depth ≤ k + 1) :
    part.depth ≤ k := by
  cases node with
  | array items closed => exact depth_array_le_iff.mp h part hpart
  | object members closed =>
    obtain ⟨p, hp, rfl⟩ := List.mem_map.mp hpart
    exact depth_object_le_iff.mp h p hp
  | _ => cases hpart

/-- **A value that is read** does not nest deeper than the node. -/
theorem depth_of_readValue {v : Value} (h : node.readValue = .ok v) :
    v.json.depth ≤ node.depth := by
  unfold readValue required value? at h
  cases hdocument : node.json? with
  | none => rw [hdocument] at h; cases h
  | some document =>
    rw [hdocument] at h
    cases h
    rw [← depth_of_json? node hdocument]
    exact depth_sorted_le document

end Node

/-! ### What a token does -/

/-- The value that a token stands for by itself. -/
def Token.value? : Token → Option Node
  | .scalar node => some node
  | .string name => some (.ofName name)
  | _ => none

/-- What a container that is still open holds so far. -/
def Frame.nodes : Frame → List Node
  | .array reversed => reversed
  | .object reversed _ => reversed.map Prod.snd

namespace Progress

/-- **What a token does while the document is being read**: a value is put into the innermost
container, a container is opened or closed, a name is put down, or only something else is due; or
the text breaks off. -/
theorem step_reading {motive : Progress → Prop} {stack : List Frame} {token : Token} (due : Due)
    (hput : ∀ node, token.value? = some node → motive (put node stack))
    (hopen : ∀ frame due, frame.nodes = [] → motive (reading (frame :: stack) due))
    (hclose : motive (close stack))
    (hname : ∀ name due, motive (reading (setPending name stack) due))
    (hdue : ∀ due, motive (reading stack due))
    (hbreak : motive (stopped (breakOff .broken stack))) :
    motive (step (reading stack due) token) := by
  unfold step
  split
  · next heq => cases heq
  · next heq => cases heq
  · next heq =>
    cases heq
    split
    · exact hput _ rfl
    · exact hput _ rfl
    · exact hopen _ _ rfl
    · exact hopen _ _ rfl
    · exact hclose
    · exact hdue _
    · split
      · exact hbreak
      · exact hclose
    · split
      · exact hclose
      · exact hbreak
    · exact hname _ _
    · exact hclose
    · exact hdue _
    · exact hbreak

end Progress

/-! ### Room for brackets -/

variable {frame : Frame} {stack outer : List Frame} {node : Node} {j : Nat}

/-- **There is room for the brackets of the node** inside of `j` containers. There is no need for
room where everything is too deep. -/
def Node.FitsAt (j : Nat) (node : Node) : Prop := j ≤ maxDepth → node.depth + j ≤ maxDepth

theorem Node.fitsAt_of_depth_eq_zero (h : node.depth = 0) : node.FitsAt j := fun hj => by
  rw [h, Nat.zero_add]
  exact hj

/-- There is room for everything in the containers of a stack. -/
def Fit : List Frame → Prop
  | [] => True
  | frame :: outer => (∀ node ∈ frame.nodes, node.FitsAt (outer.length + 1)) ∧ Fit outer

theorem Frame.mem_nodes_put {node' : Node} (h : node' ∈ (frame.put node).nodes) :
    node' = node ∨ node' ∈ frame.nodes := by
  cases frame with
  | array reversed => exact List.mem_cons.mp h
  | object reversed pending =>
    cases pending with
    | none => exact .inr h
    | some name => exact List.mem_cons.mp h

/-- **A container fits** where it stands if what it holds fits inside of it. -/
theorem Frame.fitsAt_toNode (h : ∀ node ∈ frame.nodes, node.FitsAt (j + 1)) (closed : Bool) :
    (frame.toNode (j + 1) closed).FitsAt j := by
  intro hj
  unfold Frame.toNode
  split
  · next hdepth =>
    obtain ⟨k, hk⟩ : ∃ k, maxDepth = k + 1 + j := ⟨maxDepth - 1 - j, by omega⟩
    have hnodes : ∀ node ∈ frame.nodes, node.depth ≤ k := fun node hnode => by
      have := h node hnode hdepth
      omega
    rw [hk, Nat.add_le_add_iff_right]
    cases frame with
    | array reversed =>
      exact Node.depth_array_le_iff.mpr fun item hitem => hnodes item (List.mem_reverse.mp hitem)
    | object reversed pending =>
      exact Node.depth_object_le_iff.mpr fun p hp =>
        hnodes p.2 (List.mem_map_of_mem (List.mem_reverse.mp hp))
  -- a container that is too deep has no parts
  · split <;> exact Node.fitsAt_of_depth_eq_zero rfl hj

theorem Fit.put (h : Fit (frame :: outer)) (hnode : node.FitsAt (outer.length + 1)) :
    Fit (frame.put node :: outer) := by
  refine ⟨fun node' hnode' => ?_, h.2⟩
  rcases Frame.mem_nodes_put hnode' with rfl | hmem
  · exact hnode
  · exact h.1 node' hmem

theorem Fit.setPending (h : Fit stack) (name : Name) : Fit (Progress.setPending name stack) := by
  cases stack with
  | nil => exact h
  | cons frame outer => cases frame <;> exact h

namespace Progress

/-- **There is room for everything** that has been read. -/
def Fits : Progress → Prop
  | reading stack _ => Fit stack
  | complete root | stopped root => root.FitsAt 0

theorem fitsAt_breakOff (h : Fit stack) (hnode : node.FitsAt stack.length) :
    (breakOff node stack).FitsAt 0 := by
  induction stack generalizing node with
  | nil => exact hnode
  | cons frame outer ih => exact ih h.2 (Frame.fitsAt_toNode (h.put hnode).1 false)

theorem fits_put (h : Fit stack) (hnode : node.FitsAt stack.length) : (put node stack).Fits := by
  cases stack with
  | nil => exact hnode
  | cons frame outer => exact h.put hnode

theorem fits_close (h : Fit stack) : (close stack).Fits := by
  cases stack with
  | nil => exact Node.fitsAt_of_depth_eq_zero rfl
  | cons frame outer => exact fits_put h.2 (Frame.fitsAt_toNode h.1 true)

/-- **A token leaves room for everything** if it stands for no brackets itself. -/
theorem Fits.step {p : Progress} (h : p.Fits) {token : Token}
    (htoken : ∀ node, token.value? = some node → node.depth = 0) : (p.step token).Fits := by
  cases p with
  | complete root => exact h
  | stopped root => exact h
  | reading stack due =>
    refine step_reading due (fun node hnode => ?_) (fun frame due hempty => ?_) (fits_close h)
      (fun name due => Fit.setPending h name) (fun _ => h) ?_
    · exact fits_put h (Node.fitsAt_of_depth_eq_zero (htoken node hnode))
    · exact ⟨by simp [hempty], h⟩
    · exact fitsAt_breakOff h (Node.fitsAt_of_depth_eq_zero rfl)

theorem Fits.foldl {p : Progress} (h : p.Fits) {tokens : List Token}
    (htokens : ∀ token ∈ tokens, ∀ node, token.value? = some node → node.depth = 0) :
    (tokens.foldl Progress.step p).Fits := by
  induction tokens generalizing p with
  | nil => exact h
  | cons token rest ih =>
    exact ih (h.step (htokens token List.mem_cons_self)) fun token' htoken' =>
      htokens token' (List.mem_cons_of_mem _ htoken')

theorem Fits.root {p : Progress} (h : p.Fits) : p.reading?.root.depth ≤ maxDepth := by
  cases p with
  | reading stack due =>
    exact fitsAt_breakOff h (Node.fitsAt_of_depth_eq_zero rfl) (Nat.zero_le _)
  | complete root => exact h (Nat.zero_le _)
  | stopped root => exact h (Nat.zero_le _)

end Progress

/-! ### Texts -/

/-- No token stands for brackets by itself. -/
theorem depth_of_mem_lex {cs : List Char} {token : Token} (h : token ∈ lex cs) {node : Node}
    (hnode : token.value? = some node) : node.depth = 0 := by
  have htoken : ∀ c rest, (lexToken c rest).1.value? = some node → node.depth = 0 := by
    intro c rest hvalue
    unfold lexToken at hvalue
    split at hvalue
    -- punctuation is no value
    · next hpunctuation =>
      unfold punctuation? at hpunctuation
      split at hpunctuation <;> cases hpunctuation <;> cases hvalue
    · split at hvalue
      -- a string, a number and a word are leaves if they are values at all
      · split at hvalue
        · cases hvalue
          unfold Node.ofName
          split <;> rfl
        · cases hvalue
      · split at hvalue
        · unfold lexNumber at hvalue
          split at hvalue
          · cases hvalue
          · split at hvalue <;> cases hvalue <;> rfl
        · split at hvalue
          · next hword =>
            cases hvalue
            unfold lexWord at hword
            split at hword <;> cases hword <;> rfl
          · cases hvalue
  fun_induction lex cs with
  | case1 => cases h
  | case2 c rest hspace ih => exact ih h
  | case3 c rest hspace ih =>
    rcases List.mem_cons.mp h with rfl | hrest
    · exact htoken c rest hnode
    · exact ih hrest

/-- **What is found in a text nests at most 127 deep.** -/
theorem depth_ofText (text : String) : (Reading.ofText text).root.depth ≤ maxDepth := by
  have hstart : (Progress.reading [] (.value false)).Fits := trivial
  exact (hstart.foldl fun token htoken node => depth_of_mem_lex htoken).root

end Fleet.Json
