import Fleet.Proofs.Records

/-!
# Reading a document in either order

A snapshot reaches its reader in two forms: out of a file, with the members of every object as they
were written, and out of a plain value, with the members in the order of their names. This module
says for each shape of data that the reader gives back what was written, in either form
(`Recovers`). It asks of the node that is read no more than what it denotes, so it does not matter
whether the node comes from a text or from a value.

* `recovers_string`, `recovers_float` and their companions: single values.
* `recovers_list`, `recovers_map`: lists and maps under texts.
* `Schema.read_of_fills`: records. The slots that were written are filled into a draft one after
  another (`Schema.Fills`), in the order in which the form has them (`Form.arrange`).
-/

namespace Fleet.Json

variable {α β ρ : Type}

/-- **The form in which a document reaches a reader.** -/
inductive Form where
  /-- The members stand as they were written. -/
  | written
  /-- The members stand in the order of their names. -/
  | canonical

namespace Form

/-- The document in the form. -/
def of : Form → Json → Json
  | written, document => document
  | canonical, document => document.sorted

/-- Slots in the order of the form, given in the order in which they are written and in the order
of their names. -/
def arrange : Form → List Slot → List Slot → List Slot
  | written, slots, _ => slots
  | canonical, _, ordered => ordered

variable (form : Form)

@[simp] theorem of_string (s : String) : form.of (.string s) = .string s := by
  cases form <;> rfl

@[simp] theorem of_number (n : Number) : form.of (.number n) = .number n := by
  cases form <;> rfl

/-- A plain value is the same in either form. -/
@[simp] theorem of_value (v : Value) : form.of v.json = v.json := by
  cases form with
  | written => rfl
  | canonical => exact sorted_eq_self v.json v.canonical

theorem of_array (items : List Json) : form.of (.array items) = .array (items.map form.of) := by
  cases form with
  | written => exact congrArg array (List.map_id' items).symm
  | canonical =>
    have hitems : sortedItems items = items.map sorted := by
      induction items with
      | nil => rfl
      | cons item rest ih => rw [sortedItems, ih, List.map_cons]
    exact congrArg array hitems

/-- A map under texts is written in the order of its keys, so either form keeps that order. -/
theorem of_ofMap (write : α → Json) (m : SortedMap String α) :
    form.of (ofMap id write m) = .object (m.entries.map fun p => (p.1, form.of (write p.2))) := by
  cases form with
  | written => rfl
  | canonical => exact Node.sorted_ofMap_id write m

/-- A slot with its document in the form. -/
def ofSlot (slot : Slot) : Slot := (slot.1, slot.2.map form.of)

/-- **A record in the form** has its slots in the order of the form. -/
theorem of_object_present {slots ordered : List Slot} (h : slots.Perm ordered)
    (hnames : (ordered.map Prod.fst).Pairwise fun a b => compare a b = .lt) :
    form.of (object (present slots)) =
      .object (present ((form.arrange slots ordered).map form.ofSlot)) := by
  cases form with
  | written =>
    have hsame : written.ofSlot = id := by
      funext slot
      obtain ⟨name, document⟩ := slot
      cases document <;> rfl
    rw [hsame, List.map_id]
    rfl
  | canonical => exact sorted_object_present h hnames

end Form

/-! ### What a node denotes -/

namespace Node

theorem eq_string_of_json? {node : Node} {s : String} (h : node.json? = some (.string s)) :
    node = string s := by
  cases node with
  | string s' =>
    cases h
    rfl
  | array items closed => cases closed <;> simp [json?] at h
  | object members closed => cases closed <;> simp [json?] at h
  | _ => cases h

theorem eq_number_of_json? {node : Node} {n : Number} (h : node.json? = some (.number n)) :
    node = number n := by
  cases node with
  | number n' =>
    cases h
    rfl
  | array items closed => cases closed <;> simp [json?] at h
  | object members closed => cases closed <;> simp [json?] at h
  | _ => cases h

theorem eq_array_of_json? {node : Node} {documents : List Json}
    (h : node.json? = some (.array documents)) :
    ∃ items, node = array items true ∧ jsonItems? items = some documents := by
  cases node with
  | array items closed =>
    cases closed with
    | false => cases h
    | true =>
      obtain ⟨documents', hitems, heq⟩ := Option.map_eq_some_iff.mp h
      cases heq
      exact ⟨items, rfl, hitems⟩
  | object members closed => cases closed <;> simp [json?] at h
  | _ => cases h

theorem eq_object_of_json? {node : Node} {documents : List (String × Json)}
    (h : node.json? = some (.object documents)) :
    ∃ members, node = object members true ∧ jsonMembers? members = some documents := by
  cases node with
  | object members closed =>
    cases closed with
    | false => cases h
    | true =>
      obtain ⟨documents', hmembers, heq⟩ := Option.map_eq_some_iff.mp h
      cases heq
      exact ⟨members, rfl, hmembers⟩
  | array items closed => cases closed <;> simp [json?] at h
  | _ => cases h

theorem jsonItems?_eq_cons_iff {items : List Node} {document : Json} {documents : List Json} :
    jsonItems? items = some (document :: documents) ↔
      ∃ item rest, items = item :: rest ∧ item.json? = some document ∧
        jsonItems? rest = some documents := by
  cases items with
  | nil => simp [jsonItems?]
  | cons item rest =>
    simp only [jsonItems?, bind, Option.bind_eq_some_iff, List.cons.injEq, Option.some.injEq]
    constructor
    · rintro ⟨_, hitem, _, hrest, rfl, rfl⟩
      exact ⟨item, rest, ⟨rfl, rfl⟩, hitem, hrest⟩
    · rintro ⟨_, _, ⟨rfl, rfl⟩, hitem, hrest⟩
      exact ⟨_, hitem, _, hrest, rfl, rfl⟩

theorem jsonMembers?_eq_cons_iff {members : List (Name × Node)} {key : String} {document : Json}
    {documents : List (String × Json)} :
    jsonMembers? members = some ((key, document) :: documents) ↔
      ∃ name node rest, members = (name, node) :: rest ∧ name.text = some key ∧
        node.json? = some document ∧ jsonMembers? rest = some documents := by
  cases members with
  | nil => simp [jsonMembers?]
  | cons member rest =>
    obtain ⟨name, node⟩ := member
    simp only [jsonMembers?, bind, Option.bind_eq_some_iff, List.cons.injEq, Prod.mk.injEq,
      Option.some.injEq]
    constructor
    · rintro ⟨_, hname, _, hnode, _, hrest, ⟨rfl, rfl⟩, rfl⟩
      exact ⟨name, node, rest, ⟨⟨rfl, rfl⟩, rfl⟩, hname, hnode, hrest⟩
    · rintro ⟨_, _, _, ⟨⟨rfl, rfl⟩, rfl⟩, hname, hnode, hrest⟩
      exact ⟨_, hname, _, hnode, _, hrest, ⟨rfl, rfl⟩, rfl⟩

end Node

/-! ### Readers and writers -/

/-- **The reader recovers** the data from what the writer wrote, in the form: it gives them for
every node that denotes the document. -/
def Recovers (form : Form) (read : Node → Except Refusal α) (write : α → Json) (a : α) : Prop :=
  ∀ node, node.json? = some (form.of (write a)) → read node = .ok a

section

variable {form : Form} {read : Node → Except Refusal α} {write : α → Json}

theorem recovers_value (v : Value) : Recovers form Node.readValue Value.json v := by
  intro node h
  rw [form.of_value] at h
  rw [Node.readValue, Node.value?, h, Option.map_some, Value.ofJson_json]
  rfl

theorem recovers_string (s : String) : Recovers form Node.readString Json.string s := by
  intro node h
  rw [form.of_string] at h
  rw [Node.eq_string_of_json? h]
  rfl

theorem recovers_float {x : Float} (hx : x.isFinite = true) :
    Recovers form Node.readFloat ofFloat x := by
  intro node h
  have hread := Node.readsBack_readFloat hx
  unfold ofFloat Number.ofFloat? at h
  unfold ReadsBack ofFloat Number.ofFloat? at hread
  rw [dif_pos hx] at h hread
  rw [form.of_number] at h
  rw [Node.eq_number_of_json? h]
  exact hread

theorem recovers_uint64 (n : UInt64) : Recovers form Node.readUInt64 ofUInt64 n := by
  intro node h
  rw [ofUInt64, form.of_number] at h
  rw [Node.eq_number_of_json? h]
  exact Node.readsBack_readUInt64 n

/-- A value that is there is recovered, unless it is written as `null`. -/
theorem recovers_some {a : α} (h : Recovers form read write a) (hnull : write a ≠ .null)
    {node : Node} (hnode : node.json? = some (form.of (write a))) :
    Node.readOptional read node = .ok (some a) := by
  have hne : node ≠ .null := by
    rintro rfl
    have hof : form.of (write a) = .null := (Option.some.inj hnode).symm
    cases form with
    | written => exact hnull hof
    | canonical =>
      change (write a).sorted = .null at hof
      cases hwrite : write a with
      | null => exact hnull hwrite
      | _ =>
        rw [hwrite] at hof
        cases hof
  rw [Node.readOptional_of_ne_null hne, h node hnode]
  rfl

/-! ### Lists and maps -/

theorem readItems_of_recovers {as : List α} (h : ∀ a ∈ as, Recovers form read write a)
    {items : List Node} (hitems : Node.jsonItems? items = some ((as.map write).map form.of)) :
    Node.readItems read items = .ok as := by
  induction as generalizing items with
  | nil =>
    cases items with
    | nil => rfl
    | cons item rest => simp [Node.jsonItems?, Option.bind_eq_some_iff] at hitems
  | cons a as ih =>
    obtain ⟨item, rest, rfl, hitem, hrest⟩ := Node.jsonItems?_eq_cons_iff.mp hitems
    rw [Node.readItems, h a List.mem_cons_self item hitem, ok_bind,
      ih (fun b hb => h b (List.mem_cons_of_mem _ hb)) hrest, ok_bind]

/-- **A list is recovered** if its items are. -/
theorem recovers_list {as : List α} (h : ∀ a ∈ as, Recovers form read write a) :
    Recovers form (Node.readList read) (ofList write) as := by
  intro node hnode
  rw [ofList, form.of_array] at hnode
  obtain ⟨items, rfl, hitems⟩ := Node.eq_array_of_json? hnode
  rw [Node.readList, readItems_of_recovers h hitems]
  rfl

theorem readMembers_of_recovers {entries : List (String × α)}
    (h : ∀ p ∈ entries, Recovers form read write p.2) {members : List (Name × Node)}
    (hmembers : Node.jsonMembers? members =
      some (entries.map fun p => (p.1, form.of (write p.2)))) (m : SortedMap String α) :
    Node.readMembers Name.key read m members =
      .ok (entries.foldl (fun m p => m.insert p.1 p.2) m) := by
  induction entries generalizing members m with
  | nil =>
    cases members with
    | nil => rfl
    | cons member rest => simp [Node.jsonMembers?, Option.bind_eq_some_iff] at hmembers
  | cons p entries ih =>
    obtain ⟨name, node, rest, rfl, hname, hnode, hrest⟩ :=
      Node.jsonMembers?_eq_cons_iff.mp hmembers
    have hkey : name.key = .ok p.1 := by
      rw [Name.key, hname]
      rfl
    rw [Node.readMembers, hkey, ok_bind, h p List.mem_cons_self node hnode, ok_bind,
      List.foldl_cons]
    exact ih (fun q hq => h q (List.mem_cons_of_mem _ hq)) hrest _

/-- **A map under texts is recovered** if its values are. -/
theorem recovers_map {m : SortedMap String α}
    (h : ∀ k a, m.get? k = some a → Recovers form read write a) :
    Recovers form (Node.readMap Name.key read) (ofMap id write) m := by
  intro node hnode
  rw [form.of_ofMap] at hnode
  obtain ⟨members, rfl, hmembers⟩ := Node.eq_object_of_json? hnode
  rw [Node.readMap,
    readMembers_of_recovers (fun p hp => h p.1 p.2 (SortedMap.get?_eq_some_iff.mpr hp)) hmembers]
  exact congrArg Except.ok m.ofList_entries

end

/-! ### Records -/

theorem member_eq_present (name : String) (document : Json) :
    member name document = present [(name, some document)] := rfl

namespace Schema

/-- **Slots fill a draft**, one after another: a slot without a document leaves it as it is, and the
document of any other slot is put into it by the field of the slot's name, whatever node denotes the
document. -/
inductive Fills (s : Schema ρ) (form : Form) : List Slot → ρ → ρ → Prop
  | nil {draft : ρ} : Fills s form [] draft draft
  | none {name : String} {rest : List Slot} {draft last : ρ} (h : Fills s form rest draft last) :
      Fills s form ((name, none) :: rest) draft last
  | some {name : String} {f : Field ρ} {document : Json} {rest : List Slot} {draft next last : ρ}
      (hfield : s.field? name = some f) (hname : f.name = name)
      (hput : ∀ node, node.json? = some (form.of document) → f.put node draft = .ok next)
      (h : Fills s form rest next last) :
      Fills s form ((name, some document) :: rest) draft last

namespace Fills

variable {s : Schema ρ} {form : Form} {name : String} {read : Node → Except Refusal α}
  {write : α → Json} {other : Option String} {rest : List Slot} {draft last : ρ}

/-- A field that is always written. -/
theorem of {set : α → ρ → ρ} (hfield : s.field? name = .some (.of name read set other)) {a : α}
    (ha : Recovers form read write a) (h : Fills s form rest (set a draft) last) :
    Fills s form ((name, .some (write a)) :: rest) draft last :=
  .some hfield rfl (fun node hnode => map_eq_ok_iff.mpr ⟨a, ha node hnode, rfl⟩) h

/-- A field that is written only if there is a value. -/
theorem optional {set : Option α → ρ → ρ}
    (hfield : s.field? name = .some (.of name (Node.readOptional read) set other)) {o : Option α}
    (ho : ∀ a, o = .some a → Recovers form read write a ∧ write a ≠ .null)
    (hmissing : set .none draft = draft) (h : Fills s form rest (set o draft) last) :
    Fills s form ((name, o.map write) :: rest) draft last := by
  cases o with
  | none =>
    rw [hmissing] at h
    exact .none h
  | some a =>
    obtain ⟨hread, hnull⟩ := ho a rfl
    exact .some hfield rfl
      (fun node hnode => map_eq_ok_iff.mpr ⟨_, recovers_some hread hnull hnode, rfl⟩) h

end Fills

theorem readMembers_of_fills {s : Schema ρ} {form : Form} {slots : List Slot} {draft last : ρ}
    (h : s.Fills form slots draft last) (hnodup : (slots.map Prod.fst).Nodup) {seen : List String}
    (hseen : ∀ slot ∈ slots, slot.1 ∉ seen) {members : List (Name × Node)}
    (hmembers : Node.jsonMembers? members = some (present (slots.map form.ofSlot))) :
    s.readMembers seen draft members = .ok last := by
  induction h generalizing seen members with
  | nil =>
    cases members with
    | nil => rfl
    | cons member rest => simp [present, Node.jsonMembers?, Option.bind_eq_some_iff] at hmembers
  | none h ih =>
    rw [List.map_cons, List.nodup_cons] at hnodup
    exact ih hnodup.2 (fun slot hslot => hseen slot (List.mem_cons_of_mem _ hslot)) hmembers
  | @some name f document rest draft next last hfield hname hput h ih =>
    rw [List.map_cons, List.nodup_cons] at hnodup
    obtain ⟨found, node, members, rfl, hfound, hnode, hrest⟩ :=
      Node.jsonMembers?_eq_cons_iff.mp hmembers
    have hkey : found.key = .ok name := by
      rw [Name.key, hfound]
      rfl
    have hnew : f.name ∉ seen := hname ▸ hseen _ List.mem_cons_self
    have hlater : ∀ slot ∈ rest, slot.1 ∉ f.name :: seen := by
      intro slot hslot hmem
      rcases List.mem_cons.mp hmem with heq | hmem
      · exact hnodup.1 (List.mem_map.mpr ⟨slot, hslot, heq.trans hname⟩)
      · exact hseen slot (List.mem_cons_of_mem _ hslot) hmem
    rw [readMembers, hkey, ok_bind]
    simp only [hfield, if_neg hnew]
    rw [hput node hnode, ok_bind]
    exact ih hnodup.2 hlater hrest

/-- **A record is recovered** if its slots fill the draft in the order of the form. -/
theorem read_of_fills {s : Schema ρ} {form : Form} {slots ordered : List Slot}
    {names : List String} {start last : ρ} (hperm : slots.Perm ordered)
    (hordered : ordered.map Prod.fst = names)
    (hnames : names.Pairwise fun a b => compare a b = .lt)
    (h : s.Fills form (form.arrange slots ordered) start last) {node : Node}
    (hnode : node.json? = some (form.of (object (present slots)))) :
    s.read start node = .ok last := by
  subst hordered
  have hnodup : (ordered.map Prod.fst).Nodup := by
    rw [List.nodup_iff_pairwise_ne]
    exact hnames.imp fun hlt heq => by simp [heq, Std.ReflCmp.compare_self] at hlt
  have harranged : ((form.arrange slots ordered).map Prod.fst).Nodup := by
    cases form with
    | written => exact (hperm.map Prod.fst).nodup_iff.mpr hnodup
    | canonical => exact hnodup
  rw [form.of_object_present hperm hnames] at hnode
  obtain ⟨members, rfl, hmembers⟩ := Node.eq_object_of_json? hnode
  rw [read, readMembers_of_fills h harranged (fun _ _ => List.not_mem_nil) hmembers]
  rfl

end Schema

end Fleet.Json
