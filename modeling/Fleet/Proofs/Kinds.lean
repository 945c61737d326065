import Fleet.Proofs.Nesting
import Fleet.Proofs.Strings
import Fleet.Sync.Message

/-!
# The kind of a frame

A frame names the kind of its message before the data, so whatever the data are, and however they
are read at the other end, the frame is read as a message of the kind that was written or as none
(`Message.kind_of_decode_encode`). Data may well be refused or come out changed: a double may not
read back, or brackets may nest too deep.

The reason is that reading never goes back. Once the outermost object has its first member it keeps
it, whatever tokens follow and wherever the text breaks off (`Progress.StartsWith`).
-/

namespace Fleet.Json

/-! ### The first member of the outermost object -/

/-- **The node is an object that starts with the member.** -/
def Node.StartsWith (first : Name × Node) : Node → Prop
  | .object members _ => members.head? = some first
  | _ => False

/-- The container is an object whose first member is the one. -/
def Frame.StartsWith (first : Name × Node) : Frame → Prop
  | .object reversed _ => reversed.getLast? = some first
  | .array _ => False

/-- The outermost container is an object whose first member is the one. -/
def Outermost (first : Name × Node) : List Frame → Prop
  | [] => False
  | [frame] => frame.StartsWith first
  | _ :: frame :: outer => Outermost first (frame :: outer)

variable {first : Name × Node} {frame frame' : Frame} {stack outer : List Frame} {node : Node}

theorem Outermost.cons (h : Outermost first stack) (frame : Frame) :
    Outermost first (frame :: stack) := by
  cases stack with
  | nil => exact h.elim
  | cons _ _ => exact h

theorem Outermost.replace (h : Outermost first (frame :: outer))
    (hkeep : frame.StartsWith first → frame'.StartsWith first) :
    Outermost first (frame' :: outer) := by
  cases outer with
  | nil => exact hkeep h
  | cons _ _ => exact h

theorem Frame.StartsWith.put (h : frame.StartsWith first) (node : Node) :
    (frame.put node).StartsWith first := by
  cases frame with
  | array reversed => exact h
  | object reversed pending =>
    cases pending with
    | none => exact h
    | some name =>
      cases reversed with
      | nil => cases h
      | cons member rest => exact (List.getLast?_cons_cons).trans h

/-- The outermost container is never too deep. -/
theorem Frame.StartsWith.toNode (h : frame.StartsWith first) (closed : Bool) :
    (frame.toNode 1 closed).StartsWith first := by
  cases frame with
  | array reversed => exact h.elim
  | object reversed pending => exact (List.head?_reverse).trans h

namespace Progress

/-- **The document is an object that starts with the member**, as far as it has been read. -/
def StartsWith (first : Name × Node) : Progress → Prop
  | reading stack _ => Outermost first stack
  | complete root | stopped root => root.StartsWith first

theorem startsWith_breakOff (h : Outermost first stack) (node : Node) :
    (breakOff node stack).StartsWith first := by
  induction stack generalizing node with
  | nil => exact h.elim
  | cons frame outer ih =>
    cases outer with
    | nil => exact (Frame.StartsWith.put h node).toNode false
    | cons _ _ => exact ih h _

theorem startsWith_put (h : Outermost first stack) (node : Node) :
    (put node stack).StartsWith first := by
  cases stack with
  | nil => exact h.elim
  | cons frame outer => exact h.replace fun hframe => hframe.put node

theorem startsWith_close (h : Outermost first stack) : (close stack).StartsWith first := by
  cases stack with
  | nil => exact h.elim
  | cons frame outer =>
    cases outer with
    | nil => exact Frame.StartsWith.toNode h true
    | cons second rest =>
      have houter : Outermost first (second :: rest) := h
      exact startsWith_put houter _

theorem startsWith_setPending (h : Outermost first stack) (name : Name) :
    Outermost first (setPending name stack) := by
  cases stack with
  | nil => exact h.elim
  | cons frame outer =>
    cases frame with
    | array reversed => exact h
    | object reversed pending => exact h.replace id

/-- **No token takes the first member away.** -/
theorem StartsWith.step {p : Progress} (h : p.StartsWith first) (token : Token) :
    (p.step token).StartsWith first := by
  cases p with
  | complete root => exact h
  | stopped root => exact h
  | reading stack due =>
    exact step_reading due (fun node _ => startsWith_put h node) (fun frame _ _ => h.cons frame)
      (startsWith_close h) (fun name _ => startsWith_setPending h name) (fun _ => h)
      (startsWith_breakOff h _)

theorem StartsWith.foldl {p : Progress} (h : p.StartsWith first) (tokens : List Token) :
    (tokens.foldl Progress.step p).StartsWith first := by
  induction tokens generalizing p with
  | nil => exact h
  | cons token rest ih => exact ih (h.step token)

theorem StartsWith.root {p : Progress} (h : p.StartsWith first) :
    p.reading?.root.StartsWith first := by
  cases p with
  | reading stack due => exact startsWith_breakOff h _
  | complete root => exact h
  | stopped root => exact h

end Progress

/-- **A text that starts with a member whose value is a string** holds an object that starts with
it. -/
theorem startsWith_ofText (name value : String) (rest : List Char) :
    (Reading.ofText (String.ofList
      ('\x7b' :: writeString name (':' :: writeString value rest)))).root.StartsWith
        (.written name, .ofName (.written value)) := by
  unfold Reading.ofText Reading.ofTokens
  rw [String.toList_ofList, lex_punctuation rfl, lex_writeString, lex_punctuation rfl,
    lex_writeString]
  refine Progress.StartsWith.root ?_
  simp only [List.foldl_cons]
  exact Progress.StartsWith.foldl
    (p := .reading [.object [(.written name, .ofName (.written value))] none] .separator) rfl _

/-- A name that was written is read as a key. -/
@[simp] theorem Name.key_written (s : String) : (Name.written s).key = .ok s := by
  rw [Name.key, Name.text_written]
  rfl

end Fleet.Json

/-! ### Messages -/

namespace Fleet.Message

open Json (Node)

/-- **The message is of a kind**, as far as it has been read. -/
def Draft.OfKind (kind : Kind) : Draft → Prop
  | named kind' => kind' = kind
  | complete m => m.kind = kind
  | _ => False

/-- Data of a kind make a message of the kind. -/
theorem Kind.kind_of_readData {kind : Kind} {buffered : Bool} {node : Node} {m : Message}
    (h : kind.readData buffered node = .ok m) : m.kind = kind := by
  have hwithout : ∀ m' : Message, withoutData m' node = .ok m → m = m' := by
    intro m' h
    unfold withoutData at h
    split at h
    · exact (Except.ok.inj h).symm
    · cases h
  cases kind with
  | requestInit => rw [hwithout _ h]; rfl
  | ping => rw [hwithout _ h]; rfl
  | pong => rw [hwithout _ h]; rfl
  | _ =>
    obtain ⟨_, -, rfl⟩ := map_eq_ok_iff.mp h
    rfl

theorem Kind.kind_of_readMissing {kind : Kind} {m : Message} (h : kind.readMissing = .ok m) :
    m.kind = kind := by
  cases kind <;> cases h <;> rfl

theorem Kind.ofName?_name (kind : Kind) : ofName? kind.name = some kind := by
  cases kind <;> decide

theorem Kind.read_name (kind : Kind) : Kind.read (.string kind.name) = .ok kind := by
  show Json.required (ofName? kind.name) = .ok kind
  rw [ofName?_name]
  rfl

/-- **The first member** of a message that was written is its kind. -/
theorem readMembers_event (kind : Kind) (rest : List (Json.Name × Node)) :
    schema.readMembers [] .blank ((.written "event", .string kind.name) :: rest) =
      schema.readMembers ["event"] (.named kind) rest := by
  have hfield : schema.field? "event" = some ⟨"event", Draft.putName, none⟩ := rfl
  have hput : Draft.putName (.string kind.name) .blank = .ok (.named kind) := by
    rw [Draft.putName, Kind.read_name]
    rfl
  rw [Json.Schema.readMembers, Json.Name.key_written, ok_bind]
  simp only [hfield]
  rw [if_neg List.not_mem_nil, hput, ok_bind]

theorem Draft.OfKind.finish {kind : Kind} {draft : Draft} (h : draft.OfKind kind) {m : Message}
    (hm : draft.finish = .ok m) : m.kind = kind := by
  cases draft with
  | blank => cases hm
  | buffered data => cases hm
  | named kind' => exact (Kind.kind_of_readMissing hm).trans h
  | complete m' =>
    cases hm
    exact h

/-- No further member changes the kind. -/
theorem keeps_ofKind (kind : Kind) : ∀ f ∈ schema.fields, f.Keeps (Draft.OfKind kind) := by
  intro f hf node draft draft' hdraft hput
  simp only [schema, List.mem_cons, List.not_mem_nil, or_false] at hf
  rcases hf with rfl | rfl
  · cases draft with
    | blank => exact hdraft.elim
    | buffered data => exact hdraft.elim
    | named kind' => cases hput
    | complete m => cases hput
  · cases draft with
    | blank => exact hdraft.elim
    | buffered data => exact hdraft.elim
    | complete m => cases hput
    | named kind' =>
      obtain ⟨m, hm, hput⟩ := bind_eq_ok_iff.mp hput
      cases hput
      exact (Kind.kind_of_readData hm).trans hdraft

/-- An object that starts with the name of a kind is read as a message of that kind, or as none. -/
theorem kind_of_read {kind : Kind} {node : Node}
    (hnode : node.StartsWith (.written "event", .ofName (.written kind.name))) {m : Message}
    (h : read node = .ok m) : m.kind = kind := by
  cases node with
  | object members closed =>
    cases members with
    | nil => cases hnode
    | cons member rest =>
      cases hnode
      obtain ⟨draft, hdraft, hfinish⟩ := bind_eq_ok_iff.mp h
      have hmembers := Json.eq_ok_of_whenClosed hdraft
      rw [Node.ofName_written, readMembers_event] at hmembers
      have hkept := Json.Schema.keeps_readMembers rest
        (fun f hf p _ => keeps_ofKind kind f hf p.2) (show Draft.OfKind kind (.named kind) from rfl)
        hmembers
      exact hkept.finish hfinish
  | _ => exact hnode.elim

/-- **A frame is read as a message of the kind that was written, or as none.** -/
theorem kind_of_decode_encode {m m' : Message} (h : decode m.encode = .ok m') :
    m'.kind = m.kind := by
  obtain ⟨rest, htext⟩ : ∃ rest, m.encode =
      String.ofList ('\x7b' :: Json.writeString "event" (':' :: Json.writeString m.name rest)) :=
    ⟨_, rfl⟩
  rw [decode, htext, mapError_eq_ok_iff] at h
  exact kind_of_read (Json.startsWith_ofText "event" m.name rest) (Json.eq_ok_of_whenClosed h)

end Fleet.Message
