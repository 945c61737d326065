import Fleet.Json.Token
import Fleet.Json.Text

/-!
# Reading a text

`Node.read` turns a text into the node that it holds. It is a fold over the tokens with a stack of
the containers that are still open: a scalar or a closed container is put into the container on top
of the stack, and a token that is not due there makes the text break off, which closes the stack
from the inside outwards without closing the containers.

Brackets may nest 127 deep. A container that is deeper is still read to its end, but it is unfit:
it may be passed over, and it denotes nothing.

A `Reading` also says whether the text ended with the document. A document that is followed by
something else is complete and yet refused, after everything in it has been read.
-/

namespace Fleet.Json

/-- **How deep brackets may nest.** -/
def maxDepth : Nat := 127

/-- **A container that is still open**, with what it holds so far in reverse. -/
inductive Frame where
  | array (reversed : List Node)
  /-- The name is that of the member whose value is due. -/
  | object (reversed : List (Name × Node)) (pending : Option Name)

namespace Frame

/-- The container with one more value; an object without a pending name takes none. -/
def put (node : Node) : Frame → Frame
  | array reversed => array (node :: reversed)
  | object reversed (some name) => object ((name, node) :: reversed) none
  | object reversed none => object reversed none

/-- The container as it is, closed or not, when it is the `depth`-th from the outside. -/
def toNode (depth : Nat) (closed : Bool) (frame : Frame) : Node :=
  if depth ≤ maxDepth then
    match frame with
    | array reversed => .array reversed.reverse closed
    | object reversed _ => .object reversed.reverse closed
  -- too deep: there is no need for what it holds, only for whether it is well-formed
  else if closed then .unfit else .broken

end Frame

/-- **What is due next**, apart from the end of the text. -/
inductive Due where
  /-- A value, or the end of an array that is still empty. -/
  | value (mayClose : Bool)
  /-- A comma or the end of the container. -/
  | separator
  /-- A name, or the end of an object that is still empty. -/
  | name (mayClose : Bool)
  | colon
deriving DecidableEq, Repr

/-- **How far reading has come.** -/
inductive Progress where
  | reading (stack : List Frame) (due : Due)
  /-- The document is complete. -/
  | complete (root : Node)
  /-- A token was not due; the rest of the text does not matter. -/
  | stopped (root : Node)

namespace Progress

/-- The stack closed from the inside outwards around a value that broke off. -/
def breakOff (node : Node) : List Frame → Node
  | [] => node
  | frame :: outer => breakOff ((frame.put node).toNode (outer.length + 1) false) outer

/-- A value is complete: it goes into the innermost open container, or it is the document. -/
def put (node : Node) : List Frame → Progress
  | [] => complete node
  | frame :: outer => reading (frame.put node :: outer) .separator

/-- The innermost container is complete. -/
def close : List Frame → Progress
  | [] => stopped .broken
  | frame :: outer => put (frame.toNode (outer.length + 1) true) outer

/-- What is due after a comma. -/
def afterComma : List Frame → Due
  | .object _ _ :: _ => .name false
  | _ => .value false

/-- Whether the innermost container is an object. -/
def inObject : List Frame → Bool
  | .object _ _ :: _ => true
  | _ => false

/-- The name of the member whose value is due. -/
def setPending (name : Name) : List Frame → List Frame
  | .object reversed _ :: outer => .object reversed (some name) :: outer
  | stack => stack

/-- **One token.** -/
def step : Progress → Token → Progress
  | stopped root, _ => stopped root
  -- a token after the document; what the document holds is read all the same
  | complete root, _ => stopped root
  | reading stack due, token =>
    match due, token with
    | .value _, .scalar node => put node stack
    | .value _, .string name => put (.ofName name) stack
    | .value _, .openArray => reading (.array [] :: stack) (.value true)
    | .value _, .openObject => reading (.object [] none :: stack) (.name true)
    | .value true, .closeArray => close stack
    | .separator, .comma => reading stack (afterComma stack)
    | .separator, .closeArray =>
      if inObject stack then stopped (breakOff .broken stack) else close stack
    | .separator, .closeObject =>
      if inObject stack then close stack else stopped (breakOff .broken stack)
    | .name _, .string name => reading (setPending name stack) .colon
    | .name true, .closeObject => close stack
    | .colon, .colon => reading stack (.value false)
    | _, _ => stopped (breakOff .broken stack)

end Progress

/-- **A text that was read**: the node that it holds, and whether it ends with it. -/
structure Reading where
  root : Node
  exact : Bool

/-- What was found when the text has come to its end. -/
def Progress.reading? : Progress → Reading
  | .reading stack _ => ⟨breakOff .broken stack, false⟩
  | .complete root => ⟨root, true⟩
  | .stopped root => ⟨root, false⟩

/-- What tokens hold. -/
def Reading.ofTokens (tokens : List Token) : Reading :=
  (tokens.foldl Progress.step (.reading [] (.value false))).reading?

/-- **What a text holds.** -/
def Reading.ofText (text : String) : Reading := .ofTokens (lex text.toList)

/-- The document that a text holds, if it is one and nothing in it is at fault. -/
def ofText? (text : String) : Option Json :=
  let reading := Reading.ofText text
  if reading.exact then reading.root.json? else none

end Fleet.Json

namespace Fleet.Value

/-- **The plain value that a text holds**, if nothing in it is at fault. -/
def ofText? (text : String) : Option Value := (Json.ofText? text).map ofJson

end Fleet.Value
