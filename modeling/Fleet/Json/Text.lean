import Fleet.Json.Value

/-!
# The text of a document

Two written forms: the *compact* one without any blanks, which travels in frames, and the *pretty*
one with a line for every item and member and two blanks for every level, which is kept on disk.
Both write the members of an object in the order in which they stand.

Each writer takes the text that follows and puts its own before it. So writing is linear in the
length of the text, and what a reader has to be shown about "a document and whatever follows it"
is said of the writer directly.

In a string, the quotation mark, the backslash and the characters below `0x20` are escaped, with
the short escapes where there is one; everything else stands for itself.
-/

namespace Fleet.Json

/-! ### Strings -/

/-- A character inside a string. -/
def escape (c : Char) : List Char :=
  match c with
  | '"' => ['\\', '"']
  | '\\' => ['\\', '\\']
  | '\x08' => ['\\', 'b']
  | '\x09' => ['\\', 't']
  | '\x0a' => ['\\', 'n']
  | '\x0c' => ['\\', 'f']
  | '\x0d' => ['\\', 'r']
  | _ => if c.toNat < 0x20 then '\\' :: 'u' :: Text.hexadecimal 4 c.toNat else [c]

/-- A string between quotation marks, and what follows it. -/
def writeString (s : String) (rest : List Char) : List Char :=
  '"' :: s.toList.foldr (fun c after => escape c ++ after) ('"' :: rest)

/-! ### The compact form -/

mutual

/-- A document in compact form, and what follows it. -/
def write (document : Json) (rest : List Char) : List Char :=
  match document with
  | null => 'n' :: 'u' :: 'l' :: 'l' :: rest
  | bool true => 't' :: 'r' :: 'u' :: 'e' :: rest
  | bool false => 'f' :: 'a' :: 'l' :: 's' :: 'e' :: rest
  | number n => n.text ++ rest
  | string s => writeString s rest
  | array [] => '[' :: ']' :: rest
  | array (item :: items) => '[' :: write item (writeItems items (']' :: rest))
  | object [] => '\x7b' :: '\x7d' :: rest
  | object ((name, value) :: members) =>
    '\x7b' :: writeString name (':' :: write value (writeMembers members ('\x7d' :: rest)))

/-- The items after the first, each with the comma before it. -/
def writeItems (items : List Json) (rest : List Char) : List Char :=
  match items with
  | [] => rest
  | item :: items => ',' :: write item (writeItems items rest)

/-- The members after the first, each with the comma before it. -/
def writeMembers (members : List (String × Json)) (rest : List Char) : List Char :=
  match members with
  | [] => rest
  | (name, value) :: members =>
    ',' :: writeString name (':' :: write value (writeMembers members rest))

end

/-- **The compact text of a document.** -/
def compact (document : Json) : String := String.ofList (document.write [])

/-! ### The pretty form -/

/-- A line break and the blanks of a level, and what follows them. -/
def newline (level : Nat) (rest : List Char) : List Char :=
  '\n' :: (List.replicate (2 * level) ' ' ++ rest)

mutual

/-- A document that stands at a level of nesting in pretty form, and what follows it. -/
def writePretty (level : Nat) (document : Json) (rest : List Char) : List Char :=
  match document with
  | array (item :: items) =>
    '[' :: newline (level + 1) (writePretty (level + 1) item
      (writePrettyItems (level + 1) items (newline level (']' :: rest))))
  | object ((name, value) :: members) =>
    '\x7b' :: newline (level + 1) (writeString name (':' :: ' ' :: writePretty (level + 1) value
      (writePrettyMembers (level + 1) members (newline level ('\x7d' :: rest)))))
  | document => document.write rest

/-- The items after the first, each on a line of its own. -/
def writePrettyItems (level : Nat) (items : List Json) (rest : List Char) : List Char :=
  match items with
  | [] => rest
  | item :: items =>
    ',' :: newline level (writePretty level item (writePrettyItems level items rest))

/-- The members after the first, each on a line of its own. -/
def writePrettyMembers (level : Nat) (members : List (String × Json)) (rest : List Char) :
    List Char :=
  match members with
  | [] => rest
  | (name, value) :: members =>
    ',' :: newline level (writeString name (':' :: ' ' :: writePretty level value
      (writePrettyMembers level members rest)))

end

/-- **The pretty text of a document.** -/
def pretty (document : Json) : String := String.ofList (document.writePretty 0 [])

end Fleet.Json

namespace Fleet.Value

/-- The compact text of a plain value. -/
def text (v : Value) : String := v.json.compact

end Fleet.Value
