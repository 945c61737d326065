import Fleet.Json.Node

/-!
# Tokens of JSON

The text of a document is a sequence of tokens: brackets, commas and colons, strings, and the
scalars `null`, `true`, `false` and numbers. Between tokens there may be blanks, tabs and line
breaks, and nothing else.

A number token is the longest run of characters that can occur in a number; whether it is one is
decided for the run as a whole. `lex` stops at the first character that starts no token and leaves
a `fault` in its place.
-/

namespace Fleet.Json

/-- **A token.** -/
inductive Token where
  | openArray
  | closeArray
  | openObject
  | closeObject
  | comma
  | colon
  | string (name : Name)
  /-- `null`, a truth value or a number. -/
  | scalar (node : Node)
  /-- Text that is no token. -/
  | fault

/-! ### Strings -/

/-- The character of a short escape. -/
def unescape? (c : Char) : Option Char :=
  match c with
  | '"' => some '"'
  | '\\' => some '\\'
  | '/' => some '/'
  | 'b' => some '\x08'
  | 't' => some '\x09'
  | 'n' => some '\x0a'
  | 'f' => some '\x0c'
  | 'r' => some '\x0d'
  | _ => none

/-- Whether a code unit is the first half of a surrogate pair. -/
def isHighSurrogate (unit : Nat) : Bool := 0xD800 ≤ unit && unit < 0xDC00

/-- Whether a code unit is the second half of a surrogate pair. -/
def isLowSurrogate (unit : Nat) : Bool := 0xDC00 ≤ unit && unit < 0xE000

/-- The character of a surrogate pair. -/
def joinSurrogates (high low : Nat) : Char :=
  Char.ofNat (0x10000 + (high - 0xD800) * 0x400 + (low - 0xDC00))

/-- **A piece of a string** as it stands in the text. -/
inductive Piece where
  /-- A character that stands for itself. -/
  | plain (c : Char)
  /-- A character that was written as a short escape. -/
  | short (c : Char)
  /-- A code unit of 16 bits that was written as an escape of four digits. -/
  | unit (n : Nat)
deriving DecidableEq, Repr

/-- The characters that pieces denote: the two halves of a surrogate pair, one right after the
other, are one character, and half a pair is none. -/
def joinPieces : List Piece → Option (List Char)
  | [] => some []
  | .plain c :: rest => (joinPieces rest).map (c :: ·)
  | .short c :: rest => (joinPieces rest).map (c :: ·)
  | [.unit n] =>
    if isHighSurrogate n || isLowSurrogate n then none else some [Char.ofNat n]
  | .unit n :: next :: rest =>
    if isHighSurrogate n then
      match next with
      | .unit low =>
        if isLowSurrogate low then (joinPieces rest).map (joinSurrogates n low :: ·) else none
      | _ => none
    else if isLowSurrogate n then none
    else (joinPieces (next :: rest)).map (Char.ofNat n :: ·)

/-- The name that pieces make up. -/
def Name.ofPieces (pieces : List Piece) : Name where
  text := (joinPieces pieces).map String.ofList
  escaped := pieces.any fun piece => match piece with
    | .plain _ => false
    | _ => true

/-- **The rest of a string** up to its closing quotation mark, in pieces, and the text after it. A
control character or a malformed escape ends the reading. -/
def lexString : List Char → Option (List Piece × List Char)
  | [] => none
  | '"' :: rest => some ([], rest)
  | '\\' :: 'u' :: a :: b :: c :: d :: rest =>
    match Text.hexadecimal? [a, b, c, d] with
    | none => none
    | some n => (lexString rest).map fun r => (.unit n :: r.1, r.2)
  -- an escape of four digits that lacks some comes here, and `u` alone escapes nothing
  | '\\' :: c :: rest =>
    match unescape? c with
    | none => none
    | some c => (lexString rest).map fun r => (.short c :: r.1, r.2)
  | c :: rest =>
    if c.toNat < 0x20 ∨ c = '\\' then none
    else (lexString rest).map fun r => (.plain c :: r.1, r.2)

/-! ### Numbers -/

/-- Whether the character can occur in a number. -/
def isNumeric (c : Char) : Bool :=
  c.isDigit || c == '-' || c == '+' || c == '.' || c == 'e' || c == 'E'

/-- A run of such characters as a token. -/
def lexNumber (cs : List Char) : Token :=
  match Literal.ofText? cs with
  | none => .fault
  | some literal =>
    match literal.number? with
    -- well-formed, but too large
    | none => .scalar .unfit
    | some n => .scalar (.number n)

/-! ### Tokens -/

/-- Whether the character may stand between tokens. -/
def isSpace (c : Char) : Bool := c == ' ' || c == '\t' || c == '\n' || c == '\r'

/-- The token of a single character. -/
def punctuation? (c : Char) : Option Token :=
  match c with
  | '[' => some .openArray
  | ']' => some .closeArray
  | '\x7b' => some .openObject
  | '\x7d' => some .closeObject
  | ',' => some .comma
  | ':' => some .colon
  | _ => none

/-- The scalar that a word at the beginning of the text denotes, and the text after it. -/
def lexWord : List Char → Option (Node × List Char)
  | 'n' :: 'u' :: 'l' :: 'l' :: rest => some (.null, rest)
  | 't' :: 'r' :: 'u' :: 'e' :: rest => some (.bool true, rest)
  | 'f' :: 'a' :: 'l' :: 's' :: 'e' :: rest => some (.bool false, rest)
  | _ => none

/-- The first token of a text that starts with no space, and the text after it. -/
def lexToken (c : Char) (rest : List Char) : Token × List Char :=
  match punctuation? c with
  | some token => (token, rest)
  | none =>
    if c = '"' then
      match lexString rest with
      | some (pieces, rest) => (.string (.ofPieces pieces), rest)
      | none => (.fault, [])
    else if c.isDigit ∨ c = '-' then
      (lexNumber (c :: rest.takeWhile isNumeric), rest.dropWhile isNumeric)
    else
      match lexWord (c :: rest) with
      | some (node, rest) => (.scalar node, rest)
      | none => (.fault, [])

/-! ### Every token takes a character -/

theorem length_lexString {cs rest : List Char} {pieces : List Piece}
    (h : lexString cs = some (pieces, rest)) : rest.length < cs.length := by
  fun_induction lexString cs generalizing pieces rest with
  | case1 | case3 | case5 | case7 => simp at h
  | case2 => simp at h; simp [h]
  | case4 _ _ _ _ _ _ _ ih | case6 _ _ _ _ _ ih | case8 _ _ _ _ _ _ ih =>
    obtain ⟨⟨_, _⟩, hr, heq⟩ := Option.map_eq_some_iff.mp h
    cases heq
    have := ih hr
    simp only [List.length_cons]
    omega

theorem length_lexWord {cs rest : List Char} {node : Node} (h : lexWord cs = some (node, rest)) :
    rest.length < cs.length := by
  unfold lexWord at h
  split at h <;> simp_all <;> grind

theorem length_lexToken (c : Char) (rest : List Char) :
    (lexToken c rest).2.length ≤ rest.length := by
  unfold lexToken
  split
  -- punctuation takes the one character
  · exact Nat.le_refl _
  · split
    -- a string
    · split
      · next h => exact Nat.le_of_lt (length_lexString h)
      · simp
    -- a number, and then a word
    · split
      · exact (List.dropWhile_suffix _).length_le
      · split
        · next h => simpa using Nat.le_of_lt_succ (length_lexWord h)
        · simp

/-- **The tokens of a text.** -/
def lex : List Char → List Token
  | [] => []
  | c :: rest =>
    if isSpace c then lex rest
    else (lexToken c rest).1 :: lex (lexToken c rest).2
termination_by cs => cs.length
decreasing_by
  · simp
  · have := length_lexToken c rest
    simp only [List.length_cons]
    omega

end Fleet.Json
