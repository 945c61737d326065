import Fleet.Json.Text
import Fleet.Json.Token

/-!
# Written strings are read back

A string is written character by character. A written character stands for itself, or it is a short
escape, or an escape of four digits (`escape_cases`). In each case it is read as one piece of the
string, whatever stands after it (`lexString_escape`), and the pieces denote the string: only
control characters are escaped with four digits, and those are no halves of surrogate pairs.

So the text of a string is lexed as one token, a name with that text (`lex_writeString`).
-/

namespace Fleet.Json

variable {c : Char}

/-! ### Single characters -/

/-- A space between tokens is passed over. -/
theorem lex_space (h : isSpace c = true) (rest : List Char) : lex (c :: rest) = lex rest := by
  rw [lex, if_pos h]

theorem lex_punctuation {token : Token} (h : punctuation? c = some token) (rest : List Char) :
    lex (c :: rest) = token :: lex rest := by
  have hspace : isSpace c = false := by
    unfold punctuation? at h
    split at h <;> first | rfl | cases h
  have htoken : lexToken c rest = (token, rest) := by
    unfold lexToken
    rw [h]
  rw [lex, hspace, htoken]
  rfl

/-! ### Characters of a string -/

/-- **What a written character looks like.** -/
theorem escape_cases (c : Char) :
    (escape c = [c] ∧ ¬ c.toNat < 0x20 ∧ c ≠ '"' ∧ c ≠ '\\') ∨
    (∃ d, escape c = ['\\', d] ∧ unescape? d = some c) ∨
    (escape c = '\\' :: 'u' :: Text.hexadecimal 4 c.toNat ∧ c.toNat < 0x20) := by
  unfold escape
  split
  case h_8 hquote hslash _ _ _ _ _ =>
    by_cases hcontrol : c.toNat < 0x20
    · exact .inr (.inr ⟨if_pos hcontrol, hcontrol⟩)
    · exact .inl ⟨if_neg hcontrol, hcontrol, hquote, hslash⟩
  all_goals exact .inr (.inl ⟨_, rfl, rfl⟩)

/-- **The piece that a written character is read as.** -/
def Piece.written (c : Char) : Piece :=
  match escape c with
  | [c] => .plain c
  | [_, _] => .short c
  | _ => .unit c.toNat

theorem hexadecimal?_hexadecimal {n : Nat} (h : n < 0x20) :
    Text.hexadecimal? (Text.hexadecimal 4 n) = some n := by
  have hall : ∀ n < 0x20, Text.hexadecimal? (Text.hexadecimal 4 n) = some n := by decide
  exact hall n h

/-- **A written character is read as its piece**, whatever follows. -/
theorem lexString_escape (c : Char) (rest : List Char) : lexString (escape c ++ rest) =
    (lexString rest).map fun r => (Piece.written c :: r.1, r.2) := by
  unfold Piece.written
  rcases escape_cases c with ⟨heq, hcontrol, hquote, hslash⟩ | ⟨d, heq, hd⟩ | ⟨heq, hcontrol⟩
  · rw [heq]
    show lexString (c :: rest) = _
    rw [lexString.eq_5 c rest hquote (fun _ _ _ _ _ h => absurd h hslash)
      fun _ _ h => absurd h hslash]
    exact if_neg fun h => h.elim hcontrol hslash
  · have hdigits : d ≠ 'u' := by
      rintro rfl
      cases hd
    rw [heq]
    show lexString ('\\' :: d :: rest) = _
    rw [lexString.eq_4 d rest fun _ _ _ _ _ h => absurd h hdigits, hd]
  · obtain ⟨x, y, z, w, hdigits⟩ : ∃ x y z w, Text.hexadecimal 4 c.toNat = [x, y, z, w] :=
      ⟨_, _, _, _, rfl⟩
    have hread := hexadecimal?_hexadecimal hcontrol
    rw [hdigits] at hread
    rw [heq, hdigits]
    show lexString ('\\' :: 'u' :: x :: y :: z :: w :: rest) = _
    rw [lexString, hread]

/-- The piece of a character denotes the character. -/
theorem joinPieces_written (c : Char) (pieces : List Piece) :
    joinPieces (Piece.written c :: pieces) = (joinPieces pieces).map (c :: ·) := by
  unfold Piece.written
  rcases escape_cases c with ⟨heq, -⟩ | ⟨d, heq, -⟩ | ⟨heq, hcontrol⟩
  · rw [heq]
    rfl
  · rw [heq]
    rfl
  · have hhigh : isHighSurrogate c.toNat = false := by
      unfold isHighSurrogate
      simp
      omega
    have hlow : isLowSurrogate c.toNat = false := by
      unfold isLowSurrogate
      simp
      omega
    rw [heq]
    show joinPieces (.unit c.toNat :: pieces) = _
    cases pieces <;> simp [joinPieces, hhigh, hlow]

/-! ### Strings -/

/-- **The name that a written string is read as.** -/
def Name.written (s : String) : Name := .ofPieces (s.toList.map Piece.written)

@[simp] theorem Name.text_written (s : String) : (Name.written s).text = some s := by
  have hjoin : ∀ cs : List Char, joinPieces (cs.map Piece.written) = some cs := by
    intro cs
    induction cs with
    | nil => rfl
    | cons c cs ih =>
      rw [List.map_cons, joinPieces_written, ih]
      rfl
  unfold Name.written Name.ofPieces
  rw [hjoin, Option.map_some, String.ofList_toList]

@[simp] theorem Node.ofName_written (s : String) : ofName (.written s) = string s := by
  rw [ofName, Name.text_written]

/-- The characters of a string are read up to its closing quotation mark. -/
theorem lexString_written (cs rest : List Char) :
    lexString (cs.foldr (fun c after => escape c ++ after) ('"' :: rest)) =
      some (cs.map Piece.written, rest) := by
  induction cs with
  | nil => rfl
  | cons c cs ih =>
    rw [List.foldr_cons, lexString_escape, ih]
    rfl

/-- **A written string is lexed as one token**, whatever follows. -/
theorem lex_writeString (s : String) (rest : List Char) :
    lex (writeString s rest) = .string (.written s) :: lex rest := by
  have htoken : lexToken '"' (s.toList.foldr (fun c after => escape c ++ after) ('"' :: rest)) =
      (.string (.written s), rest) := by
    have hquote : punctuation? '"' = none := rfl
    unfold lexToken
    simp only [hquote, if_true, lexString_written]
    rfl
  unfold writeString
  rw [lex, htoken]
  rfl

end Fleet.Json
