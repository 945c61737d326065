import Fleet.Proofs.Numerals
import Fleet.Proofs.Strings

/-!
# The tokens of a document

A document is written with the same tokens in either form, the compact one and the pretty one
(`lex_write`, `lex_writePretty`): they differ in blanks only. Both are said of a writer and whatever
follows it, which may be anything that does not go on with a number (`Apart`).
-/

namespace Fleet.Json

/-! ### What follows -/

/-- **The text does not go on with a number** that stands before it. -/
def Apart (rest : List Char) : Prop := ∀ c ∈ rest.head?, isNumeric c = false

theorem apart_nil : Apart [] := nofun

theorem apart_cons {c : Char} (h : isNumeric c = false) (rest : List Char) : Apart (c :: rest) := by
  rintro _ ⟨⟩
  exact h

theorem apart_writeItems (items : List Json) {rest : List Char} (h : Apart rest) :
    Apart (writeItems items rest) := by
  cases items with
  | nil => exact h
  | cons item items => exact apart_cons (by decide) _

theorem apart_writeMembers (members : List (String × Json)) {rest : List Char} (h : Apart rest) :
    Apart (writeMembers members rest) := by
  cases members with
  | nil => exact h
  | cons member members => exact apart_cons (by decide) _

theorem apart_newline (level : Nat) (rest : List Char) : Apart (newline level rest) :=
  apart_cons (by decide) _

theorem apart_writePrettyItems (level : Nat) (items : List Json) {rest : List Char}
    (h : Apart rest) : Apart (writePrettyItems level items rest) := by
  cases items with
  | nil => exact h
  | cons item items => exact apart_cons (by decide) _

theorem apart_writePrettyMembers (level : Nat) (members : List (String × Json)) {rest : List Char}
    (h : Apart rest) : Apart (writePrettyMembers level members rest) := by
  cases members with
  | nil => exact h
  | cons member members => exact apart_cons (by decide) _

/-! ### Single tokens -/

theorem lex_newline (level : Nat) (rest : List Char) : lex (newline level rest) = lex rest := by
  have hblanks : ∀ n, lex (List.replicate n ' ' ++ rest) = lex rest := by
    intro n
    induction n with
    | zero => rfl
    | succ n ih =>
      rw [List.replicate_succ, List.cons_append, lex_space rfl, ih]
  rw [newline, lex_space rfl, hblanks]

/-- **A written number is lexed as one token**, unless what follows goes on with it. -/
theorem lex_number (n : Number) {rest : List Char} (h : Apart rest) :
    lex (n.text ++ rest) = lexNumber n.text :: lex rest := by
  obtain ⟨c, more, htext, hc, hmore⟩ := n.text_eq_cons
  -- the lexer takes the text of the number and stops there, because what follows is apart
  have htake : (more ++ rest).takeWhile isNumeric = more := by
    rw [List.takeWhile_append_of_pos hmore]
    cases rest with
    | nil => simp
    | cons d rest => simp [h d rfl]
  have hdrop : (more ++ rest).dropWhile isNumeric = rest := by
    rw [List.dropWhile_append_of_pos hmore]
    cases rest with
    | nil => rfl
    | cons d rest => simp [h d rfl]
  -- the first character is a digit or a sign, with which nothing else begins
  have hstart : isSpace c = false ∧ punctuation? c = none ∧ c ≠ '"' := by
    rcases hc with hc | rfl
    · have hne : ∀ d : Char, d.isDigit = false → c ≠ d := by
        rintro _ hd rfl
        exact absurd (hc.symm.trans hd) (by decide)
      refine ⟨?_, ?_, hne '"' rfl⟩
      · simp [isSpace, hne ' ' rfl, hne '\t' rfl, hne '\n' rfl, hne '\r' rfl]
      · unfold punctuation?
        split
        case h_7 => rfl
        all_goals exact absurd rfl (hne _ rfl)
    · exact ⟨rfl, rfl, by decide⟩
  have htoken : lexToken c (more ++ rest) = (lexNumber n.text, rest) := by
    unfold lexToken
    simp only [hstart.2.1, if_neg hstart.2.2, if_pos hc, htake, hdrop, htext]
  rw [htext, List.cons_append, lex, hstart.1, htoken, ← htext]
  rfl

/-! ### Documents -/

mutual

/-- **The tokens that a document is written with.** -/
def tokens : Json → List Token
  | null => [.scalar .null]
  | bool b => [.scalar (.bool b)]
  | number n => [lexNumber n.text]
  | string s => [.string (.written s)]
  | array [] => [.openArray, .closeArray]
  | array (item :: items) => .openArray :: (tokens item ++ (itemTokens items ++ [.closeArray]))
  | object [] => [.openObject, .closeObject]
  | object ((name, value) :: members) =>
    .openObject :: .string (.written name) :: .colon ::
      (tokens value ++ (memberTokens members ++ [.closeObject]))

/-- The tokens of the items after the first. -/
def itemTokens : List Json → List Token
  | [] => []
  | item :: items => .comma :: (tokens item ++ itemTokens items)

/-- The tokens of the members after the first. -/
def memberTokens : List (String × Json) → List Token
  | [] => []
  | (name, value) :: members =>
    .comma :: .string (.written name) :: .colon :: (tokens value ++ memberTokens members)

end

mutual

/-- **The compact form is lexed as the tokens of the document.** -/
theorem lex_write (document : Json) {rest : List Char} (h : Apart rest) :
    lex (document.write rest) = document.tokens ++ lex rest :=
  match document with
  | null => by
    rw [write, lex]
    rfl
  | bool true => by
    rw [write, lex]
    rfl
  | bool false => by
    rw [write, lex]
    rfl
  | number n => by rw [write, lex_number n h, tokens, List.singleton_append]
  | string s => by rw [write, lex_writeString, tokens, List.singleton_append]
  | array [] => by
    rw [write, lex_punctuation rfl, lex_punctuation rfl]
    rfl
  -- a number ends where something else begins, so every item has to be apart from what follows it
  | array (item :: items) => by
    have hclose : Apart (']' :: rest) := apart_cons (by decide) _
    rw [write, lex_punctuation rfl, lex_write item (apart_writeItems items hclose),
      lex_writeItems items hclose, lex_punctuation rfl, tokens]
    simp
  | object [] => by
    rw [write, lex_punctuation rfl, lex_punctuation rfl]
    rfl
  | object ((name, value) :: members) => by
    have hclose : Apart ('\x7d' :: rest) := apart_cons (by decide) _
    rw [write, lex_punctuation rfl, lex_writeString, lex_punctuation rfl,
      lex_write value (apart_writeMembers members hclose), lex_writeMembers members hclose,
      lex_punctuation rfl, tokens]
    simp

theorem lex_writeItems (items : List Json) {rest : List Char} (h : Apart rest) :
    lex (writeItems items rest) = itemTokens items ++ lex rest :=
  match items with
  | [] => rfl
  | item :: items => by
    rw [writeItems, lex_punctuation rfl, lex_write item (apart_writeItems items h),
      lex_writeItems items h, itemTokens]
    simp

theorem lex_writeMembers (members : List (String × Json)) {rest : List Char} (h : Apart rest) :
    lex (writeMembers members rest) = memberTokens members ++ lex rest :=
  match members with
  | [] => rfl
  | (name, value) :: members => by
    rw [writeMembers, lex_punctuation rfl, lex_writeString, lex_punctuation rfl,
      lex_write value (apart_writeMembers members h), lex_writeMembers members h, memberTokens]
    simp

end

mutual

/-- **The pretty form is lexed as the tokens of the document.** -/
theorem lex_writePretty (level : Nat) (document : Json) {rest : List Char} (h : Apart rest) :
    lex (document.writePretty level rest) = document.tokens ++ lex rest :=
  match document with
  | array (item :: items) => by
    have hclose : Apart (newline level (']' :: rest)) := apart_newline _ _
    rw [writePretty, lex_punctuation rfl, lex_newline,
      lex_writePretty (level + 1) item (apart_writePrettyItems _ items hclose),
      lex_writePrettyItems (level + 1) items hclose, lex_newline, lex_punctuation rfl, tokens]
    simp
  | object ((name, value) :: members) => by
    have hclose : Apart (newline level ('\x7d' :: rest)) := apart_newline _ _
    rw [writePretty, lex_punctuation rfl, lex_newline, lex_writeString, lex_punctuation rfl,
      lex_space rfl, lex_writePretty (level + 1) value (apart_writePrettyMembers _ members hclose),
      lex_writePrettyMembers (level + 1) members hclose, lex_newline, lex_punctuation rfl, tokens]
    simp
  | null => lex_write null h
  | bool b => lex_write (bool b) h
  | number n => lex_write (number n) h
  | string s => lex_write (string s) h
  | array [] => lex_write (array []) h
  | object [] => lex_write (object []) h

theorem lex_writePrettyItems (level : Nat) (items : List Json) {rest : List Char}
    (h : Apart rest) : lex (writePrettyItems level items rest) = itemTokens items ++ lex rest :=
  match items with
  | [] => rfl
  | item :: items => by
    rw [writePrettyItems, lex_punctuation rfl, lex_newline,
      lex_writePretty level item (apart_writePrettyItems level items h),
      lex_writePrettyItems level items h, itemTokens]
    simp

theorem lex_writePrettyMembers (level : Nat) (members : List (String × Json)) {rest : List Char}
    (h : Apart rest) :
    lex (writePrettyMembers level members rest) = memberTokens members ++ lex rest :=
  match members with
  | [] => rfl
  | (name, value) :: members => by
    rw [writePrettyMembers, lex_punctuation rfl, lex_newline, lex_writeString, lex_punctuation rfl,
      lex_space rfl, lex_writePretty level value (apart_writePrettyMembers level members h),
      lex_writePrettyMembers level members h, memberTokens]
    simp

end

theorem lex_compact (document : Json) : lex document.compact.toList = document.tokens := by
  rw [compact, String.toList_ofList, lex_write document apart_nil, lex, List.append_nil]

theorem lex_pretty (document : Json) : lex document.pretty.toList = document.tokens := by
  rw [pretty, String.toList_ofList, lex_writePretty 0 document apart_nil, lex, List.append_nil]

end Fleet.Json
