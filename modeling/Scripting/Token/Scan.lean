import Scripting.Error

/-!
# Cutting a text into tokens

`Token.scan` reads a text from left to right. Spaces, tabs, carriage returns, line feeds and `//`
comments separate tokens and are dropped. A word is the longest run of letters, digits and
underscores; a string runs from a quote to the next quote of the same sort, across lines if need be.
The first defect ends the scan with an error that points at it.
-/

namespace Scripting.Token

/-- Whether a character separates tokens without being part of one. -/
def isLayout (c : Char) : Bool :=
  c == ' ' || c == '\t' || c == '\r' || c == '\n'

/-- Whether a character opens and closes a string. -/
def isQuote (c : Char) : Bool :=
  c == '"' || c == '\x27'

/-- Whether a character belongs to a word. -/
def isWordChar (c : Char) : Bool :=
  c.isAlphanum || c == '_'

/-- The kind of a word. A word that starts with a digit but is no number has none. -/
def wordKind? (word : List Char) : Option TokenKind :=
  if word.all Char.isDigit then some .number
  else if word.head?.any Char.isDigit then none
  else if (boolean? (String.ofList word)).isSome then some .boolean
  else some .identifier

/-- A token cut from the front of a text, the position after it and the text left. -/
structure Piece where
  token : Token
  stop : Position
  rest : List Char

/-- The string that opens with the given quote. -/
def cutString (position : Position) (quote : Char) (rest : List Char) : Except Error Piece :=
  let inside := rest.takeWhile (· ≠ quote)
  let stop := (position.next quote).after inside
  match rest.dropWhile (· ≠ quote) with
  | [] => .error (.locate .unterminatedString (position.upTo stop))
  | close :: rest =>
    let stop := stop.next close
    .ok ⟨{ kind := .string, lexeme := String.ofList inside, span := position.upTo stop }, stop, rest⟩

/-- The word that starts with the given character. -/
def cutWord (position : Position) (c : Char) (rest : List Char) : Except Error Piece :=
  let word := c :: rest.takeWhile isWordChar
  let stop := position.after word
  match wordKind? word with
  | some kind =>
    .ok ⟨{ kind, lexeme := String.ofList word, span := position.upTo stop }, stop,
      rest.dropWhile isWordChar⟩
  | none => .error (.locate (.invalidIdentifier (String.ofList word)) (position.upTo stop))

/-- The token that starts with the character `c`, which is no layout, and goes on in `rest`. -/
def cut (position : Position) (c : Char) (rest : List Char) : Except Error Piece :=
  match TokenKind.ofPunctuation? c with
  | some kind =>
    let stop := position.next c
    .ok ⟨{ kind, lexeme := c.toString, span := position.upTo stop }, stop, rest⟩
  | none =>
    if isQuote c then cutString position c rest
    else if isWordChar c then cutWord position c rest
    else .error (.locate (.unexpectedCharacter c) (position.upTo (position.next c)))

theorem length_dropWhile_le {α : Type} (p : α → Bool) (xs : List α) :
    (xs.dropWhile p).length ≤ xs.length :=
  (List.dropWhile_suffix p).length_le

theorem length_rest_lt_of_cutString {position : Position} {quote : Char} {rest : List Char}
    {piece : Piece} (h : cutString position quote rest = .ok piece) :
    piece.rest.length < rest.length := by
  unfold cutString at h
  dsimp only at h
  split at h
  · cases h
  · next close tail hd =>
    cases h
    have hle := length_dropWhile_le (· ≠ quote) rest
    rw [hd] at hle
    exact hle

theorem length_rest_le_of_cutWord {position : Position} {c : Char} {rest : List Char}
    {piece : Piece} (h : cutWord position c rest = .ok piece) :
    piece.rest.length ≤ rest.length := by
  unfold cutWord at h
  dsimp only at h
  split at h
  · cases h
    exact length_dropWhile_le _ _
  · cases h

/-- What is left after a token is no longer than what followed its first character. -/
theorem length_rest_le_of_cut {position : Position} {c : Char} {rest : List Char} {piece : Piece}
    (h : cut position c rest = .ok piece) : piece.rest.length ≤ rest.length := by
  unfold cut at h
  split at h
  · cases h
    exact Nat.le_refl _
  · split at h
    · exact Nat.le_of_lt (length_rest_lt_of_cutString h)
    · split at h
      · exact length_rest_le_of_cutWord h
      · cases h

/-- The tokens of a list of characters that starts at the given position. -/
def scanFrom (position : Position) : List Char → Except Error (List Token)
  | [] => .ok []
  | c :: rest =>
    if isLayout c then
      scanFrom (position.next c) rest
    else if c = '/' ∧ rest.head? = some '/' then
      scanFrom ((position.next c).after (rest.takeWhile (· ≠ '\n'))) (rest.dropWhile (· ≠ '\n'))
    else
      match h : cut position c rest with
      | .error error => .error error
      | .ok piece => do
        have := length_rest_le_of_cut h
        let tokens ← scanFrom piece.stop piece.rest
        return piece.token :: tokens
termination_by cs => cs.length
decreasing_by
  · simp
  · have := length_dropWhile_le (· ≠ '\n') rest
    simp only [List.length_cons]
    omega
  · simp only [List.length_cons]
    omega

/-- The tokens of a text. -/
def scan (source : String) : Except Error (List Token) :=
  scanFrom {} source.toList

end Scripting.Token
