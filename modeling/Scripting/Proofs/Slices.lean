import Scripting.Proofs.Defects

/-!
# Cutting a text by bytes

The scanner has the rest of the text in its hands and never asks for a part of the text by number.
Here the text is cut in another way: characters are read one after another, each with the byte at
which it starts, and words and comments are looked up in the whole text as the parts between two
bytes. That can go wrong in two ways, since a byte may lie outside the text or inside a character.
`Text.splitAt?` has no result then, and neither has anything that depends on it.

Main statement: it never goes wrong, and gives the tokens and errors that the scanner gives
(`Token.scanBytes_eq`).
-/

namespace Scripting

/-! ## Parts of a text -/

namespace Text

/-- What stands before a byte and from it on, if a character starts there or the text ends there. -/
def splitAt? : List Char → Nat → Option (List Char × List Char)
  | [], n => if n = 0 then some ([], []) else none
  | c :: cs, n =>
    if n = 0 then some ([], c :: cs)
    else if c.utf8Size ≤ n then (splitAt? cs (n - c.utf8Size)).map (Prod.map (c :: ·) id)
    else none

theorem splitAt?_eq_some_iff {cs before after : List Char} {n : Nat} :
    splitAt? cs n = some (before, after) ↔ cs = before ++ after ∧ String.utf8Len before = n := by
  induction cs generalizing before n with
  | nil =>
    rw [splitAt?, List.nil_eq, List.append_eq_nil_iff]
    constructor
    · intro h
      split at h
      · next hn =>
        cases h
        exact ⟨⟨rfl, rfl⟩, hn.symm⟩
      · cases h
    · rintro ⟨⟨rfl, rfl⟩, rfl⟩
      rfl
  | cons c cs ih =>
    have hsize := c.utf8Size_pos
    rw [splitAt?]
    constructor
    · intro h
      split at h
      · next hn =>
        cases h
        exact ⟨rfl, hn.symm⟩
      · split at h
        · next hle =>
          obtain ⟨⟨first, rest⟩, hrest, hpair⟩ := Option.map_eq_some_iff.mp h
          cases hpair
          obtain ⟨rfl, hlen⟩ := ih.mp hrest
          refine ⟨rfl, ?_⟩
          show String.utf8Len (c :: first) = n
          rw [String.utf8Len_cons, hlen]
          omega
        · cases h
    · rintro ⟨hsplit, rfl⟩
      cases before with
      | nil =>
        rw [List.nil_append] at hsplit
        rw [if_pos String.utf8Len_nil, ← hsplit]
      | cons d before =>
        obtain ⟨rfl, rfl⟩ := List.cons.inj hsplit
        have hrest := ih.mpr ⟨rfl, rfl⟩
        rw [String.utf8Len_cons, if_neg (by omega), if_pos (by omega), Nat.add_sub_cancel, hrest]
        rfl

/-- The text from a byte on. -/
def sliceFrom? (text : String) (start : Nat) : Option (List Char) :=
  (splitAt? text.toList start).map Prod.snd

/-- The text between two bytes. -/
def slice? (text : String) (start stop : Nat) : Option (List Char) := do
  let rest ← sliceFrom? text start
  if start ≤ stop then (splitAt? rest (stop - start)).map Prod.fst else none

section Slices

variable {text : String} {before middle after : List Char}

theorem sliceFrom?_eq (h : text.toList = before ++ after) :
    sliceFrom? text (String.utf8Len before) = some after := by
  rw [sliceFrom?, splitAt?_eq_some_iff.mpr ⟨h, rfl⟩]
  rfl

theorem slice?_eq (h : text.toList = before ++ (middle ++ after)) :
    slice? text (String.utf8Len before) (String.utf8Len before + String.utf8Len middle) =
      some middle := by
  have hmiddle : splitAt? (middle ++ after) (String.utf8Len middle) = some (middle, after) :=
    splitAt?_eq_some_iff.mpr ⟨rfl, rfl⟩
  unfold slice?
  rw [sliceFrom?_eq h]
  simp [hmiddle]

end Slices

end Text

namespace Token

/-! ## Reading characters -/

/-- The characters ahead, each with the byte at which it starts, and the place up to which the text
has been read. -/
structure Reader where
  ahead : List (Nat × Char)
  place : Position

namespace Reader

/-- The place behind a character that starts at the given byte. -/
def past (place : Position) (start : Nat) (c : Char) : Position :=
  { place.next c with offset := start + c.utf8Size }

/-- Read one character. -/
def advance? (reader : Reader) : Option (Char × Reader) :=
  match reader.ahead with
  | [] => none
  | (start, c) :: ahead => some (c, { ahead, place := past reader.place start c })

/-- Read characters as long as they have a property. -/
def advanceWhile (p : Char → Bool) : List (Nat × Char) → Position → Reader
  | [], place => { ahead := [], place }
  | (start, c) :: ahead, place =>
    if p c then advanceWhile p ahead (past place start c)
    else { ahead := (start, c) :: ahead, place }

theorem length_advanceWhile_le (p : Char → Bool) (ahead : List (Nat × Char)) (place : Position) :
    (advanceWhile p ahead place).ahead.length ≤ ahead.length := by
  induction ahead generalizing place with
  | nil => exact Nat.le_refl _
  | cons first ahead ih =>
    rw [advanceWhile]
    split
    · exact Nat.le_succ_of_le (ih _)
    · exact Nat.le_refl _

theorem length_advanceWhile_lt {p : Char → Bool} {c : Char} (hc : p c) (start : Nat)
    (ahead : List (Nat × Char)) (place : Position) :
    (advanceWhile p ((start, c) :: ahead) place).ahead.length < ahead.length + 1 := by
  rw [advanceWhile, if_pos hc]
  exact Nat.lt_succ_of_le (length_advanceWhile_le p ahead _)

/-- Read over blanks and comments. Whether there is a comment is looked up in the text. -/
def skip (source : String) (reader : Reader) : Option Reader :=
  match h : reader.ahead with
  | [] => some reader
  | (start, c) :: ahead =>
    if isLayout c then
      have : ahead.length < reader.ahead.length := by simp [h]
      skip source { ahead, place := past reader.place start c }
    else if hslash : c = '/' then do
      let rest ← Text.sliceFrom? source start
      if rest.take 2 = ['/', '/'] then
        have : (advanceWhile (· ≠ '\n') reader.ahead reader.place).ahead.length <
            reader.ahead.length := by
          rw [h]
          exact length_advanceWhile_lt (by simp [hslash]) _ _ _
        skip source (advanceWhile (· ≠ '\n') reader.ahead reader.place)
      else return reader
    else return reader
termination_by reader.ahead.length
decreasing_by all_goals assumption

/-- Read up to the given quote, behind it. If there is none, the place at the end of the text is
given. -/
def close (quote : Char) (inside : List Char) :
    List (Nat × Char) → Position → Except Position (List Char × Reader)
  | [], place => .error place
  | (start, c) :: ahead, place =>
    if c = quote then .ok (inside, { ahead, place := past place start c })
    else close quote (inside ++ [c]) ahead (past place start c)

/-- The place of what has been read from a byte on. -/
def since (start : Nat) (first last : Position) : Span :=
  { start, stop := last.offset, line := first.line, column := first.column }

/-- The token that has been read from a byte on. -/
def token (start : Nat) (kind : TokenKind) (lexeme : String) (first last : Position) : Token :=
  { kind, lexeme, span := since start first last }

/-- Read the token that starts with the character ahead. A word is looked up in the text. -/
def cut (source : String) (reader : Reader) (start : Nat) (c : Char) :
    Option (Except Error (Token × Reader)) :=
  match TokenKind.ofPunctuation? c with
  | some kind => do
    let (mark, after) ← reader.advance?
    return .ok (token start kind mark.toString reader.place after.place, after)
  | none =>
    if isQuote c then do
      let (quote, opened) ← reader.advance?
      match close quote [] opened.ahead opened.place with
      | .ok (inside, after) =>
        return .ok (token start .string (String.ofList inside) reader.place after.place, after)
      | .error stop =>
        return .error (.locate .unterminatedString (since reader.place.offset reader.place stop))
    else if isWordChar c then do
      let after := advanceWhile isWordChar reader.ahead reader.place
      let word ← Text.slice? source reader.place.offset after.place.offset
      match wordKind? word with
      | some kind =>
        return .ok (token start kind (String.ofList word) reader.place after.place, after)
      | none =>
        return .error (.locate (.invalidIdentifier (String.ofList word))
          (since reader.place.offset reader.place after.place))
    else
      return .error (.locate (.unexpectedCharacter c)
        { since start reader.place reader.place with stop := start + c.utf8Size })

/-- Read tokens up to the end of the text, at most `count` of them. -/
def scan (source : String) : (count : Nat) → Reader → Option (Except Error (List Token))
  | 0, _ => none
  | count + 1, reader => do
    let reader ← skip source reader
    match reader.ahead with
    | [] => return .ok []
    | (start, c) :: _ =>
      match ← cut source reader start c with
      | .error error => return .error error
      | .ok (token, reader) => return (← scan source count reader).map (token :: ·)

/-- The characters, each with the byte at which it starts. -/
def enumerate (start : Nat) : List Char → List (Nat × Char)
  | [] => []
  | c :: cs => (start, c) :: enumerate (start + c.utf8Size) cs

end Reader

/-- The tokens of a text, which is cut by bytes. There is no result if a byte is asked for at which
no character starts. Each token has a character at least, so there are no more of them than
characters. -/
def scanBytes (source : String) : Option (Except Error (List Token)) :=
  Reader.scan source (source.toList.length + 1)
    { ahead := Reader.enumerate 0 source.toList, place := {} }

/-! ## The two ways agree -/

namespace Reader

/-- The reader that has the given characters ahead. -/
def facing (place : Position) (cs : List Char) : Reader :=
  { ahead := enumerate place.offset cs, place }

theorem past_offset (place : Position) (c : Char) : past place place.offset c = place.next c := by
  unfold past Position.next
  split <;> rfl

theorem offset_next (place : Position) (c : Char) :
    (place.next c).offset = place.offset + c.utf8Size := by
  unfold Position.next
  split <;> rfl

theorem enumerate_cons (place : Position) (c : Char) (cs : List Char) :
    enumerate place.offset (c :: cs) =
      (place.offset, c) :: enumerate (place.next c).offset cs := by
  rw [enumerate, offset_next]

theorem advance?_facing (place : Position) (c : Char) (cs : List Char) :
    (facing place (c :: cs)).advance? = some (c, facing (place.next c) cs) := by
  rw [advance?, facing, enumerate_cons]
  dsimp only
  rw [past_offset]
  rfl

theorem advanceWhile_facing (p : Char → Bool) (place : Position) (cs : List Char) :
    advanceWhile p (enumerate place.offset cs) place =
      facing (place.after (cs.takeWhile p)) (cs.dropWhile p) := by
  induction cs generalizing place with
  | nil => rfl
  | cons c cs ih =>
    rw [enumerate_cons, advanceWhile, List.takeWhile_cons, List.dropWhile_cons]
    split
    · rw [past_offset, ih, Position.after_cons]
    · rw [← enumerate_cons]
      rfl

theorem close_facing (quote : Char) (inside : List Char) (place : Position) (cs : List Char) :
    close quote inside (enumerate place.offset cs) place =
      match cs.dropWhile (· ≠ quote) with
      | [] => .error (place.after (cs.takeWhile (· ≠ quote)))
      | last :: rest => .ok (inside ++ cs.takeWhile (· ≠ quote),
          facing ((place.after (cs.takeWhile (· ≠ quote))).next last) rest) := by
  induction cs generalizing place inside with
  | nil => rfl
  | cons c cs ih =>
    rw [enumerate_cons, close, List.takeWhile_cons, List.dropWhile_cons, past_offset]
    by_cases hc : c = quote
    · simp [hc, facing]
    · rw [if_neg hc, ih]
      simp [hc]

section Agree

variable {source : String} {before : List Char} {place : Position} {c : Char} {rest : List Char}

theorem skip_layout (hlayout : isLayout c) :
    skip source (facing place (c :: rest)) = skip source (facing (place.next c) rest) := by
  rw [facing, enumerate_cons, skip]
  dsimp only
  rw [if_pos hlayout, past_offset]
  rfl

theorem sliceFrom?_facing {cs : List Char} (hsource : source.toList = before ++ cs)
    (hplace : place.offset = String.utf8Len before) :
    Text.sliceFrom? source place.offset = some cs := by
  rw [hplace]
  exact Text.sliceFrom?_eq hsource

theorem skip_comment (hlayout : ¬ isLayout c) (hcomment : c = '/' ∧ rest.head? = some '/')
    (hsource : source.toList = before ++ c :: rest)
    (hplace : place.offset = String.utf8Len before) :
    skip source (facing place (c :: rest)) =
      skip source (facing ((place.next c).after (rest.takeWhile (· ≠ '\n')))
        (rest.dropWhile (· ≠ '\n'))) := by
  obtain ⟨rfl, hnext⟩ := hcomment
  obtain ⟨tail, rfl⟩ := List.head?_eq_some_iff.mp hnext
  rw [facing, enumerate_cons, skip]
  dsimp only
  rw [if_neg hlayout, dif_pos rfl, sliceFrom?_facing hsource hplace,
    Option.bind_eq_bind, Option.bind_some, if_pos (by rfl), ← enumerate_cons, advanceWhile_facing]
  rfl

theorem skip_neither (hlayout : ¬ isLayout c) (hcomment : ¬ (c = '/' ∧ rest.head? = some '/'))
    (hsource : source.toList = before ++ c :: rest)
    (hplace : place.offset = String.utf8Len before) :
    skip source (facing place (c :: rest)) = some (facing place (c :: rest)) := by
  rw [facing, enumerate_cons, skip]
  dsimp only
  rw [if_neg hlayout]
  split
  · next hslash =>
    rw [sliceFrom?_facing hsource hplace, Option.bind_eq_bind, Option.bind_some, if_neg]
    · rfl
    · intro htwo
      refine hcomment ⟨hslash, ?_⟩
      cases rest with
      | nil => cases htwo
      | cons d rest => exact congrArg some (List.cons.inj (List.cons.inj htwo).2).1
  · rfl

theorem place_append (hplace : place.offset = String.utf8Len before) (read : List Char) :
    (place.after read).offset = String.utf8Len (before ++ read) := by
  rw [Position.offset_after, hplace, String.utf8Len_append]

/-- Reading over blanks and comments leaves what the scanner still has to cut. The induction is on
the length of the text, since a comment is read over at once. -/
theorem skip_facing {cs : List Char} (hsource : source.toList = before ++ cs)
    (hplace : place.offset = String.utf8Len before) :
    ∃ gap left, cs = gap ++ left ∧
      skip source (facing place cs) = some (facing (place.after gap) left) ∧
      scanFrom place cs = scanFrom (place.after gap) left ∧
      ∀ c tail, left = c :: tail → ¬ isLayout c ∧ ¬ (c = '/' ∧ tail.head? = some '/') := by
  induction hlength : cs.length using Nat.strong_induction_on generalizing before place cs with
  | _ length ih =>
    subst hlength
    cases cs with
    | nil =>
      refine ⟨[], [], rfl, ?_, rfl, by simp⟩
      rw [skip]
      rfl
    | cons c rest =>
      by_cases hlayout : isLayout c
      · obtain ⟨gap, left, hrest, hskip, hscan, hleft⟩ :=
          ih rest.length (Nat.lt_succ_self _) (by rw [hsource, List.append_cons])
            (place_append hplace [c]) rfl
        refine ⟨c :: gap, left, by rw [hrest, List.cons_append], ?_, ?_, hleft⟩
        · rw [skip_layout hlayout]
          exact hskip
        · rw [scanFrom, if_pos hlayout]
          exact hscan
      by_cases hcomment : c = '/' ∧ rest.head? = some '/'
      · -- the comment goes up to the line feed, which is read over next
        have hsplit : c :: rest =
            (c :: rest.takeWhile (· ≠ '\n')) ++ rest.dropWhile (· ≠ '\n') := by
          rw [List.cons_append, List.takeWhile_append_dropWhile]
        obtain ⟨gap, left, hrest, hskip, hscan, hleft⟩ :=
          ih _ (Nat.lt_succ_of_le (length_dropWhile_le (· ≠ '\n') rest))
            (by rw [hsource, hsplit, ← List.append_assoc])
            (place_append hplace (c :: rest.takeWhile (· ≠ '\n'))) rfl
        refine ⟨(c :: rest.takeWhile (· ≠ '\n')) ++ gap, left, ?_, ?_, ?_, hleft⟩
        · rw [List.append_assoc, ← hrest, ← hsplit]
        · rw [skip_comment hlayout hcomment hsource hplace, Position.after_append]
          exact hskip
        · rw [scanFrom, if_neg hlayout, if_pos hcomment, Position.after_append]
          exact hscan
      · refine ⟨[], c :: rest, rfl, skip_neither hlayout hcomment hsource hplace, rfl, ?_⟩
        rintro _ _ ⟨⟩
        exact ⟨hlayout, hcomment⟩

theorem slice?_facing {middle after : List Char}
    (hsource : source.toList = before ++ (middle ++ after))
    (hplace : place.offset = String.utf8Len before) :
    Text.slice? source place.offset (place.after middle).offset = some middle := by
  rw [Position.offset_after, hplace]
  exact Text.slice?_eq hsource

theorem cut_facing (hsource : source.toList = before ++ c :: rest)
    (hplace : place.offset = String.utf8Len before) :
    cut source (facing place (c :: rest)) place.offset c =
      some ((Token.cut place c rest).map fun piece =>
        (piece.token, facing piece.stop piece.rest)) := by
  unfold cut Token.cut
  cases TokenKind.ofPunctuation? c with
  | some kind =>
    dsimp only
    rw [advance?_facing]
    rfl
  | none =>
    dsimp only
    by_cases hquote : isQuote c
    · rw [if_pos hquote, if_pos hquote, advance?_facing, Option.bind_eq_bind, Option.bind_some]
      dsimp only [facing]
      rw [close_facing, cutString]
      dsimp only
      cases rest.dropWhile (· ≠ c) <;> rfl
    by_cases hword : isWordChar c
    · -- the word that is looked up is the run of word characters
      rw [if_neg hquote, if_neg hquote, if_pos hword, if_pos hword]
      have hsplit : c :: rest = (c :: rest.takeWhile isWordChar) ++ rest.dropWhile isWordChar := by
        rw [List.cons_append, List.takeWhile_append_dropWhile]
      have hslice := slice?_facing (hsplit ▸ hsource) hplace
      dsimp only [facing]
      rw [advanceWhile_facing, List.takeWhile_cons_of_pos hword, List.dropWhile_cons_of_pos hword]
      dsimp only [facing]
      rw [hslice, cutWord, Option.bind_eq_bind, Option.bind_some]
      cases wordKind? (c :: rest.takeWhile isWordChar) <;> rfl
    · rw [if_neg hquote, if_neg hquote, if_neg hword, if_neg hword]
      have hnext := offset_next place c
      simp only [Position.upTo, since, facing, hnext]
      rfl

theorem scan_facing {cs : List Char} {count : Nat} (hsource : source.toList = before ++ cs)
    (hplace : place.offset = String.utf8Len before) (hcount : cs.length < count) :
    scan source count (facing place cs) = some (scanFrom place cs) := by
  induction count generalizing before place cs with
  | zero => exact absurd hcount (Nat.not_lt_zero _)
  | succ count ih =>
    obtain ⟨gap, left, rfl, hskip, hscan, hleft⟩ := skip_facing hsource hplace
    rw [scan, hskip, hscan, Option.bind_eq_bind, Option.bind_some]
    rw [← List.append_assoc] at hsource
    have hplace := place_append hplace gap
    cases left with
    | nil =>
      rw [scanFrom]
      rfl
    | cons c rest =>
      obtain ⟨hlayout, hcomment⟩ := hleft c rest rfl
      have hcut := cut_facing hsource hplace
      dsimp only [facing, enumerate] at hcut ⊢
      rw [hcut]
      cases hpiece : Token.cut (place.after gap) c rest with
      | error error =>
        rw [scanFrom_of_cut_error hlayout hcomment hpiece]
        rfl
      | ok piece =>
        -- the reader faces what is behind the token, which is less text
        obtain ⟨kind, lexeme, text, htext, -, -, -, hstop⟩ := shows_of_cut hpiece
        rw [htext, ← List.append_assoc] at hsource
        have hrest := ih hsource (hstop ▸ place_append hplace text) (by
          have hle := length_rest_le_of_cut hpiece
          simp only [List.length_append, List.length_cons] at hcount
          omega)
        rw [scanFrom_cons_of_cut hlayout hcomment hpiece]
        show (do
          let tokens ← scan source count (facing piece.stop piece.rest)
          return tokens.map (piece.token :: ·)) =
          some ((scanFrom piece.stop piece.rest).map (piece.token :: ·))
        rw [hrest]
        rfl

end Agree

end Reader

/-- Cutting a text by bytes never asks for a byte outside the text or inside a character, and gives
what the scanner gives. -/
theorem scanBytes_eq (source : String) : scanBytes source = some (Token.scan source) := by
  have hstart : ({} : Position).offset = String.utf8Len [] := rfl
  exact Reader.scan_facing (List.nil_append _).symm hstart (Nat.lt_succ_self _)

end Token

end Scripting
