import Mathlib.Data.String.Basic
import Scripting.Proofs.WellFormed

/-!
# Texts behind other texts

A text that stands behind other text, at the start of a line, has the tokens that it has on its own,
or else the error. Only their places differ, by the bytes and the lines of what comes before
(`Token.scanFrom_move`). And a text followed by a line feed is cut as it is on its own, whatever comes
next: a line feed belongs to no word, ends a comment, and stands in a string only if the string is
closed later (`Token.scanFrom_append`).

Main statement: a text that can be cut, a line feed and another text are cut one after the other,
whether or not the other text can be cut (`Token.scan_line`).
-/

namespace Scripting

/-- How much text stands before a text that starts a line. -/
structure Displacement where
  bytes : Nat := 0
  lines : Nat := 0
  deriving DecidableEq

/-- The displacement of the text that is separated from a text by a line feed. -/
def Displacement.past (d : Displacement) (text : String) : Displacement where
  bytes := d.bytes + text.utf8ByteSize + 1
  lines := d.lines + text.toList.count '\n' + 1

/-! ## Places -/

/-- The same stretch, of the text with other text before it. Columns do not change. -/
def Span.move (span : Span) (d : Displacement) : Span where
  start := span.start + d.bytes
  stop := span.stop + d.bytes
  line := span.line + d.lines
  column := span.column

namespace Position

/-- The same place, of the text with other text before it. -/
def move (position : Position) (d : Displacement) : Position where
  offset := position.offset + d.bytes
  line := position.line + d.lines
  column := position.column

theorem next_move (position : Position) (d : Displacement) (c : Char) :
    (position.move d).next c = (position.next c).move d := by
  unfold next move
  split <;> simp only [Position.mk.injEq, and_true] <;> omega

theorem after_move (position : Position) (d : Displacement) (cs : List Char) :
    (position.move d).after cs = (position.after cs).move d := by
  induction cs generalizing position with
  | nil => rfl
  | cons c cs ih => rw [after_cons, after_cons, next_move, ih]

theorem offset_after (position : Position) (cs : List Char) :
    (position.after cs).offset = position.offset + String.utf8Len cs := by
  induction cs generalizing position with
  | nil => rfl
  | cons c cs ih =>
    have hnext : (position.next c).offset = position.offset + c.utf8Size := by
      unfold next
      split <;> rfl
    rw [after_cons, ih, hnext, String.utf8Len_cons]
    omega

theorem line_after (position : Position) (cs : List Char) :
    (position.after cs).line = position.line + cs.count '\n' := by
  induction cs generalizing position with
  | nil => rfl
  | cons c cs ih =>
    rw [after_cons, ih, List.count_cons]
    unfold next
    by_cases hc : c = '\n'
    · simp [hc]
      omega
    · simp [hc]

/-- Behind a text and a line feed there is the displacement past the text. -/
theorem next_after_move (d : Displacement) (text : String) :
    ((({} : Position).move d).after text.toList).next '\n' =
      ({} : Position).move (d.past text) := by
  have hoffset := offset_after (({} : Position).move d) text.toList
  have hline := line_after (({} : Position).move d) text.toList
  rw [String.utf8Len_toList] at hoffset
  generalize (({} : Position).move d).after text.toList = last at hoffset hline ⊢
  simp only [next, if_pos, move, Displacement.past, Position.mk.injEq, and_true] at hoffset hline ⊢
  have hsize : '\n'.utf8Size = 1 := rfl
  omega

end Position

/-- The same error, of the text with other text before it. -/
def Error.move (error : Error) (d : Displacement) : Error :=
  { error with span := error.span.map (·.move d) }

namespace Token

/-- The same token, of the text with other text before it. -/
def move (token : Token) (d : Displacement) : Token :=
  { token with span := token.span.move d }

theorem scanFrom_cons_of_cut {position : Position} {c : Char} {rest : List Char} {piece : Piece}
    (hlayout : ¬isLayout c) (hcomment : ¬(c = '/' ∧ rest.head? = some '/'))
    (hcut : cut position c rest = .ok piece) :
    scanFrom position (c :: rest) = (scanFrom piece.stop piece.rest).map (piece.token :: ·) := by
  rw [scanFrom, if_neg hlayout, if_neg hcomment]
  split
  · next error herror => cases hcut.symm.trans herror
  · next found hfound =>
    cases hcut.symm.trans hfound
    cases scanFrom piece.stop piece.rest <;> rfl

theorem scanFrom_of_cut_error {position : Position} {c : Char} {rest : List Char} {e : Error}
    (hlayout : ¬ isLayout c) (hcomment : ¬ (c = '/' ∧ rest.head? = some '/'))
    (hcut : cut position c rest = .error e) : scanFrom position (c :: rest) = .error e := by
  rw [scanFrom, if_neg hlayout, if_neg hcomment]
  split
  · next error herror =>
    cases herror.symm.trans hcut
    rfl
  · next piece hpiece => cases hcut.symm.trans hpiece

/-! ## Text before -/

/-- What is cut from the same characters with other text before them. -/
def Piece.move (piece : Piece) (d : Displacement) : Piece where
  token := piece.token.move d
  stop := piece.stop.move d
  rest := piece.rest

theorem cutString_move (position : Position) (d : Displacement) (quote : Char) (rest : List Char) :
    cutString (position.move d) quote rest =
      ((cutString position quote rest).map (·.move d)).mapError (·.move d) := by
  unfold cutString
  dsimp only
  rw [Position.next_move, Position.after_move]
  split
  · rfl
  · rw [Position.next_move]
    rfl

theorem cutWord_move (position : Position) (d : Displacement) (c : Char) (rest : List Char) :
    cutWord (position.move d) c rest =
      ((cutWord position c rest).map (·.move d)).mapError (·.move d) := by
  unfold cutWord
  dsimp only
  rw [Position.after_move]
  split <;> rfl

theorem cut_move (position : Position) (d : Displacement) (c : Char) (rest : List Char) :
    cut (position.move d) c rest =
      ((cut position c rest).map (·.move d)).mapError (·.move d) := by
  unfold cut
  split
  · rw [Position.next_move]
    rfl
  · split
    · exact cutString_move position d c rest
    · split
      · exact cutWord_move position d c rest
      · rw [Position.next_move]
        rfl

/-- With other text before it, a text has the same tokens, or else the same error, at the places
behind that text. -/
theorem scanFrom_move (position : Position) (d : Displacement) (cs : List Char) :
    scanFrom (position.move d) cs =
      ((scanFrom position cs).map (List.map (·.move d))).mapError (·.move d) := by
  fun_induction scanFrom position cs with
  | case1 =>
    rw [scanFrom]
    rfl
  | case2 position c rest hlayout ih =>
    rw [scanFrom, if_pos hlayout, Position.next_move]
    exact ih
  | case3 position c rest hlayout hcomment ih =>
    rw [scanFrom, if_neg hlayout, if_pos hcomment, Position.next_move, Position.after_move]
    exact ih
  | case4 position c rest hlayout hcomment error hcut =>
    refine scanFrom_of_cut_error hlayout hcomment ?_
    rw [cut_move, hcut]
    rfl
  | case5 position c rest hlayout hcomment piece hcut _ ih =>
    have hmoved : cut (position.move d) c rest = .ok (piece.move d) := by
      rw [cut_move, hcut]
      rfl
    have hrest : scanFrom (piece.move d).stop (piece.move d).rest = _ := ih
    rw [scanFrom_cons_of_cut hlayout hcomment hmoved, hrest]
    cases scanFrom piece.stop piece.rest <;> rfl

/-! ## Text after -/

theorem takeWhile_append_cons {α : Type} {p : α → Bool} {y : α} (hy : p y = false)
    (xs ys : List α) :
    (xs ++ y :: ys).takeWhile p = xs.takeWhile p := by
  induction xs with
  | nil => simp [hy]
  | cons x xs ih =>
    rw [List.cons_append, List.takeWhile_cons, List.takeWhile_cons, ih]

theorem dropWhile_append_cons {α : Type} {p : α → Bool} {y : α} (hy : p y = false)
    (xs ys : List α) :
    (xs ++ y :: ys).dropWhile p = xs.dropWhile p ++ y :: ys := by
  induction xs with
  | nil => simp [hy]
  | cons x xs ih =>
    rw [List.cons_append, List.dropWhile_cons, List.dropWhile_cons, ih]
    split <;> rfl

/-- A string that is closed ends where it ends, whatever comes after it. -/
theorem cutString_append {position : Position} {quote : Char} {rest : List Char} {piece : Piece}
    (h : cutString position quote rest = .ok piece) (more : List Char) :
    cutString position quote (rest ++ more) = .ok { piece with rest := piece.rest ++ more } := by
  unfold cutString at h ⊢
  dsimp only at h ⊢
  split at h
  · cases h
  · next close tail hclose =>
    cases h
    have hlength : (rest.takeWhile (· ≠ quote)).length ≠ rest.length := by
      have hrest := List.takeWhile_append_dropWhile (p := (decide <| · ≠ quote)) (l := rest)
      rw [hclose] at hrest
      have := congrArg List.length hrest
      simp only [List.length_append, List.length_cons] at this
      omega
    rw [List.takeWhile_append, if_neg hlength, List.dropWhile_append, hclose]
    rfl

/-- What is cut before a line feed does not depend on what comes after it. -/
theorem cut_append {position : Position} {c : Char} {rest : List Char} {piece : Piece}
    (h : cut position c rest = .ok piece) (more : List Char) :
    cut position c (rest ++ '\n' :: more) =
      .ok { piece with rest := piece.rest ++ '\n' :: more } := by
  unfold cut at h ⊢
  split at h
  · cases h
    rfl
  · split at h
    · next hquote =>
      rw [if_pos hquote]
      exact cutString_append h _
    · next hquote =>
      rw [if_neg hquote]
      split at h
      · next hword =>
        have hfeed : isWordChar '\n' = false := by decide
        rw [if_pos hword]
        unfold cutWord at h ⊢
        dsimp only at h ⊢
        rw [takeWhile_append_cons hfeed, dropWhile_append_cons hfeed]
        split at h
        · cases h
          rfl
        · cases h
      · cases h

/-- A token and what is left after it make up the characters that it is cut from. -/
theorem after_of_cut {position : Position} {c : Char} {rest : List Char} {piece : Piece}
    (h : cut position c rest = .ok piece) :
    piece.stop.after piece.rest = position.after (c :: rest) := by
  unfold cut at h
  split at h
  · cases h
    rfl
  · split at h
    · unfold cutString at h
      dsimp only at h
      split at h
      · cases h
      · next close tail hclose =>
        cases h
        rw [← Position.after_cons, ← hclose, ← Position.after_append,
          List.takeWhile_append_dropWhile, Position.after_cons]
    · split at h
      · unfold cutWord at h
        dsimp only at h
        split at h
        · cases h
          rw [← Position.after_append, List.cons_append, List.takeWhile_append_dropWhile]
        · cases h
      · cases h

theorem head?_append_eq_slash_iff (rest more : List Char) :
    (rest ++ '\n' :: more).head? = some '/' ↔ rest.head? = some '/' := by
  cases rest with
  | nil => simp
  | cons c rest => rfl

/-- A text followed by a line feed has its own tokens, and then those of the text after it. -/
theorem scanFrom_append {position : Position} {cs : List Char} {tokens : List Token}
    (h : scanFrom position cs = .ok tokens) (more : List Char) :
    scanFrom position (cs ++ '\n' :: more) =
      (scanFrom ((position.after cs).next '\n') more).map (tokens ++ ·) := by
  fun_induction scanFrom position cs generalizing tokens with
  | case1 position =>
    cases h
    have hfeed : isLayout '\n' := by decide
    rw [List.nil_append, scanFrom, if_pos hfeed, Position.after_nil]
    cases scanFrom (position.next '\n') more <;> rfl
  | case2 position c rest hlayout ih =>
    rw [List.cons_append, scanFrom, if_pos hlayout]
    exact ih h
  | case3 position c rest hlayout hcomment ih =>
    have hfeed : (fun x => decide (x ≠ '\n')) '\n' = false := by decide
    rw [← head?_append_eq_slash_iff rest more] at hcomment
    rw [List.cons_append, scanFrom, if_neg hlayout, if_pos hcomment,
      takeWhile_append_cons (p := (decide <| · ≠ '\n')) hfeed,
      dropWhile_append_cons (p := (decide <| · ≠ '\n')) hfeed, ih h, ← Position.after_append,
      List.takeWhile_append_dropWhile]
    rfl
  | case4 => cases h
  | case5 position c rest hlayout hcomment piece hcut _ ih =>
    obtain ⟨inner, hinner, h⟩ := exists_of_bind_eq_ok h
    cases h
    rw [← head?_append_eq_slash_iff rest more] at hcomment
    rw [List.cons_append, scanFrom_cons_of_cut hlayout hcomment (cut_append hcut more), ih hinner,
      after_of_cut hcut]
    cases scanFrom ((position.after (c :: rest)).next '\n') more <;> rfl

/-- The tokens of a text at the start of a line, and of what follows it on the next line. -/
theorem scanFrom_line {text : String} {tokens : List Token} (h : scan text = .ok tokens)
    (d : Displacement) (more : List Char) :
    scanFrom (({} : Position).move d) (text.toList ++ '\n' :: more) =
      (scanFrom (({} : Position).move (d.past text)) more).map (tokens.map (·.move d) ++ ·) := by
  have hmoved : scanFrom (({} : Position).move d) text.toList = .ok (tokens.map (·.move d)) := by
    rw [scanFrom_move, show scanFrom {} text.toList = .ok tokens from h]
    rfl
  rw [scanFrom_append hmoved, Position.next_after_move]

/-- Two texts that are put one behind the other with a line feed between them are cut one by one.

If the first can be cut, then so can both if and only if the second can. The tokens are those of the
first and then those of the second, at the places that they have behind the first and the line feed;
the error is that of the second, at its place there. So nothing of the first text reaches into the
second: no word, no comment, no open string, and no count of bytes, lines or columns but through the
displacement. -/
theorem scan_line {first : String} {tokens : List Token} (h : scan first = .ok tokens)
    (second : String) :
    let d : Displacement :=
      { bytes := first.utf8ByteSize + 1, lines := first.toList.count '\n' + 1 }
    (∀ others, scan second = .ok others →
      scan (first ++ "\n" ++ second) = .ok (tokens ++ others.map (·.move d))) ∧
    ∀ error, scan second = .error error →
      scan (first ++ "\n" ++ second) = .error (error.move d) := by
  intro d
  have hplace : (({} : Position).after first.toList).next '\n' = ({} : Position).move d := by
    have hpast : ({} : Displacement).past first = d := by
      simp only [Displacement.past, d, Nat.zero_add]
    rw [← hpast]
    exact Position.next_after_move {} first
  have hboth : scan (first ++ "\n" ++ second) =
      (((scan second).map (List.map (·.move d))).mapError (·.move d)).map (tokens ++ ·) := by
    have hline := scanFrom_append h second.toList
    rw [hplace, scanFrom_move] at hline
    rw [scan, String.toList_append, String.toList_append, List.append_assoc]
    exact hline
  constructor
  · intro others hothers
    rw [hboth, hothers]
    rfl
  · intro error herror
    rw [hboth, herror]
    rfl

/-- Text that ends in a comment with a quote, behind a string of two lines. -/
def commentedText : String := "x = 'ä\n' // \""

theorem scan_line_commented :
    (∃ tokens, scan commentedText = .ok tokens ∧
      scan (commentedText ++ "\n" ++ "y: 2") = .ok (tokens ++
        [{ kind := .identifier, lexeme := "y", span := ⟨15, 16, 3, 1⟩ },
          { kind := .colon, lexeme := ":", span := ⟨16, 17, 3, 2⟩ },
          { kind := .number, lexeme := "2", span := ⟨18, 19, 3, 4⟩ }])) ∧
    scan (commentedText ++ "\n" ++ "\n 9z\"") =
      .error (.locate (.invalidIdentifier "9z") ⟨17, 19, 4, 2⟩) := by
  have hfirst : (scan commentedText).toOption.isSome := by decide +kernel
  obtain ⟨tokens, htokens⟩ := Option.isSome_iff_exists.mp hfirst
  have hok := eq_ok_of_toOption htokens
  have hsecond : scan "y: 2" = .ok
      [{ kind := .identifier, lexeme := "y", span := ⟨0, 1, 1, 1⟩ },
        { kind := .colon, lexeme := ":", span := ⟨1, 2, 1, 2⟩ },
        { kind := .number, lexeme := "2", span := ⟨3, 4, 1, 4⟩ }] := by decide +kernel
  have hbad : scan "\n 9z\"" = .error (.locate (.invalidIdentifier "9z") ⟨2, 4, 2, 2⟩) := by
    decide +kernel
  exact ⟨⟨tokens, hok, (scan_line hok _).1 _ hsecond⟩, (scan_line hok _).2 _ hbad⟩

end Token

end Scripting
