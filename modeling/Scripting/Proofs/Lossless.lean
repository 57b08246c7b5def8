import Scripting.Proofs.Printing
import Scripting.Proofs.Rendering

/-!
# A text and its tokens

That a text is cut into some tokens if and only if it renders them is read here in both directions.

From left to right, nothing of the text is lost (`lossless_of_scan`). Each token has the very
stretch of text that its span marks, with the line and the column counted from the text before it,
and what lies outside the spans is layout.

From right to left, layout does not matter (`scan_render`). Tokens may be written with any layout
around them, as long as two words do not touch, and are found again.
-/

namespace Scripting

/-! ## Places, counted from the text before them -/

/-- The place of a text that stands behind another text: the bytes that it takes, the line in which
it starts, and the column. -/
def Span.behind (before text : String) : Span where
  start := before.utf8ByteSize
  stop := before.utf8ByteSize + text.utf8ByteSize
  line := 1 + before.toList.count '\n'
  column := 1 + (before.toList.reverse.takeWhile (· ≠ '\n')).length

namespace Position

theorem column_after (cs : List Char) :
    (({} : Position).after cs).column = 1 + (cs.reverse.takeWhile (· ≠ '\n')).length := by
  induction cs using List.reverseRecOn with
  | nil => rfl
  | append_singleton cs c ih =>
    rw [after_append, after_cons, after_nil, List.reverse_append, List.reverse_singleton,
      List.singleton_append, next]
    by_cases hc : c = '\n'
    · simp [hc]
    · simp [hc, ih]
      omega

theorem upTo_eq_behind (before text : List Char) :
    (({} : Position).after before).upTo ((({} : Position).after before).after text) =
      .behind (String.ofList before) (String.ofList text) := by
  have hbefore := offset_after {} before
  have htext := offset_after (({} : Position).after before) text
  simp only [upTo, Span.behind, Span.mk.injEq, ← String.utf8Len_toList, String.toList_ofList]
  exact ⟨by simpa using hbefore, by simpa [hbefore] using htext, line_after {} before,
    column_after before⟩

end Position

namespace Token

/-! ## Nothing is lost -/

theorem Layout.getLast? {gap : List Char} (h : Layout gap) :
    ∀ c ∈ gap.getLast?, ¬ isWordChar c := by
  have hstep : ∀ {first : Char} {rest : List Char}, ¬ isWordChar first →
      (∀ c ∈ rest.getLast?, ¬ isWordChar c) → ∀ c ∈ (first :: rest).getLast?, ¬ isWordChar c := by
    intro first rest hfirst hrest c hc
    rw [List.getLast?_cons] at hc
    cases hlast : rest.getLast? with
    | none => simp_all
    | some last => simp_all
  induction h with
  | nil => simp
  | blank hc _ ih => exact hstep (not_isWordChar_of_isLayout hc) ih
  | @comment text rest _ _ ih =>
    rw [← List.cons_append, ← List.cons_append, List.getLast?_append_cons]
    exact hstep (by decide) ih

section Rendered

variable {position : Position} {cs : List Char} {tokens : List Token}

/-- Each token is written at its place. If it is a word, then neither side of it goes on with it. -/
theorem Rendered.exists_text (h : Rendered position cs tokens) :
    ∀ token ∈ tokens, ∃ before text after lexeme, cs = before ++ (text ++ after) ∧
      token = placed (position.after before) token.kind lexeme text ∧
      Shows token.kind lexeme text ∧ Ends token.kind after ∧
      (token.kind.isWord → ∀ c ∈ before.getLast?, ¬ isWordChar c) := by
  induction h with
  | last => exact fun token htoken => absurd htoken List.not_mem_nil
  | @token position gap text rest lexeme kind tokens hgap htext hends hrest ih =>
    refine List.forall_mem_cons.mpr
      ⟨⟨gap, text, rest, lexeme, rfl, rfl, htext, hends, fun _ => hgap.getLast?⟩, ?_⟩
    intro token htoken
    obtain ⟨before, shown, after, inner, rfl, hplaced, hshown, hafter, hword⟩ := ih token htoken
    refine ⟨gap ++ text ++ before, shown, after, inner, by simp, ?_, hshown, hafter, ?_⟩
    · rw [Position.after_append]
      exact hplaced
    · intro hkind c hc
      rw [List.getLast?_append] at hc
      cases hlast : before.getLast? with
      | some last =>
        rw [hlast] at hc
        cases hc
        exact hword hkind c hlast
      | none =>
        -- The two tokens touch, so the first of them is no word.
        have hbefore : before = [] := List.getLast?_eq_none_iff.mp hlast
        obtain ⟨d, hd, hwordChar⟩ := hshown.head?_of_isWord hkind
        have hnot : ¬ kind.isWord := by
          intro hkind'
          refine hends hkind' d ?_ hwordChar
          rw [hbefore, List.nil_append, List.head?_append, Option.mem_def.mp hd]
          rfl
        obtain ⟨first, tail, rfl, -⟩ := htext.exists_cons
        rw [hlast, Option.none_or, List.getLast?_append_cons] at hc
        exact htext.getLast?_of_not_isWord hnot c hc

theorem Rendered.start_lt_stop (h : Rendered position cs tokens) :
    ∀ token ∈ tokens, position.offset ≤ token.span.start ∧ token.span.start < token.span.stop := by
  intro token htoken
  obtain ⟨before, text, after, lexeme, -, hplaced, hshown, -⟩ := h.exists_text token htoken
  obtain ⟨c, tail, rfl, -⟩ := hshown.exists_cons
  have hstart := Position.offset_after position before
  have hstop := Position.offset_after (position.after before) (c :: tail)
  have hsize := c.utf8Size_pos
  rw [hplaced]
  simp only [placed, Position.upTo, String.utf8Len_cons] at hstart hstop ⊢
  omega

theorem Rendered.apart (h : Rendered position cs tokens) :
    tokens.Pairwise fun token later => token.span.stop ≤ later.span.start := by
  induction h with
  | last => exact .nil
  | @token position gap text _ _ _ _ _ _ _ hrest ih =>
    refine .cons (fun later hlater => ?_) ih
    have hstart := (hrest.start_lt_stop later hlater).1
    rwa [Position.after_append] at hstart

/-- Between two tokens, in front of the first one and behind the last one, there is nothing but
layout. -/
theorem Rendered.exists_gap (h : Rendered position cs tokens) {earlier later : List Token}
    (hsplit : tokens = earlier ++ later) :
    ∃ before gap after, cs = before ++ (gap ++ after) ∧
      (position.after before).offset = earlier.getLast?.elim position.offset (·.span.stop) ∧
      (position.after (before ++ gap)).offset =
        later.head?.elim (position.after cs).offset (·.span.start) ∧
      Remainder gap ∧ (later ≠ [] → Layout gap) := by
  induction h generalizing earlier with
  | @last position gap hgap =>
    obtain ⟨rfl, rfl⟩ := List.append_eq_nil_iff.mp hsplit.symm
    exact ⟨[], gap, [], by simp, rfl, rfl, hgap, fun h => absurd rfl h⟩
  | @token position gap text rest lexeme kind tokens hgap htext hends hrest ih =>
    cases earlier with
    | nil =>
      rw [List.nil_append] at hsplit
      subst hsplit
      exact ⟨[], gap, text ++ rest, rfl, rfl, rfl, .closed hgap, fun _ => hgap⟩
    | cons first earlier =>
      obtain ⟨rfl, htokens⟩ := List.cons.inj hsplit
      obtain ⟨before, inner, after, rfl, hbefore, hafter, hinner⟩ := ih htokens
      refine ⟨gap ++ text ++ before, inner, after, by simp, ?_, ?_, hinner⟩
      · rw [Position.after_append, hbefore, List.getLast?_cons]
        cases earlier.getLast? <;> simp [placed, Position.upTo]
      · rw [List.append_assoc _ before inner, Position.after_append, hafter,
          ← Position.after_append, List.append_assoc]

end Rendered

/-- The tokens are what the source has in it, all of it and nothing else.

* Each token takes up some bytes, and the next one comes behind it.
* The bytes of a token are those of a part of the source, which is how the token is written. Its
  line and its column are counted from the text before. A word has neither before it nor behind it a
  character that could belong to it.
* What lies between the spans, in front of the first and behind the last, is layout. -/
structure Lossless (source : String) (tokens : List Token) : Prop where
  nonempty : ∀ token ∈ tokens, token.span.start < token.span.stop
  apart : tokens.Pairwise fun token later => token.span.stop ≤ later.span.start
  shown : ∀ token ∈ tokens, ∃ before text after : String,
    source = before ++ text ++ after ∧ token.span = .behind before text ∧
    Shows token.kind token.lexeme.toList text.toList ∧
    (token.kind.isWord → (∀ c ∈ before.toList.getLast?, ¬ isWordChar c) ∧
      ∀ c ∈ after.toList.head?, ¬ isWordChar c)
  outside : ∀ earlier later, tokens = earlier ++ later → ∃ before gap after : String,
    source = before ++ gap ++ after ∧
    before.utf8ByteSize = earlier.getLast?.elim 0 (·.span.stop) ∧
    (before ++ gap).utf8ByteSize = later.head?.elim source.utf8ByteSize (·.span.start) ∧
    Remainder gap.toList ∧ (later ≠ [] → Layout gap.toList)

theorem eq_append_of_toList {source : String} {before text after : List Char}
    (h : source.toList = before ++ (text ++ after)) :
    source = String.ofList before ++ String.ofList text ++ String.ofList after := by
  rw [← String.ofList_append, ← String.ofList_append, List.append_assoc, ← h, String.ofList_toList]

theorem offset_after_start (cs : List Char) :
    (({} : Position).after cs).offset = (String.ofList cs).utf8ByteSize := by
  rw [Position.offset_after, ← String.utf8Len_toList, String.toList_ofList, Nat.zero_add]

/-- Cutting a text into tokens loses nothing of it. -/
theorem lossless_of_scan {source : String} {tokens : List Token} (h : scan source = .ok tokens) :
    Lossless source tokens := by
  have hrendered : Rendered {} source.toList tokens := scanFrom_eq_ok_iff.mp h
  refine ⟨fun token htoken => (hrendered.start_lt_stop token htoken).2, hrendered.apart, ?_, ?_⟩
  · intro token htoken
    obtain ⟨before, text, after, lexeme, hsource, hplaced, hshown, hends, hstarts⟩ :=
      hrendered.exists_text token htoken
    refine ⟨_, _, _, eq_append_of_toList hsource, ?_, ?_, fun hkind => ?_⟩
    · rw [hplaced, ← Position.upTo_eq_behind]
      rfl
    · have hlexeme : token.lexeme.toList = lexeme := by rw [hplaced, placed, String.toList_ofList]
      rwa [hlexeme, String.toList_ofList]
    · rw [String.toList_ofList, String.toList_ofList]
      exact ⟨hstarts hkind, hends hkind⟩
  · intro earlier later hsplit
    obtain ⟨before, gap, after, hsource, hbefore, hafter, hgap⟩ := hrendered.exists_gap hsplit
    refine ⟨_, _, _, eq_append_of_toList hsource, ?_, ?_, ?_⟩
    · rw [← offset_after_start, hbefore]
    · rw [← String.ofList_append, ← offset_after_start, hafter, offset_after_start,
        String.ofList_toList]
    · rwa [String.toList_ofList]

/-- A string that goes on over two lines and has a comment mark, a quote and a character of two
bytes in it, words that touch punctuation, and a comment that has quotes in it and ends the text. -/
def denseText : String := "var s='é//\n\"'\t// \"\r\n(s,12)%true// 'x"

/-- The places of its tokens. -/
def denseSpans : List Span :=
  [⟨0, 3, 1, 1⟩, ⟨4, 5, 1, 5⟩, ⟨5, 6, 1, 6⟩, ⟨6, 14, 1, 7⟩, ⟨21, 22, 3, 1⟩, ⟨22, 23, 3, 2⟩,
    ⟨23, 24, 3, 3⟩, ⟨24, 26, 3, 4⟩, ⟨26, 27, 3, 6⟩, ⟨27, 28, 3, 7⟩, ⟨28, 32, 3, 8⟩]

theorem lossless_of_scan_dense :
    ∃ tokens, scan denseText = .ok tokens ∧ tokens.map Token.span = denseSpans ∧
      Lossless denseText tokens := by
  have hscan : (scan denseText).toOption.any
      (fun tokens => decide (tokens.map Token.span = denseSpans)) = true := by
    decide +kernel
  obtain ⟨tokens, htokens, hspans⟩ := (Option.any_eq_true _ _).mp hscan
  have hok := eq_ok_of_toOption htokens
  exact ⟨tokens, hok, of_decide_eq_true hspans, lossless_of_scan hok⟩

/-! ## Layout does not matter -/

/-- The token can be written: a word by the rules for words, a string between quotes of one sort at
least, and a mark of punctuation by its own spelling. -/
def Lexical (token : Token) : Prop :=
  match token.kind with
  | .identifier | .number | .boolean => IsWord token.kind token.lexeme.toList
  | .string => '"' ∉ token.lexeme.toList ∨ '\x27' ∉ token.lexeme.toList
  | kind => token.lexeme = kind.text

/-- A token as it is to be written: the layout in front of it, and the quote that it is put between
if it is a string. -/
structure Item where
  gap : String := ""
  token : Token
  quote : Char := '"'

namespace Item

/-- The text of the token. -/
def text (item : Item) : String :=
  if item.token.kind = .string then
    item.quote.toString ++ item.token.lexeme ++ item.quote.toString
  else item.token.lexeme

/-- The layout is layout, the token can be written, and if it is a string, it can be written with
this quote. -/
structure Valid (item : Item) : Prop where
  gap : Layout item.gap.toList
  token : item.token.Lexical
  quote : item.token.kind = .string → isQuote item.quote ∧ item.quote ∉ item.token.lexeme.toList

/-- If both items are words, then there is layout between them. -/
def Apart (item next : Item) : Prop :=
  item.token.kind.isWord → next.token.kind.isWord → next.gap ≠ ""

theorem Valid.shows {item : Item} (h : item.Valid) :
    Shows item.token.kind item.token.lexeme.toList item.text.toList := by
  have hlexical := h.token
  unfold Lexical at hlexical
  unfold text
  cases hkind : item.token.kind with
  | identifier | number | boolean =>
    rw [hkind] at hlexical
    exact .word hlexical
  | string =>
    obtain ⟨hquote, hinside⟩ := h.quote hkind
    have hshows := Shows.string hquote hinside
    simpa using hshows
  | _ =>
    rw [hkind] at hlexical
    dsimp only at hlexical
    rw [if_neg (by decide), hlexical]
    exact .mark rfl

end Item

/-- The text that is written for some tokens, with layout behind the last one. -/
def render (items : List Item) (last : String) : String :=
  items.foldr (fun item rest => item.gap ++ item.text ++ rest) last

theorem Layout.head? {gap : List Char} (h : Layout gap) : ∀ c ∈ gap.head?, ¬ isWordChar c := by
  cases h with
  | nil => simp
  | blank hc => simpa using not_isWordChar_of_isLayout hc
  | comment => simp; decide

theorem Shows.head?_of_not_isWord {kind : TokenKind} {lexeme text : List Char}
    (h : Shows kind lexeme text) (hkind : ¬ kind.isWord) : ∀ c ∈ text.head?, ¬ isWordChar c := by
  cases h with
  | mark hmark => simpa using (mark_facts hmark).2.2.1
  | word hword => exact absurd hword.isWord hkind
  | string hquote => simpa using not_isWordChar_of_isQuote hquote

/-- Whatever follows a word ends it: layout, or a token that is no word. -/
theorem ends_render {item : Item} {items : List Item} {last : String}
    (hvalid : ∀ next ∈ items, next.Valid) (hapart : ∀ next ∈ items.head?, item.Apart next)
    (hlast : Layout last.toList) : Ends item.token.kind (render items last).toList := by
  intro hkind c hc
  cases items with
  | nil => exact hlast.head? c hc
  | cons next items =>
    have hnext := hvalid next List.mem_cons_self
    rw [render, List.foldr_cons, String.toList_append, String.toList_append, List.append_assoc,
      List.head?_append] at hc
    cases hgap : next.gap.toList.head? with
    | some d =>
      rw [hgap] at hc
      cases hc
      exact hnext.gap.head? c hgap
    | none =>
      have hempty : next.gap = "" := by simpa using hgap
      have hword : ¬ next.token.kind.isWord := fun h => hapart next rfl hkind h hempty
      obtain ⟨first, tail, htext, -⟩ := hnext.shows.exists_cons
      rw [hgap, htext] at hc
      cases hc
      exact hnext.shows.head?_of_not_isWord hword c (by rw [htext]; rfl)

theorem rendered_render {items : List Item} {last : String} (hvalid : ∀ item ∈ items, item.Valid)
    (hapart : items.IsChain Item.Apart) (hlast : Layout last.toList) (position : Position) :
    ∃ tokens, Rendered position (render items last).toList tokens ∧
      tokens.map Token.bare = items.map (·.token.bare) := by
  induction items generalizing position with
  | nil => exact ⟨[], .last (.closed hlast), rfl⟩
  | cons item items ih =>
    obtain ⟨hitem, hitems⟩ := List.forall_mem_cons.mp hvalid
    obtain ⟨hnext, hchain⟩ := List.isChain_cons.mp hapart
    obtain ⟨tokens, hrendered, hbare⟩ :=
      ih hitems hchain (position.after (item.gap.toList ++ item.text.toList))
    have htext : (render (item :: items) last).toList =
        item.gap.toList ++ (item.text.toList ++ (render items last).toList) := by
      simp [render]
    rw [htext]
    refine ⟨_, .token hitem.gap hitem.shows (ends_render hitems hnext hlast) hrendered, ?_⟩
    rw [List.map_cons, List.map_cons, hbare, placed, String.ofList_toList]
    rfl

/-- Tokens that can be written are found again in the text that is written for them, whatever the
layout and the quotes. -/
theorem scan_render {items : List Item} {last : String} (hvalid : ∀ item ∈ items, item.Valid)
    (hapart : items.IsChain Item.Apart) (hlast : Layout last.toList) :
    ∃ tokens, scan (render items last) = .ok tokens ∧
      tokens.map Token.bare = items.map (·.token.bare) := by
  obtain ⟨tokens, hrendered, hbare⟩ := rendered_render hvalid hapart hlast {}
  exact ⟨tokens, scanFrom_eq_ok_iff.mpr hrendered, hbare⟩

/-- Tokens of all sorts, with layout where it is needed and in some other places. -/
def mixedItems : List Item :=
  [{ gap := " // \"\n", token := { kind := .identifier, lexeme := "x1" } },
    { token := { kind := .string, lexeme := "//'\n" } },
    { token := { kind := .boolean, lexeme := "true" } },
    { gap := "//\n", token := { kind := .number, lexeme := "07" } },
    { token := { kind := .dot, lexeme := "." } },
    { gap := "\r\n", token := { kind := .string, lexeme := "\"" }, quote := '\x27' }]

theorem scan_render_mixed :
    (∀ item ∈ mixedItems, item.Valid) ∧ mixedItems.IsChain Item.Apart ∧ Layout "\t".toList ∧
      ∃ tokens, scan (render mixedItems "\t") = .ok tokens ∧
        tokens.map Token.bare = mixedItems.map (·.token.bare) := by
  have hcomment : Layout " // \"\n".toList := by
    have hchars : " // \"\n".toList = ' ' :: '/' :: '/' :: ([' ', '"'] ++ '\n' :: []) := by decide
    rw [hchars]
    exact .blank (by decide) (.comment (by decide) .nil)
  have hshort : Layout "//\n".toList := @Layout.comment [] [] (by decide) .nil
  have hlines : Layout "\r\n".toList := .blank (by decide) (.blank (by decide) .nil)
  have hx1 : IsWord .identifier "x1".toList :=
    (wordKind?_eq_some_iff (by decide) (List.all_eq_true.mp (by decide))).mp (by decide)
  have htrue : IsWord .boolean "true".toList :=
    (wordKind?_eq_some_iff (by decide) (List.all_eq_true.mp (by decide))).mp (by decide)
  have h07 : IsWord .number "07".toList :=
    (wordKind?_eq_some_iff (by decide) (List.all_eq_true.mp (by decide))).mp (by decide)
  have hvalid : ∀ item ∈ mixedItems, item.Valid := by
    simp only [mixedItems, List.forall_mem_cons]
    exact ⟨⟨hcomment, hx1, nofun⟩, ⟨.nil, .inl (by decide), fun _ => by decide⟩,
      ⟨.nil, htrue, nofun⟩, ⟨hshort, h07, nofun⟩, ⟨.nil, rfl, nofun⟩,
      ⟨hlines, .inr (by decide), fun _ => by decide⟩, by simp⟩
  have hapart : mixedItems.IsChain Item.Apart := by
    simp [mixedItems, Item.Apart, TokenKind.isWord]
  have hlast : Layout "\t".toList := .blank (by decide) .nil
  exact ⟨hvalid, hapart, hlast, scan_render hvalid hapart hlast⟩

end Token

end Scripting
