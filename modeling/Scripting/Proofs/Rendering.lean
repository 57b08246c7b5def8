import Mathlib.Data.List.TakeWhile
import Scripting.Proofs.Displacement

/-!
# Texts that show tokens

A text shows its tokens one after another, with layout around them: blanks, and comments that run to
the end of their line. The relations of this module say so without any order of reading. `Layout` is
what may stand between two tokens, `Shows` is how one token is written, and `Rendered` puts the two
together for a whole text, with the places that the tokens have in it.

Main statement: a text is cut into some tokens if and only if it renders them
(`Token.scanFrom_eq_ok_iff`). The two readings of this are that the scanner loses nothing, and that
layout makes no difference to it.
-/

namespace Scripting

/-- Whether tokens of this kind are words. -/
def TokenKind.isWord : TokenKind → Bool
  | identifier | number | boolean => true
  | _ => false

namespace Token

/-! ## The parts of a text -/

/-- What may stand between two tokens. A comment has the line feed that ends it. -/
inductive Layout : List Char → Prop
  | nil : Layout []
  | blank {c : Char} {rest : List Char} (hc : isLayout c) (hrest : Layout rest) : Layout (c :: rest)
  | comment {text rest : List Char} (htext : '\n' ∉ text) (hrest : Layout rest) :
      Layout ('/' :: '/' :: (text ++ '\n' :: rest))

/-- What may stand behind the last token: layout, and then perhaps a comment on the last line. -/
inductive Remainder : List Char → Prop
  | closed {gap : List Char} (hgap : Layout gap) : Remainder gap
  | unclosed {gap text : List Char} (hgap : Layout gap) (htext : '\n' ∉ text) :
      Remainder (gap ++ '/' :: '/' :: text)

/-- The characters are a word of the kind. A word is a number if it has nothing but digits, a truth
value if it is spelled like one, and else a name, which does not start with a digit. -/
structure IsWord (kind : TokenKind) (word : List Char) : Prop where
  isWord : kind.isWord
  nonempty : word ≠ []
  chars : ∀ c ∈ word, isWordChar c
  number : kind = .number ↔ ∀ c ∈ word, c.isDigit
  boolean : kind = .boolean ↔ String.ofList word = "true" ∨ String.ofList word = "false"
  identifier : kind = .identifier → ∀ c ∈ word.head?, ¬ c.isDigit

/-- How a token with the given kind and lexeme is written. A string may stand between quotes of each
sort that does not occur in it. -/
inductive Shows : TokenKind → List Char → List Char → Prop
  | mark {kind : TokenKind} {c : Char} (hkind : TokenKind.ofPunctuation? c = some kind) :
      Shows kind [c] [c]
  | word {kind : TokenKind} {word : List Char} (hword : IsWord kind word) : Shows kind word word
  | string {quote : Char} {inside : List Char} (hquote : isQuote quote) (hinside : quote ∉ inside) :
      Shows .string inside (quote :: (inside ++ [quote]))

/-- If the kind is that of a word, then the text does not go on with it. -/
def Ends (kind : TokenKind) (rest : List Char) : Prop :=
  kind.isWord → ∀ c ∈ rest.head?, ¬ isWordChar c

/-- The token whose text starts at the position. -/
def placed (position : Position) (kind : TokenKind) (lexeme text : List Char) : Token :=
  { kind, lexeme := String.ofList lexeme, span := position.upTo (position.after text) }

/-- The text shows the tokens, which have the places that they have behind the position. -/
inductive Rendered : Position → List Char → List Token → Prop
  | last {position : Position} {gap : List Char} (hgap : Remainder gap) : Rendered position gap []
  | token {position : Position} {gap text rest lexeme : List Char} {kind : TokenKind}
      {tokens : List Token} (hgap : Layout gap) (htext : Shows kind lexeme text)
      (hends : Ends kind rest) (hrest : Rendered (position.after (gap ++ text)) rest tokens) :
      Rendered position (gap ++ (text ++ rest))
        (placed (position.after gap) kind lexeme text :: tokens)

/-! ## Characters -/

theorem not_isWordChar_of_isLayout {c : Char} (h : isLayout c) : ¬ isWordChar c := by
  have hc : ((c = ' ' ∨ c = '\t') ∨ c = '\r') ∨ c = '\n' := by simpa [isLayout] using h
  rcases hc with ((rfl | rfl) | rfl) | rfl <;> decide

theorem not_isWordChar_of_isQuote {c : Char} (h : isQuote c) : ¬ isWordChar c := by
  have hc : c = '"' ∨ c = '\x27' := by simpa [isQuote] using h
  rcases hc with rfl | rfl <;> decide

/-- What a mark of punctuation is not. -/
theorem mark_facts {c : Char} {kind : TokenKind} (h : TokenKind.ofPunctuation? c = some kind) :
    ¬ isLayout c ∧ c ≠ '/' ∧ ¬ isWordChar c ∧ kind.isWord = false ∧ kind ≠ .string := by
  unfold TokenKind.ofPunctuation? at h
  split at h <;> cases h <;> decide

theorem ofPunctuation?_eq_none {c : Char} (h : isQuote c ∨ isWordChar c) :
    TokenKind.ofPunctuation? c = none := by
  cases hkind : TokenKind.ofPunctuation? c with
  | none => rfl
  | some kind =>
    obtain ⟨-, -, hword, -⟩ := mark_facts hkind
    have hquote : ¬ isQuote c := by
      unfold TokenKind.ofPunctuation? at hkind
      split at hkind <;> cases hkind <;> decide
    exact absurd h (not_or.mpr ⟨hquote, hword⟩)

theorem not_isLayout_of_isQuote {c : Char} (h : isQuote c) : ¬ isLayout c ∧ c ≠ '/' := by
  have hc : c = '"' ∨ c = '\x27' := by simpa [isQuote] using h
  rcases hc with rfl | rfl <;> decide

theorem not_isLayout_of_isWordChar {c : Char} (h : isWordChar c) : ¬ isLayout c ∧ c ≠ '/' := by
  refine ⟨fun hlayout => not_isWordChar_of_isLayout hlayout h, ?_⟩
  rintro rfl
  exact absurd h (by decide)

/-- The text of a token starts with neither a blank nor a comment. -/
theorem Shows.exists_cons {kind : TokenKind} {lexeme text : List Char}
    (h : Shows kind lexeme text) :
    ∃ c tail, text = c :: tail ∧ ¬ isLayout c ∧ c ≠ '/' := by
  cases h with
  | mark hkind =>
    obtain ⟨hlayout, hslash, -⟩ := mark_facts hkind
    exact ⟨_, [], rfl, hlayout, hslash⟩
  | word hword =>
    obtain ⟨c, tail, rfl⟩ := List.exists_cons_of_ne_nil hword.nonempty
    exact ⟨c, tail, rfl, not_isLayout_of_isWordChar (hword.chars c List.mem_cons_self)⟩
  | string hquote => exact ⟨_, _, rfl, not_isLayout_of_isQuote hquote⟩

/-- A word starts with a character of words, and other tokens do not end with one. -/
theorem Shows.head?_of_isWord {kind : TokenKind} {lexeme text : List Char}
    (h : Shows kind lexeme text) (hkind : kind.isWord) : ∃ c ∈ text.head?, isWordChar c := by
  cases h with
  | mark hmark => exact absurd hkind (by simp [(mark_facts hmark).2.2.2.1])
  | word hword =>
    obtain ⟨c, tail, rfl⟩ := List.exists_cons_of_ne_nil hword.nonempty
    exact ⟨c, rfl, hword.chars c List.mem_cons_self⟩
  | string => cases hkind

theorem Shows.getLast?_of_not_isWord {kind : TokenKind} {lexeme text : List Char}
    (h : Shows kind lexeme text) (hkind : ¬ kind.isWord) : ∀ c ∈ text.getLast?, ¬ isWordChar c := by
  cases h with
  | mark hmark => simpa using (mark_facts hmark).2.2.1
  | word hword => exact absurd hword.isWord hkind
  | @string quote inside hquote =>
    rw [← List.cons_append, List.getLast?_concat]
    rintro _ ⟨⟩
    exact not_isWordChar_of_isQuote hquote

/-! ## Words -/

theorem boolean?_isSome_iff {word : String} :
    (boolean? word).isSome ↔ word = "true" ∨ word = "false" := by
  unfold boolean?
  split
  · simp
  · simp
  · next htrue hfalse => exact ⟨nofun, fun h => (h.elim htrue hfalse).elim⟩

/-- No truth value is a number. -/
theorem head?_of_boolean {word : List Char}
    (h : String.ofList word = "true" ∨ String.ofList word = "false") :
    ∃ c ∈ word.head?, ¬ c.isDigit := by
  have hword : word = "true".toList ∨ word = "false".toList :=
    h.imp (fun h => by rw [← h, String.toList_ofList]) fun h => by rw [← h, String.toList_ofList]
  rcases hword with rfl | rfl
  · exact ⟨'t', rfl, by decide⟩
  · exact ⟨'f', rfl, by decide⟩

/-- The kind of a word is found by the rules for words. -/
theorem wordKind?_eq_some_iff {word : List Char} {kind : TokenKind} (hnonempty : word ≠ [])
    (hchars : ∀ c ∈ word, isWordChar c) : wordKind? word = some kind ↔ IsWord kind word := by
  obtain ⟨first, tail, hword⟩ := List.exists_cons_of_ne_nil hnonempty
  have hhead : word.head? = some first := by rw [hword, List.head?_cons]
  have hfirst : first ∈ word := by rw [hword]; exact List.mem_cons_self
  have hboolean : (String.ofList word = "true" ∨ String.ofList word = "false") →
      ¬ first.isDigit := by
    intro h
    obtain ⟨c, hc, hdigit⟩ := head?_of_boolean h
    rwa [Option.some.inj (hhead.symm.trans hc)]
  unfold wordKind?
  constructor
  · intro h
    split at h
    · next hall =>
      have hdigits : ∀ c ∈ word, c.isDigit := List.all_eq_true.mp hall
      cases h
      exact ⟨rfl, hnonempty, hchars, iff_of_true rfl hdigits,
        iff_of_false nofun fun h => hboolean h (hdigits first hfirst), nofun⟩
    · next hall =>
      have hdigits : ¬ ∀ c ∈ word, c.isDigit := fun h => hall (List.all_eq_true.mpr h)
      split at h
      · cases h
      · next hdigit =>
        have hstart : ∀ c ∈ word.head?, ¬ c.isDigit := by simpa [hhead] using hdigit
        split at h
        · next hsome =>
          cases h
          exact ⟨rfl, hnonempty, hchars, iff_of_false nofun hdigits,
            iff_of_true rfl (boolean?_isSome_iff.mp hsome), nofun⟩
        · next hnone =>
          cases h
          exact ⟨rfl, hnonempty, hchars, iff_of_false nofun hdigits,
            iff_of_false nofun fun h => hnone (boolean?_isSome_iff.mpr h), fun _ => hstart⟩
  · intro h
    have hnumber : word.all Char.isDigit ↔ kind = .number := by rw [List.all_eq_true, h.number]
    have htruth : (boolean? (String.ofList word)).isSome ↔ kind = .boolean := by
      rw [boolean?_isSome_iff, h.boolean]
    have hstart : kind ≠ .number → ¬ word.head?.any Char.isDigit := by
      intro hne
      have hdigit : ¬ first.isDigit := by
        cases hkind : kind with
        | identifier => exact h.identifier hkind first hhead
        | boolean => exact hboolean (h.boolean.mp hkind)
        | number => exact absurd hkind hne
        | _ => exact absurd h.isWord (by simp [hkind, TokenKind.isWord])
      simpa [hhead] using hdigit
    cases hkind : kind with
    | number => rw [if_pos (hnumber.mpr hkind)]
    | boolean =>
      rw [if_neg (by simp [hnumber, hkind]), if_neg (hstart (by simp [hkind])),
        if_pos (htruth.mpr hkind)]
    | identifier =>
      rw [if_neg (by simp [hnumber, hkind]), if_neg (hstart (by simp [hkind])),
        if_neg (by simp [htruth, hkind])]
    | _ => exact absurd h.isWord (by simp [hkind, TokenKind.isWord])

/-! ## Cutting one token -/

section While

variable {a : Char} {xs : List Char}

theorem takeWhile_ne_append (h : a ∉ xs) (ys : List Char) :
    (xs ++ a :: ys).takeWhile (· ≠ a) = xs := by
  rw [takeWhile_append_cons (by simp), List.takeWhile_eq_self_iff]
  intro x hx
  simpa using ne_of_mem_of_not_mem hx h

theorem dropWhile_ne_append (h : a ∉ xs) (ys : List Char) :
    (xs ++ a :: ys).dropWhile (· ≠ a) = a :: ys := by
  have hall : ∀ x ∈ xs, decide (x ≠ a) := fun x hx => by simpa using ne_of_mem_of_not_mem hx h
  rw [dropWhile_append_cons (by simp), List.dropWhile_eq_nil_iff.mpr hall, List.nil_append]

/-- The list is cut at the first occurrence of the character, if there is one. -/
theorem eq_takeWhile_ne_append {b : Char} {ys : List Char} (h : xs.dropWhile (· ≠ a) = b :: ys) :
    xs = xs.takeWhile (· ≠ a) ++ a :: ys := by
  have hhead := List.head?_dropWhile_not (· ≠ a) xs
  rw [h] at hhead
  have hb : b = a := by simpa using hhead
  rw [hb] at h
  rw [← h, List.takeWhile_append_dropWhile]

theorem notMem_takeWhile_ne (a : Char) (xs : List Char) : a ∉ xs.takeWhile (· ≠ a) := by
  intro h
  simpa using List.mem_takeWhile_imp h

theorem takeWhile_append_of_ends {p : Char → Bool} {ys : List Char} (hxs : ∀ x ∈ xs, p x)
    (hys : ∀ y ∈ ys.head?, ¬ p y) :
    (xs ++ ys).takeWhile p = xs ∧ (xs ++ ys).dropWhile p = ys := by
  rw [List.takeWhile_append_of_pos hxs, List.dropWhile_append_of_pos hxs]
  cases ys with
  | nil => simp
  | cons y ys =>
    have hy : ¬ p y := hys y rfl
    simp [hy]

end While

/-- What is cut off is the text of a token. -/
theorem shows_of_cut {position : Position} {c : Char} {rest : List Char} {piece : Piece}
    (h : cut position c rest = .ok piece) :
    ∃ kind lexeme text, c :: rest = text ++ piece.rest ∧ Shows kind lexeme text ∧
      Ends kind piece.rest ∧ piece.token = placed position kind lexeme text ∧
      piece.stop = position.after text := by
  unfold cut at h
  split at h
  · next kind hkind =>
    cases h
    refine ⟨kind, [c], [c], rfl, .mark hkind, fun hword => ?_, rfl, rfl⟩
    exact absurd hword (by simp [(mark_facts hkind).2.2.2.1])
  · split at h
    · next hquote =>
      unfold cutString at h
      dsimp only at h
      split at h
      · cases h
      · next close tail hclose =>
        cases h
        have hrest := eq_takeWhile_ne_append hclose
        have hsame : close :: tail = c :: tail := by
          rw [← hclose, hrest, dropWhile_ne_append (notMem_takeWhile_ne c rest)]
        cases hsame
        refine ⟨.string, rest.takeWhile (· ≠ c), c :: (rest.takeWhile (· ≠ c) ++ [c]), ?_,
          .string hquote (notMem_takeWhile_ne c rest), fun hword => absurd hword (by decide), ?_,
          ?_⟩
        · rw [List.cons_append, List.append_assoc, List.singleton_append, ← hrest]
        · simp [placed]
        · simp
    · split at h
      · next hword =>
        unfold cutWord at h
        dsimp only at h
        split at h
        · next kind hkind =>
          cases h
          have hchars : ∀ x ∈ c :: rest.takeWhile isWordChar, isWordChar x :=
            List.forall_mem_cons.mpr ⟨hword, fun x => List.mem_takeWhile_imp⟩
          refine ⟨kind, _, _, ?_,
            .word ((wordKind?_eq_some_iff (List.cons_ne_nil _ _) hchars).mp hkind), ?_, rfl, rfl⟩
          · rw [List.cons_append, List.takeWhile_append_dropWhile]
          · intro _ x hx
            have hhead := List.head?_dropWhile_not isWordChar rest
            rw [Option.mem_def.mp hx] at hhead
            simpa using hhead
        · cases h
      · cases h

/-- The text of a token is cut off from what follows it. -/
theorem cut_of_shows {position : Position} {kind : TokenKind} {lexeme tail rest : List Char}
    {c : Char} (h : Shows kind lexeme (c :: tail)) (hends : Ends kind rest) :
    cut position c (tail ++ rest) =
      .ok ⟨placed position kind lexeme (c :: tail), position.after (c :: tail), rest⟩ := by
  unfold cut
  cases h with
  | mark hkind =>
    rw [hkind]
    rfl
  | word hword =>
    have hchars := List.forall_mem_cons.mp hword.chars
    have hkind := (wordKind?_eq_some_iff hword.nonempty hword.chars).mpr hword
    obtain ⟨htake, hdrop⟩ := takeWhile_append_of_ends hchars.2 (hends hword.isWord)
    have hquote : ¬ isQuote c := fun hquote => not_isWordChar_of_isQuote hquote hchars.1
    rw [ofPunctuation?_eq_none (.inr hchars.1)]
    dsimp only
    rw [if_neg hquote, if_pos hchars.1, cutWord, htake, hdrop]
    simp only [hkind]
    rfl
  | @string _ inside hquote hinside =>
    rw [ofPunctuation?_eq_none (.inl hquote)]
    dsimp only
    rw [if_pos hquote, List.append_assoc, List.singleton_append, cutString,
      takeWhile_ne_append hinside, dropWhile_ne_append hinside]
    simp [placed]

/-! ## Scanning -/

theorem not_comment {c : Char} (h : c ≠ '/') (rest : List Char) :
    ¬ (c = '/' ∧ rest.head? = some '/') :=
  fun hcomment => h hcomment.1

/-- Layout in front of a text moves it, and does nothing else. -/
theorem scanFrom_layout {gap : List Char} (h : Layout gap) (position : Position)
    (rest : List Char) :
    scanFrom position (gap ++ rest) = scanFrom (position.after gap) rest := by
  induction h generalizing position with
  | nil => rfl
  | blank hc _ ih => rw [List.cons_append, scanFrom, if_pos hc, ih, Position.after_cons]
  | @comment text gap htext _ ih =>
    have hfeed : '\n' ∉ '/' :: text := by simpa using htext
    have hlist : '/' :: '/' :: (text ++ '\n' :: gap) ++ rest =
        '/' :: ('/' :: text ++ '\n' :: (gap ++ rest)) := by simp
    rw [hlist, scanFrom, if_neg (by decide), if_pos ⟨rfl, rfl⟩, takeWhile_ne_append hfeed,
      dropWhile_ne_append hfeed, scanFrom, if_pos (by decide), ih]
    simp

theorem scanFrom_remainder {gap : List Char} (h : Remainder gap) (position : Position) :
    scanFrom position gap = .ok [] := by
  cases h with
  | closed hgap =>
    rw [← List.append_nil gap, scanFrom_layout hgap, scanFrom]
  | @unclosed gap text hgap htext =>
    have hfeed : ∀ c ∈ '/' :: text, decide (c ≠ '\n') := by
      intro c hc
      simpa using ne_of_mem_of_not_mem hc (by simpa using htext : '\n' ∉ '/' :: text)
    rw [scanFrom_layout hgap, scanFrom, if_neg (by decide), if_pos ⟨rfl, rfl⟩,
      List.dropWhile_eq_nil_iff.mpr hfeed, scanFrom]

theorem Rendered.blank {position : Position} {c : Char} {rest : List Char} {tokens : List Token}
    (hc : isLayout c) (h : Rendered (position.next c) rest tokens) :
    Rendered position (c :: rest) tokens := by
  cases h with
  | last hgap =>
    cases hgap with
    | closed hgap => exact .last (.closed (.blank hc hgap))
    | unclosed hgap htext => exact .last (.unclosed (.blank hc hgap) htext)
  | token hgap htext hends hrest => exact .token (.blank hc hgap) htext hends hrest

/-- The line feed behind a comment belongs to it. -/
theorem Layout.behind_comment {text gap : List Char} (htext : '\n' ∉ text) (h : Layout gap)
    (hgap : gap.head? = some '\n') : Layout ('/' :: '/' :: (text ++ gap)) := by
  cases h with
  | nil => cases hgap
  | blank _ hrest =>
    cases hgap
    exact .comment htext hrest
  | comment => cases hgap

theorem Rendered.comment {position : Position} {text rest : List Char} {tokens : List Token}
    (htext : '\n' ∉ text) (hrest : rest.head? = some '\n')
    (h : Rendered (position.after ('/' :: '/' :: text)) rest tokens) :
    Rendered position ('/' :: '/' :: (text ++ rest)) tokens := by
  cases h with
  | last hgap =>
    cases hgap with
    | closed hgap => exact .last (.closed (hgap.behind_comment htext hrest))
    | @unclosed gap last hgap hlast =>
      cases gap with
      | nil => cases hrest
      | cons c gap =>
        rw [← List.append_assoc]
        exact .last (.unclosed (hgap.behind_comment htext hrest) hlast)
  | @token _ gap shown _ _ _ _ hgap hshown hends hrest' =>
    cases gap with
    | nil =>
      obtain ⟨c, tail, rfl, hlayout, -⟩ := hshown.exists_cons
      cases hrest
      exact absurd (by decide) hlayout
    | cons c gap =>
      have hplace : (position.after ('/' :: '/' :: text)).after (c :: gap ++ shown) =
          position.after ('/' :: '/' :: (text ++ c :: gap) ++ shown) := by
        simp
      rw [hplace] at hrest'
      rw [← Position.after_append, ← List.append_assoc]
      exact .token (hgap.behind_comment htext hrest) hshown hends hrest'

theorem rendered_of_scanFrom {position : Position} {cs : List Char} {tokens : List Token}
    (h : scanFrom position cs = .ok tokens) : Rendered position cs tokens := by
  fun_induction scanFrom position cs generalizing tokens with
  | case1 =>
    cases h
    exact .last (.closed .nil)
  | case2 position c rest hlayout ih => exact .blank hlayout (ih h)
  | case3 position c rest hlayout hcomment ih =>
    obtain ⟨rfl, hslash⟩ := hcomment
    obtain ⟨text, rfl⟩ := List.head?_eq_some_iff.mp hslash
    have htake : ('/' :: text).takeWhile (· ≠ '\n') = '/' :: text.takeWhile (· ≠ '\n') := rfl
    have hdrop : ('/' :: text).dropWhile (· ≠ '\n') = text.dropWhile (· ≠ '\n') := rfl
    rw [htake, hdrop] at ih h
    have hline := notMem_takeWhile_ne '\n' text
    cases hrest : text.dropWhile (· ≠ '\n') with
    | nil =>
      have htext : text = text.takeWhile (· ≠ '\n') := by
        have hsplit := List.takeWhile_append_dropWhile (p := (decide <| · ≠ '\n')) (l := text)
        rw [hrest, List.append_nil] at hsplit
        exact hsplit.symm
      rw [hrest, scanFrom] at h
      cases h
      rw [htext]
      exact .last (.unclosed .nil hline)
    | cons feed rest =>
      have htext := eq_takeWhile_ne_append hrest
      have hfeed : text.dropWhile (· ≠ '\n') = '\n' :: rest := by
        rw [htext, dropWhile_ne_append hline]
      rw [hfeed] at ih h
      rw [htext]
      exact .comment hline rfl (ih h)
  | case4 => cases h
  | case5 position c rest hlayout hcomment piece hcut _ ih =>
    obtain ⟨more, hmore, h⟩ := exists_of_bind_eq_ok h
    cases h
    obtain ⟨kind, lexeme, text, hsplit, htext, hends, htoken, hstop⟩ := shows_of_cut hcut
    rw [hsplit, htoken]
    exact .token .nil htext hends (hstop ▸ ih hmore)

/-- A text is cut into the tokens that it shows. -/
theorem scanFrom_eq_ok_iff {position : Position} {cs : List Char} {tokens : List Token} :
    scanFrom position cs = .ok tokens ↔ Rendered position cs tokens := by
  refine ⟨rendered_of_scanFrom, fun h => ?_⟩
  induction h with
  | last hgap => exact scanFrom_remainder hgap _
  | @token position gap text rest lexeme kind tokens hgap htext hends _ ih =>
    obtain ⟨c, tail, rfl, hlayout, hslash⟩ := htext.exists_cons
    rw [scanFrom_layout hgap, List.cons_append]
    rw [Position.after_append] at ih
    rw [scanFrom_cons_of_cut hlayout (not_comment hslash _) (cut_of_shows htext hends)]
    exact congrArg (Except.map _) ih

end Token

end Scripting
