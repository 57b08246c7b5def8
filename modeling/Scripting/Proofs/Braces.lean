import Mathlib.Algebra.Ring.Int.Defs
import Scripting.Proofs.Rendering
import Scripting.Shell.Entry

/-!
# Open braces and the tokens of a text

An interactive session gathers lines as long as more braces are opened than closed. It counts the
braces by itself, without cutting the text into tokens, and leaves out what stands between quotes.
Strings are read in the same way by both, but the count knows nothing of comments. So it is right for
what is left of a text without its comments (`openBraces_code`), and each comment that closes its
quotes adds the braces that it opens (`openBraces_eq_add_comments`). A comment that does not close its
quotes has the code behind it taken for a string.
-/

namespace Scripting

/-! ## Comments -/

namespace Token

/-- A text without its comments, and its comments. A comment runs to the end of its line, and there is
none inside a string. -/
def uncomment : List Char → List Char × List (List Char)
  | [] => ([], [])
  | c :: rest =>
    if c = '/' ∧ rest.head? = some '/' then
      ((uncomment (rest.dropWhile (· ≠ '\n'))).1,
        (c :: rest.takeWhile (· ≠ '\n')) :: (uncomment (rest.dropWhile (· ≠ '\n'))).2)
    else if isQuote c then
      (c :: (rest.takeWhile (· ≠ c) ++ ((rest.dropWhile (· ≠ c)).take 1 ++
          (uncomment (rest.dropWhile (· ≠ c)).tail).1)),
        (uncomment (rest.dropWhile (· ≠ c)).tail).2)
    else
      (c :: (uncomment rest).1, (uncomment rest).2)
termination_by cs => cs.length
decreasing_by
  all_goals
    have hfeed := length_dropWhile_le (· ≠ '\n') rest
    have hquote := length_dropWhile_le (· ≠ c) rest
    simp only [List.length_tail, List.length_cons]
    omega

/-- What is left of a text without its comments. -/
def code (cs : List Char) : List Char := (uncomment cs).1

/-- The comments of a text. -/
def comments (cs : List Char) : List (List Char) := (uncomment cs).2

theorem code_nil : code [] = [] := by rw [code, uncomment]

theorem code_cons {c : Char} (hslash : c ≠ '/') (hquote : ¬ isQuote c) (rest : List Char) :
    code (c :: rest) = c :: code rest := by
  rw [code, uncomment, if_neg (not_comment hslash rest), if_neg hquote]
  rfl

theorem code_comment {rest : List Char} (h : rest.head? = some '/') :
    code ('/' :: rest) = code (rest.dropWhile (· ≠ '\n')) := by
  rw [code, uncomment, if_pos ⟨rfl, h⟩]
  rfl

theorem not_isQuote_of_isLayout {c : Char} (h : isLayout c) : c ≠ '/' ∧ ¬ isQuote c := by
  refine ⟨?_, fun hquote => (not_isLayout_of_isQuote hquote).1 h⟩
  rintro rfl
  exact absurd h (by decide)

/-- Characters of words are kept. -/
theorem code_word {word : List Char} (h : ∀ c ∈ word, isWordChar c) (rest : List Char) :
    code (word ++ rest) = word ++ code rest := by
  induction word with
  | nil => rfl
  | cons c word ih =>
    obtain ⟨hc, hword⟩ := List.forall_mem_cons.mp h
    rw [List.cons_append, code_cons (not_isLayout_of_isWordChar hc).2
      (fun hquote => not_isWordChar_of_isQuote hquote hc), ih hword, List.cons_append]

/-- There is no comment in the text of a token. -/
theorem code_shows {kind : TokenKind} {lexeme text : List Char} (h : Shows kind lexeme text)
    (rest : List Char) : code (text ++ rest) = text ++ code rest := by
  cases h with
  | @mark _ c hkind =>
    have hquote : ¬ isQuote c := by
      intro hquote
      rw [ofPunctuation?_eq_none (.inl hquote)] at hkind
      cases hkind
    exact code_cons (mark_facts hkind).2.1 hquote rest
  | word hword => exact code_word hword.chars rest
  | @string quote _ hquote hinside =>
    have hsplit : quote :: (lexeme ++ [quote]) ++ rest = quote :: (lexeme ++ quote :: rest) := by
      simp
    rw [hsplit, code, uncomment, if_neg (not_comment (not_isLayout_of_isQuote hquote).2 _),
      if_pos hquote, takeWhile_ne_append hinside, dropWhile_ne_append hinside]
    simp [code]

end Token

/-! ## Counting -/

namespace Shell

open Token

/-- The quote that is open behind some characters. -/
def quoteAfter (quote : Option Char) : List Char → Option Char
  | [] => quote
  | c :: rest =>
    match quote with
    | some q => quoteAfter (if c = q then none else some q) rest
    | none => quoteAfter (if isQuote c then some c else none) rest

/-- Each quote that the characters open is closed. -/
def ClosesQuotes (cs : List Char) : Prop := quoteAfter none cs = none

instance (cs : List Char) : Decidable (ClosesQuotes cs) :=
  inferInstanceAs (Decidable (_ = _))

/-- The braces of two texts add up when the second one is read as the first one leaves it. -/
theorem openBraces_append (quote : Option Char) (xs ys : List Char) :
    openBraces quote (xs ++ ys) = openBraces quote xs + openBraces (quoteAfter quote xs) ys := by
  induction xs generalizing quote with
  | nil => simp [openBraces, quoteAfter]
  | cons c xs ih =>
    cases quote with
    | some q =>
      rw [List.cons_append, openBraces, openBraces, quoteAfter]
      exact ih _
    | none =>
      rw [List.cons_append, openBraces, openBraces, quoteAfter]
      split
      · exact ih _
      · split
        · rw [ih]
          omega
        · split
          · rw [ih]
            omega
          · exact ih _

/-- Up to the closing quote nothing counts. -/
theorem openBraces_quoted {quote : Char} {inside : List Char} (h : quote ∉ inside)
    (rest : List Char) :
    openBraces (some quote) (inside ++ quote :: rest) = openBraces none rest := by
  induction inside with
  | nil => rw [List.nil_append, openBraces]; simp
  | cons c inside ih =>
    rw [List.mem_cons, not_or] at h
    rw [List.cons_append, openBraces, if_neg (Ne.symm h.1), ih h.2]

theorem openBraces_quote {quote : Char} (h : isQuote quote) (rest : List Char) :
    openBraces none (quote :: rest) = openBraces (some quote) rest := by
  rw [openBraces, if_pos h]

/-- A character outside strings counts by itself. -/
theorem openBraces_cons {c : Char} (h : ¬ isQuote c) (rest : List Char) :
    openBraces none (c :: rest) = openBraces none [c] + openBraces none rest := by
  have happend := openBraces_append none [c] rest
  rwa [quoteAfter, quoteAfter, if_neg h] at happend

/-- Comments that close their quotes add their own braces to those of the code. This holds of every
text, whether or not it can be cut into tokens. The induction is on the search for comments. -/
theorem openBraces_eq_add_comments {cs : List Char}
    (h : ∀ comment ∈ comments cs, ClosesQuotes comment) :
    openBraces none cs =
      openBraces none (code cs) + ((comments cs).map (openBraces none)).sum := by
  unfold comments code at *
  fun_induction uncomment cs with
  | case1 => rfl
  | case2 c rest hcomment ih =>
    dsimp only at h ⊢
    obtain ⟨hclosed, hrest⟩ := List.forall_mem_cons.mp h
    have hsplit : c :: rest = (c :: rest.takeWhile (· ≠ '\n')) ++ rest.dropWhile (· ≠ '\n') := by
      rw [List.cons_append, List.takeWhile_append_dropWhile]
    have hnext : quoteAfter none (c :: rest.takeWhile (· ≠ '\n')) = none := hclosed
    rw [hsplit, openBraces_append, hnext, ih hrest, List.map_cons, List.sum_cons]
    omega
  | case3 c rest hcomment hquote ih =>
    dsimp only at h ⊢
    have hinside := notMem_takeWhile_ne c rest
    rw [openBraces_quote hquote, openBraces_quote hquote]
    cases hclose : rest.dropWhile (· ≠ c) with
    | nil =>
      have hrest : rest.takeWhile (· ≠ c) = rest := by
        have hsplit := List.takeWhile_append_dropWhile (p := (decide <| · ≠ c)) (l := rest)
        rwa [hclose, List.append_nil] at hsplit
      rw [hrest]
      simp [uncomment]
    | cons close tail =>
      have hrest := eq_takeWhile_ne_append hclose
      have hsame : close :: tail = c :: tail := by
        rw [← hclose, hrest, dropWhile_ne_append hinside]
      cases hsame
      rw [hclose] at ih h
      rw [List.take_succ_cons, List.take_zero, List.singleton_append, openBraces_quoted hinside]
      rw [hrest, openBraces_quoted hinside]
      exact ih h
  | case4 c rest hcomment hquote ih =>
    dsimp only at h ⊢
    rw [openBraces_cons hquote rest, openBraces_cons hquote (uncomment rest).1, ih h]
    omega

/-! ## Braces among tokens -/

/-- How many braces the tokens open without closing them. -/
def unclosed (tokens : List Token) : Int :=
  tokens.countP (·.kind = .leftBrace) - tokens.countP (·.kind = .rightBrace)

theorem unclosed_cons (token : Token) (tokens : List Token) :
    unclosed (token :: tokens) = unclosed [token] + unclosed tokens := by
  unfold unclosed
  rw [← List.singleton_append, List.countP_append, List.countP_append]
  omega

theorem openBraces_word {word : List Char} (h : ∀ c ∈ word, isWordChar c) (rest : List Char) :
    openBraces none (word ++ rest) = openBraces none rest := by
  induction word with
  | nil => rfl
  | cons c word ih =>
    obtain ⟨hc, hword⟩ := List.forall_mem_cons.mp h
    have hquote : ¬ isQuote c := fun hquote => not_isWordChar_of_isQuote hquote hc
    have hopen : c ≠ '\x7b' := by
      rintro rfl
      exact absurd hc (by decide)
    have hclose : c ≠ '\x7d' := by
      rintro rfl
      exact absurd hc (by decide)
    rw [List.cons_append, openBraces, if_neg hquote, if_neg hopen, if_neg hclose, ih hword]

/-- In the text of a token, the count finds the brace that the token is, and no other. -/
theorem openBraces_shows {kind : TokenKind} {lexeme text : List Char} (h : Shows kind lexeme text)
    (position : Position) (rest : List Char) :
    openBraces none (text ++ rest) =
      unclosed [placed position kind lexeme text] + openBraces none rest := by
  cases h with
  | @mark _ c hkind =>
    rw [List.singleton_append]
    unfold TokenKind.ofPunctuation? at hkind
    split at hkind <;> cases hkind <;> rw [openBraces_cons (by decide)] <;> rfl
  | word hword =>
    have hkind := hword.isWord
    have hnone : unclosed [placed position kind lexeme lexeme] = 0 := by
      cases kind with
      | identifier | number | boolean => rfl
      | _ => cases hkind
    rw [openBraces_word hword.chars, hnone, Int.zero_add]
  | @string quote _ hquote hinside =>
    have hsplit : quote :: (lexeme ++ [quote]) ++ rest = quote :: (lexeme ++ quote :: rest) := by
      simp
    rw [hsplit, openBraces_quote hquote, openBraces_quoted hinside]
    exact (Int.zero_add _).symm

theorem openBraces_layout {c : Char} (h : isLayout c) (rest : List Char) :
    openBraces none (c :: rest) = openBraces none rest := by
  have hc : ((c = ' ' ∨ c = '\t') ∨ c = '\r') ∨ c = '\n' := by simpa [isLayout] using h
  rcases hc with ((rfl | rfl) | rfl) | rfl <;> rfl

/-- Without the comments, the count is that of the tokens. The induction is on the scan. -/
theorem openBraces_code {position : Position} {cs : List Char} {tokens : List Token}
    (h : scanFrom position cs = .ok tokens) : openBraces none (code cs) = unclosed tokens := by
  fun_induction scanFrom position cs generalizing tokens with
  | case1 =>
    cases h
    rw [code_nil]
    rfl
  | case2 position c rest hlayout ih =>
    obtain ⟨hslash, hquote⟩ := not_isQuote_of_isLayout hlayout
    rw [code_cons hslash hquote, openBraces_layout hlayout, ih h]
  | case3 position c rest hlayout hcomment ih =>
    obtain ⟨rfl, hslash⟩ := hcomment
    rw [code_comment hslash, ih h]
  | case4 => cases h
  | case5 position c rest hlayout hcomment piece hcut _ ih =>
    obtain ⟨more, hmore, h⟩ := exists_of_bind_eq_ok h
    cases h
    obtain ⟨kind, lexeme, text, hsplit, htext, -, htoken, -⟩ := shows_of_cut hcut
    rw [hsplit, code_shows htext, openBraces_shows htext position, ih hmore, htoken,
      unclosed_cons (placed position kind lexeme text) more]

/-- The count of open braces agrees with the tokens but for comments.

For a text that is cut into tokens, the count is right for the text without its comments. If each
comment closes the quotes that it opens, then the count is too high by the braces that the comments
open. If these are none, then a session that has gathered the text waits for more lines exactly as
long as the tokens open more braces than they close. -/
theorem openBraces_of_scan {source : String} {tokens : List Token}
    (h : scan source = .ok tokens) :
    openBraces none (code source.toList) = unclosed tokens ∧
    ((∀ comment ∈ comments source.toList, ClosesQuotes comment) →
      openBraces none source.toList =
        unclosed tokens + ((comments source.toList).map (openBraces none)).sum ∧
      (openBraces none source.toList = unclosed tokens ↔
        ((comments source.toList).map (openBraces none)).sum = 0) ∧
      (((comments source.toList).map (openBraces none)).sum = 0 →
        ∀ (files : FileTree) (session : Interactive) (line : String),
          session.unfinished ++ line ++ "\n" = source →
          session.gather files line =
            if tokens.countP (·.kind = .rightBrace) < tokens.countP (·.kind = .leftBrace) then
              { session with unfinished := source }
            else { session with unfinished := "" }.enter files source)) := by
  have hcode : openBraces none (code source.toList) = unclosed tokens := openBraces_code h
  refine ⟨hcode, fun hclosed => ?_⟩
  have hcount := openBraces_eq_add_comments hclosed
  rw [hcode] at hcount
  refine ⟨hcount, by rw [hcount]; omega, fun hsum files session line hsource => ?_⟩
  rw [hsum, Int.add_zero] at hcount
  have hwaits : 0 < openBraces none source.toList ↔
      tokens.countP (·.kind = .rightBrace) < tokens.countP (·.kind = .leftBrace) := by
    rw [hcount, unclosed]
    omega
  unfold Interactive.gather
  simp only [hsource, hwaits]

/-- The first line of a function, with braces and quotes in a comment. -/
def functionLine : String := "function f() \x7b // a \"\x7b\" and \x7b\x7d\n"

/-- A line with a brace in a string. -/
def stringLine : String := "  var s = '\x7d\"'"

theorem openBraces_of_scan_two_lines :
    ∃ tokens, scan (functionLine ++ stringLine ++ "\n") = .ok tokens ∧
      openBraces none (functionLine ++ stringLine ++ "\n").toList = unclosed tokens ∧
      ∀ files, Interactive.gather files { state := {}, unfinished := functionLine } stringLine =
        { state := {}, unfinished := functionLine ++ stringLine ++ "\n" } := by
  have hfacts : (scan (functionLine ++ stringLine ++ "\n")).toOption.any (fun tokens =>
      decide (tokens.countP (·.kind = .rightBrace) < tokens.countP (·.kind = .leftBrace))) =
        true := by
    decide +kernel
  obtain ⟨tokens, hscan, hopen⟩ := (Option.any_eq_true _ _).mp hfacts
  have hclosed : (comments (functionLine ++ stringLine ++ "\n").toList).all
      (fun comment => decide (ClosesQuotes comment)) = true := by
    decide +kernel
  have hsum : ((comments (functionLine ++ stringLine ++ "\n").toList).map
      (openBraces none)).sum = 0 := by
    decide +kernel
  obtain ⟨-, hcount⟩ := openBraces_of_scan (eq_ok_of_toOption hscan)
  obtain ⟨-, hagrees, hgather⟩ := hcount fun comment hcomment =>
    of_decide_eq_true (List.all_eq_true.mp hclosed comment hcomment)
  refine ⟨tokens, eq_ok_of_toOption hscan, hagrees.mpr hsum, fun files => ?_⟩
  rw [hgather hsum files _ _ rfl, if_pos (of_decide_eq_true hopen)]

/-- The comment opens a brace, but there is none among the tokens. -/
theorem openBraces_ne_of_comment :
    ∃ tokens, scan "IO.print(1) // \x7b\n" = .ok tokens ∧
      tokens.countP (·.kind = .leftBrace) = 0 ∧ tokens.countP (·.kind = .rightBrace) = 0 ∧
      openBraces none "IO.print(1) // \x7b\n".toList = 1 := by
  have hfacts : (scan "IO.print(1) // \x7b\n").toOption.any (fun tokens =>
      decide (tokens.countP (·.kind = .leftBrace) = 0 ∧
        tokens.countP (·.kind = .rightBrace) = 0)) = true := by
    decide +kernel
  obtain ⟨tokens, hscan, hcounts⟩ := (Option.any_eq_true _ _).mp hfacts
  obtain ⟨hopen, hclose⟩ := of_decide_eq_true hcounts
  exact ⟨tokens, eq_ok_of_toOption hscan, hopen, hclose, by decide +kernel⟩

end Shell

end Scripting
