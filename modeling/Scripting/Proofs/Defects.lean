import Scripting.Proofs.Lossless

/-!
# Texts that cannot be cut

A text that cannot be cut into tokens has a defect: a character that starts no token, a string that
is not closed, or a word that starts with a digit and is no number. `Token.Defect` describes the
three without any order of reading, by what the defect is and what stands around it.

Main statement: cutting a text fails if and only if the text has a defect behind some text that can
be cut and does not end in a comment, and the error is the one of that defect at its place
(`Token.scan_eq_error_iff`). So the error is that of the first defect, and each defect that the
scanner gets to is found.

Both directions rest on the same fact. What stands behind a text that can be cut is cut on its own
(`Token.Complete`), unless a word of the text goes on in it or the text ends in a comment.
-/

namespace Scripting

namespace Token

/-! ## Defects -/

/-- The characters in the middle are a defect of the text, which is the cause of an error. -/
inductive Defect (before : List Char) : List Char → List Char → Cause → Prop
  /-- A character that starts neither a token nor a comment and is no blank. -/
  | character {c : Char} {after : List Char} (hword : ¬ isWordChar c) (hquote : ¬ isQuote c)
      (hmark : TokenKind.ofPunctuation? c = none) (hlayout : ¬ isLayout c)
      (hslash : c = '/' → after.head? ≠ some '/') :
      Defect before [c] after (.unexpectedCharacter c)
  /-- A quote that does not occur again, with all that stands behind it. -/
  | string {quote : Char} {inside : List Char} (hquote : isQuote quote) (hinside : quote ∉ inside) :
      Defect before (quote :: inside) [] .unterminatedString
  /-- A whole word that starts with a digit and does not have digits only. -/
  | word {word after : List Char} (hchars : ∀ c ∈ word, isWordChar c)
      (hstarts : ∀ c ∈ before.getLast?, ¬ isWordChar c) (hends : ∀ c ∈ after.head?, ¬ isWordChar c)
      (hdigit : ∃ c ∈ word.head?, c.isDigit) (hother : ∃ c ∈ word, ¬ c.isDigit) :
      Defect before word after (.invalidIdentifier (String.ofList word))

/-- The text ends in a comment that began behind some text that can be cut. -/
def EndsInComment (source : String) : Prop :=
  ∃ earlier text : String, source = earlier ++ "//" ++ text ∧ '\n' ∉ text.toList ∧
    ∃ tokens, scan earlier = .ok tokens

/-! ## Texts behind each other -/

/-- No word goes on from one text into the next. -/
def Parted (before after : List Char) : Prop :=
  ∀ c ∈ before.getLast?, isWordChar c → ∀ d ∈ after.head?, ¬ isWordChar d

section Parted

variable {before after more : List Char}

theorem parted_of_head? (h : ∀ d ∈ after.head?, ¬ isWordChar d) : Parted before after :=
  fun _ _ _ => h

theorem Parted.of_append (h : Parted (before ++ after) more) : Parted after more := by
  intro c hc
  refine h c ?_
  rw [List.getLast?_append, Option.mem_def.mp hc]
  rfl

/-- If there is nothing in between, the first text counts. -/
theorem Parted.append (h : Parted after more) (hbefore : after = [] → Parted before more) :
    Parted (before ++ after) more := by
  cases after with
  | nil =>
    rw [List.append_nil]
    exact hbefore rfl
  | cons d after =>
    intro c hc
    rw [List.getLast?_append_cons] at hc
    exact h c hc

end Parted

theorem Shows.getLast?_of_isWord {kind : TokenKind} {lexeme text : List Char}
    (h : Shows kind lexeme text) (hkind : kind.isWord) : ∃ c ∈ text.getLast?, isWordChar c := by
  cases h with
  | mark hmark => exact absurd hkind (by simp [(mark_facts hmark).2.2.2.1])
  | word hword =>
    obtain ⟨c, hc⟩ := Option.ne_none_iff_exists'.mp (mt List.getLast?_eq_none_iff.mp hword.nonempty)
    exact ⟨c, hc, hword.chars c (List.mem_of_getLast? hc)⟩
  | string => cases hkind

/-- Whatever follows the text is cut behind it as it is cut on its own, unless a word goes on. -/
def Complete (position : Position) (cs : List Char) (tokens : List Token) : Prop :=
  ∀ more, Parted cs more →
    scanFrom position (cs ++ more) = (scanFrom (position.after cs) more).map (tokens ++ ·)

section Complete

variable {position : Position} {cs gap text rest lexeme : List Char} {tokens : List Token}
  {kind : TokenKind}

theorem Complete.scanFrom_eq (h : Complete position cs tokens) :
    scanFrom position cs = .ok tokens := by
  have hend := h [] (parted_of_head? (by simp))
  rw [List.append_nil, scanFrom, Except.map, List.append_nil] at hend
  exact hend

theorem complete_nil (position : Position) : Complete position [] [] := by
  intro more _
  show scanFrom position more = (scanFrom position more).map _
  cases scanFrom position more <;> rfl

theorem Complete.layout (hgap : Layout gap) (h : Complete (position.after gap) rest tokens) :
    Complete position (gap ++ rest) tokens := by
  intro more hmore
  rw [List.append_assoc, scanFrom_layout hgap, h more hmore.of_append, Position.after_append]

/-- A comment that the line ends. -/
theorem Complete.comment (htext : '\n' ∉ text) (hrest : rest.head? = some '\n')
    (h : Complete (position.after ('/' :: '/' :: text)) rest tokens) :
    Complete position ('/' :: '/' :: text ++ rest) tokens := by
  obtain ⟨rest, rfl⟩ := List.head?_eq_some_iff.mp hrest
  intro more hmore
  have hline : '\n' ∉ '/' :: text := by simpa using htext
  have hlist : '/' :: '/' :: text ++ '\n' :: rest ++ more =
      '/' :: ('/' :: text ++ '\n' :: (rest ++ more)) := by simp
  rw [hlist, scanFrom, if_neg (by decide), if_pos ⟨rfl, rfl⟩, takeWhile_ne_append hline,
    dropWhile_ne_append hline, Position.after_append]
  exact h more hmore.of_append

theorem scanFrom_shows (htext : Shows kind lexeme text) (hends : Ends kind rest) :
    scanFrom position (text ++ rest) =
      (scanFrom (position.after text) rest).map (placed position kind lexeme text :: ·) := by
  obtain ⟨c, tail, rfl, hlayout, hslash⟩ := htext.exists_cons
  have hcut : cut position c (tail ++ rest) = _ := cut_of_shows htext hends
  rw [List.cons_append, scanFrom, if_neg hlayout, if_neg (not_comment hslash _)]
  split
  · next e he => cases hcut.symm.trans he
  · next piece hpiece =>
    cases hcut.symm.trans hpiece
    cases scanFrom (position.after (c :: tail)) rest <;> rfl

theorem Ends.of_append {more : List Char} (h : Ends kind (rest ++ more)) : Ends kind rest := by
  intro hkind c hc
  refine h hkind c ?_
  rw [List.head?_append, Option.mem_def.mp hc]
  rfl

theorem Complete.token (htext : Shows kind lexeme text) (hends : Ends kind rest)
    (h : Complete (position.after text) rest tokens) :
    Complete position (text ++ rest) (placed position kind lexeme text :: tokens) := by
  intro more hmore
  have hends' : Ends kind (rest ++ more) := by
    intro hkind d hd
    cases rest with
    | nil =>
      rw [List.append_nil] at hmore
      obtain ⟨c, hc, hword⟩ := htext.getLast?_of_isWord hkind
      exact hmore c hc hword d hd
    | cons first rest => exact hends hkind d hd
  rw [List.append_assoc, scanFrom_shows htext hends', h more hmore.of_append, Position.after_append]
  cases scanFrom ((position.after text).after rest) more <;> rfl

/-- A text that can be cut is complete, or else it ends in a comment behind a text that is. -/
theorem Rendered.complete_or (h : Rendered position cs tokens) :
    Complete position cs tokens ∨ ∃ earlier text, cs = earlier ++ '/' :: '/' :: text ∧
      '\n' ∉ text ∧ Complete position earlier tokens := by
  induction h with
  | @last position gap hgap =>
    cases hgap with
    | closed hgap =>
      rw [← List.append_nil gap]
      exact .inl ((complete_nil _).layout hgap)
    | @unclosed gap text hgap htext =>
      refine .inr ⟨gap, text, rfl, htext, ?_⟩
      rw [← List.append_nil gap]
      exact (complete_nil _).layout hgap
  | @token position gap text rest lexeme kind tokens hgap htext hends hrest ih =>
    rw [Position.after_append] at ih
    rcases ih with hcomplete | ⟨earlier, inside, rfl, hinside, hcomplete⟩
    · exact .inl ((hcomplete.token htext hends).layout hgap)
    · refine .inr ⟨gap ++ (text ++ earlier), inside, by simp, hinside, ?_⟩
      exact (hcomplete.token htext hends.of_append).layout hgap

end Complete

/-! ## The first defect -/

theorem Defect.parted {before bad after : List Char} {cause : Cause}
    (h : Defect before bad after cause) : Parted before (bad ++ after) := by
  cases h with
  | character hword =>
    refine parted_of_head? ?_
    rintro _ ⟨⟩
    exact hword
  | string hquote =>
    refine parted_of_head? ?_
    rintro _ ⟨⟩
    exact not_isWordChar_of_isQuote hquote
  | word _ hstarts => exact fun c hc hword => absurd hword (hstarts c hc)

theorem Defect.exists_cons {before bad after : List Char} {cause : Cause}
    (h : Defect before bad after cause) : ∃ c tail, bad = c :: tail ∧ ¬ isLayout c := by
  cases h with
  | character _ _ _ hlayout => exact ⟨_, _, rfl, hlayout⟩
  | string hquote => exact ⟨_, _, rfl, (not_isLayout_of_isQuote hquote).1⟩
  | word hchars _ _ hdigit =>
    obtain ⟨c, hc, -⟩ := hdigit
    obtain ⟨tail, rfl⟩ := List.head?_eq_some_iff.mp (Option.mem_def.mp hc)
    exact ⟨c, tail, rfl, (not_isLayout_of_isWordChar (hchars c List.mem_cons_self)).1⟩

/-- A defect is one also with more text before it, if it is not part of a word that begins there. -/
theorem Defect.behind {before earlier bad after : List Char} {cause : Cause}
    (h : Defect before bad after cause) (hparted : Parted earlier (bad ++ after)) :
    Defect earlier bad after cause := by
  cases h with
  | character hword hquote hmark hlayout hslash =>
    exact .character hword hquote hmark hlayout hslash
  | string hquote hinside => exact .string hquote hinside
  | word hchars _ hends hdigit hother =>
    refine .word hchars (fun c hc hword => ?_) hends hdigit hother
    obtain ⟨d, hd, -⟩ := hdigit
    obtain ⟨tail, rfl⟩ := List.head?_eq_some_iff.mp (Option.mem_def.mp hd)
    exact hparted c hc hword d rfl (hchars d List.mem_cons_self)

theorem wordKind?_eq_none_iff {word : List Char} :
    wordKind? word = none ↔ (∃ c ∈ word.head?, c.isDigit) ∧ ∃ c ∈ word, ¬ c.isDigit := by
  have hdigit : (∃ c ∈ word.head?, c.isDigit) ↔ word.head?.any Char.isDigit :=
    (Option.any_eq_true _ _).symm
  have hother : (∃ c ∈ word, ¬ c.isDigit) ↔ ¬ word.all Char.isDigit := by
    simp only [List.all_eq_true, not_forall, exists_prop]
  rw [hdigit, hother]
  unfold wordKind?
  split
  · next hall => simp [hall]
  · next hall =>
    split
    · next hstart => simp [hall, hstart]
    · next hstart => split <;> simp [hstart]

/-- What is wrong where no token can be cut. -/
theorem defect_of_cut {position : Position} {c : Char} {rest : List Char} {e : Error}
    (hlayout : ¬ isLayout c) (hcomment : ¬ (c = '/' ∧ rest.head? = some '/'))
    (h : cut position c rest = .error e) :
    ∃ bad after cause, c :: rest = bad ++ after ∧ Defect [] bad after cause ∧
      e = .locate cause (position.upTo (position.after bad)) := by
  unfold cut at h
  split at h
  · cases h
  · next hmark =>
    split at h
    · next hquote =>
      unfold cutString at h
      dsimp only at h
      split at h
      · next hclose =>
        cases h
        have hsplit := List.takeWhile_append_dropWhile (p := (decide <| · ≠ c)) (l := rest)
        rw [hclose, List.append_nil] at hsplit
        have hinside : c ∉ rest := by
          rw [← hsplit]
          exact notMem_takeWhile_ne c rest
        refine ⟨c :: rest, [], _, (List.append_nil _).symm, .string hquote hinside, ?_⟩
        rw [hsplit, Position.after_cons]
      · cases h
    · next hquote =>
      split at h
      · next hword =>
        unfold cutWord at h
        dsimp only at h
        split at h
        · cases h
        · next hkind =>
          cases h
          refine ⟨c :: rest.takeWhile isWordChar, rest.dropWhile isWordChar, _, ?_,
            .word ?_ (by simp) ?_ ?_ ?_, rfl⟩
          · rw [List.cons_append, List.takeWhile_append_dropWhile]
          · exact List.forall_mem_cons.mpr ⟨hword, fun x => List.mem_takeWhile_imp⟩
          · intro d hd
            have hhead := List.head?_dropWhile_not isWordChar rest
            rw [Option.mem_def.mp hd] at hhead
            simpa using hhead
          · exact (wordKind?_eq_none_iff.mp hkind).1
          · exact (wordKind?_eq_none_iff.mp hkind).2
      · next hword =>
        cases h
        refine ⟨[c], rest, _, rfl,
          .character hword hquote hmark hlayout fun hslash hhead => ?_, rfl⟩
        exact hcomment ⟨hslash, hhead⟩

/-- The error of the scanner is the one of a defect behind text that is complete. The induction
follows the scanner, and what it has read is put in front of what stands before the defect. -/
theorem defect_of_scanFrom {position : Position} {cs : List Char} {e : Error}
    (h : scanFrom position cs = .error e) :
    ∃ before bad after cause tokens, cs = before ++ (bad ++ after) ∧
      Complete position before tokens ∧ Defect before bad after cause ∧
      e = .locate cause ((position.after before).upTo ((position.after before).after bad)) := by
  fun_induction scanFrom position cs with
  | case1 => cases h
  | case2 position c rest hlayout ih =>
    obtain ⟨before, bad, after, cause, tokens, rfl, hcomplete, hdefect, rfl⟩ := ih h
    have hparted : Parted ([c] ++ before) (bad ++ after) := by
      refine hdefect.parted.append fun _ d hd hword => ?_
      cases hd
      exact absurd hword (not_isWordChar_of_isLayout hlayout)
    exact ⟨c :: before, bad, after, cause, tokens, rfl, hcomplete.layout (.blank hlayout .nil),
      hdefect.behind hparted, rfl⟩
  | case3 position c rest _ hcomment ih =>
    obtain ⟨rfl, hslash⟩ := hcomment
    obtain ⟨text, rfl⟩ := List.head?_eq_some_iff.mp hslash
    have htake : ('/' :: text).takeWhile (· ≠ '\n') = '/' :: text.takeWhile (· ≠ '\n') := rfl
    obtain ⟨before, bad, after, cause, tokens, hrest, hcomplete, hdefect, rfl⟩ := ih h
    rw [htake] at hcomplete
    have hfeed : before.head? = some '\n' := by
      have hhead := List.head?_dropWhile_not (· ≠ '\n') ('/' :: text)
      rw [hrest] at hhead
      cases before with
      | nil =>
        obtain ⟨c, tail, rfl, hlayout⟩ := hdefect.exists_cons
        have hc : c = '\n' := by simpa using hhead
        exact absurd (hc ▸ rfl) hlayout
      | cons c before => simpa using hhead
    have hparted : Parted ('/' :: '/' :: text.takeWhile (· ≠ '\n') ++ before) (bad ++ after) :=
      hdefect.parted.append fun hnil => by rw [hnil] at hfeed; cases hfeed
    refine ⟨_, bad, after, cause, tokens, ?_,
      hcomplete.comment (notMem_takeWhile_ne '\n' text) hfeed, hdefect.behind hparted, ?_⟩
    · rw [List.append_assoc, ← hrest]
      have hline := List.takeWhile_append_dropWhile (p := (decide <| · ≠ '\n')) (l := '/' :: text)
      exact congrArg ('/' :: ·) hline.symm
    · rw [Position.after_append]
      rfl
  | case4 position c rest hlayout hcomment error hcut =>
    cases h
    obtain ⟨bad, after, cause, hsplit, hdefect, rfl⟩ := defect_of_cut hlayout hcomment hcut
    exact ⟨[], bad, after, cause, [], hsplit, complete_nil position, hdefect, rfl⟩
  | case5 position c rest _ _ piece hcut _ ih =>
    obtain ⟨kind, lexeme, text, hsplit, htext, hends, -, hstop⟩ := shows_of_cut hcut
    obtain ⟨before, bad, after, cause, tokens, hrest, hcomplete, hdefect, rfl⟩ :=
      ih (eq_error_of_bind_pure h)
    rw [hrest] at hends
    have hparted : Parted (text ++ before) (bad ++ after) := by
      refine hdefect.parted.append fun hnil d hd hword => ?_
      by_cases hkind : kind.isWord
      · rw [hnil, List.nil_append] at hends
        exact hends hkind
      · exact absurd hword (htext.getLast?_of_not_isWord hkind d hd)
    rw [hstop] at hcomplete
    refine ⟨text ++ before, bad, after, cause, _, ?_, hcomplete.token htext hends.of_append,
      hdefect.behind hparted, ?_⟩
    · rw [hsplit, hrest, List.append_assoc]
    · rw [hstop, Position.after_append]

/-- A defect is where the scanner stops. -/
theorem scanFrom_defect {before bad after : List Char} {cause : Cause}
    (h : Defect before bad after cause) (position : Position) :
    scanFrom position (bad ++ after) =
      .error (.locate cause (position.upTo (position.after bad))) := by
  cases h with
  | @character c _ hword hquote hmark hlayout hslash =>
    refine scanFrom_of_cut_error hlayout (fun h => hslash h.1 h.2) ?_
    unfold cut
    rw [hmark]
    dsimp only
    rw [if_neg hquote, if_neg hword]
    rfl
  | @string quote inside hquote hinside =>
    obtain ⟨hlayout, hslash⟩ := not_isLayout_of_isQuote hquote
    rw [List.append_nil]
    refine scanFrom_of_cut_error hlayout (not_comment hslash _) ?_
    have hall : ∀ c ∈ inside, decide (c ≠ quote) := fun c hc => by
      simpa using ne_of_mem_of_not_mem hc hinside
    unfold cut
    rw [ofPunctuation?_eq_none (.inl hquote)]
    dsimp only
    rw [if_pos hquote, cutString, List.takeWhile_eq_self_iff.mpr hall,
      List.dropWhile_eq_nil_iff.mpr hall]
    rfl
  | @word word _ hchars _ hends hdigit hother =>
    obtain ⟨c, hc, -⟩ := id hdigit
    obtain ⟨tail, rfl⟩ := List.head?_eq_some_iff.mp (Option.mem_def.mp hc)
    obtain ⟨hword, htail⟩ := List.forall_mem_cons.mp hchars
    obtain ⟨hlayout, hslash⟩ := not_isLayout_of_isWordChar hword
    obtain ⟨htake, -⟩ := takeWhile_append_of_ends htail hends
    rw [List.cons_append]
    refine scanFrom_of_cut_error hlayout (not_comment hslash _) ?_
    unfold cut
    rw [ofPunctuation?_eq_none (.inr hword)]
    dsimp only
    rw [if_neg fun hquote => not_isWordChar_of_isQuote hquote hword, if_pos hword, cutWord, htake]
    simp only [wordKind?_eq_none_iff.mpr ⟨hdigit, hother⟩]

/-! ## Errors of cutting -/

/-- A text that can be cut and does not end in a comment is complete. -/
theorem complete_of_scan {source : String} {tokens : List Token} (h : scan source = .ok tokens)
    (hcomment : ¬ EndsInComment source) : Complete {} source.toList tokens := by
  rcases (scanFrom_eq_ok_iff.mp h).complete_or with
    hcomplete | ⟨earlier, text, hsource, htext, hcomplete⟩
  · exact hcomplete
  · have hsplit : source.toList = earlier ++ (['/', '/'] ++ text) := hsource
    refine absurd ⟨String.ofList earlier, String.ofList text, eq_append_of_toList hsplit, ?_,
      tokens,
      ?_⟩ hcomment
    · rwa [String.toList_ofList]
    · rw [scan, String.toList_ofList]
      exact hcomplete.scanFrom_eq

/-- A text that ends in a comment is not complete: a character that starts no token can follow it.
-/
theorem Complete.not_endsInComment {source : String} {tokens : List Token}
    (h : Complete {} source.toList tokens) : ¬ EndsInComment source := by
  rintro ⟨earlier, text, rfl, htext, others, hearlier⟩
  obtain ⟨before, inside, hsplit, hinside, hbefore⟩ : ∃ before inside,
      (earlier ++ "//" ++ text).toList = before ++ '/' :: '/' :: inside ∧ '\n' ∉ inside ∧
        Complete {} before others := by
    rw [String.toList_append, String.toList_append, List.append_assoc]
    rcases (scanFrom_eq_ok_iff.mp hearlier).complete_or with
      hcomplete | ⟨before, inside, hsplit, hinside, hcomplete⟩
    · exact ⟨earlier.toList, text.toList, rfl, htext, hcomplete⟩
    · -- the comment began earlier, and goes on
      refine ⟨before, inside ++ '/' :: '/' :: text.toList, ?_, by simp [hinside, htext], hcomplete⟩
      rw [hsplit, List.append_assoc]
      rfl
  have hdefect : Defect (earlier ++ "//" ++ text).toList ['#'] [] (.unexpectedCharacter '#') :=
    .character (by decide) (by decide) rfl (by decide) (by decide)
  have hfails := h _ hdefect.parted
  rw [scanFrom_defect hdefect, hsplit, List.append_assoc] at hfails
  have hgoes := hbefore ('/' :: '/' :: (inside ++ ['#'])) (parted_of_head? (by simp; decide))
  have hline : Remainder ('/' :: '/' :: (inside ++ ['#'])) :=
    Remainder.unclosed .nil (by simp [hinside])
  rw [scanFrom_remainder hline] at hgoes
  cases hfails.symm.trans hgoes

/-- Cutting a text into tokens fails at its first defect.

If a text cannot be cut, then it has a defect behind some text that can be cut and does not end in a
comment. The error says what is wrong and has the place of the defect, with the line and the column
counted from the text before. The other way round, a defect that stands behind such a text is what
the error is about, whatever comes after it. -/
theorem scan_eq_error_iff {source : String} {e : Error} :
    scan source = .error e ↔ ∃ (before bad after : String) (cause : Cause),
      source = before ++ bad ++ after ∧ (∃ tokens, scan before = .ok tokens) ∧
      ¬ EndsInComment before ∧ Defect before.toList bad.toList after.toList cause ∧
      e = .locate cause (.behind before bad) := by
  constructor
  · intro h
    obtain ⟨before, bad, after, cause, tokens, hsource, hcomplete, hdefect, rfl⟩ :=
      defect_of_scanFrom h
    refine ⟨_, _, _, cause, eq_append_of_toList hsource, ⟨tokens, ?_⟩, ?_, ?_, ?_⟩
    · rw [scan, String.toList_ofList]
      exact hcomplete.scanFrom_eq
    · rw [← String.toList_ofList (l := before)] at hcomplete
      exact hcomplete.not_endsInComment
    · simpa only [String.toList_ofList] using hdefect
    · rw [Position.upTo_eq_behind]
  · rintro ⟨before, bad, after, cause, rfl, ⟨tokens, hbefore⟩, hcomment, hdefect, rfl⟩
    have hcomplete := complete_of_scan hbefore hcomment
    rw [scan, String.toList_append, String.toList_append, List.append_assoc,
      hcomplete _ hdefect.parted, scanFrom_defect hdefect, Position.upTo_eq_behind]
    simp only [String.ofList_toList]
    rfl

end Token

end Scripting
