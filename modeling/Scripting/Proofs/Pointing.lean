import Scripting.Proofs.Attribution
import Scripting.Proofs.ImportGraph
import Scripting.Proofs.Lossless

/-!
# Errors of loading point at characters

A script that cannot be loaded is refused for one character of one file. That the text cannot be cut
goes back to a character that starts no token. All other errors point at tokens, and so at their
first characters. Imports that lead to other files change the text that is pointed into, and the
error is given the file on its way out.

The characters are no blanks. So they are part of the lines that errors quote, though the counting of
lines and columns and the cutting of a text into lines know nothing of each other
(`Span.PointsAt.exists_line`).
-/

namespace Scripting

/-! ## Lines -/

namespace Text

/-- What stands in the last line. -/
def lastLine (cs : List Char) : List Char := (cs.reverse.takeWhile (· ≠ '\n')).reverse

theorem lastLine_of_notMem {cs : List Char} (h : '\n' ∉ cs) : lastLine cs = cs := by
  have hall : cs.reverse.takeWhile (· ≠ '\n') = cs.reverse := by
    refine List.takeWhile_eq_self_iff.mpr fun c hc => ?_
    simpa using ne_of_mem_of_not_mem (List.mem_reverse.mp hc) h
  rw [lastLine, hall, List.reverse_reverse]

/-- What stands before a line feed does not matter. -/
theorem lastLine_append_newline (cs ds : List Char) :
    lastLine (cs ++ '\n' :: ds) = lastLine ds := by
  rw [lastLine, List.reverse_append, List.reverse_cons, List.append_assoc, List.singleton_append,
    Token.takeWhile_append_cons (by simp)]
  rfl

theorem lastLine_cons_of_mem {cs : List Char} (h : '\n' ∈ cs) (c : Char) :
    lastLine (c :: cs) = lastLine cs := by
  obtain ⟨before, after, rfl⟩ := List.append_of_mem h
  rw [← List.cons_append, lastLine_append_newline, lastLine_append_newline]

/-- Lines do not hold line feeds. -/
theorem newline_notMem_of_mem_cutLines {cs line : List Char} (h : line ∈ cutLines cs) :
    '\n' ∉ line := by
  fun_induction cutLines cs generalizing line with
  | case1 => cases h
  | case2 rest ih | case3 rest ih =>
    rcases List.mem_cons.mp h with rfl | h
    · exact List.not_mem_nil
    · exact ih h
  | case4 c rest _ hc =>
    rw [List.mem_singleton.mp h, List.mem_singleton]
    exact fun heq => hc heq.symm
  | case5 c rest _ hc first lines hrest ih =>
    rw [hrest] at ih
    rcases List.mem_cons.mp h with rfl | h
    · rw [List.mem_cons, not_or]
      exact ⟨fun heq => hc heq.symm, ih List.mem_cons_self⟩
    · exact ih (List.mem_cons_of_mem _ h)

/-- A character that is part of no line ending stands in the line that the line feeds before it count
to, behind what stands before it in that line. -/
theorem exists_line_of_append {before after : List Char} {c : Char} (hnewline : c ≠ '\n')
    (hreturn : c ≠ '\r') :
    ∃ tail, (cutLines (before ++ c :: after))[before.count '\n']? =
      some (lastLine before ++ c :: tail) := by
  generalize hcs : before ++ c :: after = cs
  -- the induction is on the lines, and the text before the character grows with them
  fun_induction cutLines cs generalizing before with
  | case1 => simp at hcs
  | case2 rest ih =>
    cases before with
    | nil => exact absurd (List.cons.inj hcs).1 hreturn
    | cons first before =>
      obtain ⟨rfl, htail⟩ := List.cons.inj hcs
      cases before with
      | nil => exact absurd (List.cons.inj htail).1 hnewline
      | cons second before =>
        obtain ⟨rfl, hrest⟩ := List.cons.inj htail
        have hline : lastLine ('\r' :: '\n' :: before) = lastLine before :=
          lastLine_append_newline ['\r'] before
        rw [hline]
        simpa using ih hrest
  | case3 rest ih =>
    cases before with
    | nil => exact absurd (List.cons.inj hcs).1 hnewline
    | cons first before =>
      obtain ⟨rfl, hrest⟩ := List.cons.inj hcs
      have hline : lastLine ('\n' :: before) = lastLine before := lastLine_append_newline [] before
      rw [hline]
      simpa using ih hrest
  | case4 d rest _ hd hlines ih =>
    cases before with
    | nil =>
      obtain ⟨rfl, -⟩ := List.cons.inj hcs
      exact ⟨[], rfl⟩
    | cons first before =>
      obtain ⟨tail, htail⟩ := ih (List.cons.inj hcs).2
      rw [hlines] at htail
      cases htail
  | case5 d rest _ hd line lines hlines ih =>
    cases before with
    | nil =>
      obtain ⟨rfl, -⟩ := List.cons.inj hcs
      exact ⟨line, rfl⟩
    | cons first before =>
      obtain ⟨rfl, hrest⟩ := List.cons.inj hcs
      obtain ⟨tail, htail⟩ := ih hrest
      rw [hlines] at htail
      refine ⟨tail, ?_⟩
      rw [List.count_cons_of_ne hd]
      by_cases hmem : '\n' ∈ before
      · obtain ⟨k, hk⟩ := Nat.exists_eq_succ_of_ne_zero (List.count_pos_iff.mpr hmem).ne'
        rw [hk, List.getElem?_cons_succ] at htail ⊢
        rw [htail, lastLine_cons_of_mem hmem]
      · have hfirst : '\n' ∉ first :: before := by
          rw [List.mem_cons, not_or]
          exact ⟨fun heq => hd heq.symm, hmem⟩
        rw [List.count_eq_zero.mpr hmem, List.getElem?_cons_zero, Option.some.injEq] at htail ⊢
        rw [htail, lastLine_of_notMem hmem, lastLine_of_notMem hfirst, List.cons_append]

end Text

/-! ## Characters that are pointed at -/

/-- The span starts at the character: so many bytes of the text stand before it, and the line and the
column are those that it has in the text. -/
def Span.PointsAt (span : Span) (source : String) (c : Char) : Prop :=
  ∃ before after : String, source = before ++ String.singleton c ++ after ∧
    span.start = before.utf8ByteSize ∧ span.line = 1 + before.toList.count '\n' ∧
    span.column = 1 + (Text.lastLine before.toList).length

theorem Position.pointsAt_upTo {source : String} {before after : List Char} {c : Char}
    (h : source.toList = before ++ c :: after) (stop : Position) :
    ((({} : Position).after before).upTo stop).PointsAt source c := by
  refine ⟨String.ofList before, String.ofList after, Token.eq_append_of_toList h,
    Token.offset_after_start before, ?_, ?_⟩
  · rw [String.toList_ofList]
    exact line_after {} before
  · rw [String.toList_ofList, Text.lastLine, List.length_reverse]
    exact column_after before

/-- The character that a span points at is quoted with its line, in the column of the span. -/
theorem Span.PointsAt.exists_line {span : Span} {source : String} {c : Char}
    (h : span.PointsAt source c) (hc : ¬ Token.isLayout c) :
    ∃ line, Text.line? source span.line = some line ∧ '\n' ∉ line.toList ∧
      line.toList[span.column - 1]? = some c := by
  obtain ⟨before, after, hsource, -, hline, hcolumn⟩ := h
  have hnewline : c ≠ '\n' := by
    rintro rfl
    exact hc rfl
  have hreturn : c ≠ '\r' := by
    rintro rfl
    exact hc rfl
  have htext : source.toList = before.toList ++ c :: after.toList := by
    rw [hsource]
    simp
  obtain ⟨tail, htail⟩ :=
    @Text.exists_line_of_append before.toList after.toList c hnewline hreturn
  rw [← htext] at htail
  refine ⟨String.ofList (Text.lastLine before.toList ++ c :: tail), ?_, ?_, ?_⟩
  · rw [Text.line?, hline, if_neg (by omega), Nat.add_sub_cancel_left, Text.lines,
      List.getElem?_map, htail]
    rfl
  · rw [String.toList_ofList]
    exact Text.newline_notMem_of_mem_cutLines (List.mem_of_getElem? htail)
  · rw [String.toList_ofList, hcolumn, Nat.add_sub_cancel_left]
    simp

/-! ## Cutting -/

namespace Token

theorem exists_of_cut_error {position : Position} {c : Char} {rest : List Char} {e : Error}
    (h : cut position c rest = .error e) : ∃ cause stop, e = .locate cause (position.upTo stop) := by
  unfold cut at h
  split at h
  · cases h
  · split at h
    · unfold cutString at h
      dsimp only at h
      split at h
      · cases h
        exact ⟨_, _, rfl⟩
      · cases h
    · split at h
      · unfold cutWord at h
        dsimp only at h
        split at h
        · cases h
        · cases h
          exact ⟨_, _, rfl⟩
      · cases h
        exact ⟨_, _, rfl⟩

/-- What cannot be cut starts with a character that is no blank. -/
theorem exists_of_scanFrom_error {position : Position} {cs : List Char} {e : Error}
    (h : scanFrom position cs = .error e) :
    ∃ before c after cause stop, cs = before ++ c :: after ∧ ¬ isLayout c ∧
      e = .locate cause ((position.after before).upTo stop) := by
  fun_induction scanFrom position cs with
  | case1 => cases h
  | case2 position d rest _ ih =>
    obtain ⟨before, c, after, cause, stop, rfl, hc, rfl⟩ := ih h
    exact ⟨d :: before, c, after, cause, stop, rfl, hc, rfl⟩
  | case3 position d rest _ _ ih =>
    obtain ⟨before, c, after, cause, stop, hrest, hc, rfl⟩ := ih h
    refine ⟨d :: (rest.takeWhile (· ≠ '\n') ++ before), c, after, cause, stop, ?_, hc, ?_⟩
    · rw [List.cons_append, List.append_assoc, ← hrest, List.takeWhile_append_dropWhile]
    · rw [Position.after_cons, Position.after_append]
  | case4 position d rest hlayout _ error hcut =>
    cases h
    obtain ⟨cause, stop, rfl⟩ := exists_of_cut_error hcut
    exact ⟨[], d, rest, cause, stop, rfl, hlayout, rfl⟩
  | case5 position d rest _ _ piece hcut _ ih =>
    obtain ⟨_, _, text, htext, -, -, -, hstop⟩ := shows_of_cut hcut
    obtain ⟨before, c, after, cause, stop, hrest, hc, rfl⟩ := ih (eq_error_of_bind_pure h)
    refine ⟨text ++ before, c, after, cause, stop, ?_, hc, ?_⟩
    · rw [htext, hrest, List.append_assoc]
    · rw [hstop, Position.after_append]

/-- A token starts with a character that is no blank. -/
theorem exists_pointsAt_of_scan {source : String} {tokens : List Token}
    (h : scan source = .ok tokens) {token : Token} (htoken : token ∈ tokens) :
    ∃ c, token.span.PointsAt source c ∧ ¬ isLayout c := by
  have hrendered : Rendered {} source.toList tokens := scanFrom_eq_ok_iff.mp h
  obtain ⟨before, text, after, lexeme, hsource, hplaced, hshown, -⟩ :=
    hrendered.exists_text token htoken
  obtain ⟨c, tail, rfl, hc, -⟩ := hshown.exists_cons
  rw [hplaced]
  exact ⟨c, Position.pointsAt_upTo hsource _, hc⟩

end Token

/-! ## Loading -/

namespace Reading

/-- The text is refused for one of its own characters, which is no blank. The error does not name a
file yet. -/
structure RefusedAt (reading : Reading) (cause : Cause) (span : Span) (c : Char) : Prop where
  load : Loader.load reading = .error (.locate cause span)
  pointsAt : span.PointsAt reading.source c
  notLayout : ¬ Token.isLayout c

/-- The errors with which a text is refused: for a character of its own, or for one of a file that
its imports lead to. -/
inductive Refusal (outer : Reading) : Error → Prop
  | here {cause : Cause} {span : Span} {c : Char} (h : outer.RefusedAt cause span c) :
      Refusal outer (.locate cause span)
  | file {places : List Place} {inner : Reading} {file : SourceFile} {cause : Cause} {span : Span}
      {c : Char} (hwithin : outer.Within places inner) (hfile : inner.loader.file = some file)
      (hsource : inner.source = file.source)
      (hread : outer.loader.files.readPath file.path = .ok file.source)
      (h : inner.RefusedAt cause span c) :
      Refusal outer ((Error.locate cause span).inFile file.path file.source)

/-- On its way out of an imported file, the error gets to name the file if it names none. -/
theorem Refusal.inFile {outer : Reading} {file : SourceFile} {place : Place} {e : Error}
    (h : Refusal ⟨outer.loader.forImport file place, file.source⟩ e)
    (hopens : outer.Opens place ⟨outer.loader.forImport file place, file.source⟩)
    (hread : outer.loader.files.readPath file.path = .ok file.source) :
    outer.Refusal (e.inFile file.path file.source) := by
  cases h with
  | here h => exact .file (.deeper .here hopens) rfl rfl hread h
  | file hwithin hfile hsource hinner h =>
    exact .file (hwithin.first hopens) hfile hsource hinner h

/-- The induction is on the files that the imports lead to. -/
theorem refusal_of_load {reading : Reading} {e : Error} (h : Loader.load reading = .error e) :
    reading.Refusal e := by
  induction reading using wellFounded_opens.induction generalizing e with
  | _ reading ih =>
    have hparsed := h
    unfold Loader.load Loader.ofSource at hparsed
    cases hscan : Token.scan reading.source with
    | error raised =>
      rw [hscan] at hparsed
      cases hparsed
      obtain ⟨before, c, after, cause, stop, hsource, hc, rfl⟩ :=
        Token.exists_of_scanFrom_error hscan
      exact .here ⟨h, Position.pointsAt_upTo hsource stop, hc⟩
    | ok tokens =>
      rw [hscan] at hparsed
      have hhere : ∀ token ∈ tokens, ∀ cause, e = .locate cause token.span → reading.Refusal e := by
        rintro token htoken cause rfl
        obtain ⟨c, hpoints, hc⟩ := Token.exists_pointsAt_of_scan hscan htoken
        exact .here ⟨h, hpoints, hc⟩
      have hrefusal : Program.Refusal reading.loader.resolve tokens e :=
        Program.refusal_of_ofTokens hparsed
      cases hrefusal with
      | syntactic hmem => exact hhere _ hmem _ rfl
      | @unresolved target _ htarget herror =>
        obtain ⟨_, found, hpair, -, -, -, hspan⟩ := id htarget
        have hfound : found ∈ tokens := hpair.subset (by simp)
        have hresolved := Loader.resolved_resolve reading.loader target
        rw [herror] at hresolved
        cases hresolved with
        | ambiguous | missing | circular | unreadable | empty =>
          exact hhere found hfound _ (by rw [hspan])
        | refused hopens hload =>
          have hstep : reading.Opens _ _ := .mk hscan htarget hopens
          exact (ih _ ⟨_, hstep⟩ hload).inFile hstep hopens.readPath

end Reading

/-! ## Running a file -/

theorem runFile_of_load_error {files : FileTree} {path source : String} {base? : Option String}
    {raised : Error} (hread : files.readPath path = .ok source)
    (hload : (Loader.ofScript files path base?).ofSource source = .error raised)
    (console : Console) (order : Order) :
    (runFile files path base? console order).1 = .error (raised.withSource source) := by
  unfold runFile
  rw [hread]
  show (State.executeLoaded _ ((Loader.ofScript files path base?).ofSource source)).1.mapError _ = _
  rw [hload]
  rfl

/-- The quoted line stands under everything else, and the caret under the line. -/
theorem Error.exists_text_eq {e : Error} {span : Span} {line : String} (hspan : e.span = some span)
    (hline : e.sourceLine = some line) :
    ∃ head, e.text = head ++ "\n  | " ++ line ++ "\n  | " ++
      String.ofList (List.replicate (span.column - 1) ' ') ++ "^" := by
  rw [text, hspan, hline]
  simp only [← String.append_assoc]
  exact ⟨_, rfl⟩

/-- Errors of loading point at the right character of the right file.

A script that can be read and then cannot be cut into tokens or parsed, be it for its own text or for
that of a file that its imports lead to, fails with an error that has a place. The place is that of a
character in the text that is refused, and this is the text of the file which the error names, or of
the script if it names none. The error quotes the line of the character, which stands in it at the
column of the error. So the caret stands under the character. -/
theorem load_errors_point_at_character {files : FileTree} {path source : String}
    {base? : Option String} {raised : Error} (hread : files.readPath path = .ok source)
    (hload : (Loader.ofScript files path base?).ofSource source = .error raised)
    (console : Console) (order : Order) :
    ∃ (places : List Place) (refused : Reading) (e : Error) (span : Span) (c : Char)
        (line head : String),
      Reading.Within ⟨Loader.ofScript files path base?, source⟩ places refused ∧
      Loader.load refused = .error (.locate raised.cause span) ∧
      (runFile files path base? console order).1 = .error e ∧
      e.cause = raised.cause ∧ e.span = some span ∧
      e.file = refused.loader.file.map SourceFile.path ∧
      files.readPath (e.file.getD path) = .ok refused.source ∧
      span.PointsAt refused.source c ∧
      e.sourceLine = some line ∧ Text.line? refused.source span.line = some line ∧
      '\n' ∉ line.toList ∧ line.toList[span.column - 1]? = some c ∧
      e.text = head ++ "\n  | " ++ line ++ "\n  | " ++
        String.ofList (List.replicate (span.column - 1) ' ') ++ "^" := by
  have hruns := runFile_of_load_error hread hload console order
  have hrefusal : Reading.Refusal ⟨Loader.ofScript files path base?, source⟩ raised :=
    Reading.refusal_of_load hload
  cases hrefusal with
  | @here cause span c h =>
    obtain ⟨line, hline, hnewline, hc⟩ := h.pointsAt.exists_line h.notLayout
    obtain ⟨head, hhead⟩ := Error.exists_text_eq
      (e := (Error.locate cause span).withSource source) rfl hline
    exact ⟨[], _, _, span, c, line, head, .here, h.load, hruns, rfl, rfl, rfl, hread, h.pointsAt,
      hline, hline, hnewline, hc, hhead⟩
  | @file places refused file cause span c hwithin hfile hsource hnamed h =>
    obtain ⟨line, hline, hnewline, hc⟩ := h.pointsAt.exists_line h.notLayout
    have hquoted := hline
    rw [hsource] at hquoted
    obtain ⟨head, hhead⟩ := Error.exists_text_eq
      (e := (Error.locate cause span).inFile file.path file.source) rfl hquoted
    refine ⟨places, refused, _, span, c, line, head, hwithin, h.load, hruns, rfl, rfl, ?_, ?_,
      h.pointsAt, hquoted, hline, hnewline, hc, hhead⟩
    · rw [hfile]
      rfl
    · rw [hsource]
      exact hnamed

/-- A file with a call that breaks off before the body of the function is over. -/
def brokenOffText : String := "export function f() \x7b\r\n  return g(\"é\", \r\n\x7d\r\n"

/-- A script that imports the file by way of another one. -/
def brokenOffFiles : FileTree where
  entries :=
    [(["main.mrk"], .text "import \"lib/outer.mrk\"\n"),
      (["lib", "outer.mrk"], .text "\nimport \"inner.mrk\"\n"),
      (["lib", "inner.mrk"], .text brokenOffText)]

/-- The error points at the comma with which the call breaks off. -/
theorem load_errors_point_at_character_broken_off :
    ∃ e, (runFile brokenOffFiles "main.mrk" none {}).1 = .error e ∧
      e.file = some "lib/inner.mrk" ∧
      e.span = some { start := 38, stop := 39, line := 2, column := 15 } ∧
      Span.PointsAt { start := 38, stop := 39, line := 2, column := 15 } brokenOffText ',' ∧
      e.sourceLine = some "  return g(\"é\", " := by
  have hread : brokenOffFiles.readPath "main.mrk" = .ok "import \"lib/outer.mrk\"\n" := by
    decide +kernel
  have hinner : brokenOffFiles.readPath "lib/inner.mrk" = .ok brokenOffText := by decide +kernel
  have hrefused : (((Loader.ofScript brokenOffFiles "main.mrk" none).ofSource
      "import \"lib/outer.mrk\"\n" >>= fun _ => pure ()).mapError Error.file) =
        .error (some "lib/inner.mrk") := by
    decide +kernel
  have hfacts : (runFile brokenOffFiles "main.mrk" none {}).1.mapError
      (fun e => (e.span, e.file, e.sourceLine)) =
        .error (some ⟨38, 39, 2, 15⟩, some "lib/inner.mrk", some "  return g(\"é\", ") := by
    decide +kernel
  have hcomma : "  return g(\"é\", ".toList[14]? = some ',' := by decide +kernel
  obtain ⟨raised, hbind, -⟩ := exists_of_mapError_eq_error hrefused
  obtain ⟨_, refused, e, span, c, line, _, -, -, hruns, -, hspan, -, hsource, hpoints, hline, -, -,
    hc, -⟩ := load_errors_point_at_character hread (eq_error_of_bind_pure hbind) {} .rotating
  rw [hruns] at hfacts
  obtain ⟨hplace, hrest⟩ := Prod.mk.inj (Except.error.inj hfacts)
  obtain ⟨hfile, hquoted⟩ := Prod.mk.inj hrest
  rw [hfile, Option.getD_some, hinner] at hsource
  rw [← Except.ok.inj hsource] at hpoints
  cases Option.some.inj (hplace.symm.trans hspan)
  cases Option.some.inj (hquoted.symm.trans hline)
  cases Option.some.inj (hcomma.symm.trans hc)
  exact ⟨e, hruns, hfile, hspan, hpoints, hline⟩

end Scripting
