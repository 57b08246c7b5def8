import Scripting.Proofs.Chunks
import Scripting.Proofs.LikeReadings
import Scripting.Proofs.Lossless

/-!
# Layout never changes what a text means

Two texts that have the same tokens but for their places, so that they differ in blanks, line
breaks, comments and quotes at most, are read alike and run alike. Places are kept in tokens,
statements, functions and records and in errors, but nothing that a run does is decided by a place.

All places correspond to one another here, since nothing is said about where anything stands.
-/

namespace Scripting

open Program.Grammar (Consistent)

/-- The record without its place. -/
def Record.unplaced (record : Record) : Record :=
  { record with span := {} }

/-- The records in the order in which they were made, without their places, and what is in their
cells. -/
def State.results (state : State) : List (Record × Option Value) :=
  state.log.toList.map fun record => (record.unplaced, state.cells.get? record.cell)

/-- The reason of an error and the file that it belongs to. -/
def Error.summary (error : Error) : Cause × Option String :=
  (error.cause, error.file)

/-! ## Like texts -/

theorem Token.forall₂_alike_of_scan {source other : String} {tokens others : List Token}
    (hsource : Token.scan source = .ok tokens) (hother : Token.scan other = .ok others)
    (h : tokens.map Token.bare = others.map Token.bare) :
    List.Forall₂ (Token.Alike .anywhere) tokens others := by
  have hpairs : List.Forall₂ (fun token other => token.bare = other.bare) tokens others := by
    rw [← List.forall₂_eq_eq_eq, List.forall₂_map_left_iff, List.forall₂_map_right_iff] at h
    exact h
  have hscopes := scope_of_mem_scan hsource
  have hscopes' := scope_of_mem_scan hother
  clear hsource hother h
  induction hpairs with
  | nil => exact .nil
  | @cons token other tokens others hbare _ ih =>
    obtain ⟨hscope, hscopes⟩ := List.forall_mem_cons.mp hscopes
    obtain ⟨hscope', hscopes'⟩ := List.forall_mem_cons.mp hscopes'
    obtain ⟨hkind, hlexeme⟩ : token.kind = other.kind ∧ token.lexeme = other.lexeme := by
      simpa [Token.bare] using hbare
    exact .cons ⟨hkind, hlexeme, hscope.trans hscope'.symm, trivial⟩ (ih hscopes hscopes')

/-! ## Like results -/

theorem State.Alike.results_eq {c : Correspondence} {s t : State} (h : s.Alike c t) :
    s.results = t.results := by
  have hlog := h.log
  unfold results ReturnLog.toList
  rw [List.map_reverse, List.map_reverse, h.cells]
  congr 1
  generalize s.log.latestFirst = records at hlog ⊢
  generalize t.log.latestFirst = others at hlog ⊢
  induction hlog with
  | nil => rfl
  | cons hrecord _ ih =>
    rw [List.map_cons, List.map_cons, ih, Record.unplaced, Record.unplaced, hrecord.name,
      hrecord.cell, hrecord.owner, hrecord.aliases]

theorem Outcome.Alike.summary_eq {c : Correspondence} {α : Type} {x y : Except Error α}
    (h : Outcome.Alike c Eq x y) : x.mapError Error.summary = y.mapError Error.summary := by
  cases h with
  | ok h => rw [h]
  | error h =>
    have hsame := congrArg₂ Prod.mk h.cause h.file
    exact congrArg Except.error hsame

theorem State.Alike.executeLoaded {c : Correspondence}
    (hblind : ∀ module, c.module module → module.Blind) {s t : State} (hst : s.Alike c t)
    {loaded other : Except Error Program} (h : Outcome.Alike c (Program.Alike c) loaded other) :
    Outcome.Alike c Eq (s.executeLoaded loaded).1 (t.executeLoaded other).1 ∧
      (s.executeLoaded loaded).2.Alike c (t.executeLoaded other).2 := by
  cases h with
  | ok h => exact hst.execute hblind h
  | error h => exact ⟨.error h, hst⟩

theorem Loader.ofSource_of_scan {source : String} {tokens : List Token}
    (h : Token.scan source = .ok tokens) (loader : Loader) :
    loader.ofSource source = loader.ofTokens tokens := by
  rw [ofSource, h]
  rfl

theorem runSource_of_scan {source : String} {tokens : List Token}
    (h : Token.scan source = .ok tokens) (files : FileTree) (base : String) (console : Console)
    (order : Order) :
    runSource files base source console order =
      ({ console, scopes := { order } } : State).executeLoaded
        (Loader.ofTokens { registry := Library.standard, files, base } tokens) := by
  rw [runSource, Loader.ofSource_of_scan h]

/-- **Layout never changes what a text means.** Take two texts with the same tokens but for their
places, and run both as scripts, on the same files and with the same lines to read. The tables of the
scopes are gone through in the same order in both runs, or all names that the first text looks up are
definite. Then both write the same lines and ask with the same prompts, and both succeed or both fail,
for the same reason and in the same file. The records that they leave behind are the same but for
their places, and so is what is in the cells of the records. -/
theorem runSource_eq_of_bare_eq (files : FileTree) (base : String) (console : Console)
    {source other : String} {tokens others : List Token}
    (hsource : Token.scan source = .ok tokens) (hother : Token.scan other = .ok others)
    (h : tokens.map Token.bare = others.map Token.bare) (order order' : Order)
    (horder : order' = order ∨ ∀ program,
      Loader.ofSource { registry := Library.standard, files, base } source = .ok program →
        program.DefiniteFrom { console, scopes := { order } }) :
    (runSource files base source console order).1.mapError Error.summary =
        (runSource files base other console order').1.mapError Error.summary ∧
      (runSource files base source console order).2.console =
        (runSource files base other console order').2.console ∧
      (runSource files base source console order).2.results =
        (runSource files base other console order').2.results := by
  let loader : Loader := { registry := Library.standard, files, base }
  have hresolve : Consistent .anywhere loader.resolve :=
    Loader.consistent_anywhere Library.blind_standard
  have hread := Loader.alike_ofSource (fun _ => trivial) hresolve hsource hother
    (Token.forall₂_alike_of_scan hsource hother h)
  -- the first text is run in both orders, and then both texts in the second one
  obtain ⟨hsame, hafter⟩ :
      (runSource files base source console order').1 = (runSource files base source console order).1 ∧
        _ := State.executeLoaded_eq_of_definite (s := { console }) horder
  obtain ⟨houtcome, hstate⟩ :=
    (State.alike_start .anywhere console { order := order' }).executeLoaded (fun _ h => h) hread
  refine ⟨(congrArg (Except.mapError Error.summary) hsame).symm.trans houtcome.summary_eq, ?_, ?_⟩
  · exact (congrArg State.console hafter).symm.trans hstate.console
  · exact (congrArg State.results hafter).symm.trans hstate.results_eq

/-- A script that asks for a line, calls a function on it and then uses a name that stands for
nothing. -/
def spaciousText : String :=
  "import \"IO\" // for the console\n\nfunction echo(line) \x7b\n  IO.print(line)\n" ++
  "  return line\n\x7d\n\nvar asked = \"\"\nIO.scan(\"it's\", asked)\n" ++
  "var told = echo(asked)\nIO.print(untold)\n"

/-- The same script on one line, with other quotes where there may be others. -/
def crampedText : String :=
  "import 'IO' function echo(line)\x7bIO.print(line)return line\x7dvar asked=''" ++
  "IO.scan(\"it's\",asked)var told=echo(asked)IO.print(untold)"

/-- A console with one line to read. -/
def asking : Console := { input := ["so"] }

theorem runSource_eq_of_bare_eq_cramped :
    ∃ tokens others, Token.scan spaciousText = .ok tokens ∧ Token.scan crampedText = .ok others ∧
      tokens.map Token.bare = others.map Token.bare ∧
      tokens.map Token.span ≠ others.map Token.span ∧
      (runSource {} "" spaciousText asking).1.mapError Error.summary =
        .error (.notFound "untold", none) ∧
      ∀ order,
        (runSource {} "" spaciousText asking).1.mapError Error.summary =
          (runSource {} "" crampedText asking order).1.mapError Error.summary ∧
        (runSource {} "" spaciousText asking).2.console =
          (runSource {} "" crampedText asking order).2.console ∧
        (runSource {} "" spaciousText asking).2.results =
          (runSource {} "" crampedText asking order).2.results := by
  have hfacts : (Token.scan spaciousText).toOption.any (fun tokens =>
      (Token.scan crampedText).toOption.any fun others =>
        decide (tokens.map Token.bare = others.map Token.bare) &&
        decide (tokens.map Token.span ≠ others.map Token.span) &&
        (Loader.ofTokens { registry := Library.standard, files := {}, base := "" }
          tokens).toOption.any fun program =>
            Moment.allDefinite callLimit program.statements
              (State.prepare { console := asking } program) &&
            decide ((({ console := asking } : State).execute program).1.mapError Error.summary =
              .error (.notFound "untold", none))) = true := by
    decide +kernel
  obtain ⟨tokens, htokens, hfacts⟩ := (Option.any_eq_true _ _).mp hfacts
  obtain ⟨others, hothers, hfacts⟩ := (Option.any_eq_true _ _).mp hfacts
  simp only [Bool.and_eq_true, decide_eq_true_eq] at hfacts
  obtain ⟨⟨hbare, hspan⟩, hruns⟩ := hfacts
  obtain ⟨program, hprogram, hruns⟩ := (Option.any_eq_true _ _).mp hruns
  obtain ⟨hchecked, hfails⟩ := (Bool.and_eq_true _ _).mp hruns
  have hsource := eq_ok_of_toOption htokens
  have hother := eq_ok_of_toOption hothers
  have hload := eq_ok_of_toOption hprogram
  have hrun : runSource {} "" spaciousText asking =
      ({ console := asking } : State).execute program := by
    rw [runSource_of_scan hsource, hload]
    rfl
  have hdefinite : ∀ program,
      Loader.ofSource { registry := Library.standard, files := {}, base := "" } spaciousText =
        .ok program → program.DefiniteFrom { console := asking } := by
    intro loaded hloaded
    rw [Loader.ofSource_of_scan hsource, hload] at hloaded
    cases hloaded
    exact Program.definiteFrom_of_allDefinite hchecked
  exact ⟨tokens, others, hsource, hother, hbare, hspan, hrun ▸ of_decide_eq_true hfails,
    fun order => runSource_eq_of_bare_eq {} "" _ hsource hother hbare .rotating order
      (.inr hdefinite)⟩

/-- A text with and without a line break at its end, whose tables are gone through in different
orders. -/
theorem runSource_ne_of_bare_eq_ambiguous :
    ∃ tokens others, Token.scan ambiguousText = .ok tokens ∧
      Token.scan (ambiguousText ++ "\n") = .ok others ∧
      tokens.map Token.bare = others.map Token.bare ∧
      (runSource {} "" ambiguousText {} (.foremost "a")).2.console.output = #["one"] ∧
      (runSource {} "" (ambiguousText ++ "\n") {} (.foremost "b")).2.console.output = #["two"] := by
  have hfacts : (Token.scan ambiguousText).toOption.any (fun tokens =>
      (Token.scan (ambiguousText ++ "\n")).toOption.any fun others =>
        decide (tokens.map Token.bare = others.map Token.bare) &&
        decide ((({ scopes := { order := .foremost "a" } } : State).executeLoaded (Loader.ofTokens
          { registry := Library.standard, files := {}, base := "" } tokens)).2.console.output =
            #["one"]) &&
        decide ((({ scopes := { order := .foremost "b" } } : State).executeLoaded (Loader.ofTokens
          { registry := Library.standard, files := {}, base := "" } others)).2.console.output =
            #["two"])) = true := by
    decide +kernel
  obtain ⟨tokens, htokens, hfacts⟩ := (Option.any_eq_true _ _).mp hfacts
  obtain ⟨others, hothers, hfacts⟩ := (Option.any_eq_true _ _).mp hfacts
  simp only [Bool.and_eq_true, decide_eq_true_eq] at hfacts
  obtain ⟨⟨hbare, hone⟩, htwo⟩ := hfacts
  have hsource := eq_ok_of_toOption htokens
  have hother := eq_ok_of_toOption hothers
  refine ⟨tokens, others, hsource, hother, hbare, ?_, ?_⟩
  · rw [runSource_of_scan hsource]
    exact hone
  · rw [runSource_of_scan hother]
    exact htwo

end Scripting
