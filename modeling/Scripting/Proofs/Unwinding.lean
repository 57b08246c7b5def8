import Scripting.Proofs.Decoration
import Scripting.Proofs.Runs

/-!
# How errors unwind

A statement that fails ends the run that it comes up in. On the way out, its error passes through
all code that waits for it: through bodies of functions and through imported files. Whatever of this
code is from an imported file claims the error for that file (`Error.claimedBy`). `Moment.Via`
records the files of the code that is running at a moment, and `Moment.Via.exists_run_error` says
which error comes out at the end.
-/

namespace Scripting

open State

/-! ## Claims -/

/-- The error after it has left code of an imported file, or code of the script in place of a
file. -/
def Error.claimedBy (e : Error) : Option SourceFile → Error
  | some file => e.inFile file.path file.source
  | none => e

theorem Declaration.claimError_eq (declaration : Declaration) (e : Error) :
    declaration.claimError e = e.claimedBy declaration.file := by
  unfold claimError
  cases declaration.file with
  | some file => rfl
  | none => rfl

theorem Error.withSource_cause (e : Error) (source : String) :
    (e.withSource source).cause = e.cause ∧ (e.withSource source).span = e.span :=
  (e.withSource_eq source).imp_right And.left

theorem Error.claimedBy_cause (e : Error) (file : Option SourceFile) :
    (e.claimedBy file).cause = e.cause ∧ (e.claimedBy file).span = e.span := by
  cases file with
  | none => exact ⟨rfl, rfl⟩
  | some file => exact (e.inFile_eq file.path file.source).imp_right And.left

/-- Claims change neither the cause nor the place. -/
theorem Error.foldl_claimedBy_cause (files : List (Option SourceFile)) (e : Error) :
    (files.foldl claimedBy e).cause = e.cause ∧ (files.foldl claimedBy e).span = e.span := by
  induction files generalizing e with
  | nil => exact ⟨rfl, rfl⟩
  | cons file files ih =>
    obtain ⟨hcause, hspan⟩ := e.claimedBy_cause file
    exact ⟨(ih _).1.trans hcause, (ih _).2.trans hspan⟩

/-! ## The files of the code that is running -/

namespace Moment

/-- The moment comes up while some statements run, with the files of the code that is running then,
the innermost first. The files of the code that runs the statements are given. -/
inductive Via : Nat → List Variables → List (Option SourceFile) → List Statement → State → Moment →
    List (Option SourceFile) → Prop
  | here {levels : Nat} {scopes : List Variables} {outer : List (Option SourceFile)}
      {first : Statement} {rest : List Statement} {s : State} :
      Via levels scopes outer (first :: rest) s ⟨levels, scopes, s, first⟩ outer
  | next {levels : Nat} {scopes : List Variables} {outer files : List (Option SourceFile)}
      {first : Statement} {rest : List Statement} {s t : State} {m : Moment}
      (hrun : s.run (Exec.statement (callWithin levels) first) = (.ok .goOn, t))
      (h : Via levels scopes outer rest t m files) :
      Via levels scopes outer (first :: rest) s m files
  | file {levels : Nat} {scopes : List Variables} {outer files : List (Option SourceFile)}
      {first : Statement} {rest : List Statement} {s : State} {m : Moment} {file : SourceFile}
      {program : Program} (hform : first.form = .useFile file program)
      (h : Via levels scopes (some file :: outer) program.statements (s.prepare program) m files) :
      Via levels scopes outer (first :: rest) s m files
  | call {levels : Nat} {scopes : List Variables} {outer files : List (Option SourceFile)}
      {first : Statement} {rest : List Statement} {s entry : State} {m : Moment} {i : Invocation}
      (hi : i ∈ first.form.invocations (callWithin (levels + 1)) s)
      (hentry : i.entry? = some entry)
      (h : Via levels (i.state.vars :: scopes) (i.function.file :: outer)
        i.function.body.statements entry m files) :
      Via (levels + 1) scopes outer (first :: rest) s m files

variable {levels : Nat} {scopes : List Variables} {outer files : List (Option SourceFile)}
  {statements : List Statement} {s : State} {m : Moment}

theorem Via.during (h : m.Via levels scopes outer statements s files) :
    m.During levels scopes statements s := by
  induction h with
  | here => exact .here
  | next hrun _ ih => exact .next hrun ih
  | file hform _ ih => exact .file hform ih
  | call hi hentry _ ih => exact .call hi hentry ih

theorem During.exists_via (h : m.During levels scopes statements s)
    (outer : List (Option SourceFile)) : ∃ files, m.Via levels scopes outer statements s files := by
  induction h generalizing outer with
  | here => exact ⟨outer, .here⟩
  | next hrun _ ih =>
    obtain ⟨files, hvia⟩ := ih outer
    exact ⟨files, .next hrun hvia⟩
  | @file _ _ _ _ _ _ file _ hform _ ih =>
    obtain ⟨files, hvia⟩ := ih (some file :: outer)
    exact ⟨files, .file hform hvia⟩
  | @call _ _ _ _ _ _ _ i hi hentry _ ih =>
    obtain ⟨files, hvia⟩ := ih (i.function.file :: outer)
    exact ⟨files, .call hi hentry hvia⟩

end Moment

/-! ## Statements that fail -/

section Failures

variable {levels : Nat} {scopes : List Variables} {outer files : List (Option SourceFile)}
  {statements : List Statement} {s t : State} {m : Moment} {e : Error}

/-- An error that leaves a statement points somewhere. -/
theorem Exec.span_of_run_statement {invoke : Invoke} {st : Statement}
    (h : s.run (Exec.statement invoke st) = (.error e, t)) : e.span ≠ none := by
  have hlocated : Exec.Ensures (Exec.statement invoke st) s (fun e _ => e.span ≠ none)
      fun _ _ => True := by
    rw [Exec.statement_eq]
    exact Exec.Ensures.decorate ((Exec.ensures_run _ s).imp
      (fun e _ _ => e.span_orAt_ne_none st.span) fun _ _ _ => trivial)
  exact hlocated.of_error h

/-- A statement fails with the error of a call that it makes. -/
theorem Moment.Ready.outcome_of_call (hready : m.Ready) {i : Invocation}
    (hi : i ∈ m.statement.form.invocations (callWithin m.levels) m.state)
    (hfails : (i.run (callWithin m.levels)).1 = .error e) (hspan : e.span ≠ none) :
    m.outcome = (.error e, m.after) := by
  have hanything : Shared fun _ _ => True := ⟨fun _ _ => trivial, fun _ _ => trivial⟩
  have hfollows : ∀ {α : Type} (t : State) (step : Exec α),
      Exec.Follows (.ofMoves fun _ _ => True) t step := fun t step =>
    (Exec.ensures_run step t).imp (fun _ _ _ => ⟨trivial, trivial⟩) fun _ _ _ => trivial
  have htraces := hready.traces
    (hanything.permits (fun _ _ _ _ => trivial) (fun _ _ _ _ => trivial) fun _ _ _ _ => trivial)
    (fun _ _ _ _ _ => trivial) ⟨fun i _ => hfollows _ _, fun _ _ _ => hfollows _ _⟩
  cases hrun : m.outcome with
  | mk result t =>
    rw [Moment.after, hrun]
    cases result with
    | ok flow =>
      have hok := ((htraces.of_ok hrun).2 i hi).2
      rw [hfails] at hok
      cases hok
    | error e' => rw [((htraces.of_error hrun).2 i hi).2 e hfails hspan]

theorem Exec.run_statementsOf_of_error {invoke : Invoke} {first : Statement} {rest : List Statement}
    (h : s.run (Exec.statement invoke first) = (.error e, t)) :
    s.run (Exec.statementsOf invoke (first :: rest)) = (.error e, t) := by
  rw [Exec.statementsOf, Exec.run_bind, h]

/-- A list of statements that fails does so at one of its statements. -/
theorem Exec.exists_of_run_statementsOf_error (scopes : List Variables)
    (h : s.run (Exec.statementsOf (callWithin levels) statements) = (.error e, t)) :
    ∃ m : Moment, m.During levels scopes statements s ∧ m.outcome = (.error e, t) := by
  induction statements generalizing s with
  | nil =>
    rw [Exec.statementsOf] at h
    cases h
  | cons first rest ih =>
    cases hrun : s.run (Exec.statement (callWithin levels) first) with
    | mk result u =>
      rcases result with e' | ⟨-⟩ | value
      · rw [Exec.run_statementsOf_of_error hrun] at h
        cases h
        exact ⟨_, .here, hrun⟩
      · rw [Exec.run_statementsOf_cons hrun] at h
        obtain ⟨m, hm, hfails⟩ := ih h
        exact ⟨m, .next hrun hm, hfails⟩
      · rw [Exec.statementsOf, Exec.run_bind, hrun] at h
        cases h

/-- Statements that all succeed do not fail together. -/
theorem Exec.ensures_of_succeeds {E : Error → State → Prop}
    (h : ∀ m : Moment, m.During levels scopes statements s → m.Succeeds) :
    Exec.Ensures (Exec.statementsOf (callWithin levels) statements) s E fun _ _ => True := by
  refine (Exec.ensures_run _ s).imp (fun e t hrun => ?_) fun _ _ _ => trivial
  obtain ⟨m, hm, hfails⟩ := Exec.exists_of_run_statementsOf_error scopes hrun
  exact absurd (h m hm) (Moment.not_succeeds_of_outcome hfails)

/-- A file that fails makes the statement fail that imports it. -/
theorem Exec.exists_run_statement_file {invoke : Invoke} {st : Statement} {file : SourceFile}
    {program : Program} (hform : st.form = .useFile file program)
    (hrun : (s.prepare program).run (Exec.statementsOf invoke program.statements) = (.error e, t))
    (hspan : e.span ≠ none) :
    ∃ u, s.run (Exec.statement invoke st) = (.error (e.claimedBy (some file)), u) := by
  have hfails : Exec.Ensures (Exec.statement invoke st) s
      (fun e' _ => e' = e.claimedBy (some file)) fun _ _ => False := by
    rw [Exec.statement_eq, hform, Exec.formOf, Exec.programOf_eq]
    refine Exec.Ensures.decorate (Exec.Ensures.bind (Exec.ensures_modify (Exec.Ensures.bind
      (Exec.Ensures.decorate (Exec.ensures_of_run_error hrun ?_)))))
    exact Error.orAt_of_span ((e.claimedBy_cause (some file)).2 ▸ hspan) st.span
  obtain ⟨_, u, hu, rfl⟩ := hfails.exists_error
  exact ⟨u, hu⟩

/-- If a statement fails, then so does the run that it comes up in. The error that leaves the run
has been claimed by the code in between: when the code that runs the statements has claimed it too,
it has been claimed by all code that was running. -/
theorem Moment.Via.exists_run_error (h : m.Via levels scopes outer statements s files)
    (hs : s.ReadyFor statements) (hfails : m.outcome = (.error e, m.after)) :
    ∃ e' t, s.run (Exec.statementsOf (callWithin levels) statements) = (.error e', t) ∧
      outer.foldl Error.claimedBy e' = files.foldl Error.claimedBy e := by
  have hspan := Exec.span_of_run_statement hfails
  -- an error that has been claimed still points somewhere
  have hclaimed : ∀ {outer files : List (Option SourceFile)} {e' : Error},
      outer.foldl Error.claimedBy e' = files.foldl Error.claimedBy e → e'.span ≠ none := by
    intro outer files e' heq
    rwa [← (Error.foldl_claimedBy_cause outer e').2, heq, (Error.foldl_claimedBy_cause files e).2]
  induction h with
  | here => exact ⟨e, _, Exec.run_statementsOf_of_error hfails, rfl⟩
  | next hrun _ ih =>
    rw [Exec.run_statementsOf_cons hrun]
    exact ih (hs.next hrun) hfails
  | @file levels scopes _ _ _ _ _ _ _ _ hform _ ih =>
    obtain ⟨e', t, hrun, heq⟩ := ih ((hs.first levels scopes).file hform) hfails
    obtain ⟨u, hfirst⟩ := Exec.exists_run_statement_file hform hrun (hclaimed heq)
    exact ⟨_, u, Exec.run_statementsOf_of_error hfirst, heq⟩
  | @call levels scopes _ _ _ _ _ _ _ i hi hentry _ ih =>
    have hready := hs.first (levels + 1) scopes
    obtain ⟨e', t, hrun, heq⟩ := ih (hready.call hi hentry) hfails
    have hcall : (i.run (callWithin (levels + 1))).1 = .error (e'.claimedBy i.function.file) := by
      rw [Invocation.run_succ hentry, hrun, ← Declaration.claimError_eq]
      rfl
    have hplace := (e'.claimedBy_cause i.function.file).2
    have hfirst := hready.outcome_of_call hi hcall (hplace ▸ hclaimed heq)
    exact ⟨_, _, Exec.run_statementsOf_of_error hfirst, heq⟩

/-- A program fails as its statements do. -/
theorem State.execute_error_iff {program : Program} :
    (s.execute program).1 = .error e ↔
      ∃ t, (s.prepare program).run (Exec.statementsOf (callWithin callLimit) program.statements) =
        (.error e, t) := by
  rw [execute_eq]
  split
  · next hrun =>
    rw [hrun]
    simp
  · next hrun =>
    rw [hrun]
    simp

end Failures

end Scripting
