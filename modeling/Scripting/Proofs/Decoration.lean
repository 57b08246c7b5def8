import Mathlib.Data.List.Infix
import Scripting.Error

/-!
# Errors on their way out

An error is raised with its cause and often with nothing else. On its way out it passes steps that
know more: one knows a place, one a source to quote from, one a file and its source. `Error.Step` is
such a step, and `Error.decorate` lets an error pass any number of them in any order.

Main statement: the innermost step wins, field by field (`Error.decorate_innermost`). The place and
the file are the first that are offered. A line is quoted by the first step that can: it has a source,
the error has a place by then and still belongs to no file, and the source has that line. So the step
that names the file is the last that can quote.
-/

namespace Scripting

namespace Error

/-! ## One step -/

/-- A step that an error passes on its way out. -/
inductive Step where
  | orAt (span : Span)
  | withSource (source : String)
  | inFile (path source : String)
  deriving DecidableEq

namespace Step

/-- The place that the step knows. -/
def span? : Step → Option Span
  | orAt span => some span
  | withSource _ | inFile _ _ => none

/-- The file that the step knows. -/
def path? : Step → Option String
  | inFile path _ => some path
  | orAt _ | withSource _ => none

/-- The source that the step can quote from. -/
def source? : Step → Option String
  | withSource source | inFile _ source => some source
  | orAt _ => none

/-- The line that the step quotes for an error with the given place. -/
def line? (step : Step) (place : Option Span) : Option String :=
  place.bind fun span => step.source?.bind fun source => Text.line? source span.line

/-- The error after the step. -/
def apply (error : Error) : Step → Error
  | orAt span => error.orAt span
  | withSource source => error.withSource source
  | inFile path source => error.inFile path source

/-- What a step does, field by field: each field is filled in only if it is empty, and the line only
for an error that belongs to no file. -/
theorem apply_eq (error : Error) (step : Step) :
    apply error step =
      { cause := error.cause
        span := error.span.or step.span?
        file := error.file.or step.path?
        sourceLine := error.sourceLine.or
          (if error.file = none then step.line? error.span else none) } := by
  obtain ⟨cause, span, file, line⟩ := error
  cases step with
  | orAt place => cases span <;> cases file <;> cases line <;> rfl
  | withSource source => cases span <;> cases file <;> cases line <;> rfl
  | inFile path source => cases span <;> cases file <;> cases line <;> rfl

end Step

/-- Quoting a line changes nothing else about an error. -/
theorem withSource_eq (error : Error) (source : String) :
    (error.withSource source).cause = error.cause ∧ (error.withSource source).span = error.span ∧
      (error.withSource source).file = error.file := by
  have h : error.withSource source = _ := Step.apply_eq error (.withSource source)
  rw [h]
  exact ⟨rfl, Option.or_none, Option.or_none⟩

/-- Attributing an error to a file does not move it. -/
theorem inFile_eq (error : Error) (path source : String) :
    (error.inFile path source).cause = error.cause ∧ (error.inFile path source).span = error.span ∧
      (error.inFile path source).file = error.file.or (some path) := by
  have h : error.inFile path source = _ := Step.apply_eq error (.inFile path source)
  rw [h]
  exact ⟨rfl, Option.or_none, rfl⟩

/-! ## Any number of steps -/

/-- The error after the steps that it passes, innermost first. -/
def decorate (error : Error) (steps : List Step) : Error :=
  steps.foldl Step.apply error

variable (error : Error) (step : Step) (before steps : List Step)

@[simp] theorem decorate_nil : error.decorate [] = error := rfl

@[simp] theorem decorate_cons :
    error.decorate (step :: steps) = (Step.apply error step).decorate steps := rfl

theorem decorate_append : error.decorate (before ++ steps) = (error.decorate before).decorate steps :=
  List.foldl_append

theorem cause_decorate : (error.decorate steps).cause = error.cause := by
  induction steps generalizing error with
  | nil => rfl
  | cons step steps ih => rw [decorate_cons, ih, Step.apply_eq]

/-- A field that every step fills in if it is empty gets the first value that is offered. -/
theorem decorate_field {α : Type} {field : Error → Option α} {offer : Step → Option α}
    (h : ∀ error step, field (Step.apply error step) = (field error).or (offer step)) :
    field (error.decorate steps) = (field error).or (steps.findSome? offer) := by
  induction steps generalizing error with
  | nil => rw [decorate_nil, List.findSome?_nil, Option.or_none]
  | cons step steps ih =>
    rw [decorate_cons, ih, h, Option.or_assoc, List.findSome?_cons]
    cases offer step <;> rfl

theorem span_decorate :
    (error.decorate steps).span = error.span.or (steps.findSome? Step.span?) :=
  error.decorate_field steps fun error step => by rw [Step.apply_eq]

theorem file_decorate :
    (error.decorate steps).file = error.file.or (steps.findSome? Step.path?) :=
  error.decorate_field steps fun error step => by rw [Step.apply_eq]

/-! ## The quoted line -/

/-- The line that a step quotes, if an error without a line and without a file has passed the given
steps before it. -/
def quoted? (before : List Step) (step : Step) : Option String :=
  if before.all (·.path?.isNone) then
    step.line? (error.span.or (before.findSome? Step.span?))
  else none

variable {error}

/-- No step changes the line of an error that has one already or belongs to a file. -/
theorem sourceLine_decorate_of_closed (h : error.sourceLine ≠ none ∨ error.file ≠ none)
    (steps : List Step) : (error.decorate steps).sourceLine = error.sourceLine := by
  induction steps generalizing error with
  | nil => rfl
  | cons step steps ih =>
    have hline : (Step.apply error step).sourceLine = error.sourceLine := by
      rw [Step.apply_eq]
      rcases h with h | h
      · obtain ⟨line, hline⟩ := Option.ne_none_iff_exists'.mp h
        rw [hline, Option.some_or]
      · rw [if_neg h, Option.or_none]
    have hfile : error.file ≠ none → (Step.apply error step).file ≠ none := by
      intro h
      rw [Step.apply_eq]
      exact fun hnone => h (Option.or_eq_none_iff.mp hnone).1
    rw [decorate_cons, ih (h.imp (fun h => hline ▸ h) hfile), hline]

/-- For a step that comes later, the first one is part of what the error has passed. -/
theorem quoted?_cons (step : Step) (before : List Step) (later : Step) :
    error.quoted? (step :: before) later =
      if step.path? = none then (Step.apply error step).quoted? before later else none := by
  unfold quoted?
  rw [Step.apply_eq, List.all_cons, List.findSome?_cons, Option.or_assoc]
  cases step.path? with
  | some path => rfl
  | none => cases step.span? <;> rfl

/-- The line of an error is the first that a step quotes. The induction is on the steps. The first
one quotes a line, names a file, or leaves the line open for the others. -/
theorem sourceLine_decorate (hline : error.sourceLine = none) (hfile : error.file = none)
    (steps : List Step) :
    (error.decorate steps).sourceLine =
      (steps.inits.zip steps).findSome? fun passed => error.quoted? passed.1 passed.2 := by
  induction steps generalizing error with
  | nil => exact hline
  | cons step steps ih =>
    have hfirst : error.quoted? [] step = step.line? error.span := by
      rw [quoted?, List.findSome?_nil, Option.or_none]
      rfl
    have happly : (Step.apply error step).sourceLine = step.line? error.span := by
      rw [Step.apply_eq, hline, if_pos hfile, Option.none_or]
    have hnamed : (Step.apply error step).file = step.path? := by
      rw [Step.apply_eq, hfile, Option.none_or]
    rw [decorate_cons, List.inits_cons, List.zip_cons_cons, List.findSome?_cons, hfirst,
      List.zip_map_left, List.findSome?_map]
    simp only [Function.comp_def, Prod.map_fst, Prod.map_snd, id_eq, quoted?_cons]
    cases hquote : step.line? error.span with
    | some line =>
      have hclosed : (Step.apply error step).sourceLine ≠ none := by simp [happly, hquote]
      rw [sourceLine_decorate_of_closed (.inl hclosed), happly, hquote]
    | none =>
      rw [hquote] at happly
      by_cases hpath : step.path? = none
      · simp only [if_pos hpath]
        exact ih happly (hnamed.trans hpath)
      · simp only [if_neg hpath]
        rw [sourceLine_decorate_of_closed (.inr (hnamed ▸ hpath)), happly, eq_comm]
        exact List.findSome?_eq_none_iff.mpr fun _ _ => rfl

/-- After the step that names a file, the line stays as it is. -/
theorem sourceLine_decorate_inFile (before after : List Step) (path source : String) :
    (error.decorate (before ++ .inFile path source :: after)).sourceLine =
      (error.decorate (before ++ [.inFile path source])).sourceLine := by
  have hfile : (Step.apply (error.decorate before) (.inFile path source)).file ≠ none := by
    rw [Step.apply_eq]
    exact fun hnone => Option.some_ne_none path (Option.or_eq_none_iff.mp hnone).2
  rw [decorate_append, decorate_append, decorate_cons, decorate_cons, decorate_nil,
    sourceLine_decorate_of_closed (.inr hfile)]

/-- The innermost step wins, whatever steps an error passes and in whatever order.

The cause stays. The place is the one that the error has, or else the first that a step knows, and
so is the file. If the error comes without a line and without a file, then its line is that of the
first step that quotes one: a step with a source, at which the error already has a place and has
passed no step with a file, and whose source has the line of that place. If there is no such step
then no line is quoted. What comes after the first step with a file does not matter for the line. -/
theorem decorate_innermost (error : Error) (steps : List Step) :
    (error.decorate steps).cause = error.cause ∧
    (error.decorate steps).span = error.span.or (steps.findSome? Step.span?) ∧
    (error.decorate steps).file = error.file.or (steps.findSome? Step.path?) ∧
    (error.sourceLine = none → error.file = none →
      (error.decorate steps).sourceLine =
        (steps.inits.zip steps).findSome? fun passed => error.quoted? passed.1 passed.2) ∧
    ∀ before path source after, steps = before ++ .inFile path source :: after →
      (error.decorate steps).sourceLine =
        (error.decorate (before ++ [.inFile path source])).sourceLine := by
  refine ⟨error.cause_decorate steps, error.span_decorate steps, error.file_decorate steps,
    fun hline hfile => sourceLine_decorate hline hfile steps, ?_⟩
  rintro before path source after rfl
  exact sourceLine_decorate_inFile before after path source

/-- The steps of an error out of a file that another one imports. The first knows a source before the
error has a place, and the second source is too short. -/
def unwinding : List Step :=
  [.withSource "a\nb\nc", .orAt ⟨3, 4, 3, 1⟩, .orAt ⟨0, 1, 1, 1⟩, .withSource "a",
    .inFile "lib.mrk" "x\n\ny", .withSource "p\nq\nr", .inFile "main.mrk" "p\nq\nr"]

theorem decorate_innermost_unwinding :
    let error : Error := { cause := .notFound "y" }
    error.sourceLine = none ∧ error.file = none ∧
      (error.decorate unwinding).cause = .notFound "y" ∧
      (error.decorate unwinding).span = some ⟨3, 4, 3, 1⟩ ∧
      (error.decorate unwinding).file = some "lib.mrk" ∧
      (error.decorate unwinding).sourceLine = some "y" := by
  intro error
  obtain ⟨hcause, hspan, hfile, hline, -⟩ := decorate_innermost error unwinding
  exact ⟨rfl, rfl, hcause, hspan, hfile, (hline rfl rfl).trans (by decide +kernel)⟩

end Error

end Scripting
