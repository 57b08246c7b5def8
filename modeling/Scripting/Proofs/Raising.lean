import Scripting.Program.Basic
import Scripting.Proofs.Requests

/-!
# Where errors point when they are raised

An error is raised without a file and without a quoted line; both are added on its way out. It
points at one of the places that are written in the statement that raises it, or nowhere
(`Error.Raw`). For the functions of the standard library this is a property of their trees of
requests: a function that gives up does so at its call or at one of its arguments (`Native.Blames`).
-/

namespace Scripting

/-- The error belongs to no file and quotes no line, and points at one of the places if at any. -/
structure Error.Raw (spans : List Span) (e : Error) : Prop where
  file : e.file = none
  sourceLine : e.sourceLine = none
  span : ∀ span, e.span = some span → span ∈ spans

theorem Error.raw_locate {spans : List Span} (cause : Cause) {span : Span} (h : span ∈ spans) :
    (Error.locate cause span).Raw spans :=
  ⟨rfl, rfl, fun _ hspan => Option.some.inj hspan ▸ h⟩

/-- An error that points nowhere. -/
theorem Error.raw_nowhere {spans : List Span} (cause : Cause) :
    ({ cause } : Error).Raw spans :=
  ⟨rfl, rfl, nofun⟩

theorem Error.Raw.mono {spans spans' : List Span} {e : Error} (h : e.Raw spans)
    (hspans : spans ⊆ spans') : e.Raw spans' :=
  ⟨h.file, h.sourceLine, fun span hspan => hspans (h.span span hspan)⟩

theorem Error.Raw.orAt {spans : List Span} {e : Error} {span : Span} (h : e.Raw spans)
    (hspan : span ∈ spans) : (e.orAt span).Raw spans := by
  refine ⟨h.file, h.sourceLine, fun other hother => ?_⟩
  cases hat : e.span with
  | none =>
    rw [Error.orAt, hat] at hother
    exact Option.some.inj hother ▸ hspan
  | some known =>
    rw [Error.orAt, hat] at hother
    exact Option.some.inj hother ▸ h.span known hat

theorem Error.orAt_of_span {e : Error} (h : e.span ≠ none) (span : Span) : e.orAt span = e := by
  obtain ⟨known, hknown⟩ := Option.ne_none_iff_exists'.mp h
  cases e
  subst hknown
  rfl

theorem Error.span_orAt_ne_none (e : Error) (span : Span) : (e.orAt span).span ≠ none := by
  cases hat : e.span with
  | none =>
    rw [Error.orAt, hat]
    exact Option.some_ne_none span
  | some known =>
    rw [Error.orAt, hat]
    exact Option.some_ne_none known

/-! ## The places that are written in an expression -/

/-- The place of a call and the places of its arguments. -/
def CallSite.spans (site : CallSite) : List Span := site.span :: site.args.map Token.span

/-- The place of a call and the places of its arguments. -/
def Call.spans (call : Call) : List Span := call.span :: call.args.map Token.span

/-- The place of a field and, if it is called, the places of the arguments. -/
def Access.spans (access : Access) : List Span :=
  access.span :: (access.args.getD []).map Token.span

/-- The places that are written in an expression. -/
def Expr.spans : Expr → List Span
  | .literal token | .reference token => [token.span]
  | .call c => c.spans
  | .access a => a.spans

theorem CallSite.span_mem_spans (site : CallSite) : site.span ∈ site.spans := List.mem_cons_self

theorem CallSite.argumentSpan_mem_spans (site : CallSite) (index : Nat) :
    site.argumentSpan index ∈ site.spans := by
  unfold argumentSpan
  cases htoken : site.args[index]? with
  | none => exact site.span_mem_spans
  | some token =>
    exact List.mem_cons_of_mem _ (List.mem_map_of_mem (List.mem_of_getElem? htoken))

theorem Expr.span_mem_spans (expr : Expr) : expr.span ∈ expr.spans := by
  cases expr with
  | literal | reference => exact List.mem_singleton.mpr rfl
  | call | access => exact List.mem_cons_self

/-! ## Library functions -/

namespace Native

variable {α β : Type} {spans : List Span}

/-- Whatever the answers are, the work gives up only with errors that point at one of the places. -/
def Blames (spans : List Span) : Native α → Prop
  | done _ => True
  | fail error => error.Raw spans
  | argument _ next => ∀ value, (next value).Blames spans
  | callback _ next => ∀ function, (next function).Blames spans
  | invoke _ _ next => ∀ result, (next result).Blames spans
  | lookup _ next => ∀ value, (next value).Blames spans
  | assign _ _ next => next.Blames spans
  | write _ next => next.Blames spans
  | read _ next => ∀ line, (next line).Blames spans
  | inspect next => ∀ overview, (next overview).Blames spans

theorem Blames.bind {work : Native α} {next : α → Native β} (h : work.Blames spans)
    (hnext : ∀ a, (next a).Blames spans) : (work >>= next).Blames spans := by
  show (work.bind next).Blames spans
  induction work with
  | done result => exact hnext result
  | fail error => exact h
  | argument index k ih => exact fun value => ih value (h value)
  | callback index k ih => exact fun function => ih function (h function)
  | invoke function values k ih => exact fun result => ih result (h result)
  | lookup name k ih => exact fun value => ih value (h value)
  | assign name value k ih => exact ih h
  | write line k ih => exact ih h
  | read prompt k ih => exact fun line => ih line (h line)
  | inspect k ih => exact fun overview => ih overview (h overview)

theorem Blames.mono {spans' : List Span} {work : Native α} (h : work.Blames spans)
    (hspans : spans ⊆ spans') : work.Blames spans' := by
  induction work with
  | done result => trivial
  | fail error => exact Error.Raw.mono h hspans
  | argument index k ih => exact fun value => ih value (h value)
  | callback index k ih => exact fun function => ih function (h function)
  | invoke function values k ih => exact fun result => ih result (h result)
  | lookup name k ih => exact fun value => ih value (h value)
  | assign name value k ih => exact ih h
  | write line k ih => exact ih h
  | read prompt k ih => exact fun line => ih line (h line)
  | inspect k ih => exact fun overview => ih overview (h overview)

theorem blames_valuesFrom (known : List Value) (index count : Nat) :
    (valuesFrom known index count).Blames spans := by
  induction count generalizing known index with
  | zero => trivial
  | succ count ih => exact fun value => ih (value :: known) (index + 1)

end Native

namespace Library

open Native

variable {site : CallSite}

theorem blames_fail_argument {α : Type} (cause : Cause) (index : Nat) :
    (Native.fail (.locate cause (site.argumentSpan index)) : Native α).Blames site.spans :=
  Error.raw_locate cause (site.argumentSpan_mem_spans index)

theorem blames_checkType (module : String) (index : Nat) (value : Value) (expected : ValueType) :
    (checkType site module index value expected).Blames site.spans := by
  unfold checkType
  split
  · trivial
  · exact blames_fail_argument _ index

theorem blames_stringArgument (module : String) (index : Nat) :
    (stringArgument site module index).Blames site.spans :=
  fun value => (blames_checkType module index value .string).bind fun _ => trivial

theorem blames_numberArgument (module : String) (index : Nat) :
    (numberArgument site module index).Blames site.spans := by
  intro value
  refine (blames_checkType module index value .number).bind fun _ => ?_
  split
  · trivial
  · exact blames_fail_argument _ index

theorem blames_arrayArgument (module : String) (index : Nat) :
    (arrayArgument site module index).Blames site.spans := by
  intro value
  refine (blames_checkType module index value .array).bind fun _ => ?_
  split
  · trivial
  · exact blames_fail_argument _ index

theorem blames_numbersFrom (module : String) (known : List Float) (index count : Nat) :
    (numbersFrom site module known index count).Blames site.spans := by
  induction count generalizing known index with
  | zero => trivial
  | succ count ih =>
    exact (blames_numberArgument module index).bind fun x => ih (x :: known) (index + 1)

theorem blames_numberArguments (module : String) :
    (numberArguments site module).Blames site.spans :=
  blames_numbersFrom module [] 0 site.args.length

theorem blames_print (site : CallSite) : (Terminal.print site).Blames site.spans :=
  (blames_valuesFrom [] 0 site.args.length).bind fun _ => trivial

theorem blames_printf (site : CallSite) : (Terminal.printf site).Blames site.spans := by
  refine (blames_valuesFrom [] 0 site.args.length).bind fun values => ?_
  cases values with
  | nil => trivial
  | cons format values => exact (blames_checkType _ 0 format .string).bind fun _ => trivial

theorem blames_scan (site : CallSite) : (Terminal.scan site).Blames site.spans := by
  refine (blames_stringArgument Terminal.name 0).bind fun prompt => ?_
  split
  · next target htarget =>
    have hspan : target.span ∈ site.spans :=
      List.mem_cons_of_mem _ (List.mem_map_of_mem (List.mem_of_getElem? htarget))
    split
    · intro current
      cases current with
      | none => exact Error.raw_locate _ hspan
      | some value =>
        show Native.Blames _ (ite _ _ _)
        split
        · exact Error.raw_locate _ hspan
        · exact fun line => trivial
    · exact blames_fail_argument _ 1
  · exact blames_fail_argument _ 1

theorem blames_parse (site : CallSite) : (Conversion.parse site).Blames site.spans := by
  refine (blames_stringArgument Conversion.name 0).bind fun text => ?_
  split
  · split
    · trivial
    · exact blames_fail_argument _ 0
  · exact blames_fail_argument _ 0

theorem blames_sum (site : CallSite) : (Arithmetic.sum site).Blames site.spans :=
  (blames_numberArguments Arithmetic.name).bind fun _ => trivial

theorem blames_subtract (site : CallSite) : (Arithmetic.subtract site).Blames site.spans := by
  refine (blames_numberArguments Arithmetic.name).bind fun numbers => ?_
  cases numbers with
  | nil => exact Error.raw_locate _ site.span_mem_spans
  | cons first rest => trivial

theorem blames_replace (site : CallSite) : (Texts.replace site).Blames site.spans :=
  (blames_stringArgument Texts.name 0).bind fun _ =>
    (blames_stringArgument Texts.name 1).bind fun _ =>
      (blames_stringArgument Texts.name 2).bind fun _ => trivial

/-- A function of one text. -/
theorem blames_of_string (site : CallSite) (f : String → Value) :
    (do return some (f (← stringArgument site Texts.name 0)) : Native (Option Value)).Blames
      site.spans :=
  (blames_stringArgument Texts.name 0).bind fun _ => trivial

theorem blames_create (site : CallSite) : (Arrays.create site).Blames site.spans := by
  refine (blames_valuesFrom [] 0 site.args.length).bind fun values => ?_
  split
  · next index _ => exact blames_fail_argument _ index
  · trivial

theorem blames_mapFrom (function : Callback) (results : List Value) (index : Nat)
    (items : List Value) :
    (Arrays.mapFrom site function results index items).Blames site.spans := by
  induction items generalizing results index with
  | nil => trivial
  | cons item items ih =>
    intro result
    cases result with
    | none => exact Error.raw_locate _ site.span_mem_spans
    | some value => exact ih (value :: results) (index + 1)

theorem blames_map (site : CallSite) : (Arrays.map site).Blames site.spans := by
  refine (blames_arrayArgument Arrays.name 0).bind fun items function => ?_
  show Native.Blames _ (ite _ _ _)
  split
  · exact blames_fail_argument _ 1
  · exact (blames_mapFrom function [] 0 items).bind fun _ => trivial

/-- All functions of the module give up only at their calls or at arguments of these. -/
def Blaming (module : Module) : Prop :=
  ∀ field function, (field, Export.function function) ∈ module.exports →
    ∀ site, (function.body site).Blames site.spans

theorem blaming_of_mem {module : Module} (h : module ∈ modules) : Blaming module := by
  simp only [modules, List.mem_cons, List.not_mem_nil, or_false] at h
  rcases h with rfl | rfl | rfl | rfl | rfl
  · exact (Module.every_empty Terminal.name)
      |>.withFunction "print" _ blames_print
      |>.withFunction "printf" _ blames_printf
      |>.withFunction "scan" _ blames_scan
  · exact (Module.every_empty Conversion.name).withFunction "parse" _ blames_parse
  · exact (Module.every_empty Arithmetic.name)
      |>.withFunction "sum" _ blames_sum
      |>.withFunction "subtract" _ blames_subtract
      |>.withField "PI" _
      |>.withField "E" _
      |>.withField "constants" _
  · exact (Module.every_empty Texts.name)
      |>.withFunction "replace" _ blames_replace
      |>.withFunction "trim" _ (fun site => blames_of_string site _)
      |>.withFunction "toLowerCase" _ (fun site => blames_of_string site _)
      |>.withFunction "chars" _ (fun site => blames_of_string site _)
  · exact (Module.every_empty Arrays.name)
      |>.withFunction "create" _ blames_create
      |>.withFunction "map" _ blames_map

/-- A library function gives up only at its call or at an argument of it. -/
theorem blames_body {module : Module} (hmodule : module ∈ modules) {field : String}
    {function : NativeFunction} (hexport : module.export? field = some (.function function))
    (site : CallSite) : (function.body site).Blames site.spans :=
  blaming_of_mem hmodule field function (Module.mem_exports_of_export? hexport) site

end Library

end Scripting
