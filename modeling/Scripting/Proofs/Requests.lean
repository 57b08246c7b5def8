import Mathlib.Data.Set.Basic
import Scripting.Library.Standard

/-!
# What library functions can ask for

The work of a native function is a tree of requests, so what it can do is visible in the tree. Only
one request writes: `assign`. `Native.Confined` says that, whatever the answers to the requests are,
the work assigns to variables of a given set only and that its results have a given property. In the
standard library just one function assigns at all, `IO.scan`. It assigns to the variable that its
second argument names, and it has no result.
-/

namespace Scripting

namespace Native

variable {α β : Type} {X : Set String} {P : α → Prop}

/-- Whatever the answers are, the work assigns to variables in `X` only, and its result is in `Q`. -/
def Confined (X : Set String) (Q : α → Prop) : Native α → Prop
  | done result => Q result
  | fail _ => True
  | argument _ next => ∀ value, (next value).Confined X Q
  | callback _ next => ∀ function, (next function).Confined X Q
  | invoke _ _ next => ∀ result, (next result).Confined X Q
  | lookup _ next => ∀ value, (next value).Confined X Q
  | assign name _ next => name ∈ X ∧ next.Confined X Q
  | write _ next => next.Confined X Q
  | read _ next => ∀ line, (next line).Confined X Q
  | inspect next => ∀ overview, (next overview).Confined X Q

theorem Confined.bind {work : Native α} {next : α → Native β} {Q : β → Prop}
    (h : work.Confined X P) (hnext : ∀ a, P a → (next a).Confined X Q) :
    (work >>= next).Confined X Q := by
  show (work.bind next).Confined X Q
  induction work with
  | done result => exact hnext result h
  | fail error => trivial
  | argument index k ih => exact fun value => ih value (h value)
  | callback index k ih => exact fun function => ih function (h function)
  | invoke function values k ih => exact fun result => ih result (h result)
  | lookup name k ih => exact fun value => ih value (h value)
  | assign name value k ih => exact ⟨h.1, ih h.2⟩
  | write line k ih => exact ih h
  | read prompt k ih => exact fun line => ih line (h line)
  | inspect k ih => exact fun overview => ih overview (h overview)

theorem Confined.imp {work : Native α} {Q : α → Prop} (h : work.Confined X P)
    (hPQ : ∀ a, P a → Q a) : work.Confined X Q := by
  induction work with
  | done result => exact hPQ result h
  | fail error => trivial
  | argument index k ih => exact fun value => ih value (h value)
  | callback index k ih => exact fun function => ih function (h function)
  | invoke function values k ih => exact fun result => ih result (h result)
  | lookup name k ih => exact fun value => ih value (h value)
  | assign name value k ih => exact ⟨h.1, ih h.2⟩
  | write line k ih => exact ih h
  | read prompt k ih => exact fun line => ih line (h line)
  | inspect k ih => exact fun overview => ih overview (h overview)

theorem confined_valuesFrom (known : List Value) (index count : Nat) :
    (valuesFrom known index count).Confined X fun _ => True := by
  induction count generalizing known index with
  | zero => trivial
  | succ count ih => exact fun value => ih (value :: known) (index + 1)

end Native

/-! ## What modules export -/

namespace Module

/-- All functions that the module exports have the property. -/
def Every (P : NativeFunction → Prop) (module : Module) : Prop :=
  ∀ field function, (field, Export.function function) ∈ module.exports → P function

variable {P : NativeFunction → Prop} {module : Module}

theorem mem_exports_insert {name field : String} {item item' : Export}
    (h : (field, item') ∈ (module.insert name item).exports) :
    (field = name ∧ item' = item) ∨ (field ≠ name ∧ (field, item') ∈ module.exports) := by
  rcases List.mem_cons.mp h with h | h
  · exact .inl (Prod.mk.inj h)
  · obtain ⟨hmem, hne⟩ := List.mem_filter.mp h
    exact .inr ⟨by simpa using hne, hmem⟩

theorem mem_exports_of_export? {field : String} {item : Export}
    (h : module.export? field = some item) : (field, item) ∈ module.exports := by
  obtain ⟨before, after, hexports, -⟩ := List.lookup_eq_some_iff.mp h
  simp [hexports]

theorem every_empty (name : String) : Every P { name } := by
  intro field function h
  cases h

theorem Every.withFunction (h : module.Every P) (name : String) (arity : Arity)
    {body : CallSite → Native (Option Value)} (hbody : P { name, arity, body }) :
    (module.withFunction name arity body).Every P := by
  intro field function hmem
  rcases mem_exports_insert hmem with ⟨-, hfunction⟩ | ⟨-, hmem⟩
  · cases hfunction
    exact hbody
  · exact h field function hmem

theorem Every.withField (h : module.Every P) (name : String) (value : Value) :
    (module.withField name value).Every P := by
  intro field function hmem
  rcases mem_exports_insert hmem with ⟨-, hfunction⟩ | ⟨-, hmem⟩
  · cases hfunction
  · exact h field function hmem

end Module

namespace Library

open Native

variable {X : Set String} {site : CallSite}

theorem confined_checkType (module : String) (index : Nat) (value : Value) (expected : ValueType) :
    (checkType site module index value expected).Confined X fun _ => True := by
  unfold checkType
  split <;> trivial

theorem confined_stringArgument (module : String) (index : Nat) :
    (stringArgument site module index).Confined X fun _ => True :=
  fun value => (confined_checkType module index value .string).bind fun _ _ => trivial

theorem confined_numberArgument (module : String) (index : Nat) :
    (numberArgument site module index).Confined X fun _ => True := by
  intro value
  refine (confined_checkType module index value .number).bind fun _ _ => ?_
  split <;> trivial

theorem confined_arrayArgument (module : String) (index : Nat) :
    (arrayArgument site module index).Confined X fun _ => True := by
  intro value
  refine (confined_checkType module index value .array).bind fun _ _ => ?_
  split <;> trivial

theorem confined_numbersFrom (module : String) (known : List Float) (index count : Nat) :
    (numbersFrom site module known index count).Confined X fun _ => True := by
  induction count generalizing known index with
  | zero => trivial
  | succ count ih =>
    exact (confined_numberArgument module index).bind fun x _ => ih (x :: known) (index + 1)

theorem confined_numberArguments (module : String) :
    (numberArguments site module).Confined X fun _ => True :=
  confined_numbersFrom module [] 0 site.args.length

/-! ## The functions of the library -/

theorem confined_print (site : CallSite) : (Terminal.print site).Confined X fun _ => True :=
  (confined_valuesFrom [] 0 site.args.length).bind fun _ _ => trivial

theorem confined_printf (site : CallSite) : (Terminal.printf site).Confined X fun _ => True := by
  refine (confined_valuesFrom [] 0 site.args.length).bind fun values _ => ?_
  cases values with
  | nil => trivial
  | cons format values => exact (confined_checkType _ 0 format .string).bind fun _ _ => trivial

/-- The variable that a call of `scan` reads into. -/
def scanTarget (args : List Token) : Set String := { name | args[1]?.map Token.lexeme = some name }

theorem confined_scan (site : CallSite) :
    (Terminal.scan site).Confined (scanTarget site.args) (· = none) := by
  refine (confined_stringArgument Terminal.name 0).bind fun prompt _ => ?_
  split
  · next target htarget =>
    split
    · intro current
      cases current with
      | none => trivial
      | some value =>
        show Native.Confined _ _ (ite _ _ _)
        split
        · trivial
        · exact fun line => ⟨by simp [scanTarget, htarget], rfl⟩
    · trivial
  · trivial

theorem confined_parse (site : CallSite) : (Conversion.parse site).Confined X fun _ => True := by
  refine (confined_stringArgument Conversion.name 0).bind fun text _ => ?_
  split
  · split <;> trivial
  · trivial

theorem confined_sum (site : CallSite) : (Arithmetic.sum site).Confined X fun _ => True :=
  (confined_numberArguments Arithmetic.name).bind fun _ _ => trivial

theorem confined_subtract (site : CallSite) : (Arithmetic.subtract site).Confined X fun _ => True := by
  refine (confined_numberArguments Arithmetic.name).bind fun numbers _ => ?_
  cases numbers <;> trivial

theorem confined_replace (site : CallSite) : (Texts.replace site).Confined X fun _ => True :=
  (confined_stringArgument Texts.name 0).bind fun _ _ =>
    (confined_stringArgument Texts.name 1).bind fun _ _ =>
      (confined_stringArgument Texts.name 2).bind fun _ _ => trivial

/-- A function of one text. -/
theorem confined_of_string (site : CallSite) (f : String → Value) :
    (do return some (f (← stringArgument site Texts.name 0)) : Native (Option Value)).Confined X
      fun _ => True :=
  (confined_stringArgument Texts.name 0).bind fun _ _ => trivial

theorem confined_create (site : CallSite) : (Arrays.create site).Confined X fun _ => True := by
  refine (confined_valuesFrom [] 0 site.args.length).bind fun values _ => ?_
  split <;> trivial

theorem confined_mapFrom (function : Callback) (results : List Value) (index : Nat)
    (items : List Value) :
    (Arrays.mapFrom site function results index items).Confined X fun _ => True := by
  induction items generalizing results index with
  | nil => trivial
  | cons item items ih =>
    intro result
    cases result with
    | none => trivial
    | some value => exact ih (value :: results) (index + 1)

theorem confined_map (site : CallSite) : (Arrays.map site).Confined X fun _ => True := by
  refine (confined_arrayArgument Arrays.name 0).bind fun items _ function => ?_
  show Native.Confined _ _ (ite _ _ _)
  split
  · trivial
  · exact (confined_mapFrom function [] 0 items).bind fun _ _ => trivial

/-- The variables that a call of a library function assigns to. -/
def writes (module field : String) (args : List Token) : Set String :=
  { name | module = Terminal.name ∧ field = "scan" ∧ name ∈ scanTarget args }

/-- No function of the module assigns to a variable. -/
def Unassigning (module : Module) : Prop :=
  ∀ field function, (field, Export.function function) ∈ module.exports →
    ∀ (X : Set String) site, (function.body site).Confined X fun _ => True

theorem unassigning_conversion : Unassigning Conversion.module :=
  (Module.every_empty Conversion.name).withFunction "parse" _ fun _ => confined_parse

theorem unassigning_arithmetic : Unassigning Arithmetic.module :=
  (Module.every_empty Arithmetic.name)
    |>.withFunction "sum" _ (fun _ => confined_sum)
    |>.withFunction "subtract" _ (fun _ => confined_subtract)
    |>.withField "PI" _
    |>.withField "E" _
    |>.withField "constants" _

theorem unassigning_texts : Unassigning Texts.module :=
  (Module.every_empty Texts.name)
    |>.withFunction "replace" _ (fun _ => confined_replace)
    |>.withFunction "trim" _ (fun _ site => confined_of_string site _)
    |>.withFunction "toLowerCase" _ (fun _ site => confined_of_string site _)
    |>.withFunction "chars" _ (fun _ site => confined_of_string site _)

theorem unassigning_arrays : Unassigning Arrays.module :=
  (Module.every_empty Arrays.name)
    |>.withFunction "create" _ (fun _ => confined_create)
    |>.withFunction "map" _ (fun _ => confined_map)

/-- Of the functions of the library all but `IO.scan` assign nothing. -/
theorem function_cases {module : Module} (hmodule : module ∈ modules) {field : String}
    {function : NativeFunction} (hexport : module.export? field = some (.function function)) :
    (module.name = Terminal.name ∧ field = "scan" ∧ function.body = Terminal.scan) ∨
      ((module.name ≠ Terminal.name ∨ field ≠ "scan") ∧
        ∀ (X : Set String) site, (function.body site).Confined X fun _ => True) := by
  have hmem := Module.mem_exports_of_export? hexport
  simp only [modules, List.mem_cons, List.not_mem_nil, or_false] at hmodule
  rcases hmodule with rfl | rfl | rfl | rfl | rfl
  · rcases Module.mem_exports_insert hmem with ⟨rfl, hfunction⟩ | ⟨hfield, hmem⟩
    · cases hfunction
      exact .inl ⟨rfl, rfl, rfl⟩
    · have hrest : Unassigning _ := (Module.every_empty Terminal.name)
        |>.withFunction "print" (.atLeast 0) (fun _ => confined_print)
        |>.withFunction "printf" (.atLeast 2) (fun _ => confined_printf)
      exact .inr ⟨.inr hfield, hrest field function hmem⟩
  · exact .inr ⟨.inl (by decide), unassigning_conversion field function hmem⟩
  · exact .inr ⟨.inl (by decide), unassigning_arithmetic field function hmem⟩
  · exact .inr ⟨.inl (by decide), unassigning_texts field function hmem⟩
  · exact .inr ⟨.inl (by decide), unassigning_arrays field function hmem⟩

/-- A library function assigns to the variables in `writes` only, and one that assigns has no result. -/
theorem confined_body {module : Module} (hmodule : module ∈ modules) {field : String}
    {function : NativeFunction} (hexport : module.export? field = some (.function function))
    (site : CallSite) :
    (function.body site).Confined (writes module.name field site.args) fun result =>
      result.isSome → writes module.name field site.args = ∅ := by
  rcases function_cases hmodule hexport with ⟨hname, hfield, hbody⟩ | ⟨hother, hbody⟩
  · have hwrites : writes module.name field site.args = scanTarget site.args := by
      ext name
      simp [writes, hname, hfield]
    rw [hbody, hwrites]
    refine (confined_scan site).imp fun result hresult hsome => ?_
    rw [hresult] at hsome
    cases hsome
  · have hwrites : writes module.name field site.args = ∅ := by
      ext name
      simp only [writes, Set.mem_ofPred_eq, Set.mem_empty_iff_false, iff_false]
      rintro ⟨hname, hfield, -⟩
      exact hother.elim (· hname) (· hfield)
    exact (hbody _ site).imp fun _ _ _ => hwrites

end Library

end Scripting
