import Scripting.Proofs.Upkeep

/-!
# Expressions that run no function

Of all functions of the library only `Array.map` asks for a declared function to be run. What any
other one does is done by itself, so that an expression that is neither a call of a declared
function nor one of `Array.map` makes no calls (`Expr.invocations_eq_nil`).
-/

namespace Scripting

/-! ## Work -/

namespace Native

variable {α β : Type}

/-- Whatever the answers are, the work does not ask for a function to be run. -/
def Unaided : Native α → Prop
  | done _ | fail _ => True
  | argument _ next => ∀ value, (next value).Unaided
  | callback _ next => ∀ function, (next function).Unaided
  | invoke _ _ _ => False
  | lookup _ next => ∀ value, (next value).Unaided
  | assign _ _ next => next.Unaided
  | write _ next => next.Unaided
  | read _ next => ∀ line, (next line).Unaided
  | inspect next => ∀ overview, (next overview).Unaided

theorem Unaided.bind {work : Native α} {next : α → Native β} (h : work.Unaided)
    (hnext : ∀ a, (next a).Unaided) : (work >>= next).Unaided := by
  show (work.bind next).Unaided
  induction work with
  | done result => exact hnext result
  | fail error => trivial
  | argument index k ih => exact fun value => ih value (h value)
  | callback index k ih => exact fun function => ih function (h function)
  | invoke function values k ih => exact h.elim
  | lookup name k ih => exact fun value => ih value (h value)
  | assign name value k ih => exact ih h
  | write line k ih => exact ih h
  | read prompt k ih => exact fun line => ih line (h line)
  | inspect k ih => exact fun overview => ih overview (h overview)

theorem unaided_valuesFrom (known : List Value) (index count : Nat) :
    (valuesFrom known index count).Unaided := by
  induction count generalizing known index with
  | zero => trivial
  | succ count ih => exact fun value => ih (value :: known) (index + 1)

theorem Unaided.invocations_eq_nil {work : Native α} (h : work.Unaided) (invoke : Invoke)
    (site : CallSite) (s : State) : work.invocations invoke site s = [] := by
  have hafter : ∀ {γ : Type} (s : State) (step : Exec γ) (next : γ → State → List Invocation),
      (∀ a t, next a t = []) → s.after step next = [] := by
    intro γ s step next hnext
    refine List.eq_nil_iff_forall_not_mem.mpr fun i hi => ?_
    obtain ⟨a, t, -, hi⟩ := Exec.mem_after.mp hi
    rw [hnext] at hi
    cases hi
  induction work generalizing s with
  | done result => rfl
  | fail error => rfl
  | argument index next ih =>
    exact hafter _ _ _ fun token t => hafter _ _ _ fun value u => ih value (h value) u
  | callback index next ih =>
    exact hafter _ _ _ fun token t => hafter _ _ _ fun declaration u => ih _ (h _) u
  | invoke function values next ih => exact h.elim
  | lookup name next ih =>
    rw [invocations]
    split
    · exact hafter _ _ _ fun value t => ih _ (h _) t
    · exact ih _ (h _) s
  | assign name value next ih => exact hafter _ _ _ fun _ t => ih h t
  | write line next ih => exact ih h _
  | read prompt next ih => exact hafter _ _ _ fun line t => ih line (h line) t
  | inspect next ih => exact hafter _ _ _ fun overview t => ih overview (h overview) t

end Native

/-! ## The modules -/

namespace Library

open Native

theorem unaided_checkType (site : CallSite) (module : String) (index : Nat) (value : Value)
    (expected : ValueType) : (checkType site module index value expected).Unaided := by
  unfold checkType
  split <;> trivial

theorem unaided_stringArgument (site : CallSite) (module : String) (index : Nat) :
    (stringArgument site module index).Unaided :=
  fun value => (unaided_checkType site module index value .string).bind fun _ => trivial

theorem unaided_numberArguments (site : CallSite) (module : String) :
    (numberArguments site module).Unaided := by
  have hnumber : ∀ index, (numberArgument site module index).Unaided := by
    intro index value
    refine (unaided_checkType site module index value .number).bind fun _ => ?_
    split <;> trivial
  have hfrom : ∀ (count : Nat) (known : List Float) (index : Nat),
      (numbersFrom site module known index count).Unaided := by
    intro count
    induction count with
    | zero => exact fun _ _ => trivial
    | succ count ih => exact fun known index => (hnumber index).bind fun x => ih (x :: known) _
  exact hfrom site.args.length [] 0

theorem unaided_print (site : CallSite) : (Terminal.print site).Unaided :=
  (unaided_valuesFrom [] 0 site.args.length).bind fun _ => trivial

theorem unaided_printf (site : CallSite) : (Terminal.printf site).Unaided := by
  refine (unaided_valuesFrom [] 0 site.args.length).bind fun values => ?_
  cases values with
  | nil => trivial
  | cons format values => exact (unaided_checkType site _ 0 format .string).bind fun _ => trivial

theorem unaided_scan (site : CallSite) : (Terminal.scan site).Unaided := by
  refine (unaided_stringArgument site Terminal.name 0).bind fun prompt => ?_
  split
  · split
    · intro current
      cases current with
      | none => trivial
      | some value =>
        show Native.Unaided (ite _ _ _)
        split
        · trivial
        · exact fun _ => trivial
    · trivial
  · trivial

theorem unaided_parse (site : CallSite) : (Conversion.parse site).Unaided := by
  refine (unaided_stringArgument site Conversion.name 0).bind fun text => ?_
  split
  · split <;> trivial
  · trivial

theorem unaided_sum (site : CallSite) : (Arithmetic.sum site).Unaided :=
  (unaided_numberArguments site Arithmetic.name).bind fun _ => trivial

theorem unaided_subtract (site : CallSite) : (Arithmetic.subtract site).Unaided := by
  refine (unaided_numberArguments site Arithmetic.name).bind fun numbers => ?_
  cases numbers <;> trivial

theorem unaided_replace (site : CallSite) : (Texts.replace site).Unaided :=
  (unaided_stringArgument site Texts.name 0).bind fun _ =>
    (unaided_stringArgument site Texts.name 1).bind fun _ =>
      (unaided_stringArgument site Texts.name 2).bind fun _ => trivial

/-- A function of one text. -/
theorem unaided_of_string (site : CallSite) (f : String → Value) :
    (do return some (f (← stringArgument site Texts.name 0)) : Native (Option Value)).Unaided :=
  (unaided_stringArgument site Texts.name 0).bind fun _ => trivial

theorem unaided_create (site : CallSite) : (Arrays.create site).Unaided := by
  refine (unaided_valuesFrom [] 0 site.args.length).bind fun values => ?_
  split <;> trivial

/-- No function of the module asks for a function to be run. -/
def RunsNothing (module : Module) : Prop :=
  module.Every fun function => ∀ site, (function.body site).Unaided

/-- Of the functions of the library all but `Array.map` do their work by themselves. -/
theorem unaided_of_export? {module : Module} (hmodule : module ∈ modules) {field : String}
    {function : NativeFunction} (hexport : module.export? field = some (.function function))
    (hother : ¬ (module.name = Arrays.name ∧ field = "map")) (site : CallSite) :
    (function.body site).Unaided := by
  have hmem := Module.mem_exports_of_export? hexport
  simp only [modules, List.mem_cons, List.not_mem_nil, or_false] at hmodule
  rcases hmodule with rfl | rfl | rfl | rfl | rfl
  · have hall : RunsNothing Terminal.module := (Module.every_empty Terminal.name)
      |>.withFunction "print" _ unaided_print
      |>.withFunction "printf" _ unaided_printf
      |>.withFunction "scan" _ unaided_scan
    exact hall field function hmem site
  · have hall : RunsNothing Conversion.module :=
      (Module.every_empty Conversion.name).withFunction "parse" _ unaided_parse
    exact hall field function hmem site
  · have hall : RunsNothing Arithmetic.module := (Module.every_empty Arithmetic.name)
      |>.withFunction "sum" _ unaided_sum
      |>.withFunction "subtract" _ unaided_subtract
      |>.withField "PI" _
      |>.withField "E" _
      |>.withField "constants" _
    exact hall field function hmem site
  · have hall : RunsNothing Texts.module := (Module.every_empty Texts.name)
      |>.withFunction "replace" _ unaided_replace
      |>.withFunction "trim" _ (fun site => unaided_of_string site _)
      |>.withFunction "toLowerCase" _ (fun site => unaided_of_string site _)
      |>.withFunction "chars" _ (fun site => unaided_of_string site _)
    exact hall field function hmem site
  · rcases Module.mem_exports_insert hmem with ⟨rfl, -⟩ | ⟨-, hmem⟩
    · exact absurd ⟨rfl, rfl⟩ hother
    · have hrest : RunsNothing _ := (Module.every_empty Arrays.name)
        |>.withFunction "create" (.atLeast 1) unaided_create
      exact hrest field function hmem site

end Library

/-! ## Expressions -/

/-- The expression runs no declared function: it is a literal, a name, a field of a module or a map,
or a call of a function of the library other than `Array.map`. -/
def Expr.RunsNoFunction : Expr → Prop
  | .literal _ | .reference _ => True
  | .call _ => False
  | .access field => ¬ field.Maps

theorem Module.invocations_eq_nil {module : Module} (hmodule : module ∈ Library.modules)
    {access : Access} (hname : module.name = access.module) (h : ¬ access.Maps) (invoke : Invoke)
    (s : State) : module.invocations invoke access s = [] := by
  unfold Module.invocations
  split
  · next function args hexport hargs =>
    dsimp only
    split
    · refine (Library.unaided_of_export? hmodule hexport ?_ _).invocations_eq_nil invoke _ s
      rintro ⟨harrays, hfield⟩
      exact h ⟨hname.symm.trans harrays, hfield, by rw [hargs]; rfl⟩
    · rfl
  · rfl

theorem Expr.invocations_eq_nil {expr : Expr} (h : expr.RunsNoFunction) (invoke : Invoke)
    {s : State} (hmodules : s.imports.modules ⊆ Library.modules) :
    expr.invocations invoke s = [] := by
  cases expr with
  | literal token => rfl
  | reference token => rfl
  | call call => exact h.elim
  | access access =>
    show access.invocations invoke s = []
    unfold Access.invocations
    split
    · next module hget =>
      exact Module.invocations_eq_nil (hmodules (ImportTable.mem_of_get? hget))
        (ImportTable.name_of_get? hget) h invoke s
    · rfl

end Scripting
