import Scripting.Proofs.Holdings

/-!
# Values from the library

Given fit values, the functions of the library ask for fit values to be used and have fit results
(`Native.Builds`). There is one exception: nothing but `Array.map` makes an array without looking at
the types of the items.
-/

namespace Scripting

/-! ## Work -/

namespace Native

variable {α β : Type} {N : Norm} {functions : List Declaration}
  {P : List Declaration → α → Prop} {Q : List Declaration → β → Prop}

/-- Given fit answers, the work asks for fit values to be used, runs only functions that it has been
told are declared, and has a result with the property. More functions may be declared at each
answer, since the work may have been waiting for a call. -/
def Builds (N : Norm) (P : List Declaration → α → Prop) (functions : List Declaration) :
    Native α → Prop
  | done result => P functions result
  | fail error => ¬ error.cause.IsUndefined
  | argument _ next => ∀ later, functions ⊆ later → ∀ value : Value, value.Fit N later →
      (next value).Builds N P later
  | callback _ next => ∀ later, functions ⊆ later → ∀ function : Callback,
      (∃ declaration ∈ later, declaration.name = function.name) → (next function).Builds N P later
  | invoke function values next =>
      (∃ declaration ∈ functions, declaration.name = function.name) ∧
      (∀ value ∈ values, value.Fit N functions) ∧
      ∀ later, functions ⊆ later → ∀ result, N.Admits later result → (next result).Builds N P later
  | lookup _ next => ∀ later, functions ⊆ later → ∀ result, N.Admits later result →
      (next result).Builds N P later
  | assign _ value next => value.Fit N functions ∧
      ∀ later, functions ⊆ later → next.Builds N P later
  | write _ next => ∀ later, functions ⊆ later → next.Builds N P later
  | read _ next => ∀ later, functions ⊆ later → ∀ line, (next line).Builds N P later
  | inspect next => ∀ later, functions ⊆ later → ∀ overview, (next overview).Builds N P later

theorem Builds.bind {work : Native α} {next : α → Native β} (h : work.Builds N P functions)
    (hnext : ∀ later, functions ⊆ later → ∀ a, P later a → (next a).Builds N Q later) :
    (work >>= next).Builds N Q functions := by
  show (work.bind next).Builds N Q functions
  have hlater : ∀ {later : List Declaration}, functions ⊆ later → ∀ latest, later ⊆ latest →
      ∀ a, P latest a → (next a).Builds N Q latest :=
    fun hsubset latest hlatest => hnext latest (List.Subset.trans hsubset hlatest)
  induction work generalizing functions with
  | done result => exact hnext functions (List.Subset.refl _) result h
  | fail error => exact h
  | argument index k ih =>
    exact fun later hle value hvalue => ih value (h later hle value hvalue) (hlater hle)
      fun hsubset => hlater (List.Subset.trans hle hsubset)
  | callback index k ih =>
    exact fun later hle function hfunction => ih function (h later hle function hfunction)
      (hlater hle) fun hsubset => hlater (List.Subset.trans hle hsubset)
  | invoke function values k ih =>
    exact ⟨h.1, h.2.1, fun later hle result hresult => ih result (h.2.2 later hle result hresult)
      (hlater hle) fun hsubset => hlater (List.Subset.trans hle hsubset)⟩
  | lookup name k ih =>
    exact fun later hle result hresult => ih result (h later hle result hresult) (hlater hle)
      fun hsubset => hlater (List.Subset.trans hle hsubset)
  | assign name value k ih =>
    exact ⟨h.1, fun later hle => ih (h.2 later hle) (hlater hle)
      fun hsubset => hlater (List.Subset.trans hle hsubset)⟩
  | write line k ih =>
    exact fun later hle => ih (h later hle) (hlater hle)
      fun hsubset => hlater (List.Subset.trans hle hsubset)
  | read prompt k ih =>
    exact fun later hle line => ih line (h later hle line) (hlater hle)
      fun hsubset => hlater (List.Subset.trans hle hsubset)
  | inspect k ih =>
    exact fun later hle overview => ih overview (h later hle overview) (hlater hle)
      fun hsubset => hlater (List.Subset.trans hle hsubset)

theorem builds_valuesFrom {known : List Value} (hknown : ∀ value ∈ known, value.Fit N functions)
    (index count : Nat) :
    (valuesFrom known index count).Builds N
      (fun later values => ∀ value ∈ values, value.Fit N later) functions := by
  induction count generalizing known index functions with
  | zero => exact fun value hvalue => hknown value (List.mem_reverse.mp hvalue)
  | succ count ih =>
    intro later hle value hvalue
    exact ih (List.forall_mem_cons.mpr ⟨hvalue, fun v hv => (hknown v hv).mono hle⟩) (index + 1)

end Native

/-! ## The modules -/

namespace Library

open Native

variable {N : Norm} {functions : List Declaration} {site : CallSite}

theorem builds_values : site.values.Builds N
    (fun later values => ∀ value ∈ values, value.Fit N later) functions :=
  builds_valuesFrom (fun _ hv => absurd hv List.not_mem_nil) 0 site.args.length

theorem builds_checkType (module : String) (index : Nat) (value : Value) (expected : ValueType) :
    (checkType site module index value expected).Builds N (fun _ _ => True) functions := by
  unfold checkType
  split
  · trivial
  · exact id

theorem builds_stringArgument (module : String) (index : Nat) :
    (stringArgument site module index).Builds N (fun _ _ => True) functions :=
  fun _ _ value _ => (builds_checkType module index value .string).bind fun _ _ _ _ => trivial

theorem builds_numberArgument (module : String) (index : Nat) :
    (numberArgument site module index).Builds N (fun _ _ => True) functions := by
  intro later _ value _
  refine (builds_checkType module index value .number).bind fun _ _ _ _ => ?_
  split
  · trivial
  · exact id

theorem builds_arrayArgument (module : String) (index : Nat) :
    (arrayArgument site module index).Builds N
      (fun later items => ∀ item ∈ items, item.Fit N later) functions := by
  intro later _ value hvalue
  refine (builds_checkType module index value .array).bind fun latest hle _ _ => ?_
  split
  · exact fun item hitem => (hvalue.mono hle).item hitem
  · exact id

theorem builds_numberArguments (module : String) :
    (numberArguments site module).Builds N (fun _ _ => True) functions := by
  have hfrom : ∀ (count : Nat) (known : List Float) (index : Nat) (functions : List Declaration),
      (numbersFrom site module known index count).Builds N (fun _ _ => True) functions := by
    intro count
    induction count with
    | zero => exact fun _ _ _ => trivial
    | succ count ih =>
      exact fun known index functions =>
        (builds_numberArgument module index).bind fun later _ x _ =>
          ih (x :: known) (index + 1) later
  exact hfrom site.args.length [] 0 functions

theorem builds_print (site : CallSite) : (Terminal.print site).Builds N N.Admits functions :=
  builds_values.bind fun _ _ _ _ later _ => N.admits_none later

theorem builds_printf (site : CallSite) : (Terminal.printf site).Builds N N.Admits functions := by
  refine builds_values.bind fun later _ values _ => ?_
  cases values with
  | nil => exact N.admits_none later
  | cons format values =>
    exact (builds_checkType _ 0 format .string).bind fun _ _ _ _ latest _ => N.admits_none latest

theorem builds_scan (site : CallSite) : (Terminal.scan site).Builds N N.Admits functions := by
  refine (builds_stringArgument Terminal.name 0).bind fun _ _ prompt _ => ?_
  split
  · split
    · intro later _ current _
      cases current with
      | none => exact id
      | some value =>
        show Native.Builds N _ _ (ite _ _ _)
        split
        · exact id
        · exact fun latest _ line => ⟨Value.fit_string line, fun last _ => N.admits_none last⟩
    · exact id
  · exact id

theorem builds_parse (site : CallSite) : (Conversion.parse site).Builds N N.Admits functions := by
  refine (builds_stringArgument Conversion.name 0).bind fun _ _ text _ => ?_
  split
  · split
    · exact N.admits_some (Value.fit_number _)
    · exact id
  · exact id

theorem builds_sum (site : CallSite) : (Arithmetic.sum site).Builds N N.Admits functions :=
  (builds_numberArguments Arithmetic.name).bind fun _ _ _ _ => N.admits_some (Value.fit_number _)

theorem builds_subtract (site : CallSite) :
    (Arithmetic.subtract site).Builds N N.Admits functions := by
  refine (builds_numberArguments Arithmetic.name).bind fun _ _ numbers _ => ?_
  cases numbers with
  | nil => exact id
  | cons first rest => exact N.admits_some (Value.fit_number _)

theorem builds_replace (site : CallSite) : (Texts.replace site).Builds N N.Admits functions :=
  (builds_stringArgument Texts.name 0).bind fun _ _ _ _ =>
    (builds_stringArgument Texts.name 1).bind fun _ _ _ _ =>
      (builds_stringArgument Texts.name 2).bind fun _ _ _ _ => N.admits_some (Value.fit_string _)

/-- A function of one text. -/
theorem builds_of_string (site : CallSite) {f : String → Value}
    (hf : ∀ text functions, (f text).Fit N functions) :
    (do return some (f (← stringArgument site Texts.name 0)) : Native (Option Value)).Builds N
      N.Admits functions :=
  (builds_stringArgument Texts.name 0).bind fun later _ text _ => N.admits_some (hf text later)

theorem fit_chars (text : String) :
    (Value.array (text.toList.map fun c => .string c.toString)).Fit N functions := by
  refine Value.fit_array (N.uniform _ ?_) fun item hitem => ?_
  · intro item hitem other hother
    obtain ⟨c, -, rfl⟩ := List.mem_map.mp hitem
    obtain ⟨d, -, rfl⟩ := List.mem_map.mp hother
    rfl
  · obtain ⟨c, -, rfl⟩ := List.mem_map.mp hitem
    exact Value.fit_string _

/-- All values have the type of the first one, if none is refused. -/
theorem uniform_of_findIdx? {values : List Value}
    (h : values.findIdx? (fun value => values.head?.any (·.type ≠ value.type)) = none) :
    Value.Uniform values := by
  rw [List.findIdx?_eq_none_iff] at h
  cases values with
  | nil => exact fun _ hitem => absurd hitem List.not_mem_nil
  | cons first rest =>
    have hfirst : ∀ value ∈ first :: rest, first.type = value.type := by simpa using h
    exact fun item hitem other hother => (hfirst item hitem).symm.trans (hfirst other hother)

theorem builds_create (site : CallSite) : (Arrays.create site).Builds N N.Admits functions := by
  refine builds_values.bind fun later _ values hvalues => ?_
  split
  · exact id
  · next hnone =>
    exact N.admits_some (Value.fit_array (N.uniform _ (uniform_of_findIdx? hnone)) hvalues)

theorem builds_mapFrom {function : Callback} {results items : List Value}
    (hfunction : ∃ declaration ∈ functions, declaration.name = function.name)
    (hresults : ∀ result ∈ results, result.Fit N functions)
    (hitems : ∀ item ∈ items, item.Fit N functions) (index : Nat) :
    (Arrays.mapFrom site function results index items).Builds N
      (fun later all => ∀ result ∈ all, result.Fit N later) functions := by
  induction items generalizing results index functions with
  | nil => exact fun result hresult => hresults result (List.mem_reverse.mp hresult)
  | cons item items ih =>
    obtain ⟨hitem, hitems⟩ := List.forall_mem_cons.mp hitems
    refine ⟨hfunction, List.forall_mem_cons.mpr ⟨hitem, List.forall_mem_singleton.mpr
      (Value.fit_number _)⟩, fun later hle result hresult => ?_⟩
    cases result with
    | none => exact id
    | some value =>
      obtain ⟨declaration, hmem, hname⟩ := hfunction
      exact ih ⟨declaration, hle hmem, hname⟩
        (List.forall_mem_cons.mpr ⟨hresult value rfl, fun v hv => (hresults v hv).mono hle⟩)
        (fun v hv => (hitems v hv).mono hle) (index + 1)

/-- The items of the array are fit, but nothing is known of their types. -/
theorem builds_map (site : CallSite) :
    (Arrays.map site).Builds N (fun later result => ∀ value ∈ result, ∃ items,
      value = .array items ∧ ∀ item ∈ items, item.Fit N later) functions := by
  refine (builds_arrayArgument Arrays.name 0).bind fun later _ items hitems => ?_
  intro latest hle function hfunction
  show Native.Builds N _ _ (ite _ _ _)
  split
  · exact id
  · refine (builds_mapFrom hfunction (fun _ hr => absurd hr List.not_mem_nil)
      (fun item hitem => (hitems item hitem).mono hle) 0).bind fun last _ all hall => ?_
    rintro _ ⟨⟩
    exact ⟨all, rfl, hall⟩

/-- The value is fit, or the function gives fit values. -/
def Fits (N : Norm) : Export → Prop
  | .function function => ∀ site functions, (function.body site).Builds N N.Admits functions
  | .field value => ∀ functions, value.Fit N functions

/-- All that the module exports is fit. -/
def Supplying (N : Norm) (module : Module) : Prop :=
  ∀ field item, (field, item) ∈ module.exports → Fits N item

theorem supplying_empty (name : String) : Supplying N { name } := by
  intro field item h
  cases h

theorem Supplying.insert {module : Module} (h : Supplying N module) (name : String) (item : Export)
    (hitem : Fits N item) : Supplying N (module.insert name item) := by
  intro field other hmem
  rcases Module.mem_exports_insert hmem with ⟨-, rfl⟩ | ⟨-, hmem⟩
  · exact hitem
  · exact h field other hmem

theorem Supplying.withFunction {module : Module} (h : Supplying N module) (name : String)
    (arity : Arity) {body : CallSite → Native (Option Value)}
    (hbody : ∀ site functions, (body site).Builds N N.Admits functions) :
    Supplying N (module.withFunction name arity body) :=
  h.insert name (.function { name, arity, body }) hbody

theorem Supplying.withField {module : Module} (h : Supplying N module) (name : String)
    {value : Value} (hvalue : ∀ functions, value.Fit N functions) :
    Supplying N (module.withField name value) :=
  h.insert name (.field value) hvalue

theorem fit_constants : (Value.map (Fields.ofList
    [("PI", Arithmetic.pi), ("E", Arithmetic.e), ("TAU", Arithmetic.tau)])).Fit N functions := by
  have hempty : (Value.map []).Fit N functions :=
    Value.fit_map fun _ hfield => absurd hfield List.not_mem_nil
  exact ((hempty.insert "PI" (Value.fit_number _)).insert "E" (Value.fit_number _)).insert "TAU"
    (Value.fit_number _)

/-- All exports of the library are fit, except that nothing is known of the types of the items that
`Array.map` puts together. -/
theorem fits_of_export? {module : Module} (hmodule : module ∈ modules) {field : String}
    {item : Export} (hexport : module.export? field = some item) :
    Fits N item ∨ module.name = Arrays.name ∧ field = "map" ∧
      item = .function { name := "map", arity := .exactly 2, body := Arrays.map } := by
  have hmem := Module.mem_exports_of_export? hexport
  simp only [modules, List.mem_cons, List.not_mem_nil, or_false] at hmodule
  rcases hmodule with rfl | rfl | rfl | rfl | rfl
  · have hall : Supplying N Terminal.module := (supplying_empty Terminal.name)
      |>.withFunction "print" _ (fun site _ => builds_print site)
      |>.withFunction "printf" _ (fun site _ => builds_printf site)
      |>.withFunction "scan" _ (fun site _ => builds_scan site)
    exact .inl (hall field item hmem)
  · have hall : Supplying N Conversion.module :=
      (supplying_empty Conversion.name).withFunction "parse" _ fun site _ => builds_parse site
    exact .inl (hall field item hmem)
  · have hall : Supplying N Arithmetic.module := (supplying_empty Arithmetic.name)
      |>.withFunction "sum" _ (fun site _ => builds_sum site)
      |>.withFunction "subtract" _ (fun site _ => builds_subtract site)
      |>.withField "PI" (fun _ => Value.fit_number _)
      |>.withField "E" (fun _ => Value.fit_number _)
      |>.withField "constants" (fun _ => fit_constants)
    exact .inl (hall field item hmem)
  · have hall : Supplying N Texts.module := (supplying_empty Texts.name)
      |>.withFunction "replace" _ (fun site _ => builds_replace site)
      |>.withFunction "trim" _ (fun site _ => builds_of_string site fun _ _ => Value.fit_string _)
      |>.withFunction "toLowerCase" _
        (fun site _ => builds_of_string site fun _ _ => Value.fit_string _)
      |>.withFunction "chars" _ (fun site _ => builds_of_string site fun text _ => fit_chars text)
    exact .inl (hall field item hmem)
  · rcases Module.mem_exports_insert hmem with ⟨rfl, rfl⟩ | ⟨-, hmem⟩
    · exact .inr ⟨rfl, rfl, rfl⟩
    · have hrest : Supplying N _ := (supplying_empty Arrays.name)
        |>.withFunction "create" (.atLeast 1) (fun site _ => builds_create site)
      exact .inl (hrest field item hmem)

theorem fit_of_field {module : Module} (hmodule : module ∈ modules) {field : String} {value : Value}
    (hexport : module.export? field = some (.field value)) : value.Fit N functions := by
  rcases fits_of_export? (N := N) hmodule hexport with hfits | ⟨-, -, hmap⟩
  · exact hfits functions
  · cases hmap

end Library

end Scripting
