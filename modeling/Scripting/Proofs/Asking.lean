import Scripting.Proofs.Requests

/-!
# Library functions ask for all their arguments

A function of the standard library that finishes has asked for each of its arguments, from left to
right, and has assigned to a variable only after that. `Native.Asks` follows a tree of requests with
the number of arguments that have been asked for so far. To look up the variable that an argument
names counts as asking for the argument. A function that gives up never says that it waits for the
result of a call: only the run can find that out.
-/

namespace Scripting

/-- The cause is that a variable was read whose call is not over. -/
def Cause.IsUnresolved : Cause → Prop
  | .unresolvedCall _ => True
  | _ => False

theorem Cause.IsUnresolved.exists_eq {cause : Cause} (h : cause.IsUnresolved) :
    ∃ name, cause = .unresolvedCall name := by
  unfold IsUnresolved at h
  split at h
  · exact ⟨_, rfl⟩
  · exact h.elim

theorem Cause.ne_of_not_isUnresolved {cause : Cause} (h : ¬ cause.IsUnresolved) (name : String) :
    cause ≠ .unresolvedCall name := by
  rintro rfl
  exact h trivial

namespace Native

variable {α β : Type} {site : CallSite}

/-- Whatever the answers are, the work asks for the arguments of its call one after another,
beginning after the first `asked` of them, and assigns only when it has asked for all. If it is done
then its result and the number of arguments that it has asked for in the end are in `Q`. -/
def Asks (site : CallSite) (Q : α → Nat → Prop) (asked : Nat) : Native α → Prop
  | done result => Q result asked
  | fail error => ¬ error.cause.IsUnresolved
  | argument index next => index = asked ∧ ∀ value, (next value).Asks site Q (asked + 1)
  | callback index next => index = asked ∧ ∀ function, (next function).Asks site Q (asked + 1)
  | invoke _ _ next => ∀ result, (next result).Asks site Q asked
  | lookup name next =>
    (∃ token, site.args[asked]? = some token ∧ token.kind = .identifier ∧ token.lexeme = name) ∧
      ∀ value, (next value).Asks site Q (asked + 1)
  | assign _ _ next => asked = site.args.length ∧ next.Asks site Q asked
  | write _ next => next.Asks site Q asked
  | read _ next => ∀ line, (next line).Asks site Q asked
  | inspect next => ∀ overview, (next overview).Asks site Q asked

theorem Asks.bind {P : α → Nat → Prop} {Q : β → Nat → Prop} {work : Native α}
    {next : α → Native β} {asked : Nat} (h : work.Asks site P asked)
    (hnext : ∀ a n, P a n → (next a).Asks site Q n) : (work >>= next).Asks site Q asked := by
  show (work.bind next).Asks site Q asked
  induction work generalizing asked with
  | done result => exact hnext result asked h
  | fail error => exact h
  | argument index k ih => exact ⟨h.1, fun value => ih value (h.2 value)⟩
  | callback index k ih => exact ⟨h.1, fun function => ih function (h.2 function)⟩
  | invoke function values k ih => exact fun result => ih result (h result)
  | lookup name k ih => exact ⟨h.1, fun value => ih value (h.2 value)⟩
  | assign name value k ih => exact ⟨h.1, ih h.2⟩
  | write line k ih => exact ih h
  | read prompt k ih => exact fun line => ih line (h line)
  | inspect k ih => exact fun overview => ih overview (h overview)

theorem asks_valuesFrom (known : List Value) (index count : Nat) :
    (valuesFrom known index count).Asks site (fun _ n => n = index + count) index := by
  induction count generalizing known index with
  | zero => exact rfl
  | succ count ih =>
    refine ⟨rfl, fun value => ?_⟩
    have hrest := ih (value :: known) (index + 1)
    rwa [Nat.add_right_comm] at hrest

end Native

namespace Library

open Native

variable {site : CallSite}

theorem not_isUnresolved_runtime (message : String) : ¬ (Cause.runtime message).IsUnresolved := id

theorem asks_checkType (module : String) (index : Nat) (value : Value) (expected : ValueType)
    (asked : Nat) :
    (checkType site module index value expected).Asks site (fun _ n => n = asked) asked := by
  unfold checkType
  split
  · exact rfl
  · exact id

theorem asks_stringArgument (module : String) (index : Nat) :
    (stringArgument site module index).Asks site (fun _ n => n = index + 1) index :=
  ⟨rfl, fun value => (asks_checkType module index value .string _).bind fun _ _ h => h⟩

theorem asks_numberArgument (module : String) (index : Nat) :
    (numberArgument site module index).Asks site (fun _ n => n = index + 1) index := by
  refine ⟨rfl, fun value => (asks_checkType module index value .number _).bind fun _ n hn => ?_⟩
  split
  · exact hn
  · exact not_isUnresolved_runtime _

theorem asks_arrayArgument (module : String) (index : Nat) :
    (arrayArgument site module index).Asks site (fun _ n => n = index + 1) index := by
  refine ⟨rfl, fun value => (asks_checkType module index value .array _).bind fun _ n hn => ?_⟩
  split
  · exact hn
  · exact not_isUnresolved_runtime _

theorem asks_numbersFrom (module : String) (known : List Float) (index count : Nat) :
    (numbersFrom site module known index count).Asks site (fun _ n => n = index + count) index := by
  induction count generalizing known index with
  | zero => exact rfl
  | succ count ih =>
    refine (asks_numberArgument module index).bind fun x n hn => ?_
    have hrest := ih (x :: known) (index + 1)
    rw [Nat.add_right_comm] at hrest
    exact hn ▸ hrest

/-! ## The functions of the library -/

/-- The work asks for all arguments of its call. -/
def AsksAll (site : CallSite) (work : Native (Option Value)) : Prop :=
  work.Asks site (fun _ n => n = site.args.length) 0

theorem asks_values (site : CallSite) :
    site.values.Asks site (fun _ n => n = site.args.length) 0 := by
  have hall := @asks_valuesFrom site [] 0 site.args.length
  rwa [Nat.zero_add] at hall

theorem asks_numberArguments (module : String) :
    (numberArguments site module).Asks site (fun _ n => n = site.args.length) 0 := by
  have hall := @asks_numbersFrom site module [] 0 site.args.length
  rwa [Nat.zero_add] at hall

theorem asksAll_print (site : CallSite) : AsksAll site (Terminal.print site) :=
  (asks_values site).bind fun _ _ hn => hn

theorem asksAll_printf (site : CallSite) : AsksAll site (Terminal.printf site) := by
  refine (asks_values site).bind fun values n hn => ?_
  cases values with
  | nil => exact hn
  | cons format values =>
    exact (asks_checkType _ 0 format .string n).bind fun _ m hm => hm.trans hn

/-- The second argument is looked up, and not evaluated. -/
theorem asksAll_scan (h : site.args.length = 2) : AsksAll site (Terminal.scan site) := by
  refine (asks_stringArgument Terminal.name 0).bind fun prompt n hn => ?_
  subst hn
  split
  · next target htarget =>
    split
    · next hkind =>
      refine ⟨⟨target, htarget, hkind, rfl⟩, fun current => ?_⟩
      cases current with
      | none => exact id
      | some value =>
        show Native.Asks _ _ _ (ite _ _ _)
        split
        · exact id
        · exact fun line => ⟨h.symm, h.symm⟩
    · exact not_isUnresolved_runtime _
  · exact not_isUnresolved_runtime _

theorem asksAll_parse (h : site.args.length = 1) : AsksAll site (Conversion.parse site) := by
  refine (asks_stringArgument Conversion.name 0).bind fun text n hn => ?_
  split
  · split
    · exact hn.trans h.symm
    · exact not_isUnresolved_runtime _
  · exact not_isUnresolved_runtime _

theorem asksAll_sum (site : CallSite) : AsksAll site (Arithmetic.sum site) :=
  (asks_numberArguments Arithmetic.name).bind fun _ _ hn => hn

theorem asksAll_subtract (site : CallSite) : AsksAll site (Arithmetic.subtract site) := by
  refine (asks_numberArguments Arithmetic.name).bind fun numbers n hn => ?_
  cases numbers with
  | nil => exact not_isUnresolved_runtime _
  | cons first rest => exact hn

theorem asksAll_replace (h : site.args.length = 3) : AsksAll site (Texts.replace site) := by
  refine (asks_stringArgument Texts.name 0).bind fun _ n hn => ?_
  subst hn
  refine (asks_stringArgument Texts.name 1).bind fun _ n hn => ?_
  subst hn
  exact (asks_stringArgument Texts.name 2).bind fun _ n hn => hn.trans h.symm

/-- A function of one text. -/
theorem asksAll_of_string (h : site.args.length = 1) (f : String → Value) :
    AsksAll site (do return some (f (← stringArgument site Texts.name 0))) :=
  (asks_stringArgument Texts.name 0).bind fun _ _ hn => hn.trans h.symm

theorem asksAll_create (site : CallSite) : AsksAll site (Arrays.create site) := by
  refine (asks_values site).bind fun values n hn => ?_
  split
  · exact not_isUnresolved_runtime _
  · exact hn

theorem asks_mapFrom (function : Callback) (results : List Value) (index : Nat)
    (items : List Value) (asked : Nat) :
    (Arrays.mapFrom site function results index items).Asks site (fun _ n => n = asked) asked := by
  induction items generalizing results index with
  | nil => exact rfl
  | cons item items ih =>
    intro result
    cases result with
    | none => exact id
    | some value => exact ih (value :: results) (index + 1)

theorem asksAll_map (h : site.args.length = 2) : AsksAll site (Arrays.map site) := by
  refine (asks_arrayArgument Arrays.name 0).bind fun items n hn => ?_
  subst hn
  refine ⟨rfl, fun function => ?_⟩
  show Native.Asks _ _ _ (ite _ _ _)
  split
  · exact not_isUnresolved_runtime _
  · exact (asks_mapFrom function [] 0 items 2).bind fun _ n hn => hn.trans h.symm

/-- All functions of the module ask for all their arguments when there are as many as they take. -/
def Attentive (module : Module) : Prop :=
  ∀ field function, (field, Export.function function) ∈ module.exports →
    ∀ site : CallSite, function.arity.accepts site.args.length = true →
      AsksAll site (function.body site)

theorem attentive_of_mem {module : Module} (h : module ∈ modules) : Attentive module := by
  have hexactly : ∀ {count : Nat} {site : CallSite},
      (Arity.exactly count).accepts site.args.length = true → site.args.length = count :=
    fun haccepts => of_decide_eq_true haccepts
  simp only [modules, List.mem_cons, List.not_mem_nil, or_false] at h
  rcases h with rfl | rfl | rfl | rfl | rfl
  · exact (Module.every_empty Terminal.name)
      |>.withFunction "print" _ (fun site _ => asksAll_print site)
      |>.withFunction "printf" _ (fun site _ => asksAll_printf site)
      |>.withFunction "scan" _ (fun _ haccepts => asksAll_scan (hexactly haccepts))
  · exact (Module.every_empty Conversion.name).withFunction "parse" _
      fun _ haccepts => asksAll_parse (hexactly haccepts)
  · exact (Module.every_empty Arithmetic.name)
      |>.withFunction "sum" _ (fun site _ => asksAll_sum site)
      |>.withFunction "subtract" _ (fun site _ => asksAll_subtract site)
      |>.withField "PI" _
      |>.withField "E" _
      |>.withField "constants" _
  · exact (Module.every_empty Texts.name)
      |>.withFunction "replace" _ (fun _ haccepts => asksAll_replace (hexactly haccepts))
      |>.withFunction "trim" _ (fun _ haccepts => asksAll_of_string (hexactly haccepts) _)
      |>.withFunction "toLowerCase" _ (fun _ haccepts => asksAll_of_string (hexactly haccepts) _)
      |>.withFunction "chars" _ (fun _ haccepts => asksAll_of_string (hexactly haccepts) _)
  · exact (Module.every_empty Arrays.name)
      |>.withFunction "create" _ (fun site _ => asksAll_create site)
      |>.withFunction "map" _ (fun _ haccepts => asksAll_map (hexactly haccepts))

/-- A library function asks for all its arguments. -/
theorem asksAll_body {module : Module} (hmodule : module ∈ modules) {field : String}
    {function : NativeFunction} (hexport : module.export? field = some (.function function))
    {site : CallSite} (haccepts : function.arity.accepts site.args.length = true) :
    AsksAll site (function.body site) :=
  attentive_of_mem hmodule field function (Module.mem_exports_of_export? hexport) site haccepts

end Library

end Scripting
