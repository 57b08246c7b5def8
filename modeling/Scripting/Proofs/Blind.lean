import Scripting.Proofs.LikeStates
import Scripting.Proofs.Requests

/-!
# Library functions do not look at places

A native function is given the places of its call and of its arguments, so that its errors can point
there. It could do anything else with them. `Module.Blind` says that the functions of a module do
not: called at like sites, they make the same requests, whatever the answers are, and give the same
results or like errors. All modules of the standard library are blind.
-/

namespace Scripting

variable {c : Correspondence}

/-- The calls are the same but for places. -/
structure CallSite.Alike (c : Correspondence) (site other : CallSite) : Prop where
  function : site.function = other.function
  args : List.Forall₂ (Token.Alike c) site.args other.args
  span : c.span site.span other.span

/-- The works make the same requests, and end with the same result or with like errors. -/
inductive Native.Alike (c : Correspondence) {α : Type} : Native α → Native α → Prop
  | done (result : α) : Native.Alike c (.done result) (.done result)
  | fail {e e' : Error} (h : e.Alike c e') : Native.Alike c (.fail e) (.fail e')
  | argument (index : Nat) {k k' : Value → Native α}
      (h : ∀ value, Native.Alike c (k value) (k' value)) :
      Native.Alike c (.argument index k) (.argument index k')
  | callback (index : Nat) {k k' : Callback → Native α}
      (h : ∀ function, Native.Alike c (k function) (k' function)) :
      Native.Alike c (.callback index k) (.callback index k')
  | invoke (function : Callback) (values : List Value) {k k' : Option Value → Native α}
      (h : ∀ result, Native.Alike c (k result) (k' result)) :
      Native.Alike c (.invoke function values k) (.invoke function values k')
  | lookup (name : String) {k k' : Option Value → Native α}
      (h : ∀ value, Native.Alike c (k value) (k' value)) :
      Native.Alike c (.lookup name k) (.lookup name k')
  | assign (name : String) (value : Value) {k k' : Native α} (h : Native.Alike c k k') :
      Native.Alike c (.assign name value k) (.assign name value k')
  | write (line : String) {k k' : Native α} (h : Native.Alike c k k') :
      Native.Alike c (.write line k) (.write line k')
  | read (prompt : String) {k k' : String → Native α}
      (h : ∀ line, Native.Alike c (k line) (k' line)) :
      Native.Alike c (.read prompt k) (.read prompt k')
  | inspect {k k' : Overview → Native α}
      (h : ∀ overview, Native.Alike c (k overview) (k' overview)) :
      Native.Alike c (.inspect k) (.inspect k')

/-- At like sites the function works alike, whatever places correspond. -/
def Native.Blind (body : CallSite → Native (Option Value)) : Prop :=
  ∀ (c : Correspondence) (site other : CallSite), site.Alike c other →
    (body site).Alike c (body other)

/-- All functions of the module are blind. -/
def Module.Blind (module : Module) : Prop :=
  ∀ field function, (field, Export.function function) ∈ module.exports →
    Native.Blind function.body

/-- All places correspond to one another, and the modules are those that do not look at places. -/
def Correspondence.anywhere : Correspondence where
  span _ _ := True
  module := Module.Blind

/-- All modules that the registry offers are blind. -/
def Registry.Blind (registry : Registry) : Prop :=
  ∀ name module, registry.resolve? name = some module → module.Blind

theorem CallSite.Alike.argumentSpan {site other : CallSite} (h : site.Alike c other) (index : Nat) :
    c.span (site.argumentSpan index) (other.argumentSpan index) := by
  have htoken := rel_getElem?_of_forall₂ h.args index
  unfold CallSite.argumentSpan
  generalize site.args[index]? = token at htoken ⊢
  generalize other.args[index]? = token' at htoken ⊢
  cases htoken with
  | none => exact h.span
  | some htoken => exact htoken.span

namespace Native

variable {α β : Type}

theorem Alike.bind {work other : Native α} {next next' : α → Native β} (h : work.Alike c other)
    (hnext : ∀ a, (next a).Alike c (next' a)) : (work >>= next).Alike c (other >>= next') := by
  show (work.bind next).Alike c (other.bind next')
  induction h with
  | done result => exact hnext result
  | fail h => exact .fail h
  | argument index _ ih => exact .argument index ih
  | callback index _ ih => exact .callback index ih
  | invoke function values _ ih => exact .invoke function values ih
  | lookup name _ ih => exact .lookup name ih
  | assign name value _ ih => exact .assign name value ih
  | write line _ ih => exact .write line ih
  | read prompt _ ih => exact .read prompt ih
  | inspect _ ih => exact .inspect ih

theorem alike_valuesFrom (known : List Value) (index count : Nat) :
    (valuesFrom known index count).Alike c (valuesFrom known index count) := by
  induction count generalizing known index with
  | zero => exact .done _
  | succ count ih => exact .argument index fun value => ih (value :: known) (index + 1)

end Native

namespace Library

open Native

variable {site other : CallSite}

section Arguments

variable (h : site.Alike c other)

include h

theorem alike_values : site.values.Alike c other.values := by
  unfold CallSite.values
  rw [h.args.length_eq]
  exact alike_valuesFrom [] 0 _

theorem alike_fail_argument {α : Type} (cause : Cause) (index : Nat) :
    (Native.fail (.locate cause (site.argumentSpan index)) : Native α).Alike c
      (.fail (.locate cause (other.argumentSpan index))) :=
  .fail (Error.alike_locate cause (h.argumentSpan index))

theorem alike_checkType (module : String) (index : Nat) (value : Value) (expected : ValueType) :
    (checkType site module index value expected).Alike c
      (checkType other module index value expected) := by
  unfold checkType
  rw [h.function]
  split
  · exact .done _
  · exact alike_fail_argument h _ index

theorem alike_stringArgument (module : String) (index : Nat) :
    (stringArgument site module index).Alike c (stringArgument other module index) :=
  .argument index fun value => (alike_checkType h module index value .string).bind fun _ => .done _

theorem alike_numberArgument (module : String) (index : Nat) :
    (numberArgument site module index).Alike c (numberArgument other module index) := by
  refine .argument index fun value =>
    (alike_checkType h module index value .number).bind fun _ => ?_
  rw [h.function]
  split
  · exact .done _
  · exact alike_fail_argument h _ index

theorem alike_arrayArgument (module : String) (index : Nat) :
    (arrayArgument site module index).Alike c (arrayArgument other module index) := by
  refine .argument index fun value => (alike_checkType h module index value .array).bind fun _ => ?_
  rw [h.function]
  split
  · exact .done _
  · exact alike_fail_argument h _ index

theorem alike_numbersFrom (module : String) (known : List Float) (index count : Nat) :
    (numbersFrom site module known index count).Alike c
      (numbersFrom other module known index count) := by
  induction count generalizing known index with
  | zero => exact .done _
  | succ count ih =>
    exact (alike_numberArgument h module index).bind fun x => ih (x :: known) (index + 1)

theorem alike_numberArguments (module : String) :
    (numberArguments site module).Alike c (numberArguments other module) := by
  unfold numberArguments
  rw [h.args.length_eq]
  exact alike_numbersFrom h module [] 0 _

end Arguments

/-! ## The functions -/

theorem blind_print : Native.Blind Terminal.print :=
  fun _ _ _ h => (alike_values h).bind fun _ => .write _ (.done _)

theorem blind_printf : Native.Blind Terminal.printf := by
  intro c site other h
  refine (alike_values h).bind fun values => ?_
  cases values with
  | nil => exact .done _
  | cons format values =>
    exact (alike_checkType h _ 0 format .string).bind fun _ => .write _ (.done _)

theorem blind_scan : Native.Blind Terminal.scan := by
  intro c site other h
  have htarget := rel_getElem?_of_forall₂ h.args 1
  refine (alike_stringArgument h Terminal.name 0).bind fun prompt => ?_
  generalize site.args[1]? = target at htarget ⊢
  generalize other.args[1]? = target' at htarget ⊢
  cases htarget with
  | none => exact alike_fail_argument h _ 1
  | some htarget =>
    simp only [htarget.kind, htarget.lexeme]
    split
    · refine .lookup _ fun current => ?_
      cases current with
      | none => exact .fail (Error.alike_locate _ htarget.span)
      | some value =>
        show Native.Alike c (ite _ _ _) (ite _ _ _)
        split
        · exact .fail (Error.alike_locate _ htarget.span)
        · exact .read prompt fun line => .assign _ _ (.done _)
    · exact alike_fail_argument h _ 1

theorem blind_parse : Native.Blind Conversion.parse := by
  intro c site other h
  refine (alike_stringArgument h Conversion.name 0).bind fun text => ?_
  split
  · split
    · exact .done _
    · exact alike_fail_argument h _ 0
  · exact alike_fail_argument h _ 0

theorem blind_sum : Native.Blind Arithmetic.sum :=
  fun _ _ _ h => (alike_numberArguments h Arithmetic.name).bind fun _ => .done _

theorem blind_subtract : Native.Blind Arithmetic.subtract := by
  intro c site other h
  refine (alike_numberArguments h Arithmetic.name).bind fun numbers => ?_
  cases numbers with
  | nil => exact .fail (Error.alike_locate _ h.span)
  | cons first rest => exact .done _

theorem blind_replace : Native.Blind Texts.replace :=
  fun _ _ _ h => (alike_stringArgument h Texts.name 0).bind fun _ =>
    (alike_stringArgument h Texts.name 1).bind fun _ =>
      (alike_stringArgument h Texts.name 2).bind fun _ => .done _

/-- A function of one text. -/
theorem blind_of_string (f : String → Value) :
    Native.Blind fun site => do return some (f (← stringArgument site Texts.name 0)) :=
  fun _ _ _ h => (alike_stringArgument h Texts.name 0).bind fun _ => .done _

theorem blind_create : Native.Blind Arrays.create := by
  intro c site other h
  refine (alike_values h).bind fun values => ?_
  split
  · next index _ => exact alike_fail_argument h _ index
  · exact .done _

theorem alike_mapFrom (h : site.Alike c other) (function : Callback) (results : List Value)
    (index : Nat) (items : List Value) :
    (Arrays.mapFrom site function results index items).Alike c
      (Arrays.mapFrom other function results index items) := by
  induction items generalizing results index with
  | nil => exact .done _
  | cons item items ih =>
    refine .invoke function _ fun result => ?_
    cases result with
    | none => exact .fail (Error.alike_locate _ h.span)
    | some value => exact ih (value :: results) (index + 1)

theorem blind_map : Native.Blind Arrays.map := by
  intro c site other h
  refine (alike_arrayArgument h Arrays.name 0).bind fun items => .callback 1 fun function => ?_
  show Native.Alike c (ite _ _ _) (ite _ _ _)
  split
  · exact alike_fail_argument h _ 1
  · exact (alike_mapFrom h function [] 0 items).bind fun _ => .done _

end Library

/-! ## The modules -/

namespace Library

theorem blind_of_mem {module : Module} (h : module ∈ modules) : module.Blind := by
  simp only [modules, List.mem_cons, List.not_mem_nil, or_false] at h
  rcases h with rfl | rfl | rfl | rfl | rfl
  · exact (Module.every_empty Terminal.name)
      |>.withFunction "print" _ blind_print
      |>.withFunction "printf" _ blind_printf
      |>.withFunction "scan" _ blind_scan
  · exact (Module.every_empty Conversion.name).withFunction "parse" _ blind_parse
  · exact (Module.every_empty Arithmetic.name)
      |>.withFunction "sum" _ blind_sum
      |>.withFunction "subtract" _ blind_subtract
      |>.withField "PI" _
      |>.withField "E" _
      |>.withField "constants" _
  · exact (Module.every_empty Texts.name)
      |>.withFunction "replace" _ blind_replace
      |>.withFunction "trim" _ (blind_of_string _)
      |>.withFunction "toLowerCase" _ (blind_of_string _)
      |>.withFunction "chars" _ (blind_of_string _)
  · exact (Module.every_empty Arrays.name)
      |>.withFunction "create" _ blind_create
      |>.withFunction "map" _ blind_map

theorem blind_standard : standard.Blind :=
  fun _ _ h => blind_of_mem (mem_modules_of_resolve? h)

end Library

end Scripting
