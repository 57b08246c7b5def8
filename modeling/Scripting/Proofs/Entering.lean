import Scripting.Proofs.ExportClosure
import Scripting.Proofs.References

/-!
# Entering a function

A call of a declared function either runs the body or is refused before anything has happened. The
body starts with one plain variable for each parameter and with the modules of the caller, followed by
those of its own that are new. That each parameter holds its value depends on the names of the
parameters, which are distinct in every function that is read from tokens (`Declaration.Parsed`).
-/

namespace Scripting

open State

/-! ## Functions that are read from tokens -/

/-- The function is declared by a statement of a program that has been read from tokens. -/
def Declaration.Parsed (declaration : Declaration) : Prop :=
  ∃ (loader : Loader) (tokens : List Token) (program : Program) (st : Statement),
    loader.ofTokens tokens = .ok program ∧ st ∈ program.statements ∧
      st.form = .function declaration

namespace Program.Grammar

/-- Imports do not stand for functions. -/
theorem Import.form_ne_function {loader : Loader} {exported : Bool} {tokens : List Token}
    {st : Statement} (h : Import loader.resolve exported tokens st) (declaration : Declaration) :
    st.form ≠ .function declaration := by
  cases h with
  | mk _ _ hform =>
    rcases Loader.resolve_cases hform with ⟨module, -, rfl⟩ | ⟨file, place, program, rfl, -⟩
    · exact nofun
    · exact nofun

end Program.Grammar

/-- The parameters of a function that is read from tokens have distinct names, and its body imports
what its statements do. -/
theorem Declaration.Parsed.facts {declaration : Declaration} (h : declaration.Parsed) :
    (declaration.params.map Param.name).Nodup ∧
      ∃ statements, declaration.body = .ofStatements statements := by
  obtain ⟨loader, tokens, program, st, hread, hst, hform⟩ := h
  obtain ⟨statements, rfl, hsentences⟩ := Program.ofTokens_eq_ok_iff.mp hread
  obtain ⟨part, hphrase⟩ := hsentences.exists_of_mem hst
  have hfunction : ∀ {exported part},
      Program.Grammar.Function loader.resolve loader.file exported part st →
        (declaration.params.map Param.name).Nodup ∧
          ∃ statements, declaration.body = .ofStatements statements := by
    intro exported part h
    cases h with
    | mk _ _ _ _ _ hdistinct =>
      cases hform
      exact ⟨hdistinct, _, rfl⟩
  cases hphrase with
  | imports h => exact absurd hform (h.form_ne_function declaration)
  | exportsImport _ h => exact absurd hform (h.form_ne_function declaration)
  | function h => exact hfunction h
  | exportsFunction _ h => exact hfunction h
  | _ => cases hform

/-! ## Tables of variables and modules -/

namespace Variables

/-- Variables with distinct names are all kept. -/
theorem entries_foldl_put {vars : List Variable} (hdistinct : (vars.map Variable.name).Nodup)
    (start : Variables) (hnew : ∀ v ∈ vars, start.contains v.name = false) :
    (vars.foldl put start).entries = vars.reverse ++ start.entries := by
  induction vars generalizing start with
  | nil => rfl
  | cons v vars ih =>
    obtain ⟨hv, hrest⟩ := List.nodup_cons.mp hdistinct
    obtain ⟨hfree, hnew⟩ := List.forall_mem_cons.mp hnew
    have hput : start.put v = { entries := v :: start.entries } := by
      rw [put, if_neg (by simp [hfree])]
    have hstill : ∀ w ∈ vars, (Variables.mk (v :: start.entries)).contains w.name = false := by
      intro w hw
      have hne : v.name ≠ w.name := fun heq => hv (heq ▸ List.mem_map_of_mem hw)
      have hold := hnew w hw
      unfold contains at hold ⊢
      rw [List.any_cons, hold]
      simp [hne]
    rw [List.foldl_cons, hput, ih hrest _ hstill]
    simp

theorem entries_ofList {vars : List Variable} (hdistinct : (vars.map Variable.name).Nodup) :
    (ofList vars).entries = vars.reverse := by
  rw [ofList, entries_foldl_put hdistinct {} fun _ _ => rfl, List.append_nil]

/-- A variable of a table with distinct names is found under its name. -/
theorem get?_of_mem {vars : Variables} (hdistinct : (vars.entries.map Variable.name).Nodup)
    {v : Variable} (hv : v ∈ vars.entries) : vars.get? v.name = some v := by
  unfold get?
  rw [List.find?_eq_some_iff_append]
  obtain ⟨before, after, hsplit⟩ := List.append_of_mem hv
  refine ⟨by simp, before, after, hsplit, fun w hw => ?_⟩
  rw [hsplit, List.map_append, List.map_cons] at hdistinct
  have hnot := (List.nodup_append.mp hdistinct).2.2 w.name (List.mem_map_of_mem hw) v.name
    List.mem_cons_self
  simpa using hnot

end Variables

namespace ImportTable

theorem nodup_names_ofStatements (statements : List Statement) :
    (Program.ofStatements statements).imports.names.Nodup :=
  nodup_names_foldl_insert _ List.nodup_nil

end ImportTable

/-! ## Values and parameters -/

/-- The value has the type that the parameter asks for, if it asks for one. -/
def Param.Suits (param : Param) (value : Value) : Prop :=
  ∀ type, param.type = some type → value.type = type

/-- The variables that hold the values of the parameters. -/
def Param.bound (params : List Param) (values : List Value) : List Variable :=
  List.zipWith (fun param value => .plain param.name value) params values

/-- Each value suits the parameter at its position. -/
def Param.AllSuit (params : List Param) (values : List Value) : Prop :=
  ∀ (i : Nat) (param : Param) (value : Value),
    params[i]? = some param → values[i]? = some value → param.Suits value

theorem Param.allSuit_cons {param : Param} {params : List Param} {value : Value}
    {values : List Value} :
    AllSuit (param :: params) (value :: values) ↔ param.Suits value ∧ AllSuit params values := by
  constructor
  · exact fun h => ⟨h 0 param value rfl rfl, fun i => h (i + 1)⟩
  · rintro ⟨hfirst, hrest⟩ (_ | i) p v hp hv
    · cases hp
      cases hv
      exact hfirst
    · exact hrest i p v hp hv

/-- The value at position `i` is the first that does not suit its parameter, which asks for the
type. -/
structure Param.Misfit (params : List Param) (values : List Value) (i : Nat) (value : Value)
    (type : ValueType) : Prop where
  asks : ∃ param, params[i]? = some param ∧ param.type = some type
  given : values[i]? = some value
  differs : value.type ≠ type
  least : AllSuit (params.take i) (values.take i)

theorem Param.Misfit.not_allSuit {params : List Param} {values : List Value} {i : Nat}
    {value : Value} {type : ValueType} (h : Misfit params values i value type) :
    ¬ AllSuit params values := by
  obtain ⟨param, hparam, htype⟩ := h.asks
  exact fun hall => h.differs (hall i param value hparam h.given type htype)

theorem Param.Misfit.le {params : List Param} {values : List Value} {i j : Nat}
    {value other : Value} {type type' : ValueType} (h : Misfit params values i value type)
    (h' : Misfit params values j other type') : i ≤ j := by
  by_contra hlt
  obtain ⟨param, hparam, htype⟩ := h'.asks
  refine h'.differs (h.least j param other ?_ ?_ type' htype)
  · rwa [List.getElem?_take_of_lt (Nat.lt_of_not_le hlt)]
  · rw [List.getElem?_take_of_lt (Nat.lt_of_not_le hlt)]
    exact h'.given

namespace Exec

open Param

/-- Binding a parameter to a value that suits it leaves the others to be bound. -/
theorem bindParams_cons_of_suits {param : Param} {value : Value} (h : param.Suits value)
    (function : String) (span : Span) (index : Nat) (params : List Param) (values : List Value) :
    bindParams function span index (param :: params) (value :: values) =
      (bindParams function span (index + 1) params values).map (.plain param.name value :: ·) := by
  rw [bindParams]
  split
  · next type htype =>
    rw [if_neg (not_not.mpr (h type htype))]
    cases bindParams function span (index + 1) params values <;> rfl
  · cases bindParams function span (index + 1) params values <;> rfl

/-- All parameters are bound, or the first value that does not suit is refused. The induction is on
the parameters. -/
theorem bindParams_cases (function : String) (span : Span) (index : Nat) (params : List Param)
    (values : List Value) :
    (AllSuit params values ∧ bindParams function span index params values =
      .ok (bound params values)) ∨
    ∃ i value type, Misfit params values i value type ∧
      bindParams function span index params values =
        .error (.locate (.argumentType function (index + i + 1) type value.type) span) := by
  induction params generalizing index values with
  | nil => exact .inl ⟨by simp [AllSuit], rfl⟩
  | cons param params ih =>
    cases values with
    | nil => exact .inl ⟨by simp [AllSuit], rfl⟩
    | cons value values =>
      by_cases hfirst : param.Suits value
      · rw [bindParams_cons_of_suits hfirst, allSuit_cons]
        rcases ih (index + 1) values with ⟨hrest, hbound⟩ | ⟨i, other, type, hmisfit, hbound⟩
        · exact .inl ⟨⟨hfirst, hrest⟩, by rw [hbound]; rfl⟩
        · refine .inr ⟨i + 1, other, type, ⟨hmisfit.asks, hmisfit.given, hmisfit.differs, ?_⟩, ?_⟩
          · exact allSuit_cons.mpr ⟨hfirst, hmisfit.least⟩
          · rw [hbound, Nat.add_right_comm index 1 i]
            rfl
      · obtain ⟨type, hdiffers⟩ := not_forall.mp hfirst
        obtain ⟨htype, hne⟩ := Classical.not_imp.mp hdiffers
        refine .inr ⟨0, value, type, ⟨⟨param, rfl, htype⟩, rfl, hne, by simp [AllSuit]⟩, ?_⟩
        rw [bindParams, htype]
        exact if_pos hne

end Exec

/-! ## Calls -/

/-- Run a declared function when so many calls are running already. -/
def callAt (depth : Nat) : Invoke := callWithin (callLimit - depth)

/-- What a call has to meet for the body to run. -/
structure Declaration.Takes (declaration : Declaration) (depth : Nat) (values : List Value) :
    Prop where
  depth : depth < callLimit
  arity : values.length = declaration.arity
  types : Param.AllSuit declaration.params values

/-- Why a call is refused: the first of its defects, where depth comes before the number of values and
this before their types. -/
inductive Declaration.Refuses (declaration : Declaration) (depth : Nat) (values : List Value) :
    Cause → Prop
  | depth (h : callLimit ≤ depth) : Refuses declaration depth values .stackOverflow
  | arity (hdepth : depth < callLimit) (h : values.length ≠ declaration.arity) :
      Refuses declaration depth values
        (.wrongArity declaration.name (toString declaration.arity) values.length)
  | type {i : Nat} {value : Value} {type : ValueType} (hdepth : depth < callLimit)
      (harity : values.length = declaration.arity)
      (h : Param.Misfit declaration.params values i value type) :
      Refuses declaration depth values (.argumentType declaration.name (i + 1) type value.type)

/-- The body of a function that is called on some values may start in this state. It is in a new
scope, which has a variable for each parameter and no others, the modules of the caller followed by
its own new ones, and all else as the caller has it. -/
structure State.Begins (s : State) (declaration : Declaration) (values : List Value)
    (start : State) : Prop where
  count : start.vars.entries.length = declaration.arity
  plain : ∀ v ∈ start.vars.entries, ∃ name value, v = .plain name value
  params : ∀ (i : Nat) (param : Param) (value : Value), declaration.params[i]? = some param →
    values[i]? = some value → start.vars.get? param.name = some (.plain param.name value)
  imports : start.imports.modules = s.imports.modules ++
    declaration.body.imports.modules.filter fun module => !s.imports.contains module.name
  others : start = s.nest start.vars start.imports

theorem Param.map_name_bound {params : List Param} {values : List Value}
    (h : params.length ≤ values.length) :
    (bound params values).map Variable.name = params.map Param.name := by
  induction params generalizing values with
  | nil => rfl
  | cons param params ih =>
    cases values with
    | nil => simp at h
    | cons value values =>
      rw [bound, List.zipWith_cons_cons, List.map_cons, List.map_cons]
      exact congrArg _ (ih (Nat.le_of_succ_le_succ h))

/-- With its parameters bound to the values, a function that is read from tokens can start. -/
theorem State.begins_enter {declaration : Declaration} (h : declaration.Parsed)
    {values : List Value} (harity : values.length = declaration.arity) (s : State) :
    s.Begins declaration values (s.enter declaration (Param.bound declaration.params values)) := by
  obtain ⟨hdistinct, statements, hbody⟩ := h.facts
  have hnames := Param.map_name_bound harity.ge
  have hnodup := hnames ▸ hdistinct
  have hentries := Variables.entries_ofList hnodup
  refine ⟨?_, fun v hv => ?_, fun i param value hparam hvalue => ?_, ?_, rfl⟩
  · show (Variables.ofList _).entries.length = _
    rw [hentries, List.length_reverse, Param.bound, List.length_zipWith, harity]
    exact Nat.min_self _
  · have hbound := Variables.mem_ofList hv
    obtain ⟨i, hi⟩ := List.getElem?_of_mem hbound
    rw [Param.bound, List.getElem?_zipWith] at hi
    split at hi
    · cases hi
      exact ⟨_, _, rfl⟩
    · cases hi
  · have hbound : Variable.plain param.name value ∈
        (Variables.ofList (Param.bound declaration.params values)).entries := by
      rw [hentries, List.mem_reverse]
      refine List.mem_of_getElem? (i := i) ?_
      rw [Param.bound, List.getElem?_zipWith, hparam, hvalue]
    refine Variables.get?_of_mem ?_ hbound
    rw [hentries, List.map_reverse, List.nodup_reverse]
    exact hnodup
  · show (s.imports.merge declaration.body.imports).modules = _
    refine ImportTable.modules_merge_of_nodup _ ?_
    rw [hbody]
    exact ImportTable.nodup_names_ofStatements statements

/-- A value that does not suit is refused, the first one. -/
theorem Exec.bindParams_of_misfit {params : List Param} {values : List Value} {i : Nat}
    {value : Value} {type : ValueType} (h : Param.Misfit params values i value type)
    (function : String) (span : Span) (index : Nat) :
    bindParams function span index params values =
      .error (.locate (.argumentType function (index + i + 1) type value.type) span) := by
  rcases bindParams_cases function span index params values with
    ⟨hall, -⟩ | ⟨j, other, type', hmisfit, hbound⟩
  · exact absurd hall h.not_allSuit
  · cases Nat.le_antisymm (h.le hmisfit) (hmisfit.le h)
    cases Option.some.inj (h.given.symm.trans hmisfit.given)
    obtain ⟨param, hparam, htype⟩ := h.asks
    obtain ⟨param', hparam', htype'⟩ := hmisfit.asks
    cases Option.some.inj (hparam.symm.trans hparam')
    cases Option.some.inj (htype.symm.trans htype')
    exact hbound

namespace Declaration

variable {declaration : Declaration} {depth : Nat} {values : List Value}

/-- A call that is not taken is refused for some reason. -/
theorem exists_refuses (h : ¬ declaration.Takes depth values) :
    ∃ cause, declaration.Refuses depth values cause := by
  by_cases hdepth : depth < callLimit
  · by_cases harity : values.length = declaration.arity
    · rcases Exec.bindParams_cases "" {} 0 declaration.params values with
        ⟨htypes, -⟩ | ⟨i, value, type, hmisfit, -⟩
      · exact absurd ⟨hdepth, harity, htypes⟩ h
      · exact ⟨_, .type hdepth harity hmisfit⟩
    · exact ⟨_, .arity hdepth harity⟩
  · exact ⟨_, .depth (Nat.le_of_not_lt hdepth)⟩

theorem Refuses.not_takes {cause : Cause} (h : declaration.Refuses depth values cause) :
    ¬ declaration.Takes depth values := by
  intro htakes
  cases h with
  | depth h => exact absurd htakes.depth (Nat.not_lt_of_le h)
  | arity _ h => exact h htakes.arity
  | type _ _ h => exact h.not_allSuit htakes.types

/-- The levels that are left when so many calls are running. -/
theorem callAt_eq (h : depth < callLimit) :
    callAt depth = callWithin (callLimit - (depth + 1) + 1) := by
  rw [callAt]
  congr 1
  omega

/-- A call is refused before anything has happened. -/
theorem Refuses.run_eq {cause : Cause} (h : declaration.Refuses depth values cause) (span : Span)
    (s : State) :
    s.run (callAt depth declaration values span) = (.error (.locate cause span), s) := by
  cases h with
  | depth h =>
    rw [callAt, Nat.sub_eq_zero_of_le h]
    rfl
  | arity hdepth h =>
    rw [callAt_eq hdepth, callWithin, if_pos h]
    rfl
  | type hdepth harity h =>
    rw [callAt_eq hdepth, callWithin, if_neg (not_not.mpr harity), Exec.bindParams_of_misfit h,
      Nat.zero_add]
    rfl

/-- A call that is taken runs the body. -/
theorem Takes.run_eq (h : declaration.Takes depth values) (span : Span) (s : State) :
    s.run (callAt depth declaration values span) =
      Invocation.ending ⟨declaration, values, span, s⟩
        ((s.enter declaration (Param.bound declaration.params values)).run
          (Exec.statementsOf (callAt (depth + 1)) declaration.body.statements)) := by
  rw [callAt_eq h.depth]
  refine Invocation.run_succ (i := ⟨declaration, values, span, s⟩) ?_
  rw [Invocation.entry?, if_neg (not_not.mpr h.arity)]
  rcases Exec.bindParams_cases declaration.name span 0 declaration.params values with
    ⟨-, hbound⟩ | ⟨_, _, _, hmisfit, -⟩
  · rw [hbound]
  · exact absurd h.types hmisfit.not_allSuit

end Declaration

/-- Calls bind all parameters or do nothing.

A function that is read from tokens is called on some values, in any state and with any number of
calls running already. If these are fewer than the limit and the values suit the parameters in number
and in types, then the body runs: it starts with a plain variable for each parameter that holds the
value at its position, with no other variables, and with the modules of the caller followed by its own
new ones; and the call ends as the body does. Otherwise there is a reason to refuse the call, the
first in the order of depth, number and types. Then the call fails for this reason and leaves the
state as it is, whatever the body would do. -/
theorem call_binds_or_refuses {declaration : Declaration} (h : declaration.Parsed) (depth : Nat)
    (values : List Value) (span : Span) (s : State) :
    (declaration.Takes depth values → ∃ start, s.Begins declaration values start ∧
      s.run (callAt depth declaration values span) =
        Invocation.ending ⟨declaration, values, span, s⟩
          (start.run (Exec.statementsOf (callAt (depth + 1)) declaration.body.statements))) ∧
    (¬ declaration.Takes depth values → ∃ cause, declaration.Refuses depth values cause) ∧
    ∀ cause, declaration.Refuses depth values cause →
      ¬ declaration.Takes depth values ∧
      ∀ body, s.run (callAt depth { declaration with body } values span) =
        (.error (.locate cause span), s) := by
  refine ⟨fun htakes => ⟨_, State.begins_enter h htakes.arity s, htakes.run_eq span s⟩,
    Declaration.exists_refuses, fun cause hcause => ⟨hcause.not_takes, fun body => ?_⟩⟩
  -- the reason does not look at the body
  have hsame : Declaration.Refuses { declaration with body } depth values cause := by
    cases hcause with
    | depth h => exact .depth h
    | arity hdepth h => exact .arity hdepth h
    | type hdepth harity h => exact .type hdepth harity h
  exact hsame.run_eq span s

/-- A function that asks for a number and for something else. -/
def pairText : String := "function f(a: Number, b) \x7b import \"IO\" return b \x7d"

/-- The function can be called deep down on a number and a truth value. Given a text for the number,
it refuses the text, which comes first. -/
theorem call_binds_or_refuses_pair :
    ∃ declaration : Declaration, declaration.Parsed ∧
      declaration.Takes 63 [.number 0, .boolean true] ∧
      ∀ (span : Span) (s : State),
        (∃ start, s.Begins declaration [.number 0, .boolean true] start ∧
          start.vars.get? "b" = some (.plain "b" (.boolean true))) ∧
        s.run (callAt 63 declaration [.string "x", .boolean true] span) =
          (.error (.locate (.argumentType "f" 1 .number .string) span), s) := by
  have hfacts : (Program.ofText? pairText).any (fun program =>
      program.statements.head?.any fun st => st.form.declaration?.any fun declaration =>
        decide (declaration.name = "f" ∧
          declaration.params = [⟨"a", some .number⟩, ⟨"b", none⟩])) = true := by
    decide +kernel
  obtain ⟨program, hprogram, hfacts⟩ := (Option.any_eq_true _ _).mp hfacts
  obtain ⟨st, hst, hfacts⟩ := (Option.any_eq_true _ _).mp hfacts
  obtain ⟨declaration, hform, hfacts⟩ := (Option.any_eq_true _ _).mp hfacts
  obtain ⟨hname, hparams⟩ := of_decide_eq_true hfacts
  obtain ⟨tokens, -, hread⟩ := exists_of_bind_eq_ok (eq_ok_of_toOption hprogram)
  have hparsed : declaration.Parsed :=
    ⟨_, tokens, program, st, hread, List.mem_of_head? hst, Form.declaration?_eq_some_iff.mp hform⟩
  have htakes : declaration.Takes 63 [.number 0, .boolean true] := by
    refine ⟨by decide, by rw [Declaration.arity, hparams]; rfl, ?_⟩
    rw [hparams]
    refine Param.allSuit_cons.mpr ⟨?_, Param.allSuit_cons.mpr ⟨?_, by simp [Param.AllSuit]⟩⟩
    · rintro _ ⟨⟩
      rfl
    · rintro _ ⟨⟩
  have hmisfit : Param.Misfit declaration.params [.string "x", .boolean true] 0 (.string "x")
      .number := by
    rw [hparams]
    exact ⟨⟨_, rfl, rfl⟩, rfl, by decide, by simp [Param.AllSuit]⟩
  refine ⟨declaration, hparsed, htakes, fun span s => ⟨?_, ?_⟩⟩
  · obtain ⟨start, hstart, -⟩ :=
      (call_binds_or_refuses hparsed 63 [.number 0, .boolean true] span s).1 htakes
    exact ⟨start, hstart, hstart.params 1 ⟨"b", none⟩ _ (by rw [hparams]; rfl) rfl⟩
  · have hrefuses : declaration.Refuses 63 [.string "x", .boolean true]
        (.argumentType declaration.name 1 .number .string) :=
      .type (by decide) (by rw [Declaration.arity, hparams]; rfl) hmisfit
    rw [hname] at hrefuses
    exact ((call_binds_or_refuses hparsed 63 [.string "x", .boolean true] span s).2.2 _
      hrefuses).2 declaration.body

end Scripting
