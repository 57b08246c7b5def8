import Scripting.Proofs.Alike
import Scripting.Proofs.Decoration
import Scripting.Proofs.Ensures

/-!
# Like states and like steps

Two states are alike if they are the same but for places: places in the functions that are declared
and in the records of the log. Two steps are alike if from like states they end alike, both with a
result or both with an error, and again in like states. Errors are alike if they have the same cause
and file; the line that an error quotes is found by its place and may differ.

Each construct that steps are made of has a rule here, and so has each step that changes the state,
so that what a run does can be compared part by part.
-/

namespace Scripting

variable {c : Correspondence}

/-! ## Errors, records and states -/

section Relations

variable (c : Correspondence)

/-- The errors have the same cause and file, and their places correspond. -/
structure Error.Alike (error other : Error) : Prop where
  cause : error.cause = other.cause
  file : error.file = other.file
  span : Option.Rel c.span error.span other.span

/-- The records are the same but for places. -/
structure Record.Alike (record other : Record) : Prop where
  name : record.name = other.name
  cell : record.cell = other.cell
  owner : record.owner = other.owner
  aliases : record.aliases = other.aliases
  span : c.span record.span other.span

/-- The states are the same but for places, and see nothing but modules that may be imported. -/
structure State.Alike (s t : State) : Prop where
  vars : s.vars = t.vars
  imports : s.imports = t.imports
  modules : ∀ module ∈ s.imports.modules, c.module module
  cells : s.cells = t.cells
  functions : List.Forall₂ (Declaration.Alike c) s.functions t.functions
  log : List.Forall₂ (Record.Alike c) s.log.latestFirst t.log.latestFirst
  console : s.console = t.console
  scopes : s.scopes = t.scopes

/-- Both have a result, and the results are related, or both have an error, and the errors are
alike. -/
inductive Outcome.Alike {α β : Type} (Q : α → β → Prop) : Except Error α → Except Error β → Prop
  | ok {a : α} {b : β} (h : Q a b) : Outcome.Alike Q (.ok a) (.ok b)
  | error {e e' : Error} (h : e.Alike c e') : Outcome.Alike Q (.error e) (.error e')

/-- From like states the steps end alike, with related results if they succeed. -/
def Exec.Alike {α β : Type} (Q : α → β → Prop) (step : Exec α) (other : Exec β) : Prop :=
  ∀ s t : State, s.Alike c t →
    Outcome.Alike c Q (s.run step).1 (t.run other).1 ∧ (s.run step).2.Alike c (t.run other).2

end Relations

namespace Error

variable {error other : Error}

theorem alike_locate {span span' : Span} (cause : Cause) (h : c.span span span') :
    (Error.locate cause span).Alike c (.locate cause span') :=
  ⟨rfl, rfl, .some h⟩

theorem alike_nowhere (cause : Cause) : Error.Alike c { cause } { cause } :=
  ⟨rfl, rfl, .none⟩

theorem Alike.orAt {span span' : Span} (h : error.Alike c other) (hspan : c.span span span') :
    (error.orAt span).Alike c (other.orAt span') := by
  obtain ⟨cause, place, file, line⟩ := error
  obtain ⟨cause', place', file', line'⟩ := other
  obtain ⟨hcause, hfile, hplace⟩ := h
  refine ⟨hcause, hfile, ?_⟩
  cases hplace with
  | none => exact .some hspan
  | some hplace => exact .some hplace

theorem Alike.inFile (h : error.Alike c other) (path source : String) :
    (error.inFile path source).Alike c (other.inFile path source) := by
  obtain ⟨hcause, hspan, hfile⟩ := error.inFile_eq path source
  obtain ⟨hcause', hspan', hfile'⟩ := other.inFile_eq path source
  constructor
  · rw [hcause, hcause', h.cause]
  · rw [hfile, hfile', h.file]
  · rw [hspan, hspan']
    exact h.span

end Error

/-! ## Rules -/

namespace Exec

variable {α β γ δ : Type} {P : α → β → Prop} {Q : γ → δ → Prop}

theorem alike_pure {a : α} {b : β} (h : P a b) : Alike c P (pure a) (pure b) :=
  fun _ _ hst => ⟨.ok h, hst⟩

theorem alike_throw {e e' : Error} (h : e.Alike c e') :
    Alike c P (throw e : Exec α) (throw e' : Exec β) :=
  fun _ _ hst => ⟨.error h, hst⟩

theorem alike_refuse {span span' : Span} (cause : Cause) (h : c.span span span') :
    Alike c P (refuse cause span : Exec α) (refuse cause span' : Exec β) :=
  alike_throw (Error.alike_locate cause h)

theorem alike_get : Alike c (State.Alike c) get get :=
  fun _ _ hst => ⟨.ok hst, hst⟩

theorem alike_modify {f g : State → State}
    (h : ∀ s t : State, s.Alike c t → (f s).Alike c (g t)) : Alike c Eq (modify f) (modify g) :=
  fun s t hst => ⟨.ok rfl, h s t hst⟩

theorem alike_modifyGet {f : State → α × State} {g : State → β × State}
    (h : ∀ s t : State, s.Alike c t → P (f s).1 (g t).1 ∧ (f s).2.Alike c (g t).2) :
    Alike c P (modifyGet f) (modifyGet g) :=
  fun s t hst => ⟨.ok (h s t hst).1, (h s t hst).2⟩

theorem alike_lift {x : Except Error α} {y : Except Error β} (h : Outcome.Alike c P x y) :
    Alike c P (liftM x : Exec α) (liftM y : Exec β) := by
  intro s t hst
  cases h with
  | ok h => exact ⟨.ok h, hst⟩
  | error h => exact ⟨.error h, hst⟩

theorem Alike.bind {step : Exec α} {other : Exec β} {next : α → Exec γ} {next' : β → Exec δ}
    (h : Alike c P step other) (hnext : ∀ a b, P a b → Alike c Q (next a) (next' b)) :
    Alike c Q (step >>= next) (other >>= next') := by
  intro s t hst
  obtain ⟨houtcome, hafter⟩ := h s t hst
  rw [run_bind, run_bind]
  cases hs : s.run step with
  | mk result u =>
    cases ht : t.run other with
    | mk result' v =>
      rw [hs, ht] at houtcome hafter
      cases houtcome with
      | ok hP => exact hnext _ _ hP u v hafter
      | error he => exact ⟨.error he, hafter⟩

theorem Alike.map {step : Exec α} {other : Exec β} {f : α → γ} {g : β → δ}
    (h : Alike c P step other) (hfg : ∀ a b, P a b → Q (f a) (g b)) :
    Alike c Q (f <$> step) (g <$> other) := by
  rw [map_eq_pure_bind, map_eq_pure_bind]
  exact h.bind fun a b hab => alike_pure (hfg a b hab)

theorem Alike.decorate {step : Exec α} {other : Exec β} {f g : Error → Error}
    (h : Alike c P step other) (hfg : ∀ e e' : Error, e.Alike c e' → (f e).Alike c (g e')) :
    Alike c P (decorate f step) (decorate g other) := by
  intro s t hst
  obtain ⟨houtcome, hafter⟩ := h s t hst
  rw [run_decorate, run_decorate]
  cases hs : s.run step with
  | mk result u =>
    cases ht : t.run other with
    | mk result' v =>
      rw [hs, ht] at houtcome hafter
      cases houtcome with
      | ok hP => exact ⟨.ok hP, hafter⟩
      | error he => exact ⟨.error (hfg _ _ he), hafter⟩

theorem Alike.orAt {step : Exec α} {other : Exec β} {span span' : Span} (h : Alike c P step other)
    (hspan : c.span span span') :
    Alike c P (Exec.decorate (·.orAt span) step) (Exec.decorate (·.orAt span') other) :=
  h.decorate fun _ _ he => he.orAt hspan

theorem Alike.orUndo {step : Exec α} {other : Exec β} {undo : State → State}
    (h : Alike c P step other)
    (hundo : ∀ s t : State, s.Alike c t → (undo s).Alike c (undo t)) :
    Alike c P (orUndo step undo) (orUndo other undo) := by
  intro s t hst
  obtain ⟨houtcome, hafter⟩ := h s t hst
  rw [run_orUndo, run_orUndo]
  cases hs : s.run step with
  | mk result u =>
    cases ht : t.run other with
    | mk result' v =>
      rw [hs, ht] at houtcome hafter
      cases houtcome with
      | ok hP => exact ⟨.ok hP, hafter⟩
      | error he => exact ⟨.error he, hundo u v hafter⟩

theorem Alike.inScope {step : Exec α} {other : Exec β} {vars : Variables} {imports : ImportTable}
    (h : Alike c P step other) (hmodules : ∀ module ∈ imports.modules, c.module module) :
    Alike c P (inScope vars imports step) (inScope vars imports other) := by
  intro s t hst
  have hinside : State.Alike c (s.nest vars imports) (t.nest vars imports) :=
    ⟨rfl, rfl, hmodules, hst.cells, hst.functions, hst.log, hst.console,
      congrArg Scopes.enter hst.scopes⟩
  obtain ⟨houtcome, hafter⟩ := h _ _ hinside
  refine ⟨houtcome, ?_⟩
  exact ⟨hst.vars, hst.imports, hst.modules, hafter.cells, hafter.functions, hafter.log,
    hafter.console, congrArg₂ Scopes.leave hafter.scopes hst.scopes⟩

end Exec

/-! ## Lookups -/

theorem rel_find?_of_forall₂ {α β : Type} {R : α → β → Prop} {p : α → Bool} {q : β → Bool}
    {xs : List α} {ys : List β} (h : List.Forall₂ R xs ys) (hpq : ∀ a b, R a b → p a = q b) :
    Option.Rel R (xs.find? p) (ys.find? q) := by
  induction h with
  | nil => exact .none
  | @cons a b xs ys hab _ ih =>
    rw [List.find?_cons, List.find?_cons, hpq a b hab]
    cases q b with
    | true => exact .some hab
    | false => exact ih

theorem rel_getElem?_of_forall₂ {α β : Type} {R : α → β → Prop} {xs : List α} {ys : List β}
    (h : List.Forall₂ R xs ys) (index : Nat) : Option.Rel R xs[index]? ys[index]? := by
  induction h generalizing index with
  | nil => exact .none
  | cons hab _ ih =>
    cases index with
    | zero => exact .some hab
    | succ index => exact ih index

theorem map_eq_of_rel {α β γ : Type} {R : α → β → Prop} {f : α → γ} {g : β → γ} {x : Option α}
    {y : Option β} (h : Option.Rel R x y) (hfg : ∀ a b, R a b → f a = g b) : x.map f = y.map g := by
  cases h with
  | none => rfl
  | some hab => exact congrArg some (hfg _ _ hab)

theorem Record.Alike.answersTo_eq {record other : Record} (h : record.Alike c other)
    (name : String) :
    record.answersTo name = other.answersTo name := by
  unfold Record.answersTo
  rw [h.owner, h.aliases]

namespace State.Alike

variable {s t : State}

theorem function? (h : s.Alike c t) (name : String) :
    Option.Rel (Declaration.Alike c) (s.function? name) (t.function? name) := by
  apply rel_find?_of_forall₂ h.functions
  intro a b hab
  cases hab with
  | mk hname => rw [hname]

theorem find? (h : s.Alike c t) (name : String) :
    Option.Rel (Record.Alike c) (s.log.find? name) (t.log.find? name) :=
  rel_find?_of_forall₂ h.log fun _ _ hrecord => hrecord.answersTo_eq name

/-- Names mean the same in like states. -/
theorem meaning?_eq (h : s.Alike c t) (name : String) : s.meaning? name = t.meaning? name := by
  unfold State.meaning? State.plainMeaning?
  rw [map_eq_of_rel (h.find? name) fun _ _ hrecord => congrArg Meaning.cell hrecord.cell,
    map_eq_of_rel (h.function? name) fun _ _ _ => rfl]
  simp only [variableMeaning?, exportMeaning?, h.vars, h.cells, h.imports, h.scopes]

/-! ## Changes -/

theorem withVars (h : s.Alike c t) (vars : Variables) :
    State.Alike c { s with vars } { t with vars } :=
  ⟨rfl, h.imports, h.modules, h.cells, h.functions, h.log, h.console, h.scopes⟩

theorem withCells (h : s.Alike c t) (cells : Cells) :
    State.Alike c { s with cells } { t with cells } :=
  ⟨h.vars, h.imports, h.modules, rfl, h.functions, h.log, h.console, h.scopes⟩

theorem withConsole (h : s.Alike c t) (console : Console) :
    State.Alike c { s with console } { t with console } :=
  ⟨h.vars, h.imports, h.modules, h.cells, h.functions, h.log, rfl, h.scopes⟩

theorem withImports (h : s.Alike c t) {imports : ImportTable}
    (hmodules : ∀ module ∈ imports.modules, c.module module) :
    State.Alike c { s with imports } { t with imports } :=
  ⟨h.vars, rfl, hmodules, h.cells, h.functions, h.log, h.console, h.scopes⟩

theorem withLog (h : s.Alike c t) {log log' : ReturnLog}
    (hlog : List.Forall₂ (Record.Alike c) log.latestFirst log'.latestFirst) :
    State.Alike c { s with log } { t with log := log' } :=
  ⟨h.vars, h.imports, h.modules, h.cells, h.functions, hlog, h.console, h.scopes⟩

theorem addFunction (h : s.Alike c t) {declaration other : Declaration}
    (hdeclaration : declaration.Alike c other) :
    State.Alike c { s with functions := declaration :: s.functions }
      { t with functions := other :: t.functions } :=
  ⟨h.vars, h.imports, h.modules, h.cells, .cons hdeclaration h.functions, h.log, h.console,
    h.scopes⟩

end State.Alike

namespace ReturnLog

variable {records others : List Record}

theorem forall₂_addAliasTo (h : List.Forall₂ (Record.Alike c) records others) (cell : Cell)
    (name : String) :
    List.Forall₂ (Record.Alike c) (addAliasTo cell name records) (addAliasTo cell name others) := by
  induction h with
  | nil => exact .nil
  | cons hrecord hrest ih =>
    unfold addAliasTo
    rw [hrecord.cell]
    split
    · refine .cons ?_ hrest
      unfold Record.addAlias
      rw [hrecord.answersTo_eq]
      split
      · exact hrecord
      · exact ⟨hrecord.name, hrecord.cell, hrecord.owner, by rw [hrecord.aliases], hrecord.span⟩
    · exact .cons hrecord ih

theorem forall₂_release (h : List.Forall₂ (Record.Alike c) records others) (cell : Cell)
    (name : String) :
    List.Forall₂ (Record.Alike c) (release ⟨records⟩ cell name).latestFirst
      (release ⟨others⟩ cell name).latestFirst := by
  unfold release
  rw [List.forall₂_map_left_iff, List.forall₂_map_right_iff]
  refine h.imp fun record record' hrecord => ?_
  rw [hrecord.cell]
  split
  · exact ⟨hrecord.name, hrecord.cell, by simp only [Record.release, hrecord.owner],
      by simp only [Record.release, hrecord.aliases], hrecord.span⟩
  · exact hrecord

theorem binds_eq_of_forall₂ (h : List.Forall₂ (Record.Alike c) records others) (cell : Cell)
    (name : String) : binds ⟨records⟩ cell name = binds ⟨others⟩ cell name := by
  unfold binds
  induction h with
  | nil => rfl
  | cons hrecord _ ih =>
    rw [List.any_cons, List.any_cons, ih, hrecord.answersTo_eq, hrecord.cell]

end ReturnLog

/-! ## Steps that change the state -/

namespace Exec

theorem alike_makeCell (content : Option Value) :
    Alike c Eq (makeCell content) (makeCell content) := by
  apply alike_modifyGet
  intro s t hst
  rw [hst.cells]
  exact ⟨rfl, hst.withCells _⟩

theorem alike_pushRecord {record other : Record} (h : record.Alike c other) :
    Alike c Eq (pushRecord record) (pushRecord other) :=
  alike_modify fun _ _ hst => hst.withLog (.cons h hst.log)

theorem alike_replaceVariable (v : Variable) :
    Alike c Eq (replaceVariable v) (replaceVariable v) := by
  apply alike_modify
  intro s t hst
  rw [hst.vars]
  exact hst.withVars _

theorem alike_declareVariable (v : Variable) :
    Alike c Eq (declareVariable v) (declareVariable v) := by
  apply alike_get.bind
  intro s t hst
  rw [hst.vars]
  have hdeclare : Outcome.Alike c Eq (t.vars.declare v) (t.vars.declare v) := by
    unfold Variables.declare
    split
    · exact .error (Error.alike_nowhere _)
    · exact .ok rfl
  apply (alike_lift hdeclare).bind
  rintro vars _ rfl
  exact alike_modify fun _ _ hst => hst.withVars vars

theorem alike_assignVariable (name : String) (value : Value) :
    Alike c Eq (assignVariable name value) (assignVariable name value) := by
  apply alike_get.bind
  intro s t hst
  rw [hst.vars]
  have hassign : Outcome.Alike c Eq (t.vars.assign name value) (t.vars.assign name value) := by
    unfold Variables.assign
    split
    · exact .ok rfl
    · exact .error (Error.alike_nowhere _)
  apply (alike_lift hassign).bind
  rintro vars _ rfl
  exact alike_modify fun _ _ hst => hst.withVars vars

theorem alike_readVariable (name : String) :
    Alike c Eq (readVariable name) (readVariable name) := by
  apply alike_get.bind
  intro s t hst
  rw [hst.vars, hst.cells]
  have hread : Outcome.Alike c Eq (t.vars.read t.cells name) (t.vars.read t.cells name) := by
    unfold Variables.read
    split
    · exact .error (Error.alike_nowhere _)
    · split
      · exact .error (Error.alike_nowhere _)
      · exact .ok rfl
  apply (alike_lift hread).bind
  rintro pair _ rfl
  apply (alike_modify fun _ _ hst => hst.withVars pair.2).bind
  rintro - - -
  exact alike_pure rfl

end Exec

end Scripting
