import Scripting.Proofs.FitRuns

/-!
# Arrays with items of several types

`Array.create` refuses items of different types, and `String.chars` gives texts only. `Array.map`
takes what its calls return, and does not look at the types: a function may return values of
different types, all the more as its calls can change what it sees. So an array that a session holds
has items of one type, or it was collected by a statement that maps (`Moment.Collects`). And
whatever such a statement collects is held when it has succeeded.

The first of these is what a run keeps if the norm allows for all arrays that are collected in the
session. The second is read off the ways in which a statement can keep the value of its expression:
in a record that leads to it, or in a field of a map.
-/

namespace Scripting

open State

/-! ## The value of a statement that maps -/

/-- `Array.map` is what the library exports under that name. -/
theorem Library.export?_map {module : Module} (hmodule : module ∈ modules)
    (hname : module.name = Arrays.name) :
    module.export? "map" =
      some (.function { name := "map", arity := .exactly 2, body := Arrays.map }) := by
  simp only [modules, List.mem_cons, List.not_mem_nil, or_false] at hmodule
  rcases hmodule with rfl | rfl | rfl | rfl | rfl
  · exact absurd hname (by decide)
  · exact absurd hname (by decide)
  · exact absurd hname (by decide)
  · exact absurd hname (by decide)
  · rfl

namespace Exec

variable {D : Discipline} {s t : State} {invoke : Invoke} {access : Access} {items : List Value}
  {name : String}

theorem ensures_field_maps (hmodules : s.imports.modules ⊆ Library.modules) (hmaps : access.Maps)
    (h : Returns invoke (access.invocations invoke s) items) :
    Ensures (field invoke access) s (fun _ _ => True) fun result _ =>
      result = some (.array items) := by
  obtain ⟨hname, hfield, hcalled⟩ := hmaps
  unfold Access.invocations at h
  refine Ensures.bind (ensures_get ?_)
  cases hget : s.imports.get? access.module with
  | none =>
    dsimp only
    split
    · unfold mapField
      rw [if_pos hcalled]
      exact trivial
    · exact trivial
  | some module =>
    obtain ⟨args, hargs⟩ := Option.isSome_iff_exists.mp hcalled
    have hexport : module.export? access.field = _ := hfield ▸ Library.export?_map
      (hmodules (ImportTable.mem_of_get? hget)) ((ImportTable.name_of_get? hget).trans hname)
    simp only [hget, Module.invocations, hexport, hargs] at h
    simp only [moduleField, hexport, hargs, callNative]
    split
    · next haccepts =>
      rw [if_pos haccepts] at h
      refine Ensures.decorate (ensures_map.imp (fun _ _ _ => trivial) ?_)
      rintro _ t ⟨collected, rfl, hcollected⟩
      rw [hcollected.unique h]
    · exact trivial

theorem ensures_evaluate_maps (hmodules : s.imports.modules ⊆ Library.modules)
    (hmaps : access.Maps) (h : Returns invoke (access.invocations invoke s) items) :
    Ensures (evaluate invoke (.access access)) s (fun _ _ => True) fun value _ =>
      value = .array items := by
  refine Ensures.bind ((ensures_field_maps hmodules hmaps h).imp (fun _ _ _ => trivial) ?_)
  rintro _ t rfl
  exact rfl

end Exec

/-! ## How the value is kept -/

/-- A record leads to the value. -/
def State.Records (s : State) (value : Value) : Prop :=
  ∃ record ∈ s.log.latestFirst, s.cells.get? record.cell = some value

section Records

variable {D : Discipline} {X : Set String} {I : Prop} {s t : State} {value : Value}

theorem State.Records.holds (h : s.Records value) (scopes : List Variables) :
    s.Holds scopes value := by
  obtain ⟨record, hrecord, hvalue⟩ := h
  exact .inr ⟨record, hrecord, value, hvalue, .whole⟩

theorem State.Records.advances (h : s.Records value) (hst : Advances D X I s t) :
    t.Records value := by
  obtain ⟨record, hrecord, hvalue⟩ := h
  obtain ⟨later, hlater, hcell⟩ := hst.log.exists_mem hrecord
  refine ⟨later, hlater, ?_⟩
  rw [hcell, hst.cells.get?_eq (Cells.has_of_get? hvalue)]
  exact hvalue

end Records

namespace Exec

variable {D : Discipline} {s t : State} {invoke : Invoke} {expr : Expr} {value : Value}
  {name : String}

/-- A capture makes a record that leads to the value of its expression. -/
theorem records_capture (hinvoke : invoke.Sound D) (hs : s.Sound D) {cell : Cell}
    (hcell : s.cells.Has cell)
    (h : Ensures (evaluate invoke expr) s (fun _ _ => True) fun result _ => result = value) :
    Ensures (capture invoke name cell expr) s (fun _ _ => True) fun _ t => t.Records value := by
  refine Ensures.bind ((h.and (ensures_evaluate hinvoke hs expr)).imp (fun _ _ _ => trivial) ?_)
  rintro _ t ⟨rfl, ht⟩
  refine Ensures.bind (ensures_modify (ensures_pushRecord ⟨_, List.mem_cons_self, ?_⟩))
  exact Cells.get?_fill_self (ht.cells.has hcell) _

/-- The call of a declaration is made while its variable waits. -/
theorem invocations_declare (hnew : s.vars.contains name = false) (hcall : expr.isCall = true) :
    (Form.declare name expr).invocations invoke s =
      expr.invocations invoke (s.await .prepend name) := by
  rw [Form.invocations, if_pos (by simp [hnew, hcall])]
  exact after_of_run (run_declareVariable hnew)

theorem invocations_assign (hthere : s.vars.contains name = true) (hcall : expr.isCall = true) :
    (Form.assign (.var name) expr).invocations invoke s =
      expr.invocations invoke (s.await .replace name) := by
  rw [Form.invocations, if_pos (by simp [hthere, hcall])]
  rfl

theorem records_declare (hinvoke : invoke.Sound D) (hs : s.Sound D) (howns : D.Owns name)
    (hcall : expr.isCall = true)
    (h : s.vars.contains name = false → Ensures (evaluate invoke expr) (s.await .prepend name)
      (fun _ _ => True) fun result _ => result = value) (span : Span) :
    Ensures (declare invoke name expr span) s (fun _ _ => True) fun _ t => t.Records value := by
  refine Ensures.bind (ensures_get ?_)
  by_cases hcontains : s.vars.contains name = true
  · rw [if_pos hcontains]
    exact trivial
  · have hnew : s.vars.contains name = false := by simpa using hcontains
    rw [if_neg hcontains, if_pos hcall]
    refine Ensures.bind (ensures_makeCell (Ensures.bind
      (ensures_of_run (run_declareVariable hnew) (Ensures.orUndo ?_))))
    exact records_capture hinvoke ((places_prepend howns).advances_await hs).sound
      (Cells.has_add_fresh _ _) (h hnew)

theorem records_assign (hinvoke : invoke.Sound .ofLoaded) (hs : s.Sound .ofLoaded)
    (hcall : expr.isCall = true)
    (h : s.vars.contains name = true → Ensures (evaluate invoke expr) (s.await .replace name)
      (fun _ _ => True) fun result _ => result = value) (span : Span) :
    Ensures (assign invoke name expr span) s (fun _ _ => True) fun _ t => t.Records value := by
  refine Ensures.bind (ensures_get ?_)
  cases hprevious : s.vars.get? name with
  | none => exact trivial
  | some previous =>
    have hthere : s.view name ≠ none := view_eq_some hprevious ▸ Option.some_ne_none _
    have hrecords : Ensures (rebind invoke name previous expr) s (fun _ _ => True)
        fun _ t => t.Records value := by
      unfold rebind
      rw [if_pos hcall]
      refine Ensures.bind (ensures_makeCell (Ensures.bind
        (ensures_replaceVariable (Ensures.orUndo ?_))))
      exact records_capture hinvoke ((places_replace hthere).advances_await hs).sound
        (Cells.has_add_fresh _ _) (h (by rw [Variables.contains_eq_isSome, hprevious]; rfl))
    have hadvances := ensures_rebind hinvoke hs trivial hprevious expr
    refine Ensures.bind ((hrecords.and hadvances).imp (fun _ _ _ => trivial) ?_)
    rintro _ t ⟨hrecords, ht, hview⟩
    -- the records move along with the variable, and they still lead where they led
    cases hcell : previous.cell with
    | none => exact hrecords
    | some cell =>
      have hhas := ht.cells.has ((hs.of_get? hprevious).has cell hcell)
      exact (ensures_moveRecords ht.sound trivial hview hhas (fun _ _ => trivial) span).imp
        (fun _ _ _ => trivial) fun _ u hu => hrecords.advances hu.1

theorem records_useField {access : Access}
    (h : Ensures (field invoke access) s (fun _ _ => True) fun result _ => result = some value)
    (hcall : access.args.isSome) :
    Ensures (useField invoke access) s (fun _ _ => True) fun _ t => t.Records value := by
  obtain ⟨args, hargs⟩ := Option.isSome_iff_exists.mp hcall
  refine Ensures.bind (h.imp (fun _ _ _ => trivial) ?_)
  rintro _ t rfl
  rw [hargs]
  refine Ensures.bind (ensures_makeCell (ensures_pushRecord ⟨_, List.mem_cons_self, ?_⟩))
  exact Cells.get?_add_fresh _ _

theorem records_returnValue
    (h : Ensures (evaluate invoke expr) s (fun _ _ => True) fun result _ => result = value)
    (scope : Option String) (span : Span) :
    Ensures (returnValue invoke scope expr span) s (fun _ _ => True) fun _ t =>
      t.Records value := by
  refine Ensures.bind (h.imp (fun _ _ _ => trivial) ?_)
  rintro _ t rfl
  refine Ensures.bind (ensures_makeCell (Ensures.bind
    (ensures_pushRecord ⟨_, List.mem_cons_self, ?_⟩)))
  exact Cells.get?_add_fresh _ _

theorem holds_assignField (hinvoke : invoke.Sound D) (hs : s.Sound D) {map field : String}
    (h : ∀ old t, s.run (readVariable map) = (.ok (.map old), t) →
      Ensures (evaluate invoke expr) t (fun _ _ => True) fun result _ => result = value)
    (span : Span) (scopes : List Variables) :
    Ensures (assignField invoke map field expr span) s (fun _ _ => True) fun _ t =>
      t.Holds scopes value := by
  refine (ensures_assignField hinvoke hs map field expr span).imp (fun _ _ _ => trivial) ?_
  rintro _ t ⟨-, old, new, found, u, w, -, hread, hvalue, hview, hfound, -⟩
  obtain rfl := (h old u hread).of_ok hvalue
  obtain ⟨v, hv, hpeek, -⟩ := exists_of_view_eq_some hview
  obtain ⟨before, after, hfields, -⟩ := List.lookup_eq_some_iff.mp hfound
  have hfield : (field, found) ∈ new := by simp [hfields]
  exact .inl ⟨t.vars, List.mem_cons_self, v, Variables.mem_of_get? hv, _, hpeek,
    .field hfield .whole⟩

end Exec

/-! ## Statements that map -/

namespace Moment

variable {m : Moment} {items : List Value}

/-- The statement maps, and its calls return the items. -/
def Collects (m : Moment) (items : List Value) : Prop :=
  (∃ access, m.statement.form.expr? = some (.access access) ∧ access.Maps) ∧
    Exec.Returns (callWithin m.levels)
      (m.statement.form.invocations (callWithin m.levels) m.state) items

/-- What a statement has collected is held when it has succeeded. -/
theorem Collects.holds (h : m.Collects items) (hready : m.Ready) (hsucceeds : m.Succeeds) :
    m.after.Holds m.suspended (.array items) := by
  obtain ⟨⟨access, hexpr, hmaps⟩, hreturns⟩ := h
  have hs := hready.sound
  have hinvoke := sound_callWithin_ofLoaded m.levels
  have hcall : (Expr.access access).isCall = true := hmaps.2.2
  have hkeeps : Exec.Ensures (Exec.statement (callWithin m.levels) m.statement) m.state
      (fun _ _ => True) fun _ t => t.Holds m.suspended (.array items) := by
    rw [Exec.statement_eq]
    refine Exec.Ensures.decorate ?_
    cases hform : m.statement.form with
    | access a =>
      rw [hform] at hexpr hreturns
      cases hexpr
      have hfield := Exec.ensures_field_maps hs.imports hmaps hreturns
      rw [Exec.formOf]
      exact Exec.Ensures.goOn ((Exec.records_useField hfield hmaps.2.2).imp (fun _ _ h => h)
        fun _ _ ht => ht.holds _)
    | declare name value =>
      rw [hform] at hexpr hreturns
      cases hexpr
      rw [Exec.formOf]
      refine Exec.Ensures.goOn ((Exec.records_declare hinvoke hs trivial hcall (fun hnew => ?_)
        _).imp (fun _ _ h => h) fun _ _ ht => ht.holds _)
      rw [Exec.invocations_declare hnew hcall] at hreturns
      exact Exec.ensures_evaluate_maps hs.imports hmaps hreturns
    | assign target value =>
      rw [hform] at hexpr hreturns
      cases hexpr
      cases target with
      | var name =>
        rw [Exec.formOf]
        refine Exec.Ensures.goOn ((Exec.records_assign hinvoke hs hcall (fun hthere => ?_)
          _).imp (fun _ _ h => h) fun _ _ ht => ht.holds _)
        rw [Exec.invocations_assign hthere hcall] at hreturns
        exact Exec.ensures_evaluate_maps hs.imports hmaps hreturns
      | field map field =>
        rw [Exec.formOf]
        refine Exec.Ensures.goOn (Exec.holds_assignField hinvoke hs (fun old t hread => ?_) _ _)
        rw [Form.invocations, Exec.after_of_run hread] at hreturns
        have ht : Advances .ofLoaded ∅ False m.state t :=
          (Exec.keeps_readVariable hs map).of_ok hread
        exact Exec.ensures_evaluate_maps ht.sound.imports hmaps hreturns
    | returns value =>
      rw [hform] at hexpr hreturns
      cases hexpr
      rw [Exec.formOf]
      have hvalue := Exec.ensures_evaluate_maps hs.imports hmaps hreturns
      exact (Exec.records_returnValue hvalue _ _).imp (fun _ _ h => h) fun _ _ ht => ht.holds _
    | _ =>
      rw [hform] at hexpr
      cases hexpr
  obtain ⟨flow, hrun⟩ := hsucceeds.exists_outcome
  exact hkeeps.of_ok hrun

end Moment

/-! ## Sessions -/

/-- The state after some programs have been run one after another. -/
def State.executeAll (s : State) (programs : List Program) : State :=
  programs.foldl (fun t program => (t.execute program).2) s

/-- The moment comes up while the programs are run one after another. -/
def Moment.In (console : Console) (scopes : Scopes) (programs : List Program) (m : Moment) : Prop :=
  ∃ before program rest, programs = before ++ program :: rest ∧
    m.During callLimit [] program.statements
      ((executeAll { console, scopes } before).prepare program)

theorem Session.executeAll {s : State} (h : Session s) {programs : List Program}
    (hloaded : ∀ program ∈ programs, program.Loaded) : Session (s.executeAll programs) := by
  induction programs generalizing s with
  | nil => exact h
  | cons program programs ih =>
    obtain ⟨hprogram, hrest⟩ := List.forall_mem_cons.mp hloaded
    exact ih (h.run hprogram) hrest

/-- A session keeps its states fit if the norm allows for all that happens in it. -/
theorem Session.grows_executeAll {N : Norm} {s : State} (hsession : Session s) (hs : s.Fit N)
    {programs : List Program} (hloaded : ∀ program ∈ programs, program.Loaded)
    (h : ∀ before program rest, programs = before ++ program :: rest → ∀ m : Moment,
      m.During callLimit [] program.statements ((s.executeAll before).prepare program) →
      m.Permitted N) : s.Grows N (s.executeAll programs) := by
  induction programs generalizing s with
  | nil => exact hs.grows
  | cons first programs ih =>
    obtain ⟨hfirst, hrest⟩ := List.forall_mem_cons.mp hloaded
    have hgrows := hs.execute (hsession.readyFor hfirst) (h [] first programs rfl)
    refine hgrows.trans
      (ih (hsession.run hfirst) hgrows.fit hrest fun before program rest hsplit => ?_)
    exact h (first :: before) program rest (by rw [hsplit]; rfl)

/-- The norm that allows for the arrays that are collected in a session. -/
def Norm.collecting (console : Console) (scopes : Scopes) (programs : List Program) : Norm where
  arrays items := Value.Uniform items ∨
    ∃ m : Moment, m.In console scopes programs ∧ m.Collects items
  causes _ := True
  uniform _ h := .inl h
  defined _ _ := trivial

theorem Moment.In.permitted {console : Console} {scopes : Scopes} {programs : List Program}
    {m : Moment} (h : m.In console scopes programs) :
    m.Permitted (.collecting console scopes programs) where
  mapped access hexpr hmaps _ hreturns := .inr ⟨m, h, ⟨access, hexpr, hmaps⟩, hreturns⟩
  undeclared _ _ _ := trivial

/-- Where the arrays of a session come from.

* An array that is held before or after a statement of the session, at any depth, by a variable of
  any scope or by a record, has items of one type, or some statement of the session has collected
  it: the statement calls `Array.map`, and the items are what its calls have returned, in order. The
  same is true after the last program.
* Whatever a statement collects is held when it has succeeded, whether its items are of one type or
  not. -/
theorem arrays_uniform_or_collected {console : Console} {scopes : Scopes} {programs : List Program}
    (hloaded : ∀ program ∈ programs, program.Loaded) :
    (∀ m : Moment, m.In console scopes programs → ∀ items,
      (m.state.Holds m.suspended (.array items) ∨ m.after.Holds m.suspended (.array items) →
        Value.Uniform items ∨ ∃ m' : Moment, m'.In console scopes programs ∧ m'.Collects items) ∧
      (m.Collects items → m.Succeeds → m.after.Holds m.suspended (.array items))) ∧
    ∀ items, (executeAll { console, scopes } programs).Holds [] (.array items) →
      Value.Uniform items ∨ ∃ m : Moment, m.In console scopes programs ∧ m.Collects items := by
  have hstart := State.fit_start (.collecting console scopes programs) console scopes
  constructor
  · rintro m ⟨before, program, rest, rfl, hm⟩ items
    obtain ⟨hbefore, hprogram, -⟩ := List.forall_mem_append.mp hloaded |>.imp id
      List.forall_mem_cons.mp
    have hready := ((Session.start console scopes).executeAll hbefore).readyFor hprogram
    -- moments of earlier programs are moments of the session, and so are those of this one
    have hgrows := (Session.start console scopes).grows_executeAll hstart hbefore
      fun earlier other later hsplit m hm => Moment.In.permitted
        ⟨earlier, other, later ++ program :: rest, by rw [hsplit]; simp, hm⟩
    have hpermitted : ∀ m : Moment, m.During callLimit [] program.statements
        ((executeAll { console, scopes } before).prepare program) →
        m.Permitted (.collecting console scopes (before ++ program :: rest)) :=
      fun m hm => Moment.In.permitted ⟨before, program, rest, rfl, hm⟩
    obtain ⟨hstate, hsuspended⟩ := hm.fit hready
      (hgrows.fit.withImports hready.sound.imports).fit
      (fun vars hvars => absurd hvars List.not_mem_nil) hpermitted
    have hafter := (hm.ready hready).grows hstate.fit fun inner hinner =>
      hpermitted inner (hm.trans hinner)
    refine ⟨fun hholds => ?_, fun hcollects hsucceeds =>
      hcollects.holds (hm.ready hready) hsucceeds⟩
    rcases hholds with hholds | hholds
    · exact (hstate.fit.of_holds hsuspended hholds).arrays items .whole
    · exact (hafter.fit.of_holds (fun vars hvars => (hsuspended vars hvars).mono hafter.subset)
        hholds).arrays items .whole
  · intro items hholds
    have hgrows := (Session.start console scopes).grows_executeAll hstart hloaded
      fun before program rest hsplit m hm => Moment.In.permitted ⟨before, program, rest, hsplit, hm⟩
    exact (hgrows.fit.of_holds (fun vars hvars => absurd hvars List.not_mem_nil) hholds).arrays
      items .whole

/-- A function that returns what a name stands for, and makes it stand for something else. -/
def mixedText : String :=
  "import \"Array\" " ++
  "function one() \x7b return 1 \x7d " ++
  "function x() \x7b return 2 \x7d " ++
  "function f(v, i) \x7b var y = x var x = one() return y \x7d " ++
  "var items = Array.create(1, 2) " ++
  "var mixed = Array.map(items, f)"

/-- The array has a function and a number in it, and was collected. -/
theorem arrays_uniform_or_collected_mixed :
    ∃ (program : Program) (m collector : Moment) (items : List Value),
      Program.ofText? mixedText = some program ∧ m.In {} {} [program] ∧
      m.after.Holds m.suspended (.array items) ∧
      items.map Value.type = [.function, .number] ∧ ¬ Value.Uniform items ∧
      collector.In {} {} [program] ∧ collector.Collects items := by
  have hruns : (Moment.ofText? mixedText {} 5).any (fun m =>
      (m.after.items? "mixed").any fun items =>
        decide (items.map Value.type = [.function, .number])) = true := by
    decide +kernel
  obtain ⟨m, hm, hfacts⟩ := (Option.any_eq_true _ _).mp hruns
  obtain ⟨items, hitems, htypes⟩ := (Option.any_eq_true _ _).mp hfacts
  replace htypes : items.map Value.type = [.function, .number] := of_decide_eq_true htypes
  obtain ⟨program, hprogram, htop⟩ := Moment.atTop_of_ofText? hm
  have hin : m.In {} {} [program] := ⟨[], program, [], rfl, Moment.during_of_nth? htop⟩
  have hholds := holds_of_items? hitems m.suspended
  have hmixed : ¬ Value.Uniform items := by
    obtain ⟨first, rest, rfl, hfirst, hrest⟩ := List.map_eq_cons_iff.mp htypes
    obtain ⟨second, _, rfl, hsecond, -⟩ := List.map_eq_cons_iff.mp hrest
    intro huniform
    have hsame := huniform first (by simp) second (by simp)
    rw [hfirst, hsecond] at hsame
    cases hsame
  have hloaded : ∀ other ∈ [program], other.Loaded :=
    List.forall_mem_singleton.mpr (Program.loaded_of_ofText? hprogram)
  obtain ⟨hmoments, -⟩ := arrays_uniform_or_collected hloaded
  obtain ⟨collector, hcollector, hcollects⟩ :=
    ((hmoments m hin items).1 (.inr hholds)).resolve_left hmixed
  exact ⟨program, m, collector, items, hprogram, hin, hholds, htypes, hmixed, hcollector, hcollects⟩

end Scripting
