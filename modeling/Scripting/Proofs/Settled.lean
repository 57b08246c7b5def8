import Scripting.Proofs.Moments
import Scripting.Proofs.Outcomes

/-!
# Statements leave no variable waiting

While a call runs for a variable, the variable waits for the result. When the statement is over, the
variable holds the result, or it is what it was before. So between two statements no variable of a
scope waits for anything: the state is settled (`State.AtRest.settled`).

On the way there it is shown how little a binding that fails leaves behind (`State.Undone`). All
variables are what they were, except that a call of `IO.scan` may have read a line into one. Such a
call gives no value, which is then what the error is about.
-/

namespace Scripting

open State

/-! ## Reading into a variable -/

/-- The variable, which is there, has got a line that was read. -/
structure State.ReadInto (s : State) (x : String) (t : State) : Prop where
  there : s.view x ≠ none
  line : ∃ line, t.view x = some (some (.string line), none)

namespace Exec

variable {D : Discipline} {s t : State} {invoke : Invoke} {x : String}

/-- The variable is assigned to at the very end, so that nothing has changed if `scan` fails. -/
theorem ensures_scan (hinvoke : invoke.Sound D) (hs : s.Sound D) {site : CallSite}
    (hx : x ∈ Library.scanTarget site.args) :
    Ensures (native invoke site (Library.Terminal.scan site)) s
      (fun _ t => t.view x = s.view x) fun _ t => s.ReadInto x t := by
  have hsame : ∀ {t}, Advances D ∅ False s t → t.view x = s.view x :=
    fun ht => ht.view x (Set.notMem_empty x)
  unfold Library.Terminal.scan
  rw [native_bind]
  refine Ensures.bind ((ensures_native (X := ∅) hinvoke hs site
    (Library.confined_stringArgument Library.Terminal.name 0)).imp (fun _ _ ht => hsame ht) ?_)
  rintro prompt t ⟨ht, -⟩
  split
  · next target htarget =>
    have htoken : site.args[1]?.map Token.lexeme = some x := hx
    rw [htarget] at htoken
    obtain rfl := Option.some.inj htoken
    split
    · rw [native_bind]
      have hwork : (Native.current target.lexeme).Confined ∅ fun _ => True := fun _ => trivial
      have hlookup := ensures_native hinvoke ht.sound site hwork
      refine Ensures.bind (hlookup.imp (fun _ _ hu => hsame (ht.trans hu)) ?_)
      rintro current u ⟨hu, -⟩
      cases current with
      | none => exact hsame (ht.trans hu)
      | some value =>
        show Ensures (native invoke site (ite _ _ _)) _ _ _
        split
        · exact hsame (ht.trans hu)
        · have hread := (keeps_readLine (X := ∅) (I := False) hu.sound prompt).after (ht.trans hu)
          refine Ensures.bind (hread.imp (fun _ _ hw => hsame hw) fun line w hw => ?_)
          refine Ensures.bind ((ensures_assignVariable (X := {target.lexeme}) (I := False) hw.sound
            target.lexeme (.string line) rfl).imp ?_ ?_)
          · rintro _ _ rfl
            exact hsame hw
          · rintro _ _ ⟨-, hview, hthere⟩
            exact ⟨hsame hw ▸ hthere, line, hview⟩
    · exact hsame ht
  · exact hsame ht

theorem ensures_field_scanned (hinvoke : invoke.Sound D) (hs : s.Sound D) {access : Access}
    (hx : x ∈ access.scanned) :
    Ensures (field invoke access) s (fun _ t => t.view x = s.view x) fun _ t =>
      s.ReadInto x t := by
  obtain ⟨args, hargs⟩ : ∃ args, access.args = some args := by
    refine Option.ne_none_iff_exists'.mp fun hnone => ?_
    rw [Access.scanned_none hnone] at hx
    exact hx
  rw [Access.scanned_some hargs] at hx
  obtain ⟨hmodule, hfield, htarget⟩ := hx
  refine Ensures.bind (ensures_get ?_)
  split
  · next module hget =>
    unfold moduleField
    split
    · rfl
    · next function args' hexport hargs' =>
      obtain rfl : args = args' := Option.some.inj (hargs.symm.trans hargs')
      unfold callNative
      split
      · rcases Library.function_cases (hs.imports (ImportTable.mem_of_get? hget)) hexport with
          ⟨-, -, hbody⟩ | ⟨hother, -⟩
        · rw [hbody]
          exact Ensures.decorate (ensures_scan hinvoke hs htarget)
        · rw [ImportTable.name_of_get? hget] at hother
          exact (hother.elim (· hmodule) (· hfield)).elim
      · rfl
    · next hnone => cases hargs.symm.trans hnone
    · rfl
    · next hnone => cases hargs.symm.trans hnone
  · split
    · unfold mapField
      rw [hargs]
      exact (rfl : s.view x = s.view x)
    · rfl

end Exec

/-! ## Bindings that fail -/

/-- What a binding that fails leaves behind: all variables are what they were, unless the error says
that `IO.scan` gives no value, and then with the exception of the variable in `X` that it has read
into. -/
def State.Undone (X : Set String) (e : Error) (s t : State) : Prop :=
  ∀ x, t.view x = s.view x ∨ x ∈ X ∧ e.cause = .noReturnValue "IO.scan" ∧ s.ReadInto x t

namespace State

variable {D : Discipline} {X : Set String} {I : Prop} {e : Error} {s t u : State}

theorem Undone.of_advances (h : Advances D ∅ I s t) : Undone X e s t :=
  fun x => .inl (h.view x (Set.notMem_empty x))

theorem Undone.after (h : Undone X e t u) (hst : Advances D ∅ I s t) : Undone X e s u := by
  intro x
  have hview := hst.view x (Set.notMem_empty x)
  refine (h x).imp (fun hu => hu.trans hview) ?_
  rintro ⟨hx, hcause, hthere, hline⟩
  exact ⟨hx, hcause, hview ▸ hthere, hline⟩

theorem ReadInto.not_waits {x : String} (h : s.ReadInto x t) : ¬ t.Waits x := by
  obtain ⟨line, hline⟩ := h.line
  rintro ⟨cell, hwaits⟩
  cases hline.symm.trans hwaits

theorem Undone.settled (h : Undone X e s t) (hs : s.Settled) : t.Settled := by
  intro x hwaits
  rcases h x with hsame | ⟨-, -, hread⟩
  · obtain ⟨cell, hcell⟩ := hwaits
    exact hs x ⟨cell, hsame.symm.trans hcell⟩
  · exact hread.not_waits hwaits

theorem Settled.of_advances (hs : s.Settled) (h : Advances D X I s t)
    (hX : ∀ x, x ∈ X → ¬ t.Waits x) : t.Settled := by
  intro x hwaits
  by_cases hx : x ∈ X
  · exact hX x hx hwaits
  · obtain ⟨cell, hcell⟩ := hwaits
    exact hs x ⟨cell, (h.view x hx).symm.trans hcell⟩

end State

namespace Exec

variable {D : Discipline} {s t : State} {invoke : Invoke} {name x : String} {expr : Expr}
  {e : Error}
  {place : Variables → Variable → Variables} {undo : Variables → Variables}

theorem label_of_scanned {access : Access} (hx : x ∈ access.scanned) :
    label (.access access) = "IO.scan" := by
  unfold Access.scanned at hx
  split at hx
  · obtain ⟨hmodule, hfield, -⟩ := hx
    rw [label, Access.qualifiedName, hmodule, hfield]
    rfl
  · exact hx.elim

theorem undone_evaluate (hinvoke : invoke.Sound D) (hs : s.Sound D) (expr : Expr) :
    Ensures (evaluate invoke expr) s (fun e t => s.Undone expr.scanned e t) fun _ t =>
      Advances D ∅ False s t := by
  have hall := ensures_evaluate hinvoke hs expr
  cases expr with
  | literal | reference | call => exact hall.imp (fun _ _ ht => .of_advances ht) fun _ _ ht => ht
  | access access =>
    have hscanned : ∀ x, Ensures (evaluate invoke (.access access)) s
        (fun e t => x ∈ access.scanned →
          t.view x = s.view x ∨ e.cause = .noReturnValue "IO.scan" ∧ s.ReadInto x t)
        fun _ _ => True := by
      intro x
      by_cases hx : x ∈ access.scanned
      · refine Ensures.bind ((ensures_field_scanned hinvoke hs hx).imp (fun _ _ ht _ => .inl ht) ?_)
        intro result t ht
        cases result with
        | some value => exact trivial
        | none => exact fun _ => .inr ⟨congrArg Cause.noReturnValue (label_of_scanned hx), ht⟩
      · exact hall.imp (fun _ _ _ hmem => absurd hmem hx) fun _ _ _ => trivial
    refine (hall.and (ensures_forall hscanned)).imp ?_ fun _ _ ht => ht.1
    rintro e t ⟨ht, hread⟩ x
    by_cases hx : x ∈ access.scanned
    · exact (hread x hx).imp id fun h => ⟨hx, h⟩
    · exact .inl (ht.view x hx)

/-- A way to take back the binding of a variable that stood for something else in `s`. -/
structure Restores (undo : Variables → Variables) (name : String) (s : State) : Prop where
  here : ∀ {u : State}, s.cells.Extends u.cells → u.view name ≠ none →
    view { u with vars := undo u.vars } name = s.view name
  elsewhere : ∀ {u : State} {x : String}, x ≠ name →
    view { u with vars := undo u.vars } x = u.view x

theorem restores_remove (hname : s.view name = none) : Restores (·.remove name) name s where
  here {u} _ _ := by
    rw [hname]
    refine view_eq_none_iff.mpr ?_
    show (u.vars.remove name).get? name = none
    rw [Variables.get?_remove, if_pos rfl]
  elsewhere {u x} hne := by
    show ((u.vars.remove name).get? x).map _ = _
    rw [Variables.get?_remove, if_neg hne]
    rfl

theorem restores_replace (hs : s.Sound D) {previous : Variable}
    (hprevious : s.vars.get? name = some previous) : Restores (·.replace previous) name s where
  here {u} hcells hthere := by
    have hname := Variables.name_of_get? hprevious
    subst hname
    rw [view_replace hthere, view_eq_some hprevious, (hs.of_get? hprevious).peek_extends hcells]
  elsewhere {u x} hne := by
    show ((u.vars.replace previous).get? x).map _ = _
    rw [Variables.get?_replace, Variables.name_of_get? hprevious, if_neg hne]
    rfl

theorem Unbound.undone (h : Unbound D invoke place name expr s undo e t)
    (hplaces : Places D place name s) (hrestores : Restores undo name s)
    (hinvoke : invoke.Sound D) (hs : s.Sound D) : s.Undone expr.scanned e t := by
  cases h with
  | refused hread => exact .of_advances hread.advances
  | @reverted u hcall herror =>
    have hawait := hplaces.advances_await hs
    have hu := (ensures_evaluate hinvoke hawait.sound expr).of_error herror
    have hundone := (undone_evaluate hinvoke hawait.sound expr).of_error herror
    intro x
    by_cases hx : x = name
    · subst hx
      refine .inl (hrestores.here (hawait.cells.trans hu.cells) ?_)
      rcases hundone x with hsame | ⟨-, -, -, line, hline⟩
      · rw [hsame, hplaces.view_await hs]
        exact Option.some_ne_none _
      · exact hline ▸ Option.some_ne_none _
    · have hbefore := hawait.view x hx
      rw [hrestores.elsewhere hx]
      refine (hundone x).imp (fun hsame => hsame.trans hbefore) ?_
      rintro ⟨hmem, hcause, hthere, hline⟩
      exact ⟨hmem, hcause, hbefore ▸ hthere, by rw [hrestores.elsewhere hx]; exact hline⟩

theorem undone_declare (hinvoke : invoke.Sound D) (hs : s.Sound D) (howns : D.Owns name)
    (expr : Expr) (span : Span) :
    Ensures (declare invoke name expr span) s (fun e t => s.Undone expr.scanned e t) fun _ _ =>
      True := by
  by_cases hname : s.view name = none
  · exact (declare_cases hinvoke hs name expr span).imp (fun _ _ h =>
      h.undone (places_prepend howns) (restores_remove hname) hinvoke hs) fun _ _ _ => trivial
  · -- the variable is there already, and the declaration is refused at once
    have hcontains : s.vars.contains name = true := by
      rw [Variables.contains_eq_isSome]
      exact Option.isSome_iff_ne_none.mpr (mt view_eq_none_iff.mpr hname)
    refine Ensures.bind (ensures_get ?_)
    rw [if_pos hcontains]
    exact Undone.of_advances (I := False) hs.refl

theorem undone_assign (hinvoke : invoke.Sound D) (hs : s.Sound D) (hsettled : s.Settled)
    (howns : D.Owns name) (expr : Expr) (span : Span) :
    Ensures (assign invoke name expr span) s (fun e t => s.Undone expr.scanned e t) fun _ _ =>
      True := by
  cases hprevious : s.vars.get? name with
  | none =>
    refine Ensures.bind (ensures_get ?_)
    rw [hprevious]
    exact Undone.of_advances (I := False) hs.refl
  | some previous =>
    have hthere : s.view name ≠ none := view_eq_some hprevious ▸ Option.some_ne_none _
    have hcases := assign_cases hinvoke hs hsettled howns expr span
    rw [hprevious] at hcases
    exact hcases.imp (fun _ _ h =>
      h.undone (places_replace hthere) (restores_replace hs hprevious) hinvoke hs)
      fun _ _ _ => trivial

theorem undone_assignField (hinvoke : invoke.Sound D) (hs : s.Sound D) (map field : String)
    (expr : Expr) (span : Span) :
    Ensures (assignField invoke map field expr span) s (fun e t => s.Undone expr.scanned e t)
      fun _ _ => True := by
  refine Ensures.bind ((ensures_readVariable hs map).imp ?_ ?_)
  · rintro _ _ rfl
    exact .of_advances (I := False) hs.refl
  · rintro current t ⟨ht, -⟩
    split
    · refine Ensures.bind ((undone_evaluate hinvoke ht.sound expr).imp
        (fun _ _ hu => hu.after ht) ?_)
      intro value u hu
      have hassign : ∀ value, Ensures (assignVariable map value) u
          (fun e w => s.Undone expr.scanned e w) fun _ _ => True := by
        intro value
        refine (ensures_assignVariable (X := {map}) (I := False) hu.sound map value rfl).imp ?_
          fun _ _ _ => trivial
        rintro _ _ rfl
        exact .of_advances (ht.trans hu)
      split
      · split
        · exact .of_advances (ht.trans hu)
        · exact hassign _
      · exact hassign _
    · exact .of_advances ht

/-! ## Statements and calls -/

/-- As a statement of its own, `IO.scan` leaves its variable alone when it fails. -/
theorem ensures_useField_scanned (hinvoke : invoke.Sound D) (hs : s.Sound D) {access : Access}
    (hx : x ∈ access.scanned) :
    Ensures (useField invoke access) s (fun _ t => t.view x = s.view x) fun _ t =>
      s.ReadInto x t := by
  refine Ensures.bind (((ensures_field_scanned hinvoke hs hx).and
    (evaluates_field hinvoke hs access)).imp (fun _ _ ht => ht.1) ?_)
  rintro result t ⟨hread, ht, -⟩
  split
  · next value _ _ =>
    refine Ensures.bind (ensures_makeCell (ensures_pushRecord ⟨hread.there, ?_⟩))
    obtain ⟨line, hline⟩ := hread.line
    have hrecord := ht.sound.addRecord (X := ∅) (I := False) value
      (r := { name := access.qualifiedName, cell := t.cells.fresh, owner := none,
              span := access.span }) rfl nofun rfl
    exact ⟨line, (hrecord.view x (Set.notMem_empty x)).trans hline⟩
  · exact hread

/-- The variables that a statement may change do not wait for anything afterwards. -/
theorem written_statement (hinvoke : invoke.Sound .ofLoaded) {st : Statement}
    (hforms : ∀ form ∈ st.form.forms, form.Standard) (hs : s.Sound .ofLoaded)
    (hsettled : s.Settled) :
    Ensures (statement invoke st) s (fun _ t => ∀ x, x ∈ st.form.scanned → ¬ t.Waits x)
      fun _ t => ∀ x, x ∈ st.form.writes → ¬ t.Waits x := by
  have hnothing : st.form.scanned = ∅ → st.form.writes = ∅ →
      Ensures (statement invoke st) s (fun _ t => ∀ x, x ∈ st.form.scanned → ¬ t.Waits x)
        fun _ t => ∀ x, x ∈ st.form.writes → ¬ t.Waits x := by
    intro hscanned hwrites
    refine (ensures_statement hinvoke st hforms hs mayAssign_ofLoaded).imp ?_ ?_
    · exact fun _ _ _ x hx => absurd (hscanned ▸ hx) (Set.notMem_empty x)
    · exact fun _ _ _ x hx => absurd (hwrites ▸ hx) (Set.notMem_empty x)
  cases hform : st.form with
  | function | call | useModule | useFile =>
    rw [hform] at hnothing
    exact hnothing rfl rfl
  | access access =>
    rw [statement_eq, hform, formOf]
    refine Ensures.decorate (Ensures.goOn (ensures_forall fun x => ?_))
    by_cases hx : x ∈ access.scanned
    · refine (ensures_useField_scanned hinvoke hs hx).imp ?_ fun _ _ hread _ => hread.not_waits
      rintro _ t hsame - ⟨cell, hcell⟩
      exact hsettled x ⟨cell, hsame.symm.trans hcell⟩
    · exact (keeps_useField hinvoke hs access).imp (fun _ _ _ hmem => absurd hmem hx)
        fun _ _ _ hmem => absurd hmem hx
  | declare name value =>
    rw [statement_eq, hform, formOf]
    refine Ensures.decorate (Ensures.goOn (((undone_declare hinvoke hs trivial value st.span).and
      (publishes_declare hinvoke hs hsettled trivial value st.span)).imp ?_ ?_))
    · exact fun _ t ht x _ => ht.1.settled hsettled x
    · rintro _ t ⟨-, ht⟩ x rfl
      exact ht.not_waits
  | assign target value =>
    cases target with
    | var name =>
      rw [statement_eq, hform, formOf]
      refine Ensures.decorate (Ensures.goOn (((undone_assign hinvoke hs hsettled trivial value
        st.span).and (assign_cases hinvoke hs hsettled trivial value st.span)).imp ?_ ?_))
      · exact fun _ t ht x _ => ht.1.settled hsettled x
      · rintro _ t ⟨-, ht⟩ x rfl
        exact ht.not_waits
    | field map field =>
      rw [statement_eq, hform, formOf]
      refine Ensures.decorate (Ensures.goOn (((undone_assignField hinvoke hs map field value
        st.span).and (ensures_assignField hinvoke hs map field value st.span)).imp ?_ ?_))
      · exact fun _ t ht x _ => ht.1.settled hsettled x
      · rintro _ t ⟨-, -, _, _, _, _, _, _, _, _, hview, _⟩ x rfl ⟨cell, hcell⟩
        cases hview.symm.trans hcell
  | returns value =>
    rw [statement_eq, hform, formOf]
    refine Ensures.decorate (Ensures.bind ((undone_evaluate hinvoke hs value).imp ?_ ?_))
    · exact fun _ t ht x _ => ht.settled hsettled x
    · exact fun _ t _ x hx => absurd hx (Set.notMem_empty x)

theorem settled_statement (hinvoke : invoke.Sound .ofLoaded) {st : Statement}
    (hforms : ∀ form ∈ st.form.forms, form.Standard) (hs : s.Sound .ofLoaded)
    (hsettled : s.Settled) :
    Ensures (statement invoke st) s (fun _ t => t.Settled) fun _ t => t.Settled :=
  ((ensures_statement hinvoke st hforms hs mayAssign_ofLoaded).and
    (written_statement hinvoke hforms hs hsettled)).imp
    (fun _ _ ht => hsettled.of_advances ht.1 ht.2) fun _ _ ht => hsettled.of_advances ht.1 ht.2

end Exec

/-! ## States between statements -/

section Moments

variable {s : State} {m : Moment}

theorem State.settled_of_plain {vars : Variables}
    (h : ∀ v ∈ vars.entries, ∃ name value, v = .plain name value) (s : State) :
    ({ s with vars } : State).Settled := by
  rintro name ⟨cell, hwaits⟩
  obtain ⟨v, hv, hpeek, -⟩ := exists_of_view_eq_some hwaits
  obtain ⟨_, value, rfl⟩ := h v (Variables.mem_of_get? hv)
  cases hpeek

/-- The scope of a body starts with parameters only. -/
theorem Invocation.settled_entry {i : Invocation} {entry : State} (h : i.entry? = some entry) :
    entry.Settled := by
  obtain ⟨bound, hbound, rfl⟩ := exists_bound_of_entry? h
  refine settled_of_plain (fun v hv => ?_) { i.state with
    imports := i.state.imports.merge i.function.body.imports }
  obtain ⟨param, -, value, hvalue⟩ :=
    Exec.exists_plain_of_bindParams hbound v (Variables.mem_ofList hv)
  exact ⟨param.name, value, hvalue⟩

/-- What is known of every moment of a run. -/
structure Moment.Ready (m : Moment) : Prop where
  sound : m.state.Sound .ofLoaded
  settled : m.state.Settled
  forms : ∀ form ∈ m.statement.form.forms, form.Standard

theorem Moment.Ready.advances (h : m.Ready) :
    Exec.Keeps .ofLoaded Set.univ True m.state
      (Exec.statement (callWithin m.levels) m.statement) :=
  Exec.keeps_statement (sound_callWithin_ofLoaded _) h.forms h.sound Exec.mayAssign_ofLoaded

theorem Moment.Ready.settles (h : m.Ready) :
    Exec.Ensures (Exec.statement (callWithin m.levels) m.statement) m.state
      (fun _ t => t.Settled) fun _ t => t.Settled :=
  Exec.settled_statement (sound_callWithin_ofLoaded _) h.forms h.sound h.settled

/-- The calls of a statement are made in sound states, of functions that are declared there. -/
theorem Moment.Ready.invoked (h : m.Ready) :
    Exec.Invoked .ofLoaded m.state
      (m.statement.form.invocations (callWithin m.levels) m.state) :=
  Exec.invoked_form h.sound (h.forms _ (mem_forms_self _))
    (Exec.callsKeep_of_sound (sound_callWithin_ofLoaded _) _)

/-- All statements of an imported file are as they should be, and so are its imports. -/
theorem Statement.standard_file {st : Statement} (h : ∀ form ∈ st.form.forms, form.Standard)
    {file : SourceFile} {program : Program} (hform : st.form = .useFile file program) :
    program.imports.modules ⊆ Library.modules ∧
      ∀ form ∈ formsOf program.statements, form.Standard := by
  rw [hform] at h
  refine ⟨(h _ (mem_forms_self _)).1, fun form hin => h form ?_⟩
  rw [Form.forms, Program.forms_eq]
  exact List.mem_cons_of_mem _ hin

/-- What is known of every list of statements that is run, and of the state that it is run from. -/
structure State.ReadyFor (s : State) (statements : List Statement) : Prop where
  sound : s.Sound .ofLoaded
  settled : s.Settled
  forms : ∀ form ∈ formsOf statements, form.Standard

theorem State.ReadyFor.first {first : Statement} {rest : List Statement}
    (h : s.ReadyFor (first :: rest)) (levels : Nat) (scopes : List Variables) :
    (⟨levels, scopes, s, first⟩ : Moment).Ready :=
  ⟨h.sound, h.settled, fun form hform => h.forms form (by simp [formsOf, hform])⟩

theorem State.ReadyFor.next {first : Statement} {rest : List Statement} {levels : Nat}
    (h : s.ReadyFor (first :: rest))
    (hrun : s.run (Exec.statement (callWithin levels) first) = (.ok .goOn, t)) :
    t.ReadyFor rest := by
  have hready := h.first levels []
  exact ⟨(hready.advances.of_ok hrun).sound, hready.settles.of_ok hrun,
    fun form hform => h.forms form (by simp [formsOf, hform])⟩

theorem Moment.Ready.file (h : m.Ready) {file : SourceFile} {program : Program}
    (hform : m.statement.form = .useFile file program) :
    (m.state.prepare program).ReadyFor program.statements := by
  obtain ⟨himports, hforms⟩ := Statement.standard_file h.forms hform
  exact ⟨State.Advances.sound (Exec.keeps_mergeImports h.sound himports), h.settled, hforms⟩

theorem Invocation.readyFor {i : Invocation} {entry : State} (hs : i.state.Sound .ofLoaded)
    (hmem : i.function ∈ i.state.functions) (hentry : i.entry? = some entry) :
    entry.ReadyFor i.function.body.statements := by
  obtain ⟨bound, hbound, rfl⟩ := Invocation.exists_bound_of_entry? hentry
  exact ⟨hs.enter hmem hbound, Invocation.settled_entry hentry, Exec.allows_body hs hmem⟩

theorem Moment.Ready.call (h : m.Ready) {i : Invocation} {entry : State}
    (hi : i ∈ m.statement.form.invocations (callWithin m.levels) m.state)
    (hentry : i.entry? = some entry) : entry.ReadyFor i.function.body.statements := by
  obtain ⟨hadvances, hmem⟩ := h.invoked i hi
  exact Invocation.readyFor hadvances.sound hmem hentry

theorem Moment.During.ready {levels : Nat} {scopes : List Variables}
    {statements : List Statement} (h : m.During levels scopes statements s)
    (hready : s.ReadyFor statements) : m.Ready := by
  induction h with
  | here => exact hready.first _ _
  | next hrun _ ih => exact ih (hready.next hrun)
  | @file levels scopes _ _ _ _ _ _ hform _ ih => exact ih ((hready.first levels scopes).file hform)
  | @call levels scopes _ _ _ _ _ _ hi hentry _ ih =>
    exact ih ((hready.first (levels + 1) scopes).call hi hentry)

/-- A program leaves no name waiting behind, also when it fails. -/
theorem State.Settled.execute (hsettled : s.Settled) (hs : s.Sound .ofLoaded) {program : Program}
    (hprogram : program.Loaded) : (s.execute program).2.Settled := by
  obtain ⟨himports, hforms⟩ := hprogram.standard
  have hmerge := (Exec.keeps_mergeImports hs himports).state
  have hrun : Exec.Ensures (do
      Exec.mergeImports program.imports
      let _ ← Exec.programOf (callWithin callLimit) program) s
      (fun _ t => t.Sound .ofLoaded ∧ t.Settled) fun _ t => t.Sound .ofLoaded ∧ t.Settled := by
    refine Exec.Ensures.bind (Exec.ensures_modify (Exec.Ensures.bind ?_))
    rw [Exec.programOf_eq]
    refine (Exec.ensures_statementsOf ⟨hmerge.sound, hsettled⟩ fun st hst t ht => ?_).imp
      (fun _ _ h => h) fun _ _ h => h
    have hst : ∀ form ∈ st.form.forms, form.Standard :=
      fun form hform => hforms form (mem_formsOf.mpr ⟨st, hst, hform⟩)
    have hinvoke := sound_callWithin_ofLoaded callLimit
    exact ((Exec.keeps_statement hinvoke hst ht.1 Exec.mayAssign_ofLoaded).and
      (Exec.settled_statement hinvoke hst ht.1 ht.2)).imp
      (fun _ _ hu => ⟨hu.1.sound, hu.2⟩) fun _ _ hu => ⟨hu.1.sound, hu.2⟩
  exact hrun.state.2

theorem Session.settled (h : Session s) : s.Settled := by
  induction h with
  | start console scopes =>
    exact @settled_of_plain {} (fun v hv => nomatch hv) { console, scopes }
  | run hsession hprogram ih => exact ih.execute hsession.sound hprogram

theorem State.Settled.readyFor (hsettled : s.Settled) (hs : s.Sound .ofLoaded) {program : Program}
    (hprogram : program.Loaded) : (s.prepare program).ReadyFor program.statements := by
  obtain ⟨himports, hforms⟩ := hprogram.standard
  exact ⟨State.Advances.sound (Exec.keeps_mergeImports hs himports), hsettled, hforms⟩

theorem Session.readyFor (h : Session s) {program : Program} (hprogram : program.Loaded) :
    (s.prepare program).ReadyFor program.statements :=
  h.settled.readyFor h.sound hprogram

theorem Moment.Live.ready (h : m.Live) : m.Ready := by
  obtain ⟨s, program, hsession, hprogram, hduring⟩ := h
  exact hduring.ready (hsession.readyFor hprogram)

/-- The states of a session that are between two statements, or between two programs. -/
inductive State.AtRest : State → Prop
  | between {s : State} (h : Session s) : AtRest s
  | before {m : Moment} (h : m.Live) : AtRest m.state
  | after {m : Moment} (h : m.Live) : AtRest m.after

theorem State.AtRest.sound (h : s.AtRest) : s.Sound .ofLoaded := by
  cases h with
  | between h => exact h.sound
  | before h => exact h.sound.state
  | after h => exact h.advances.sound

theorem State.AtRest.settled (h : s.AtRest) : s.Settled := by
  cases h with
  | between h => exact h.settled
  | before h => exact h.ready.settled
  | after h => exact h.ready.settles.state

end Moments

end Scripting
