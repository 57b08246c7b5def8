import Scripting.Proofs.Moments

/-!
# Variables and the records that answer to them

The value of a variable that holds a result can be found twice: through the variable, and through the
record of the log that answers to its name. The second way is the one for functions that do not bind
the name. The two agree as long as the variable is attached: every record that answers to its name has
the cell that the variable is bound to (`State.Attached`).

Functions that do not bind a name cannot change which records answer to it. This is a discipline,
`Discipline.sparing`, so all that is known of calls holds under it. What is left are the statements of
the top level. Declarations and assignments move the records along with the variable
(`ensures_declare_attached`, `ensures_assign_attached`).
-/

namespace Scripting

open State

/-! ## Sparing a name -/

/-- Whether a statement of the form makes a variable of the name, in its own scope or, for a function,
in the scope of its body. -/
def Form.Binds (x : String) : Form → Prop
  | .declare name _ => name = x
  | .function declaration => ∃ param ∈ declaration.params, param.name = x
  | _ => False

instance (x : String) (form : Form) : Decidable (form.Binds x) :=
  match form with
  | .declare name _ => inferInstanceAs (Decidable (name = x))
  | .function declaration =>
    inferInstanceAs (Decidable (∃ param ∈ declaration.params, param.name = x))
  | .call _ | .access _ | .assign _ _ | .returns _ | .useModule _ | .useFile _ _ => isFalse id

/-- Whether the form is that of a function. -/
def Form.isFunction : Form → Bool
  | .function _ => true
  | _ => false

/-- Whether some function of the program binds the name, as a parameter or in its body. -/
def Program.FunctionsBind (program : Program) (x : String) : Prop :=
  ∃ form ∈ formsOf program.statements, form.isFunction ∧ ∃ inner ∈ form.forms, inner.Binds x

instance (program : Program) (x : String) : Decidable (program.FunctionsBind x) :=
  inferInstanceAs (Decidable (∃ form ∈ formsOf program.statements,
    form.isFunction ∧ ∃ inner ∈ form.forms, inner.Binds x))

namespace Discipline

/-- No statement binds the name, and the log answers to it with the same cells at all times. -/
def sparing (x : String) : Discipline where
  Allows form := form.Standard ∧ ¬ form.Binds x
  Owns name := name ≠ x
  Law a b := ∀ c, b.binds c x = true ↔ a.binds c x = true
  standard _ h := h.1
  owns_declared _ _ h heq := h.2 heq
  owns_params _ h param hparam heq := h.2 ⟨param, hparam, heq⟩
  law_refl _ _ := Iff.rfl
  law_trans _ _ _ h h' c := (h' c).trans (h c)
  law_push log r howner haliases c := by
    rw [ReturnLog.binds_push]
    refine or_iff_right ?_
    rintro ⟨-, hans⟩
    rcases Record.answersTo_iff.mp hans with h | h
    · exact howner x h rfl
    · rw [haliases] at h
      cases h
  law_addAlias log cell name hname c := by
    rw [ReturnLog.binds_addAlias]
    exact or_iff_left fun h => hname h.2.1.symm

theorem lenient_sparing (x : String) : (sparing x).Lenient := by
  intro name howns cell log c
  rw [ReturnLog.binds_release]
  exact and_iff_left fun h => howns h.2.symm

/-- No function binds the name. Other statements may do so. -/
def sparingInFunctions (x : String) : Discipline where
  Allows form := form.Standard ∧ ∀ declaration, form = .function declaration →
    ∀ inner ∈ (Form.function declaration).forms, ¬ inner.Binds x
  Owns _ := True
  Law _ _ := True
  standard _ h := h.1
  owns_declared _ _ _ := trivial
  owns_params _ _ _ _ := trivial
  law_refl _ := trivial
  law_trans _ _ _ _ _ := trivial
  law_push _ _ _ _ := trivial
  law_addAlias _ _ _ _ := trivial

theorem lenient_sparingInFunctions (x : String) : (sparingInFunctions x).Lenient :=
  fun _ _ _ _ => trivial

end Discipline

theorem State.Sound.sparing {s : State} {x : String} (h : s.Sound (.sparingInFunctions x)) :
    s.Sound (.sparing x) where
  log := h.log
  vars := h.vars
  functions declaration hmem form hform :=
    ⟨(h.functions declaration hmem form hform).1,
      (h.functions declaration hmem _ (mem_forms_self _)).2 declaration rfl form hform⟩
  imports := h.imports

/-- Where no function binds a name, the forms inside a statement bind it only if the statement does. -/
theorem Statement.not_binds_of_mem_forms {x : String} {st : Statement}
    (hstandard : ∀ form ∈ st.form.forms, form.Standard)
    (hfunctions : ∀ declaration, Form.function declaration ∈ st.form.forms →
      ∀ form ∈ (Form.function declaration).forms, ¬ form.Binds x)
    (hst : ¬ st.form.Binds x) : ∀ form ∈ st.form.forms, ¬ form.Binds x := by
  induction st using Statement.induction with
  | h st ih =>
    intro form hmem
    cases hform : st.form with
    | function declaration =>
      have hself := mem_forms_self st.form
      rw [hform] at hself hmem
      exact hfunctions declaration (hform ▸ hself) form hmem
    | useFile file program =>
      have hfile := hstandard st.form (mem_forms_self st.form)
      rw [hform] at hfile hmem
      rw [Form.forms, Program.forms_eq] at hmem
      rcases List.mem_cons.mp hmem with rfl | hmem
      · exact id
      · obtain ⟨inner, hinner, hmem⟩ := mem_formsOf.mp hmem
        have hsub : ∀ f ∈ inner.form.forms, f ∈ st.form.forms := by
          intro f hf
          rw [hform, Form.forms, Program.forms_eq]
          exact List.mem_cons_of_mem _ (mem_formsOf.mpr ⟨inner, hinner, hf⟩)
        refine ih file program hform inner hinner (fun f hf => hstandard f (hsub f hf))
          (fun d hd => hfunctions d (hsub _ hd)) ?_ form hmem
        have hexport := hfile.2 inner hinner
        cases hinnerForm : inner.form with
        | function d =>
          have hd : Form.function d ∈ inner.form.forms := hinnerForm ▸ mem_forms_self inner.form
          exact hfunctions d (hsub _ hd) _ (mem_forms_self _)
        | useModule | useFile => exact id
        | _ =>
          rw [hinnerForm] at hexport
          cases hexport
    | _ =>
      rw [hform] at hmem hst
      rw [Form.forms, List.mem_singleton] at hmem
      exact hmem ▸ hst

/-! ## Attached variables -/

namespace State

/-- Every record that answers to the name has the cell that the variable of the name is bound to. -/
def Attached (x : String) (s : State) : Prop :=
  ∀ c, s.log.binds c x = true → s.cell? x = some c

variable {x : String} {s t : State} {X : Set String} {I : Prop}

theorem Attached.advances (h : s.Attached x) (hst : Advances (.sparing x) X I s t) (hx : x ∉ X) :
    t.Attached x := by
  intro c hc
  rw [cell?_eq, hst.view x hx, ← cell?_eq]
  exact h c ((hst.law c).mp hc)

end State

namespace Exec

variable {x : String} {s t : State} {invoke : Invoke}

/-- A capture adds one record that answers to the name, the one of its own cell. -/
theorem ensures_capture_binds (hinvoke : invoke.Sound (.sparing x)) (hs : s.Sound (.sparing x))
    (cell : Cell) (expr : Expr) :
    Ensures (capture invoke x cell expr) s (fun _ _ => True) fun _ t =>
      t.cell? x = s.cell? x ∧
        ∀ c, t.log.binds c x = true → c = cell ∨ s.log.binds c x = true := by
  refine Ensures.bind ((ensures_evaluate hinvoke hs expr).imp (fun _ _ _ => trivial) ?_)
  intro value t ht
  refine Ensures.bind (ensures_modify (ensures_pushRecord ⟨?_, fun c hc => ?_⟩))
  · show t.cell? x = s.cell? x
    rw [cell?_eq, ht.view x (Set.notMem_empty x), ← cell?_eq]
  · rcases ReturnLog.binds_push.mp hc with h | h
    · exact .inl h.1.symm
    · exact .inr ((ht.law c).mp h)

/-- Making a variable out of a name adds at most the record of the cell that the variable gets. -/
theorem ensures_reference_binds (token : Token) :
    Ensures (reference x token) s (fun _ _ => True) fun v t =>
      v.name = x ∧ t.vars = s.vars ∧
        ∀ c, t.log.binds c x = true → v.cell = some c ∨ s.log.binds c x = true := by
  refine Ensures.bind (Ensures.bind (ensures_get ?_))
  split
  · refine ensures_pure ?_
    split
    · exact ⟨rfl, rfl, fun c hc => .inr hc⟩
    · next cell =>
      refine Ensures.bind (ensures_modify (ensures_pure ⟨rfl, rfl, fun c hc => ?_⟩))
      rcases ReturnLog.binds_addAlias.mp hc with h | ⟨rfl, -⟩
      · exact .inr h
      · exact .inl rfl
  · exact trivial

/-- A variable is attached from its declaration on. -/
theorem ensures_declare_attached (hinvoke : invoke.Sound (.sparing x)) (hs : s.Sound (.sparing x))
    (hattached : s.Attached x) (expr : Expr) (span : Span) :
    Ensures (declare invoke x expr span) s (fun _ _ => True) fun _ t => t.Attached x := by
  refine Ensures.bind (ensures_get ?_)
  split
  · exact trivial
  · next hcontains =>
    -- no record answers to the name of a variable that is not there
    have hget : s.vars.get? x = none :=
      Variables.get?_eq_none_of_contains (by simpa using hcontains)
    have hfree : ∀ c, ¬ s.log.binds c x = true := by
      intro c hc
      have hcell := hattached c hc
      rw [State.cell?, hget] at hcell
      cases hcell
    split
    · refine Ensures.bind (ensures_makeCell ?_)
      refine Ensures.bind ((ensures_declareVariable_eq _).imp (fun _ _ _ => trivial) ?_)
      rintro _ _ ⟨-, rfl⟩
      have hcell := hs.addCell (X := {x}) (I := False) none
      have hvars : ∀ v ∈ Variable.ofCell x s.cells.fresh :: s.vars.entries,
          v ∈ s.vars.entries ∨ v.Sound (s.cells.add none) s.log := by
        intro v hv
        rcases List.mem_cons.mp hv with rfl | hv
        · exact .inr (Variable.sound_pending _ _ x)
        · exact .inl hv
      have hsound : State.Sound (.sparing x) { s with
          cells := s.cells.add none
          vars := { entries := .ofCell x s.cells.fresh :: s.vars.entries } } :=
        hcell.sound.withVars hvars
      refine Ensures.orUndo ((ensures_capture_binds hinvoke hsound s.cells.fresh expr).imp
        (fun _ _ _ => trivial) ?_)
      rintro _ t ⟨htcell, htbinds⟩ c hc
      obtain rfl := (htbinds c hc).resolve_right (hfree c)
      exact htcell.trans (cell?_declare (s := { s with cells := s.cells.add none })
        (.ofCell x s.cells.fresh))
    · split
      · refine Ensures.bind ((ensures_reference_binds _).imp (fun _ _ _ => trivial) ?_)
        rintro v t ⟨rfl, -, htbinds⟩
        refine (ensures_declareVariable_eq v).imp (fun _ _ _ => trivial) ?_
        rintro _ _ ⟨-, rfl⟩ c hc
        rw [cell?_declare]
        exact (htbinds c hc).resolve_right (hfree c)
      · refine Ensures.bind ((ensures_evaluate hinvoke hs expr).imp (fun _ _ _ => trivial) ?_)
        intro value t ht
        refine (ensures_declareVariable_eq (.plain x value)).imp (fun _ _ _ => trivial) ?_
        rintro _ _ ⟨-, rfl⟩ c hc
        exact absurd ((ht.law c).mp hc) (hfree c)

/-- Binding a variable anew adds at most the record of the cell that it is bound to then. -/
theorem ensures_rebind_binds (hinvoke : invoke.Sound (.sparing x)) (hs : s.Sound (.sparing x))
    {previous : Variable} (hprevious : s.vars.get? x = some previous) (expr : Expr) :
    Ensures (rebind invoke x previous expr) s (fun _ _ => True) fun _ t =>
      ∀ c, t.log.binds c x = true → t.cell? x = some c ∨ s.log.binds c x = true := by
  unfold rebind
  split
  · refine Ensures.bind (ensures_makeCell (Ensures.bind (ensures_replaceVariable ?_)))
    have hcell := hs.addCell (X := {x}) (I := False) none
    have hsound := (hcell.sound.replace (X := {x}) (I := False)
      (Variable.sound_pending s.cells s.log x) rfl).sound
    refine Ensures.orUndo ((ensures_capture_binds hinvoke hsound s.cells.fresh expr).imp
      (fun _ _ _ => trivial) ?_)
    rintro _ t ⟨htcell, htbinds⟩ c hc
    refine (htbinds c hc).imp_left fun heq => ?_
    rw [heq]
    exact htcell.trans (cell?_replace (s := { s with cells := s.cells.add none })
      (v := .ofCell x s.cells.fresh) hprevious)
  · split
    · refine Ensures.bind ((keeps_lift (X := {x}) (I := False) hs _).imp (fun _ _ _ => trivial) ?_)
      intro value t ht
      refine Ensures.bind ((keeps_readVariable (X := {x}) (I := False) ht.sound x).imp
        (fun _ _ _ => trivial) ?_)
      intro current u hu
      split
      · exact trivial
      · refine (keeps_assignVariable (X := {x}) (I := False) hu.sound x value rfl).imp
          (fun _ _ _ => trivial) fun _ w hw c hc => ?_
        exact .inr (((ht.trans hu).trans hw).law c |>.mp hc)
    · refine Ensures.bind ((ensures_reference_binds _).imp (fun _ _ _ => trivial) ?_)
      rintro v t ⟨rfl, htvars, htbinds⟩
      refine ensures_replaceVariable fun c hc => ?_
      rw [cell?_replace (htvars ▸ hprevious)]
      exact htbinds c hc
    · refine Ensures.bind ((ensures_evaluate hinvoke hs expr).imp (fun _ _ _ => trivial) ?_)
      intro value t ht
      refine (keeps_assignVariable (X := {x}) (I := False) ht.sound x value rfl).imp
        (fun _ _ _ => trivial) fun _ u hu c hc => ?_
      exact .inr ((ht.law c).mp ((hu.law c).mp hc))

/-- Moving the records attaches a variable again that was bound anew. -/
theorem ensures_moveRecords_attached {D : Discipline} (hs : s.Sound D) (hname : s.view x ≠ none)
    {previous : Cell}
    (hbinds : ∀ c, s.log.binds c x = true → s.cell? x = some c ∨ c = previous) (span : Span) :
    Ensures (moveRecords x previous span) s (fun _ _ => False) fun _ t => t.Attached x := by
  have hreleased : ∀ c, (s.log.release previous x).binds c x = true → s.cell? x = some c := by
    intro c hc
    obtain ⟨hc, hne⟩ := ReturnLog.binds_release.mp hc
    exact (hbinds c hc).resolve_right fun heq => hne ⟨heq, rfl⟩
  refine (moveRecords_cases hs hname previous span).imp (fun _ _ h => h) ?_
  rintro _ t (⟨hsame, rfl⟩ | ⟨-, -, rfl⟩ | ⟨hnone, v, value, hv, -, rfl⟩) c hc
  · exact (hbinds c hc).elim id fun heq => heq ▸ hsame
  · exact hreleased c hc
  · rcases ReturnLog.binds_push.mp hc with ⟨rfl, -⟩ | h
    · exact cell?_republish hv value
    · have hcell := hreleased c h
      rw [hnone] at hcell
      cases hcell

/-- An assignment keeps its variable attached. -/
theorem ensures_assign_attached (hinvoke : invoke.Sound (.sparing x)) (hs : s.Sound (.sparing x))
    (hloaded : invoke.Sound .ofLoaded) (hattached : s.Attached x) (expr : Expr) (span : Span) :
    Ensures (assign invoke x expr span) s (fun _ _ => True) fun _ t => t.Attached x := by
  refine Ensures.bind (ensures_get ?_)
  split
  · exact trivial
  · next previous hprevious =>
    have hscell : s.cell? x = previous.cell := by rw [State.cell?, hprevious]; rfl
    have howns : Discipline.ofLoaded.Owns x := trivial
    have hrebind := ensures_rebind hloaded hs.ofLoaded howns hprevious expr
    refine Ensures.bind ((hrebind.and (ensures_rebind_binds hinvoke hs hprevious expr)).imp
      (fun _ _ _ => trivial) ?_)
    rintro _ t ⟨⟨ht, hthere⟩, htbinds⟩
    split
    · next cell hcell =>
      refine (ensures_moveRecords_attached ht.sound hthere (fun c hc => ?_) span).imp
        (fun _ _ h => h.elim) fun _ _ h => h
      refine (htbinds c hc).imp_right fun hold => ?_
      exact Option.some.inj ((hattached c hold).symm.trans (hscell.trans hcell))
    · next hcell =>
      intro c hc
      refine (htbinds c hc).resolve_right fun hold => ?_
      have hbound := hattached c hold
      rw [hscell, hcell] at hbound
      cases hbound

end Exec

end Scripting
