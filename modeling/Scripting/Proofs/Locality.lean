import Scripting.Proofs.CalleeView
import Scripting.Proofs.Runs

/-!
# What calls let their callers see

A name that is not found in a scope may be found there after a call. The variables of the called
functions themselves are gone by then. But the log and the functions are shared by all scopes, and
they are asked for names that are no variables of the running scope. So a name is found from then on
if some statement inside the call has declared a function of the name, or has bound a variable of
the name to a result, be it the result of a call or one that another name stood for
(`Moment.Exposes`).

`unresolved_unless_exposed` says that there is no other way, and that each such statement does have
this effect.
-/

namespace Scripting

open State

/-! ## Where names are found -/

namespace State

variable {s t : State} {x : String}

/-- All scopes find something under the name: some record answers to it, or a function has it. -/
def Public (s : State) (x : String) : Prop :=
  (∃ c, s.log.binds c x = true) ∨ (s.function? x).isSome = true

/-- The running scope has something under the name: a variable, something that a module exports, or
a field of a map. -/
def Private (s : State) (x : String) : Prop :=
  s.vars.contains x = true ∨ (s.imports.findExport? x).isSome = true ∨
    ∃ value, s.vars.Offers s.cells x value

/-- The token is a name that stands for nothing: as an argument it is refused as not found. -/
def NotFound (s : State) (token : Token) : Prop :=
  (s.run (Exec.operand token)).1 = .error (.locate (.notFound token.lexeme) token.span)

theorem meaning?_eq_none_iff (hvar : s.vars.contains x = false) :
    s.meaning? x = none ↔ ¬ s.Private x ∧ ¬ s.Public x := by
  have hvariable : s.variableMeaning? x = none := by
    rw [variableMeaning?, Variables.get?_eq_none_of_contains hvar]
    rfl
  have hlog : (s.log.find? x).isSome = true ↔ ∃ c, s.log.binds c x = true := by
    constructor
    · intro h
      obtain ⟨r, hr⟩ := Option.isSome_iff_exists.mp h
      exact ⟨r.cell, binds_of_find? hr⟩
    · rintro ⟨c, hc⟩
      exact find?_isSome_of_binds hc
  have hexport : (s.exportMeaning? x).isSome = (s.imports.findExport? x).isSome := by
    unfold exportMeaning?
    rcases s.imports.findExport? x with _ | ⟨module, function | value⟩ <;> rfl
  rw [← Option.not_isSome_iff_eq_none, Private, Public, ← hlog, hvar, meaning?, plainMeaning?,
    hvariable]
  simp only [Option.orElse_eq_orElse, Option.orElse_eq_or, Option.isSome_or, Option.isSome_map,
    hexport, Option.isSome_none, Bool.or_eq_true, Variables.isSome_findField?_iff]
  tauto

end State

namespace Exec

variable {s : State} {token : Token}

theorem cause_ne_of_read {name : String} {e : Error} (h : s.vars.read s.cells name = .error e)
    (x : String) : e.cause ≠ .notFound x := by
  intro hcause
  unfold Variables.read at h
  split at h
  · cases h
    cases hcause
  · split at h
    · cases h
      cases hcause
    · cases h

/-- Only a name that stands for nothing is refused as not found. -/
theorem ensures_operand_notFound :
    Ensures (operand token) s
      (fun e _ => e.cause = .notFound token.lexeme → token.kind = .identifier ∧
        s.vars.contains token.lexeme = false ∧ s.meaning? token.lexeme = none) fun _ _ => True := by
  have hliteral : Ensures (liftM (Value.ofLiteral token) : Exec Value) s
      (fun e _ => e.cause = .notFound token.lexeme → token.kind = .identifier ∧
        s.vars.contains token.lexeme = false ∧ s.meaning? token.lexeme = none) fun _ _ => True :=
    ensures_lift (fun _ _ => trivial) fun e he hcause => by
      rw [Value.eq_locate_of_ofLiteral he] at hcause
      cases hcause
  unfold operand
  split
  · exact hliteral
  · exact hliteral
  · exact hliteral
  · next hkind =>
    refine Ensures.bind (ensures_get ?_)
    split
    · refine Ensures.decorate (Ensures.bind (ensures_get (Ensures.bind (ensures_lift ?_ ?_))))
      · exact fun _ _ => trivial
      · intro e he hcause
        have hsame : (e.orAt token.span).cause = e.cause := rfl
        exact absurd (hsame.symm.trans hcause) (cause_ne_of_read he _)
    · next hvar =>
      refine Ensures.bind (Ensures.bind (ensures_get ?_))
      split
      · refine ensures_pure ?_
        split
        · exact trivial
        · refine Ensures.bind (ensures_get ?_)
          split
          · exact trivial
          · exact fun hcause => nomatch hcause
      · next hmeaning => exact fun _ => ⟨hkind, by simpa using hvar, hmeaning⟩
  · exact fun hcause => nomatch hcause

end Exec

theorem State.notFound_iff {s : State} {token : Token} :
    s.NotFound token ↔
      token.kind = .identifier ∧ ¬ s.Private token.lexeme ∧ ¬ s.Public token.lexeme := by
  constructor
  · intro h
    cases hrun : s.run (Exec.operand token) with
    | mk result t =>
      rw [NotFound, hrun] at h
      subst h
      obtain ⟨hkind, hvar, hmeaning⟩ := Exec.ensures_operand_notFound.of_error hrun rfl
      exact ⟨hkind, (meaning?_eq_none_iff hvar).mp hmeaning⟩
  · rintro ⟨hkind, hprivate, hpublic⟩
    have hvar : s.vars.contains token.lexeme = false := by
      simpa using fun h => hprivate (.inl h)
    have hmeaning := (meaning?_eq_none_iff hvar).mpr ⟨hprivate, hpublic⟩
    have hrun : s.run (Exec.meaning token) =
        (.error (.locate (.notFound token.lexeme) token.span), s) := by
      unfold Exec.meaning
      rw [Exec.run_get_bind, hmeaning]
      rfl
    unfold NotFound Exec.operand Exec.nameValue
    rw [hkind, Exec.run_get_bind, if_neg (by simp [hvar]), Exec.run_bind, hrun]

/-! ## What a call leaves to the scope of its caller -/

namespace State

/-- The scope has got nothing new: the imports are the same, and each variable is there already,
with the same value. -/
def NothingNew (s t : State) : Prop :=
  t.imports = s.imports ∧ ∀ name v, t.vars.get? name = some v →
    ∃ w, s.vars.get? name = some w ∧ w.peek s.cells = v.peek t.cells

variable {s t : State} {x : String}

theorem NothingNew.not_private (h : s.NothingNew t) (hs : ¬ s.Private x) : ¬ t.Private x := by
  obtain ⟨himports, hvars⟩ := h
  rintro (hvar | hexport | hfield)
  · rw [Variables.contains_eq_isSome] at hvar
    obtain ⟨v, hv⟩ := Option.isSome_iff_exists.mp hvar
    obtain ⟨w, hw, -⟩ := hvars x v hv
    exact hs (.inl (by rw [Variables.contains_eq_isSome, hw]; rfl))
  · exact hs (.inr (.inl (himports ▸ hexport)))
  · obtain ⟨value, name, v, hv, hvalue⟩ := hfield
    obtain ⟨w, hw, hsame⟩ := hvars name v hv
    refine hs (.inr (.inr ⟨value, name, w, hw, ?_⟩))
    rw [← hvalue, Variable.field?, hsame, Variable.field?]

theorem allows_nothingNew (spans : List Span) : (Conduct.ofMoves NothingNew).Allows spans where
  refl _ := ⟨rfl, fun _ v hv => ⟨v, hv, rfl⟩⟩
  trans _ _ _ h h' := by
    refine ⟨h'.1.trans h.1, fun name v hv => ?_⟩
    obtain ⟨w, hw, hpeek⟩ := h'.2 name v hv
    obtain ⟨u, hu, hpeek'⟩ := h.2 name w hw
    exact ⟨u, hu, hpeek'.trans hpeek⟩
  settle s name v value hget hpeek := by
    refine ⟨rfl, fun other w hw => ?_⟩
    rw [Variables.get?_replace, Variable.name_settle, Variables.name_of_get? hget] at hw
    split at hw
    · next hname =>
      subst hname
      obtain ⟨_, -, rfl⟩ := Option.map_eq_some_iff.mp hw
      exact ⟨v, hget, hpeek⟩
    · exact ⟨w, hw, rfl⟩
  raw _ _ := trivial
  orAt _ _ _ _ := trivial

end State

theorem Exec.follows_nothingNew {levels : Nat} {i : Invocation} (hs : i.state.Sound .ofLoaded)
    (hmem : i.function ∈ i.state.functions) :
    Exec.Follows (.ofMoves NothingNew) i.state
      (callWithin levels i.function i.values i.span) := by
  have hscope : Exec.Ensures (callWithin levels i.function i.values i.span) i.state
      (fun _ t => t.vars = i.state.vars ∧ t.imports = i.state.imports) fun _ t =>
        t.vars = i.state.vars ∧ t.imports = i.state.imports :=
    Exec.ensures_callWithin (fun _ _ _ => ⟨rfl, rfl⟩) fun _ _ _ _ =>
      Exec.ensures_of_state ⟨rfl, rfl⟩
  have hnew : ∀ t, Advances .ofLoaded ∅ False i.state t →
      t.vars = i.state.vars ∧ t.imports = i.state.imports → i.state.NothingNew t := by
    rintro t ht ⟨hvars, himports⟩
    refine ⟨himports, fun name v hv => ?_⟩
    rw [hvars] at hv
    exact ⟨v, hv, ((hs.of_get? hv).peek_extends ht.cells).symm⟩
  have hkeeps := sound_callWithin_ofLoaded levels _ i.values i.span _ hs hmem
  exact (hkeeps.and hscope).imp (fun _ t ht => ⟨hnew t ht.1 ht.2, trivial⟩)
    fun _ t ht => hnew t ht.1 ht.2

/-! ## What a call leaves to all scopes -/

namespace State

variable {s t u : State} {x : String}

/-- A name that all scopes find something under stays one. -/
def KeepsPublic (x : String) (s t : State) : Prop := s.Public x → t.Public x

/-- A name that not all scopes find something under stays one. -/
def KeepsHidden (x : String) (s t : State) : Prop := t.Public x → s.Public x

theorem public_congr (hfunctions : t.functions = s.functions)
    (hbinds : ∀ c, t.log.binds c x = true ↔ s.log.binds c x = true) : t.Public x ↔ s.Public x :=
  or_congr (exists_congr hbinds) (by rw [function?, function?, hfunctions])

theorem shared_keepsPublic (x : String) : Shared (KeepsPublic x) where
  trans h h' hs := h' (h hs)
  of_eq hfunctions hlog := (public_congr hfunctions fun c => by rw [hlog]).mpr

theorem shared_keepsHidden (x : String) : Shared (KeepsHidden x) where
  trans h h' hu := h (h' hu)
  of_eq hfunctions hlog := (public_congr hfunctions fun c => by rw [hlog]).mp

theorem keepsPublic_of_binds (h : ∀ c, s.log.binds c x = true → t.log.binds c x = true)
    (hfunctions : t.functions = s.functions) : s.KeepsPublic x t := by
  rintro (⟨c, hc⟩ | hfunction)
  · exact .inl ⟨c, h c hc⟩
  · exact .inr (by rwa [function?, hfunctions])

theorem keepsHidden_of_binds (h : ∀ c, t.log.binds c x = true → s.log.binds c x = true)
    (hfunctions : t.functions = s.functions) : s.KeepsHidden x t := by
  rintro (⟨c, hc⟩ | hfunction)
  · exact .inl ⟨c, h c hc⟩
  · exact .inr (by rwa [function?, hfunctions] at hfunction)

theorem public_declare {declaration : Declaration} :
    Public { s with functions := declaration :: s.functions } x ↔
      declaration.name = x ∨ s.Public x := by
  unfold Public function?
  rw [List.find?_cons]
  by_cases hname : declaration.name = x
  · simp [hname]
  · simp [hname]

theorem Publishes.self (h : s.Publishes x t) : t.Publishes x t := by
  rcases h with h | ⟨value, hview, -⟩
  · exact .inl h
  · exact .inr ⟨value, hview, rfl, fun _ => Iff.rfl⟩

theorem Publishes.keepsPublic (h : s.Publishes x t) : s.KeepsPublic x t := by
  rcases h with ⟨_, cell, -, hbinds⟩ | ⟨_, -, hfunctions, hbinds⟩
  · exact fun _ => .inl ⟨cell, hbinds⟩
  · exact (public_congr hfunctions hbinds).mpr

theorem Publishes.public (h : s.Publishes x t) (hcell : t.cell? x ≠ none) : t.Public x := by
  rcases h with ⟨_, cell, -, hbinds⟩ | ⟨_, hview, -⟩
  · exact .inl ⟨cell, hbinds⟩
  · exact absurd (by rw [cell?_eq, hview]; rfl) hcell

theorem Publishes.keepsHidden (h : s.Publishes x t) (hcell : t.cell? x = none) :
    s.KeepsHidden x t := by
  rcases h with ⟨_, cell, hview, -⟩ | ⟨_, -, hfunctions, hbinds⟩
  · rw [cell?_eq, hview] at hcell
    cases hcell
  · exact (public_congr hfunctions hbinds).mp

end State

/-- A result of the statement is that all scopes find something under the name. -/
def Moment.Exposes (x : String) (m : Moment) : Prop :=
  m.Succeeds ∧
    (m.statement.form.bound? = some x ∧ m.after.cell? x ≠ none ∨
      ∃ declaration, m.statement.form = .function declaration ∧ declaration.name = x)

section Moments

variable {R : State → State → Prop} {m : Moment} {x : String}

/-! ### Bindings -/

/-- If a binding fails, then by itself it does nothing to what all scopes share. -/
theorem Shared.of_unbound (hR : Shared R) {D : Discipline} {invoke : Invoke}
    {place : Variables → Variable → Variables} {undo : Variables → Variables} {expr : Expr}
    {s t : State} {e : Error} (h : Exec.Unbound D invoke place x expr s undo e t)
    (hinvoke : ∀ function values span u, Exec.Follows (.ofMoves R) u (invoke function values span))
    (hmodules : s.imports.modules ⊆ Library.modules) : R s t := by
  cases h with
  | refused hread => exact hR.of_eq hread.functions hread.log
  | @reverted u hcall herror =>
    have hcalls : Exec.CallsFollow (.ofMoves R) invoke
        (expr.invocations invoke (s.await place x)) := fun i _ => hinvoke _ _ _ _
    have hmodules : (s.await place x).imports.modules ⊆ Library.modules := hmodules
    have hevaluate := (Exec.traces_evaluate (hR.allows expr.spans) hR.allowsWriting hmodules
      (List.Subset.refl _) hcalls).follows.of_error herror
    have hawait : R s (s.await place x) := hR.of_eq rfl rfl
    exact hR.trans hawait (hR.trans hevaluate.1 (hR.of_eq rfl rfl))

theorem Shared.follows_restrict (hR : Shared R) {invoke : Invoke} {calls : List Invocation}
    (h : Exec.CallsFollow (.ofMoves R) invoke calls) (function : Declaration) (values : List Value)
    (span : Span) (s : State) :
    Exec.Follows (.ofMoves R) s (invoke.restrict calls function values span) := by
  refine Exec.Ensures.bind (Exec.ensures_get ?_)
  split
  · next hi => exact h _ hi
  · exact ⟨hR.refl s, trivial⟩

/-- How the statement that binds a variable ends, for a relation that its calls respect. -/
theorem Shared.binding (hR : Shared R) (hready : m.Ready)
    (hname : m.statement.form.bound? = some x)
    (hcalls : Exec.CallsFollow (.ofMoves R) (callWithin m.levels)
      (m.statement.form.invocations (callWithin m.levels) m.state)) :
    Exec.Ensures (Exec.statement (callWithin m.levels) m.statement) m.state
      (fun _ t => R m.state t) fun _ t => m.state.Publishes x t := by
  -- calls that are not made are refused, so that all calls respect the relation
  have hall := hR.follows_restrict hcalls
  have hinvoke := sound_restrict (Exec.callsKeep_of_sound (sound_callWithin_ofLoaded m.levels)
    (m.statement.form.invocations (callWithin m.levels) m.state))
  refine Exec.Ensures.congr ?_ (Exec.run_statement_congr hready.forms (agreeOn_restrict _ _))
  rw [Exec.statement_eq]
  refine Exec.Ensures.decorate ?_
  have himports := hready.sound.imports
  cases hform : m.statement.form with
  | declare name expr =>
    rw [hform] at hname hall hinvoke
    obtain rfl := Option.some.inj hname
    rw [Exec.formOf]
    exact Exec.Ensures.goOn ((Exec.declare_cases hinvoke hready.sound name expr _).imp
      (fun _ _ h => hR.of_unbound h hall himports)
      fun _ _ h => h.2.publishes (Exec.places_prepend trivial) hinvoke hready.sound hready.settled)
  | assign target expr =>
    cases target with
    | var name =>
      rw [hform] at hname hall hinvoke
      obtain rfl := Option.some.inj hname
      rw [Exec.formOf]
      exact Exec.Ensures.goOn ((Exec.assign_cases hinvoke hready.sound hready.settled trivial expr
        _).imp (fun _ _ h => hR.of_unbound h hall himports) fun _ _ h => h)
    | field => rw [hform] at hname; cases hname
  | _ => rw [hform] at hname; cases hname

/-! ### Statements -/

/-- No statement hides a name again. -/
theorem Moment.Ready.tracesPublic (hready : m.Ready) (x : String) : m.Traces (KeepsPublic x) := by
  have hpermits : (Conduct.ofMoves (KeepsPublic x)).Permits m.statement :=
    (shared_keepsPublic x).permits
      (fun s r _ _ => keepsPublic_of_binds
        (fun c hc => ReturnLog.binds_push.mpr (.inr hc)) rfl)
      (fun s cell name _ => keepsPublic_of_binds
        (fun c hc => ReturnLog.binds_addAlias.mpr (.inl hc)) rfl)
      fun s declaration _ _ hs => public_declare.mpr (.inr hs)
  refine fun hparts => Exec.traces_statement hpermits hready.sound.imports hparts.calls ?_
    fun file program hform => Exec.Ensures.decorate (hparts.file file program hform)
  intro name expr previous cell t hform hprevious hrun
  by_cases hname : name = x
  · subst hname
    have hinvoke := sound_callWithin_ofLoaded m.levels
    have hthere : m.state.view name ≠ none := view_eq_some hprevious ▸ Option.some_ne_none _
    have hbound := (Exec.rebind_cases hinvoke hready.sound name expr previous).of_ok hrun
    have hpublishes := hbound.publishes (Exec.places_replace hthere) hinvoke hready.sound
      hready.settled
    have ht := (Exec.ensures_rebind hinvoke hready.sound trivial hprevious expr).of_ok hrun
    exact (Exec.publishes_moveRecords ht.1.sound hpublishes.self cell _).imp (fun _ _ h => h.elim)
      fun _ _ h => h.keepsPublic
  · refine Exec.follows_moveRecords hpermits (by rw [hform, Form.bound?])
      (fun s previous => ?_) cell _
    exact keepsPublic_of_binds (fun c hc => ReturnLog.binds_release.mpr
      ⟨hc, fun hsame => hname hsame.2.symm⟩) rfl

theorem Moment.ensures_function {declaration : Declaration}
    (hform : m.statement.form = .function declaration) :
    Exec.Ensures (Exec.statement (callWithin m.levels) m.statement) m.state
      (fun _ t => t = m.state) fun _ t => t.Public declaration.name := by
  rw [Exec.statement_eq, hform, Exec.formOf]
  refine Exec.Ensures.decorate (Exec.Ensures.goOn (Exec.Ensures.bind (Exec.ensures_get ?_)))
  split
  · rfl
  · exact public_declare.mpr (.inl rfl)

/-- A statement that does not expose the name does not make it public in any other way. -/
theorem Moment.Ready.respectsHidden (hready : m.Ready) (h : ¬ m.Exposes x) :
    m.Respects (KeepsHidden x) := by
  intro hparts
  by_cases hname : m.statement.form.bound? = some x
  · refine ((shared_keepsHidden x).binding hready hname hparts.calls).withRun.imp
      (fun _ _ ht => ⟨ht.1, trivial⟩) ?_
    rintro flow t ⟨ht, hrun⟩
    refine ht.keepsHidden (by_contra fun hcell => h ⟨succeeds_of_outcome hrun, .inl ⟨hname, ?_⟩⟩)
    rwa [after_of_outcome hrun]
  by_cases hfunction :
      ∃ declaration, m.statement.form = .function declaration ∧ declaration.name = x
  · obtain ⟨declaration, hform, hdeclared⟩ := hfunction
    refine (Moment.ensures_function hform).withRun.imp ?_ ?_
    · rintro _ _ ⟨rfl, -⟩
      exact ⟨(shared_keepsHidden x).refl _, trivial⟩
    · rintro _ _ ⟨-, hrun⟩
      exact absurd ⟨succeeds_of_outcome hrun, .inr ⟨declaration, hform, hdeclared⟩⟩ h
  · refine (hready.traces ((shared_keepsHidden x).permits ?_ ?_ ?_) ?_).respects hparts
    · refine fun s r haliases howner => keepsHidden_of_binds (fun c hc => ?_) rfl
      refine (ReturnLog.binds_push.mp hc).resolve_left fun hr => ?_
      rcases Record.answersTo_iff.mp hr.2 with howned | halias
      · exact hname (howner x howned)
      · rw [haliases] at halias
        exact List.not_mem_nil halias
    · refine fun s cell name hbound => keepsHidden_of_binds (fun c hc => ?_) rfl
      refine (ReturnLog.binds_addAlias.mp hc).resolve_right fun halias => ?_
      exact hname (halias.2.1 ▸ hbound)
    · refine fun s declaration hform _ hpublic => (public_declare.mp hpublic).resolve_left ?_
      exact fun hdeclared => hfunction ⟨declaration, hform, hdeclared⟩
    · exact fun s cell name expr _ => keepsHidden_of_binds
        (fun c hc => (ReturnLog.binds_release.mp hc).1) rfl

theorem Moment.Exposes.public (h : m.Exposes x) (hready : m.Ready) : m.after.Public x := by
  obtain ⟨hok, h⟩ := h
  obtain ⟨flow, hrun⟩ := hok.exists_outcome
  rcases h with ⟨hname, hcell⟩ | ⟨declaration, hform, rfl⟩
  · have htrue : Shared fun _ _ => True := ⟨fun _ _ => trivial, fun _ _ => trivial⟩
    have hbinding := htrue.binding hready hname fun _ _ =>
      (Exec.ensures_of_state trivial).imp (fun _ _ _ => ⟨trivial, trivial⟩) fun _ _ h => h
    exact (hbinding.of_ok hrun).public hcell
  · exact (Moment.ensures_function hform).of_ok hrun

theorem Moment.InCall.ready {levels : Nat} {scopes : List Variables} {i : Invocation}
    (h : m.InCall levels scopes i) (hs : i.state.Sound .ofLoaded)
    (hmem : i.function ∈ i.state.functions) : m.Ready := by
  obtain ⟨k, entry, rfl, hentry, hduring⟩ := h
  exact hduring.ready (Invocation.readyFor hs hmem hentry)

/-! ### Calls -/

theorem Moment.During.of_call {levels : Nat} {scopes : List Variables} {st : Statement} {s : State}
    {call : Call} (hform : st.form = .call call) (h : m.During levels scopes [st] s) :
    m.statement = st ∨ ∃ i ∈ call.invocations s, m.InCall levels scopes i := by
  cases h with
  | here => exact .inl rfl
  | next _ h => cases h
  | file hfile _ => cases hform.symm.trans hfile
  | @call _ _ _ _ _ entry _ i hi hentry h =>
    rw [hform] at hi
    exact .inr ⟨i, hi, _, entry, rfl, hentry, h⟩

theorem Exec.run_statement_call {invoke : Invoke} {s : State} {st : Statement} {call : Call}
    (hform : st.form = .call call) :
    (s.run (Exec.statement invoke st)).2 = (s.run (Exec.callDeclared invoke call)).2 := by
  have hrun : Exec.Ensures (Exec.statement invoke st) s
      (fun _ t => t = (s.run (Exec.callDeclared invoke call)).2) fun _ t =>
        t = (s.run (Exec.callDeclared invoke call)).2 := by
    rw [Exec.statement_eq, hform, Exec.formOf]
    exact Exec.Ensures.decorate (Exec.Ensures.goOn (Exec.ensures_of_state rfl))
  exact hrun.state

theorem Moment.not_exposes_of_call {call : Call} (hform : m.statement.form = .call call) :
    ¬ m.Exposes x := by
  rintro ⟨-, ⟨hname, -⟩ | ⟨declaration, hfunction, -⟩⟩
  · rw [hform] at hname
    cases hname
  · cases hform.symm.trans hfunction

/-- A call respects a relation if all moments in it do. -/
theorem Shared.traces_callDeclared (hR : Shared R) (levels : Nat) (scopes : List Variables)
    {s : State}
    (hs : s.Sound .ofLoaded) (call : Call)
    (h : ∀ i ∈ call.invocations s, ∀ inner : Moment, inner.InCall levels scopes i → inner.Ready →
      inner.Respects R) :
    Exec.Traces (.ofMoves R) (callWithin levels) s (call.invocations s)
      (Exec.callDeclared (callWithin levels) call) := by
  refine Exec.traces_callDeclared (hR.allows call.spans) (List.Subset.refl _) fun i hi => ?_
  obtain ⟨hadvances, hmem⟩ := Exec.invoked_call hs call i hi
  exact hR.follows_callWithin hadvances.sound hmem (h i hi)

theorem State.Sound.nothingNew_call {s : State} (hs : s.Sound .ofLoaded) (levels : Nat)
    (call : Call) :
    s.NothingNew (s.run (Exec.callDeclared (callWithin levels) call)).2 := by
  refine (Exec.traces_callDeclared (allows_nothingNew call.spans) (List.Subset.refl _)
    fun i hi => ?_).follows.state
  obtain ⟨hadvances, hmem⟩ := Exec.invoked_call hs call i hi
  exact Exec.follows_nothingNew hadvances.sound hmem

/-- After a call a name that was not found before is still not found, unless some statement inside
the call has declared a function of the name or has bound a variable of the name to a result. In
that case it is found. -/
theorem unresolved_unless_exposed {call : Call} {token : Token} (hreachable : m.state.Reachable)
    (hcall : m.statement.form = .call call) (hmissing : m.state.NotFound token) :
    m.after.NotFound token ↔
      ∀ inner : Moment, inner.During m.levels m.suspended [m.statement] m.state →
        ¬ inner.Exposes token.lexeme := by
  have hs := hreachable.sound
  obtain ⟨hkind, hprivate, hpublic⟩ := notFound_iff.mp hmissing
  have hafter : m.after = (m.state.run (Exec.callDeclared (callWithin m.levels) call)).2 :=
    Exec.run_statement_call hcall
  have hscope : m.state.NothingNew m.after := hafter ▸ hs.nothingNew_call m.levels call
  have hiff : m.after.NotFound token ↔ ¬ m.after.Public token.lexeme := by
    rw [notFound_iff]
    exact ⟨fun h => h.2.2, fun h => ⟨hkind, hscope.not_private hprivate, h⟩⟩
  rw [hiff, hafter]
  constructor
  · intro hhidden inner hduring hexposes
    rcases hduring.of_call hcall with hsame | ⟨i, hi, hin⟩
    · exact Moment.not_exposes_of_call (hsame ▸ hcall) hexposes
    · -- what is public after the statement stays so to the end of the call, and of its arguments
      obtain ⟨hadvances, hmem⟩ := Exec.invoked_call hs call i hi
      have hpublished := hexposes.public (hin.ready hadvances.sound hmem)
      have hend := (shared_keepsPublic token.lexeme).after_inCall hin hadvances.sound hmem
        fun _ _ hready => hready.tracesPublic _
      have hall := (shared_keepsPublic token.lexeme).traces_callDeclared m.levels m.suspended hs
        call
        fun _ _ _ _ hready => (hready.tracesPublic _).respects
      exact hhidden (hall.of_mem hi (hend hpublished))
  · intro hnone hpublished
    have hall := (shared_keepsHidden token.lexeme).traces_callDeclared m.levels m.suspended hs call
      fun i hi inner hin hready => hready.respectsHidden (hnone inner (hin.during (hcall ▸ hi)))
    exact hpublic (hall.follows.state hpublished)

end Moments

instance (s : State) (token : Token) : Decidable (s.NotFound token) :=
  match h : (s.run (Exec.operand token)).1 with
  | .ok _ => isFalse (by rw [NotFound, h]; nofun)
  | .error e => decidable_of_iff (e = .locate (.notFound token.lexeme) token.span) (by
      rw [NotFound, h, Except.error.injEq])

/-- The call that a statement of the form is, if it is one. -/
def Form.call? : Form → Option Call
  | .call c => some c
  | _ => none

theorem Form.eq_call_of_call? {form : Form} {call : Call} (h : form.call? = some call) :
    form = .call call := by
  cases form with
  | call c => exact congrArg Form.call (Option.some.inj h)
  | _ => cases h

/-- The function binds its own variable to the result of a call. -/
def exposingText : String :=
  "function one() \x7b return 1 \x7d " ++
  "function f() \x7b var inner = one() return inner \x7d " ++
  "f()"

/-- The name of the variable is found after the call, and the declaration in the call is to
blame. -/
theorem unresolved_unless_exposed_capture :
    ∃ (m : Moment) (call : Call) (token : Token), m.state.Reachable ∧
      m.statement.form = .call call ∧ m.state.NotFound token ∧ ¬ m.after.NotFound token ∧
      ∃ inner : Moment, inner.During m.levels m.suspended [m.statement] m.state ∧
        inner.Exposes token.lexeme := by
  have hruns : (Moment.ofText? exposingText {} 2).any (fun m =>
      m.statement.form.call?.isSome &&
        decide (m.state.NotFound { kind := .identifier, lexeme := "inner" } ∧
          ¬ m.after.NotFound { kind := .identifier, lexeme := "inner" })) = true := by
    decide +kernel
  obtain ⟨m, hm, hfacts⟩ := (Option.any_eq_true _ _).mp hruns
  obtain ⟨hcall, hfacts⟩ := (Bool.and_eq_true _ _).mp hfacts
  obtain ⟨call, hcall⟩ := Option.isSome_iff_exists.mp hcall
  obtain ⟨hmissing, hfound⟩ := of_decide_eq_true hfacts
  have hreachable : m.state.Reachable := .before (Moment.live_of_ofText? hm)
  have hform := Form.eq_call_of_call? hcall
  refine ⟨m, call, _, hreachable, hform, hmissing, hfound, ?_⟩
  by_contra hnone
  refine hfound ((unresolved_unless_exposed hreachable hform hmissing).mpr
    fun inner hinner hexposes => ?_)
  exact hnone ⟨inner, hinner, hexposes⟩

end Scripting
