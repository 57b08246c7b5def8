import Scripting.Proofs.Invocations

/-!
# The moments of a run

A moment is a statement that is about to run, with the state it runs in, the call levels that are left
and the scopes that wait for the running one to end. `During` collects the moments of a list of
statements: those of the list itself, those of the files it imports and, through the invocations of
its statements, those of the bodies of the functions that are called, to any depth.

A session runs loaded programs one after another, also after failures. The moments of its programs are
the live ones, and everything that is sound when a session starts stays so at all of them
(`Moment.Live.sound`).
-/

namespace Scripting

open State

/-! ## Entering a function -/

namespace Invocation

/-- The state in which the body of the called function starts to run, if it gets so far. -/
def entry? (i : Invocation) : Option State :=
  if i.values.length ≠ i.function.arity then none
  else
    match Exec.bindParams i.function.name i.span 0 i.function.params i.values with
    | .ok bound => some (i.state.enter i.function bound)
    | .error _ => none

theorem exists_bound_of_entry? {i : Invocation} {entry : State} (h : i.entry? = some entry) :
    ∃ bound, Exec.bindParams i.function.name i.span 0 i.function.params i.values = .ok bound ∧
      entry = i.state.enter i.function bound := by
  unfold entry? at h
  split at h
  · cases h
  · split at h
    · next bound hbound => exact ⟨bound, hbound, (Option.some.inj h).symm⟩
    · cases h

/-- The state in which the caller goes on when the body of the called function has ended in `t`. -/
def leave (i : Invocation) (t : State) : State :=
  i.state.resume t

end Invocation

/-- What a function gives whose body has ended like this. -/
def Flow.value? : Flow → Option Value
  | .returned value => some value
  | .goOn => none

/-- The cause is that a call goes too deep, or that its values do not suit the parameters. -/
def Cause.IsRefusal : Cause → Prop
  | .stackOverflow | .wrongArity _ _ _ | .argumentType _ _ _ _ => True
  | _ => False

@[elab_as_elim] theorem Cause.IsRefusal.elim {motive : Cause → Prop} {cause : Cause}
    (h : cause.IsRefusal) (deep : motive .stackOverflow)
    (arity : ∀ name expected given, motive (.wrongArity name expected given))
    (type : ∀ name index expected found, motive (.argumentType name index expected found)) :
    motive cause := by
  unfold IsRefusal at h
  split at h
  · exact deep
  · exact arity _ _ _
  · exact type _ _ _ _
  · exact h.elim

/-- A call is refused where it stands, or it runs the body of the function with one level less. -/
theorem Exec.ensures_callWithin {levels : Nat} {i : Invocation} {E : Error → State → Prop}
    {Q : Option Value → State → Prop}
    (hrefused : levels = 0 ∨ i.entry? = none → ∀ cause : Cause, cause.IsRefusal →
      E (.locate cause i.span) i.state)
    (hbody : ∀ k entry, levels = k + 1 → i.entry? = some entry →
      Ensures (statementsOf (callWithin k) i.function.body.statements) entry
        (fun e t => E (i.function.claimError e) (i.leave t)) fun flow t => Q flow.value? (i.leave t)) :
    Ensures (callWithin levels i.function i.values i.span) i.state E Q := by
  cases levels with
  | zero => exact hrefused (.inl rfl) _ trivial
  | succ k =>
    rw [callWithin]
    split
    · next harity => exact hrefused (.inr (by rw [Invocation.entry?, if_pos harity])) _ trivial
    · next harity =>
      refine Ensures.bind (ensures_lift (fun bound hbound => ?_) fun e he => ?_)
      · refine Ensures.bind (ensures_get (Ensures.bind ?_))
        rw [programOf_eq]
        have hentry : i.entry? = some (i.state.enter i.function bound) := by
          rw [Invocation.entry?, if_neg harity, hbound]
        refine Ensures.decorate (Ensures.inScope ((hbody k _ rfl hentry).imp (fun _ _ h => h) ?_))
        intro flow t ht
        cases flow with
        | goOn => exact ht
        | returned value => exact ht
      · obtain ⟨_, _, _, rfl⟩ := exists_type_of_bindParams he
        exact hrefused (.inr (by rw [Invocation.entry?, if_neg harity, he])) _ trivial

/-- How a call ends when the body of the called function has ended like this. -/
def Invocation.ending (i : Invocation) (outcome : Except Error Flow × State) :
    Except Error (Option Value) × State :=
  ((outcome.1.map Flow.value?).mapError i.function.claimError, i.leave outcome.2)

theorem Invocation.run_succ {levels : Nat} {i : Invocation} {entry : State}
    (hentry : i.entry? = some entry) :
    i.run (callWithin (levels + 1)) =
      i.ending (entry.run (Exec.statementsOf (callWithin levels) i.function.body.statements)) := by
  have hcall : Exec.Ensures (callWithin (levels + 1) i.function i.values i.span) i.state
      (fun e t => (.error e, t) = i.ending (entry.run
        (Exec.statementsOf (callWithin levels) i.function.body.statements)))
      fun value t => (.ok value, t) = i.ending (entry.run
        (Exec.statementsOf (callWithin levels) i.function.body.statements)) := by
    refine Exec.ensures_callWithin (fun hnone => ?_) ?_
    · cases hentry.symm.trans (hnone.resolve_left (Nat.succ_ne_zero levels))
    · rintro k _ hk hsome
      cases Nat.succ.inj hk
      cases hentry.symm.trans hsome
      exact (Exec.ensures_run _ _).imp (fun e t hrun => by rw [hrun]; rfl)
        fun flow t hrun => by rw [hrun]; rfl
  cases hrun : i.run (callWithin (levels + 1)) with
  | mk result t =>
    cases result with
    | ok value => exact hcall.of_ok hrun
    | error e => exact hcall.of_error hrun

/-! ## Moments -/

/-- A statement that is about to run. -/
structure Moment where
  /-- The call levels that are left. -/
  levels : Nat
  /-- The variables of the scopes that wait, the innermost first. -/
  suspended : List Variables
  state : State
  statement : Statement

namespace Moment

/-- How the statement ends. -/
def outcome (m : Moment) : Except Error Flow × State :=
  m.state.run (Exec.statement (callWithin m.levels) m.statement)

/-- The state after the statement, whether it succeeds or fails. -/
def after (m : Moment) : State := m.outcome.2

/-- The statement succeeds. -/
def Succeeds (m : Moment) : Prop := m.outcome.1.isOk = true

instance (m : Moment) : Decidable m.Succeeds := inferInstanceAs (Decidable (_ = true))

theorem Succeeds.exists_outcome {m : Moment} (h : m.Succeeds) :
    ∃ flow, m.outcome = (.ok flow, m.after) := by
  unfold Succeeds at h
  unfold after
  cases hm : m.outcome with
  | mk result t =>
    rw [hm] at h
    cases result with
    | ok flow => exact ⟨flow, rfl⟩
    | error e => cases h

theorem succeeds_of_outcome {m : Moment} {flow : Flow} {t : State}
    (h : m.outcome = (.ok flow, t)) : m.Succeeds := by
  rw [Succeeds, h]
  rfl

theorem not_succeeds_of_outcome {m : Moment} {e : Error} {t : State}
    (h : m.outcome = (.error e, t)) : ¬ m.Succeeds := by
  rw [Succeeds, h]
  nofun

theorem after_of_outcome {m : Moment} {result : Except Error Flow} {t : State}
    (h : m.outcome = (result, t)) : m.after = t := by
  rw [after, h]

theorem exists_error_of_not_succeeds {m : Moment} (h : ¬ m.Succeeds) :
    ∃ e, m.outcome = (.error e, m.after) := by
  unfold Succeeds at h
  unfold after
  cases hm : m.outcome with
  | mk result t =>
    rw [hm] at h
    cases result with
    | ok flow => exact absurd rfl h
    | error e => exact ⟨e, rfl⟩

/-- The moment comes up while some statements run from a state, with some call levels left and some
scopes waiting. -/
inductive During : Nat → List Variables → List Statement → State → Moment → Prop
  | here {levels : Nat} {scopes : List Variables} {first : Statement} {rest : List Statement}
      {s : State} : During levels scopes (first :: rest) s ⟨levels, scopes, s, first⟩
  | next {levels : Nat} {scopes : List Variables} {first : Statement} {rest : List Statement}
      {s t : State} {m : Moment}
      (hrun : s.run (Exec.statement (callWithin levels) first) = (.ok .goOn, t))
      (h : During levels scopes rest t m) : During levels scopes (first :: rest) s m
  | file {levels : Nat} {scopes : List Variables} {first : Statement} {rest : List Statement}
      {s : State} {m : Moment} {file : SourceFile} {program : Program}
      (hform : first.form = .useFile file program)
      (h : During levels scopes program.statements
        { s with imports := s.imports.merge program.imports } m) :
      During levels scopes (first :: rest) s m
  | call {levels : Nat} {scopes : List Variables} {first : Statement} {rest : List Statement}
      {s entry : State} {m : Moment} {i : Invocation}
      (hi : i ∈ first.form.invocations (callWithin (levels + 1)) s)
      (hentry : i.entry? = some entry)
      (h : During levels (i.state.vars :: scopes) i.function.body.statements entry m) :
      During (levels + 1) scopes (first :: rest) s m

/-- The moment comes up in the call, when some levels are left for it and some scopes wait for the
caller. -/
def InCall (levels : Nat) (scopes : List Variables) (i : Invocation) (m : Moment) : Prop :=
  ∃ k entry, levels = k + 1 ∧ i.entry? = some entry ∧
    m.During k (i.state.vars :: scopes) i.function.body.statements entry

theorem during_cons_iff {levels : Nat} {scopes : List Variables} {first : Statement}
    {rest : List Statement} {s : State} {m : Moment} :
    m.During levels scopes (first :: rest) s ↔
      m = ⟨levels, scopes, s, first⟩ ∨
      ((∃ file program, first.form = .useFile file program ∧
          m.During levels scopes program.statements
            { s with imports := s.imports.merge program.imports }) ∨
        ∃ i ∈ first.form.invocations (callWithin levels) s, m.InCall levels scopes i) ∨
      ∃ t, s.run (Exec.statement (callWithin levels) first) = (.ok .goOn, t) ∧
        m.During levels scopes rest t := by
  constructor
  · intro h
    cases h with
    | here => exact .inl rfl
    | next hrun h => exact .inr (.inr ⟨_, hrun, h⟩)
    | file hform h => exact .inr (.inl (.inl ⟨_, _, hform, h⟩))
    | call hi hentry h => exact .inr (.inl (.inr ⟨_, hi, _, _, rfl, hentry, h⟩))
  · rintro (rfl | (⟨_, _, hform, h⟩ | ⟨i, hi, _, _, rfl, hentry, h⟩) | ⟨t, hrun, h⟩)
    · exact .here
    · exact .file hform h
    · exact .call hi hentry h
    · exact .next hrun h

end Moment

/-! ## The list of all moments -/

theorem Statement.sizeOf_file_lt {st : Statement} {file : SourceFile} {program : Program}
    (h : st.form = .useFile file program) : sizeOf program.statements < sizeOf st := by
  obtain ⟨form, span, scope, exported⟩ := st
  obtain ⟨statements, imports⟩ := program
  subst h
  simp
  omega

section Lists

variable (levels : Nat) (scopes : List Variables) (inside : Invocation → List Moment)

mutual

/-- The moments that come up while a statement runs, where `inside` lists those of a call. -/
def Statement.moments : Statement → State → List Moment
  | { form, span, scope, exported }, s =>
    ⟨levels, scopes, s, { form, span, scope, exported }⟩ :: form.moments s

/-- The moments that come up in the file that a statement of the form imports and in the functions
that it calls. -/
def Form.moments : Form → State → List Moment
  | .useFile _ program, s => program.moments s
  | form, s => (form.invocations (callWithin levels) s).flatMap inside

/-- The moments that come up in an imported file. -/
def Program.moments : Program → State → List Moment
  | { statements, imports }, s =>
    momentsOf statements { s with imports := s.imports.merge imports }

/-- The moments that come up while some statements run. -/
def momentsOf : List Statement → State → List Moment
  | [], _ => []
  | first :: rest, s =>
    first.moments s ++ s.after (Exec.statement (callWithin levels) first) fun flow t =>
      match flow with
      | .goOn => momentsOf rest t
      | .returned _ => []

end

end Lists

/-- The moments that come up while some statements run, in the functions that they call too. -/
def Moment.all : Nat → List Variables → List Statement → State → List Moment
  | 0, scopes, statements, s => momentsOf 0 scopes (fun _ => []) statements s
  | levels + 1, scopes, statements, s =>
    momentsOf (levels + 1) scopes (fun i =>
      match i.entry? with
      | some entry => Moment.all levels (i.state.vars :: scopes) i.function.body.statements entry
      | none => []) statements s

section Lists

variable {levels : Nat} {scopes : List Variables} {inside : Invocation → List Moment}
  {m : Moment}

theorem Statement.moments_eq (st : Statement) (s : State) :
    st.moments levels scopes inside s =
      ⟨levels, scopes, s, st⟩ :: st.form.moments levels scopes inside s := by
  cases st
  rw [moments]

theorem Program.moments_eq (program : Program) (s : State) :
    program.moments levels scopes inside s =
      momentsOf levels scopes inside program.statements
        { s with imports := s.imports.merge program.imports } := by
  cases program
  rw [moments]

theorem mem_momentsOf_cons {first : Statement} {rest : List Statement} {s : State} :
    m ∈ momentsOf levels scopes inside (first :: rest) s ↔
      m = ⟨levels, scopes, s, first⟩ ∨ m ∈ first.form.moments levels scopes inside s ∨
        ∃ t, s.run (Exec.statement (callWithin levels) first) = (.ok .goOn, t) ∧
          m ∈ momentsOf levels scopes inside rest t := by
  rw [momentsOf, List.mem_append, Statement.moments_eq, List.mem_cons, or_assoc, Exec.mem_after]
  refine or_congr_right (or_congr_right ⟨?_, ?_⟩)
  · rintro ⟨flow, t, hrun, hm⟩
    cases flow with
    | goOn => exact ⟨t, hrun, hm⟩
    | returned value => cases hm
  · rintro ⟨t, hrun, hm⟩
    exact ⟨.goOn, t, hrun, hm⟩

theorem Form.mem_moments_iff {form : Form} {s : State} :
    m ∈ form.moments levels scopes inside s ↔
      (∃ file program, form = .useFile file program ∧
        m ∈ momentsOf levels scopes inside program.statements
          { s with imports := s.imports.merge program.imports }) ∨
      ∃ i ∈ form.invocations (callWithin levels) s, m ∈ inside i := by
  cases form with
  | useFile file program =>
    rw [moments, Program.moments_eq]
    constructor
    · exact fun hm => .inl ⟨file, program, rfl, hm⟩
    · rintro (⟨_, _, hform, hm⟩ | ⟨i, hi, -⟩)
      · cases hform
        exact hm
      · cases hi
  | _ =>
    rw [moments, List.mem_flatMap]
    · constructor
      · exact .inr
      · rintro (⟨_, _, hform, -⟩ | h)
        · cases hform
        · exact h
    · nofun

/-- The list has all moments, if the lists for the calls do. The induction is over the statements and
the files that they import. -/
theorem mem_momentsOf_iff (hinside : ∀ i, m ∈ inside i ↔ m.InCall levels scopes i)
    (statements : List Statement) (s : State) :
    m ∈ momentsOf levels scopes inside statements s ↔ m.During levels scopes statements s := by
  match statements with
  | [] =>
    rw [momentsOf]
    exact ⟨nofun, nofun⟩
  | first :: rest =>
    rw [mem_momentsOf_cons, Moment.during_cons_iff, Form.mem_moments_iff]
    refine or_congr_right (or_congr (or_congr ?_ ?_) ?_)
    · refine exists_congr fun file => exists_congr fun program => and_congr_right fun hform => ?_
      have hlt := Statement.sizeOf_file_lt hform
      exact mem_momentsOf_iff hinside program.statements _
    · exact exists_congr fun i => and_congr_right fun _ => hinside i
    · exact exists_congr fun t => and_congr_right fun _ => mem_momentsOf_iff hinside rest t
termination_by sizeOf statements

theorem Moment.mem_all_iff {levels : Nat} {scopes : List Variables} {statements : List Statement}
    {s : State} : m ∈ Moment.all levels scopes statements s ↔
      m.During levels scopes statements s := by
  induction levels generalizing scopes statements s m with
  | zero =>
    refine mem_momentsOf_iff (fun i => ?_) statements s
    refine ⟨fun hm => absurd hm List.not_mem_nil, ?_⟩
    rintro ⟨_, _, hk, -⟩
    cases hk
  | succ levels ih =>
    refine mem_momentsOf_iff (fun i => ?_) statements s
    cases hentry : i.entry? with
    | none =>
      refine ⟨nofun, ?_⟩
      rintro ⟨_, _, -, hsome, -⟩
      cases hentry.symm.trans hsome
    | some entry =>
      constructor
      · exact fun hm => ⟨levels, entry, rfl, hentry, ih.mp hm⟩
      · rintro ⟨_, _, hk, hsome, hm⟩
        cases hk
        cases hentry.symm.trans hsome
        exact ih.mpr hm

end Lists

/-! ## Sessions -/

/-- The states in which a session can be between two programs. -/
inductive Session : State → Prop
  | start (console : Console) (scopes : Scopes := {}) : Session { console, scopes }
  | run {s : State} {program : Program} (h : Session s) (hprogram : program.Loaded) :
      Session (s.execute program).2

/-- The state in which the first statement of a program runs. -/
def State.prepare (s : State) (program : Program) : State :=
  { s with imports := s.imports.merge program.imports }

/-- A program ends as its statements do. -/
theorem State.execute_eq (s : State) (program : Program) :
    s.execute program =
      match (s.prepare program).run
        (Exec.statementsOf (callWithin callLimit) program.statements) with
      | (.ok _, t) => (.ok (), t)
      | (.error e, t) => (.error e, t) := by
  have hmerge : s.run (Exec.mergeImports program.imports) = (.ok (), s.prepare program) := rfl
  unfold execute
  rw [Exec.programOf_eq, Exec.run_bind]
  simp only [hmerge]
  rw [Exec.run_bind]
  cases State.run _ _ with
  | mk outcome t => cases outcome <;> rfl

theorem State.execute_state (s : State) (program : Program) :
    (s.execute program).2 =
      ((s.prepare program).run (Exec.statementsOf (callWithin callLimit) program.statements)).2 := by
  rw [execute_eq]
  split
  · next hrun => rw [hrun]
  · next hrun => rw [hrun]

/-- The moment comes up in some session. -/
def Moment.Live (m : Moment) : Prop :=
  ∃ s program, Session s ∧ program.Loaded ∧
    m.During callLimit [] program.statements (s.prepare program)

/-! ## All moments are sound -/

theorem Program.Loaded.standard {program : Program} (h : program.Loaded) :
    program.imports.modules ⊆ Library.modules ∧
      ∀ form ∈ formsOf program.statements, form.Standard := by
  obtain ⟨loader, tokens, hregistry, htokens⟩ := h
  exact Loader.standard_of_ofTokens hregistry htokens

theorem State.sound_start (D : Discipline) (console : Console) (scopes : Scopes) :
    ({ console, scopes } : State).Sound D where
  log := ⟨fun _ hr => absurd hr List.not_mem_nil, List.nodup_nil,
    fun _ hr => absurd hr List.not_mem_nil⟩
  vars := fun _ hv => absurd hv List.not_mem_nil
  functions := fun _ hd => absurd hd List.not_mem_nil
  imports := List.nil_subset _

theorem Session.sound {s : State} (h : Session s) : s.Sound .ofLoaded := by
  induction h with
  | start console scopes => exact sound_start _ console scopes
  | run _ hprogram ih =>
    obtain ⟨himports, hforms⟩ := hprogram.standard
    exact (ih.advances_execute himports hforms).sound

/-- The variables of all these scopes suit the state. -/
def State.Supports (s : State) (scopes : List Variables) : Prop :=
  ∀ vars ∈ scopes, ∀ v ∈ vars.entries, v.Sound s.cells s.log

section Sound

variable {D : Discipline} {X : Set String} {I : Prop} {s t : State}
  {scopes : List Variables}

theorem State.Advances.supports (h : Advances D X I s t) (hscopes : s.Supports scopes) :
    t.Supports scopes :=
  fun vars hvars v hv => (hscopes vars hvars v hv).mono h.cells h.log

/-- What is known of a moment that comes up in a sound run. -/
structure Moment.Sound (D : Discipline) (m : Moment) : Prop where
  state : m.state.Sound D
  suspended : m.state.Supports m.suspended
  forms : ∀ form ∈ m.statement.form.forms, D.Allows form

/-- The statement keeps to the discipline, and so do the calls that it makes. -/
structure Moment.Obeys (D : Discipline) (m : Moment) : Prop where
  statement : Exec.Keeps D Set.univ True m.state (Exec.statement (callWithin m.levels) m.statement)
  calls : Exec.CallsKeep D (callWithin m.levels)
    (m.statement.form.invocations (callWithin m.levels) m.state)

/-- Soundness reaches every moment of a run that is obedient so far: through the statements that run
before it, the file that it stands in and the call of the function that it belongs to. So does the law
of the discipline. -/
theorem Moment.During.sound {levels : Nat} {statements : List Statement} {m : Moment}
    (h : m.During levels scopes statements s) (hs : s.Sound D) (hscopes : s.Supports scopes)
    (hforms : ∀ form ∈ formsOf statements, D.Allows form)
    (hobeys : ∀ m : Moment, m.During levels scopes statements s → m.Sound D → m.Obeys D) :
    m.Sound D ∧ D.Law s.log m.state.log := by
  induction h with
  | here =>
    exact ⟨⟨hs, hscopes, fun form hform => hforms form (by simp [formsOf, hform])⟩, D.law_refl _⟩
  | next hrun _ ih =>
    have hfirst := hobeys _ .here
      ⟨hs, hscopes, fun form hform => hforms form (by simp [formsOf, hform])⟩
    have hstep := hfirst.statement.of_ok hrun
    obtain ⟨hm, hlaw⟩ := ih hstep.sound (hstep.supports hscopes)
      (fun form hform => hforms form (by simp [formsOf, hform]))
      fun m hm => hobeys m (.next hrun hm)
    exact ⟨hm, D.law_trans _ _ _ hstep.law hlaw⟩
  | @file _ _ first _ _ _ file program hform _ ih =>
    have hinner : ∀ form ∈ first.form.forms, D.Allows form :=
      fun form hin => hforms form (by simp [formsOf, hin])
    have hfile := D.standard _ (hinner first.form (mem_forms_self _))
    rw [hform] at hfile hinner
    have hmerge := Exec.keeps_mergeImports hs hfile.1
    refine ih (State.Advances.sound hmerge) (State.Advances.supports hmerge hscopes)
      (fun form hin => hinner form ?_) fun m hm => hobeys m (.file hform hm)
    rw [Form.forms, Program.forms_eq]
    exact List.mem_cons_of_mem _ hin
  | @call _ _ first _ _ _ _ _ hi hentry _ ih =>
    obtain ⟨bound, hbound, rfl⟩ := Invocation.exists_bound_of_entry? hentry
    have hfirst := hobeys _ .here
      ⟨hs, hscopes, fun form hform => hforms form (by simp [formsOf, hform])⟩
    have hform := hforms first.form (by simp [formsOf, mem_forms_self])
    obtain ⟨hadvances, hmem⟩ := Exec.invoked_form hs hform hfirst.calls _ hi
    obtain ⟨hm, hlaw⟩ := ih (hadvances.sound.enter hmem hbound)
      (List.forall_mem_cons.mpr ⟨hadvances.sound.vars, hadvances.supports hscopes⟩)
      (Exec.allows_body hadvances.sound hmem) fun m hm => hobeys m (.call hi hentry hm)
    exact ⟨hm, D.law_trans _ _ _ hadvances.law hlaw⟩

/-- A statement that is held to nothing. -/
theorem Exec.mayAssign_ofLoaded {invoke : Invoke} {st : Statement} :
    Exec.MayAssign .ofLoaded invoke st s :=
  Discipline.lenient_ofLoaded.mayAssign fun _ _ => trivial

theorem sound_callWithin_ofLoaded (levels : Nat) : (callWithin levels).Sound .ofLoaded :=
  sound_callWithin Discipline.lenient_ofLoaded levels

theorem Moment.Sound.obeys {m : Moment} (h : m.Sound .ofLoaded) : m.Obeys .ofLoaded where
  statement := Exec.keeps_statement (sound_callWithin_ofLoaded _) h.forms h.state
    Exec.mayAssign_ofLoaded
  calls := Exec.callsKeep_of_sound (sound_callWithin_ofLoaded _) _

theorem Moment.Live.sound {m : Moment} (h : m.Live) : m.Sound .ofLoaded := by
  obtain ⟨s, program, hsession, hprogram, hduring⟩ := h
  obtain ⟨himports, hforms⟩ := hprogram.standard
  have hmerge := Exec.keeps_mergeImports hsession.sound himports
  exact (hduring.sound (State.Advances.sound hmerge)
    (fun vars hvars => absurd hvars List.not_mem_nil) hforms fun _ _ hm => hm.obeys).1

/-- What a statement does that comes up in a session. -/
theorem Moment.Live.ensures {m : Moment} (h : m.Live) :
    Exec.Ensures (Exec.statement (callWithin m.levels) m.statement) m.state
      (fun _ t => Advances .ofLoaded m.statement.form.scanned m.statement.form.Imports m.state t)
      fun _ t => Advances .ofLoaded m.statement.form.writes m.statement.form.Imports m.state t :=
  Exec.ensures_statement (sound_callWithin_ofLoaded _) _ h.sound.forms h.sound.state
    Exec.mayAssign_ofLoaded

/-- Whatever the outcome is, the statement advances the state. -/
theorem Moment.Live.advances {m : Moment} (h : m.Live) :
    Advances .ofLoaded Set.univ True m.state m.after :=
  h.sound.obeys.statement.state

/-- The states that a session comes to: between two programs, before and after each statement, and where
a function is called. -/
inductive State.Reachable : State → Prop
  | between {s : State} (h : Session s) : Reachable s
  | before {m : Moment} (h : m.Live) : Reachable m.state
  | after {m : Moment} (h : m.Live) : Reachable m.after
  | calling {m : Moment} {i : Invocation} (h : m.Live)
      (hi : i ∈ m.statement.form.invocations (callWithin m.levels) m.state) : Reachable i.state

theorem State.Reachable.sound (h : s.Reachable) : s.Sound .ofLoaded := by
  cases h with
  | between h => exact h.sound
  | before h => exact h.sound.state
  | after h => exact h.advances.sound
  | calling h hi =>
    have hform := h.sound.forms _ (mem_forms_self _)
    exact (Exec.invoked_form h.sound.state hform h.sound.obeys.calls _ hi).1.sound

end Sound

/-! ## Moments of parts of a run -/

/-- Statements that succeed lead to the moments of the statements behind them. -/
theorem Moment.During.append {levels : Nat} {scopes : List Variables} {s t : State} {m : Moment}
    {before rest : List Statement}
    (hrun : s.run (Exec.statementsOf (callWithin levels) before) = (.ok .goOn, t))
    (h : m.During levels scopes rest t) : m.During levels scopes (before ++ rest) s := by
  induction before generalizing s with
  | nil =>
    rw [Exec.statementsOf] at hrun
    cases hrun
    exact h
  | cons first before ih =>
    obtain ⟨u, hfirst, hrest⟩ := Exec.exists_of_run_statementsOf_cons hrun
    exact .next hfirst (ih hrest)

/-- What comes up while a statement runs comes up in the run that the statement belongs to. -/
theorem Moment.During.trans {levels : Nat} {scopes : List Variables} {statements : List Statement}
    {s : State} {m inner : Moment} (h : m.During levels scopes statements s)
    (hinner : inner.During m.levels m.suspended [m.statement] m.state) :
    inner.During levels scopes statements s := by
  induction h with
  | here =>
    cases hinner with
    | here => exact .here
    | next _ hnone => cases hnone
    | file hform hinner => exact .file hform hinner
    | call hi hentry hinner => exact .call hi hentry hinner
  | next hrun _ ih => exact .next hrun (ih hinner)
  | file hform _ ih => exact .file hform (ih hinner)
  | call hi hentry _ ih => exact .call hi hentry (ih hinner)

/-! ## Moments by their places -/

/-- The moment of the statement with the given index while some statements run, if they get so far. -/
def Moment.nth? (levels : Nat) (scopes : List Variables) (statements : List Statement) (s : State)
    (index : Nat) : Option Moment :=
  match statements[index]?,
    s.run (Exec.statementsOf (callWithin levels) (statements.take index)) with
  | some statement, (.ok .goOn, state) => some { levels, suspended := scopes, state, statement }
  | _, _ => none

section Nth

variable {levels : Nat} {scopes : List Variables} {statements : List Statement} {s : State}
  {index : Nat} {m : Moment}

theorem Moment.nth?_eq_some_iff :
    Moment.nth? levels scopes statements s index = some m ↔
      statements[index]? = some m.statement ∧
        s.run (Exec.statementsOf (callWithin levels) (statements.take index)) =
          (.ok .goOn, m.state) ∧ m.levels = levels ∧ m.suspended = scopes := by
  unfold nth?
  constructor
  · intro h
    split at h
    · next hget hrun =>
      cases h
      exact ⟨hget, hrun, rfl, rfl⟩
    · cases h
  · rintro ⟨hget, hrun, rfl, rfl⟩
    rw [hget, hrun]

theorem Moment.during_of_nth? (h : Moment.nth? levels scopes statements s index = some m) :
    m.During levels scopes statements s := by
  obtain ⟨hget, hrun, rfl, rfl⟩ := nth?_eq_some_iff.mp h
  obtain ⟨hindex, hstatement⟩ := List.getElem?_eq_some_iff.mp hget
  have hsplit : statements = statements.take index ++ m.statement :: statements.drop (index + 1) := by
    rw [← hstatement, ← List.drop_eq_getElem_cons hindex, List.take_append_drop]
  rw [hsplit]
  exact .append hrun .here

end Nth

/-- The moment of the first statement in the body of the function that the statement calls first. -/
def Moment.into? (m : Moment) : Option Moment := do
  let i ← (m.statement.form.invocations (callWithin m.levels) m.state).head?
  let entry ← i.entry?
  let first ← i.function.body.statements.head?
  match m.levels with
  | 0 => none
  | levels + 1 => some ⟨levels, i.state.vars :: m.suspended, entry, first⟩

/-- The moment so many calls deeper. -/
def Moment.descend? : Nat → Moment → Option Moment
  | 0, m => some m
  | depth + 1, m => m.into?.bind (descend? depth)

theorem Moment.during_of_into? {m inner : Moment} (h : m.into? = some inner) :
    inner.During m.levels m.suspended [m.statement] m.state := by
  obtain ⟨i, hi, h⟩ := Option.bind_eq_some_iff.mp h
  obtain ⟨entry, hentry, h⟩ := Option.bind_eq_some_iff.mp h
  obtain ⟨first, hfirst, h⟩ := Option.bind_eq_some_iff.mp h
  replace hi := List.mem_of_head? hi
  obtain ⟨rest, hbody⟩ := List.head?_eq_some_iff.mp hfirst
  obtain ⟨levels, suspended, s, st⟩ := m
  cases levels with
  | zero => cases h
  | succ levels =>
    cases h
    refine .call hi hentry ?_
    rw [hbody]
    exact .here

theorem Moment.during_of_descend? {depth : Nat} {m inner : Moment}
    (h : m.descend? depth = some inner) :
    inner.During m.levels m.suspended [m.statement] m.state := by
  induction depth generalizing m with
  | zero =>
    cases h
    exact .here
  | succ depth ih =>
    obtain ⟨next, hnext, h⟩ := Option.bind_eq_some_iff.mp h
    exact (during_of_into? hnext).trans (ih h)

/-- The moment is that of a statement at the top level of a program that is run as a script. -/
def Moment.AtTop (console : Console) (scopes : Scopes) (program : Program) (index : Nat)
    (m : Moment) : Prop :=
  Moment.nth? callLimit [] program.statements (State.prepare { console, scopes } program) index =
    some m

theorem Moment.AtTop.live {console : Console} {scopes : Scopes} {program : Program} {index : Nat}
    {m : Moment} (h : m.AtTop console scopes program index) (hprogram : program.Loaded) : m.Live :=
  ⟨_, program, .start console scopes, hprogram, during_of_nth? h⟩

/-- The program that a text writes, if it writes one. There are no files that it could import. -/
def Program.ofText? (source : String) : Option Program :=
  (Loader.ofSource { registry := Library.standard, files := {} } source).toOption

theorem Program.loaded_of_ofText? {source : String} {program : Program}
    (h : Program.ofText? source = some program) : program.Loaded := by
  obtain ⟨tokens, -, htokens⟩ := exists_of_bind_eq_ok (eq_ok_of_toOption h)
  exact ⟨_, tokens, rfl, htokens⟩

/-- The moment of a statement at the top level of a text that is run as a script. -/
def Moment.ofText? (source : String) (console : Console) (index : Nat) : Option Moment := do
  let program ← Program.ofText? source
  Moment.nth? callLimit [] program.statements (State.prepare { console } program) index

theorem Moment.atTop_of_ofText? {source : String} {console : Console} {index : Nat} {m : Moment}
    (h : Moment.ofText? source console index = some m) :
    ∃ program, Program.ofText? source = some program ∧ m.AtTop console {} program index :=
  Option.bind_eq_some_iff.mp h

theorem Moment.live_of_ofText? {source : String} {console : Console} {index : Nat} {m : Moment}
    (h : Moment.ofText? source console index = some m) : m.Live := by
  obtain ⟨program, hprogram, hm⟩ := atTop_of_ofText? h
  exact hm.live (Program.loaded_of_ofText? hprogram)

/-- Two variables that share the result of a call. -/
def sharingText : String :=
  "function give() \x7b return \"five\" \x7d " ++
  "var a = give() " ++
  "var b = a"

end Scripting
