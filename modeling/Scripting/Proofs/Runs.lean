import Scripting.Proofs.Publication
import Scripting.Proofs.Settled
import Scripting.Proofs.StatementConduct

/-!
# From statements to runs

Many properties relate what all scopes share in an earlier state of a run to what they share in a
later one: functions stay declared, names stay published. Such a relation is respected by a run if
it is respected by each statement of the run, where for a statement one may assume that the calls
that it makes respect the relation, and so does the file that it imports (`Moment.Respects`). The
induction behind this is made here once: over the call levels that are left, over the files that are
imported, and over the statements of a list.
-/

namespace Scripting

open State

/-- The relation is about the functions and the log, which all scopes share. -/
structure Shared (R : State → State → Prop) : Prop where
  trans : ∀ {s t u : State}, R s t → R t u → R s u
  of_eq : ∀ {s t : State}, t.functions = s.functions → t.log = s.log → R s t

namespace Shared

variable {R : State → State → Prop} (hR : Shared R)
include hR

theorem refl (s : State) : R s s := hR.of_eq rfl rfl

theorem allows (spans : List Span) : (Conduct.ofMoves R).Allows spans where
  refl := hR.refl
  trans _ _ _ := hR.trans
  settle _ _ _ _ _ _ := hR.of_eq rfl rfl
  raw _ _ := trivial
  orAt _ _ _ _ := trivial

theorem allowsWriting : (Conduct.ofMoves R).AllowsWriting where
  console _ _ := hR.of_eq rfl rfl
  assign _ _ _ := hR.of_eq rfl rfl

/-- What a statement is permitted depends on what it does to the log and to the functions. -/
theorem permits {st : Statement}
    (push : ∀ (s : State) (record : Record), record.aliases = [] →
      (∀ owner, record.owner = some owner → st.form.bound? = some owner) →
      R s { s with log := s.log.push record })
    (addAlias : ∀ (s : State) (cell : Cell) (name : String), st.form.bound? = some name →
      R s { s with log := s.log.addAlias cell name })
    (function : ∀ (s : State) (declaration : Declaration), st.form = .function declaration →
      s.function? declaration.name = none →
      R s { s with functions := declaration :: s.functions }) :
    (Conduct.ofMoves R).Permits st where
  toAllows := hR.allows st.spans
  toAllowsWriting := hR.allowsWriting
  scope _ _ := hR.of_eq rfl rfl
  imports _ _ := hR.of_eq rfl rfl
  cells _ _ := hR.of_eq rfl rfl
  push := push
  addAlias := addAlias
  function := function

end Shared

/-- The calls that the statement makes respect the relation, and so do the statements of the file
that it imports. -/
structure Moment.PartsRespect (R : State → State → Prop) (m : Moment) : Prop where
  calls : Exec.CallsFollow (.ofMoves R) (callWithin m.levels)
    (m.statement.form.invocations (callWithin m.levels) m.state)
  file : ∀ file program, m.statement.form = .useFile file program →
    Exec.Follows (.ofMoves R) (m.state.prepare program)
      (Exec.statementsOf (callWithin m.levels) program.statements)

/-- The statement respects the relation if its parts do. -/
def Moment.Respects (R : State → State → Prop) (m : Moment) : Prop :=
  m.PartsRespect R →
    Exec.Follows (.ofMoves R) m.state (Exec.statement (callWithin m.levels) m.statement)

/-- In addition, what the statement does after each of its calls respects the relation. -/
def Moment.Traces (R : State → State → Prop) (m : Moment) : Prop :=
  m.PartsRespect R →
    Exec.Traces (.ofMoves R) (callWithin m.levels) m.state
      (m.statement.form.invocations (callWithin m.levels) m.state)
      (Exec.statement (callWithin m.levels) m.statement)

theorem Moment.Traces.respects {R : State → State → Prop} {m : Moment} (h : m.Traces R) :
    m.Respects R :=
  fun hparts => (h hparts).follows

/-- A statement respects a relation that it is permitted to respect. -/
theorem Moment.Ready.traces {R : State → State → Prop} {m : Moment} (hready : m.Ready)
    (h : (Conduct.ofMoves R).Permits m.statement)
    (hrelease : ∀ (s : State) (cell : Cell) (name : String) (expr : Expr),
      m.statement.form = .assign (.var name) expr →
      R s { s with log := s.log.release cell name }) : m.Traces R := by
  refine fun hparts => Exec.traces_statement h hready.sound.imports hparts.calls ?_
    fun file program hform => Exec.Ensures.decorate (hparts.file file program hform)
  intro name expr _ cell t hform _ _
  have hname : m.statement.form.bound? = some name := by rw [hform, Form.bound?]
  exact Exec.follows_moveRecords h hname (fun s cell => hrelease s cell name expr hform) cell _

/-- A step of a relation on states, read off the state after it. -/
theorem Exec.Follows.state {α : Type} {R : State → State → Prop} {s : State} {step : Exec α}
    (h : Exec.Follows (.ofMoves R) s step) : R s (s.run step).2 :=
  (Exec.Ensures.imp h (fun _ _ ht => ht.1) fun _ _ ht => ht).state

theorem Exec.Traces.of_mem {α : Type} {R : State → State → Prop} {invoke : Invoke} {s : State}
    {calls : List Invocation} {step : Exec α}
    (h : Exec.Traces (.ofMoves R) invoke s calls step) {i : Invocation} (hi : i ∈ calls) :
    R (i.run invoke).2 (s.run step).2 :=
  (Exec.Ensures.imp h (fun _ _ ht => (ht.2 i hi).1) fun _ _ ht => (ht.2 i hi).1).state

section Runs

variable {R : State → State → Prop} {levels : Nat} {scopes : List Variables} {s : State}

/-- The statements of a list, one after another. -/
theorem Shared.follows_list (hR : Shared R) {statements : List Statement}
    (hone : ∀ st ∈ statements, ∀ s : State, (⟨levels, scopes, s, st⟩ : Moment).Ready →
      (∀ m : Moment, m.During levels scopes [st] s → m.Ready → m.Respects R) →
      Exec.Follows (.ofMoves R) s (Exec.statement (callWithin levels) st))
    (hs : s.ReadyFor statements)
    (h : ∀ m : Moment, m.During levels scopes statements s → m.Ready → m.Respects R) :
    Exec.Follows (.ofMoves R) s (Exec.statementsOf (callWithin levels) statements) := by
  induction statements generalizing s with
  | nil =>
    rw [Exec.statementsOf]
    exact hR.refl s
  | cons first rest ih =>
    obtain ⟨hfirst, hrest⟩ := List.forall_mem_cons.mp hone
    have hstep := hfirst s (hs.first _ _) fun m hm => h m (Moment.During.trans .here hm)
    rw [Exec.statementsOf]
    refine Exec.Ensures.bind (hstep.withRun.imp (fun _ _ ht => ht.1) ?_)
    rintro flow t ⟨hst, hrun⟩
    cases flow with
    | goOn =>
      have htail := ih hrest (hs.next hrun) fun m hm => h m (.next hrun hm)
      exact htail.imp (fun _ _ hu => ⟨hR.trans hst hu.1, trivial⟩) fun _ _ hu => hR.trans hst hu
    | returned value => exact hst

/-- The induction is over the files that are imported. -/
theorem Shared.follows_statement (hR : Shared R)
    (hcalls : ∀ i : Invocation, i.state.Sound .ofLoaded → i.function ∈ i.state.functions →
      (∀ m : Moment, m.InCall levels scopes i → m.Ready → m.Respects R) →
      Exec.Follows (.ofMoves R) i.state (callWithin levels i.function i.values i.span))
    (st : Statement) (hready : (⟨levels, scopes, s, st⟩ : Moment).Ready)
    (h : ∀ m : Moment, m.During levels scopes [st] s → m.Ready → m.Respects R) :
    Exec.Follows (.ofMoves R) s (Exec.statement (callWithin levels) st) := by
  induction st using Statement.induction generalizing s with
  | h st ih =>
    refine h _ .here hready ⟨fun i hi => ?_, fun file program hform => ?_⟩
    · obtain ⟨hadvances, hmem⟩ := hready.invoked i hi
      exact hcalls i hadvances.sound hmem fun m hm => h m (hm.during hi)
    · exact hR.follows_list
        (fun inner hmem t hinner hm => ih file program hform inner hmem hinner hm)
        (hready.file hform) fun m hm => h m (.file hform hm)

theorem Shared.leave (hR : Shared R) (i : Invocation) (t : State) : R t (i.leave t) :=
  hR.of_eq rfl rfl

/-- A call respects the relation if all moments in it do. -/
theorem Shared.follows_callWithin (hR : Shared R) {i : Invocation}
    (hs : i.state.Sound .ofLoaded) (hmem : i.function ∈ i.state.functions)
    (h : ∀ m : Moment, m.InCall levels scopes i → m.Ready → m.Respects R) :
    Exec.Follows (.ofMoves R) i.state (callWithin levels i.function i.values i.span) := by
  induction levels generalizing scopes i with
  | zero => exact ⟨hR.refl _, trivial⟩
  | succ levels ih =>
    refine Exec.ensures_callWithin (fun _ _ _ => ⟨hR.refl _, trivial⟩) fun k entry hk hentry => ?_
    cases hk
    have hone : ∀ st ∈ i.function.body.statements, ∀ t : State,
        (⟨levels, i.state.vars :: scopes, t, st⟩ : Moment).Ready →
        (∀ m : Moment, m.During levels (i.state.vars :: scopes) [st] t → m.Ready →
          m.Respects R) → Exec.Follows (.ofMoves R) t (Exec.statement (callWithin levels) st) :=
      fun st _ t hready hm =>
        hR.follows_statement (fun j hj hjmem hjm => ih hj hjmem hjm) st hready hm
    have hbody := hR.follows_list hone (Invocation.readyFor hs hmem hentry) fun m hm =>
      h m ⟨levels, _, rfl, hentry, hm⟩
    -- the scope of the body is made and dropped again around its statements
    obtain ⟨bound, -, rfl⟩ := Invocation.exists_bound_of_entry? hentry
    have henter : R i.state (i.state.enter i.function bound) := hR.of_eq rfl rfl
    have hcall : ∀ t, R (i.state.enter i.function bound) t → R i.state (i.leave t) :=
      fun t ht => hR.trans (hR.trans henter ht) (hR.leave i t)
    exact hbody.imp (fun _ t ht => ⟨hcall t ht.1, trivial⟩) fun _ t ht => hcall t ht

/-- A statement respects the relation if all moments of its run do. -/
theorem Shared.follows (hR : Shared R) {m : Moment} (hready : m.Ready)
    (h : ∀ inner : Moment, inner.During m.levels m.suspended [m.statement] m.state →
      inner.Ready → inner.Respects R) :
    Exec.Follows (.ofMoves R) m.state (Exec.statement (callWithin m.levels) m.statement) :=
  hR.follows_statement (fun _ hi hmem hcall => hR.follows_callWithin hi hmem hcall) m.statement
    hready h

theorem Shared.after (hR : Shared R) {m : Moment} (hready : m.Ready)
    (h : ∀ inner : Moment, inner.During m.levels m.suspended [m.statement] m.state →
      inner.Ready → inner.Respects R) : R m.state m.after :=
  (hR.follows hready h).state

/-- What a statement does after each of its calls respects the relation if all moments of its run
do. -/
theorem Shared.after_call (hR : Shared R) {m : Moment} (hready : m.Ready)
    (h : ∀ inner : Moment, inner.During m.levels m.suspended [m.statement] m.state →
      inner.Ready → inner.Traces R) {i : Invocation}
    (hi : i ∈ m.statement.form.invocations (callWithin m.levels) m.state) :
    R (i.run (callWithin m.levels)).2 m.after := by
  refine (h m .here hready ⟨fun j hj => ?_, fun file program hform => ?_⟩).of_mem hi
  · obtain ⟨hadvances, hmem⟩ := hready.invoked j hj
    exact hR.follows_callWithin hadvances.sound hmem fun inner hinner hin =>
      (h inner (hinner.during hj) hin).respects
  · exact hR.follows_list (fun st _ t hin hm => hR.follows hin hm) (hready.file hform)
      fun inner hm hin => (h inner (.file hform hm) hin).respects

/-! ## From a moment on -/

theorem Exec.run_statementsOf_cons_returned {invoke : Invoke} {first : Statement}
    {rest : List Statement} {flow : Except Error Flow} {t : State}
    (hflow : flow ≠ .ok .goOn) (hrun : s.run (Exec.statement invoke first) = (flow, t)) :
    (s.run (Exec.statementsOf invoke (first :: rest))).2 = t := by
  rw [Exec.statementsOf, Exec.run_bind, hrun]
  rcases flow with e | ⟨-⟩ | value
  · rfl
  · exact absurd rfl hflow
  · rfl

/-- The import of a file ends where the last statement of the file does. -/
theorem Exec.run_statement_file {invoke : Invoke} {st : Statement} {file : SourceFile}
    {program : Program} (hform : st.form = .useFile file program) :
    (s.run (Exec.statement invoke st)).2 =
      ((s.prepare program).run (Exec.statementsOf invoke program.statements)).2 := by
  have hrun : Exec.Ensures (Exec.statement invoke st) s
      (fun _ t => t = ((s.prepare program).run (Exec.statementsOf invoke program.statements)).2)
      fun _ t => t = ((s.prepare program).run (Exec.statementsOf invoke program.statements)).2 := by
    rw [Exec.statement_eq, hform, Exec.formOf, Exec.programOf_eq]
    refine Exec.Ensures.decorate (Exec.Ensures.bind (Exec.ensures_modify ?_))
    exact Exec.Ensures.goOn (Exec.Ensures.decorate (Exec.ensures_of_state rfl))
  exact hrun.state

/-- From the end of the first statement to the end of the list. -/
theorem Shared.rest (hR : Shared R) {first : Statement} {rest : List Statement}
    (hs : s.ReadyFor (first :: rest))
    (h : ∀ m : Moment, m.During levels scopes (first :: rest) s → m.Ready → m.Traces R) :
    R (s.run (Exec.statement (callWithin levels) first)).2
      (s.run (Exec.statementsOf (callWithin levels) (first :: rest))).2 := by
  cases hrun : s.run (Exec.statement (callWithin levels) first) with
  | mk flow t =>
    by_cases hflow : flow = .ok .goOn
    · subst hflow
      rw [Exec.run_statementsOf_cons hrun]
      have hrest : Exec.Follows (.ofMoves R) t (Exec.statementsOf (callWithin levels) rest) :=
        hR.follows_list (fun st _ u hready hm => hR.follows hready hm) (hs.next hrun)
          fun m hm hin => (h m (.next hrun hm) hin).respects
      exact hrest.state
    · rw [Exec.run_statementsOf_cons_returned hflow hrun]
      exact hR.refl t

/-- If all moments of a run respect the relation, then it holds between the end of each of them and
the end of the run. -/
theorem Shared.after_during (hR : Shared R) {statements : List Statement} {m : Moment}
    (hduring : m.During levels scopes statements s) (hs : s.ReadyFor statements)
    (h : ∀ m : Moment, m.During levels scopes statements s → m.Ready → m.Traces R) :
    R m.after (s.run (Exec.statementsOf (callWithin levels) statements)).2 := by
  induction hduring with
  | here => exact hR.rest hs h
  | next hrun _ ih =>
    rw [Exec.run_statementsOf_cons hrun]
    exact ih (hs.next hrun) fun m hm => h m (.next hrun hm)
  | @file levels scopes _ _ _ _ _ _ hform _ ih =>
    refine hR.trans ?_ (hR.rest hs h)
    rw [Exec.run_statement_file hform]
    exact ih ((hs.first levels scopes).file hform) fun m hm => h m (.file hform hm)
  | @call levels scopes _ _ _ _ _ i hi hentry _ ih =>
    refine hR.trans ?_ (hR.rest hs h)
    have hready := hs.first (levels + 1) scopes
    have hbody := ih (hready.call hi hentry) fun m hm => h m (.call hi hentry hm)
    have hend := hR.after_call hready (fun m hm => h m (Moment.During.trans .here hm)) hi
    rw [Invocation.run_succ hentry] at hend
    exact hR.trans hbody (hR.trans (hR.leave i _) hend)

/-- If all moments of a call respect the relation, then it holds between the end of each of them and
the end of the call. -/
theorem Shared.after_inCall (hR : Shared R) {i : Invocation} {m : Moment}
    (hcall : m.InCall levels scopes i) (hs : i.state.Sound .ofLoaded)
    (hmem : i.function ∈ i.state.functions)
    (h : ∀ m : Moment, m.InCall levels scopes i → m.Ready → m.Traces R) :
    R m.after (i.run (callWithin levels)).2 := by
  obtain ⟨k, entry, rfl, hentry, hduring⟩ := hcall
  rw [Invocation.run_succ hentry]
  have hbody := hR.after_during hduring (Invocation.readyFor hs hmem hentry) fun m hm =>
    h m ⟨k, _, rfl, hentry, hm⟩
  exact hR.trans hbody (hR.leave i _)

end Runs

end Scripting
