import Mathlib.Data.Set.Finite.Basic
import Scripting.Proofs.Unwinding

/-!
# Every run ends

Functions are looked up when they are called, so that nothing in a program bounds how deep its calls
nest. What bounds them is `callLimit`: a call that would go deeper is refused. Counted from the top,
the depth of a call is the number of scopes that wait for it, and the recursion through calls goes
to a greater depth each time. There is one way to run calls that meets this recursion
(`eq_callWithin_iff`).

Within a call, the recursion is over the statements and over the files that they import. With the
levels that are left as the first component and the size of the statement as the second one, what
comes up inside a statement is smaller than the statement (`Moment.wellFounded_inside`).
-/

namespace Scripting

open State

/-! ## The recursion through calls -/

/-- Run a declared function when so many calls wait for it, with a way to run the calls in its
body. -/
def Exec.callAt (depth : Nat) (deeper : Invoke) : Invoke := fun declaration values span =>
  if callLimit ≤ depth then refuse .stackOverflow span
  else if values.length ≠ declaration.arity then
    refuse (.wrongArity declaration.name (toString declaration.arity) values.length) span
  else do
    let bound ← bindParams declaration.name span 0 declaration.params values
    body deeper declaration bound

theorem callAt_of_le {depth : Nat} (h : callLimit ≤ depth) (deeper : Invoke) :
    Exec.callAt depth deeper = callWithin 0 := by
  funext declaration values span
  rw [Exec.callAt, if_pos h]
  rfl

theorem callAt_of_lt {depth levels : Nat} (h : callLimit - depth = levels + 1) :
    Exec.callAt depth (callWithin levels) = callWithin (levels + 1) := by
  funext declaration values span
  rw [Exec.callAt, if_neg (by omega)]
  rfl

/-- The recursion through calls, which counts them from the top, has exactly one solution. -/
theorem eq_callWithin_iff {run : Nat → Invoke} :
    (∀ depth, run depth = Exec.callAt depth (run (depth + 1))) ↔
      ∀ depth, run depth = callWithin (callLimit - depth) := by
  constructor
  · intro h depth
    -- the induction is on the levels that are left at this depth
    generalize hlevels : callLimit - depth = levels
    induction levels generalizing depth with
    | zero => rw [h, callAt_of_le (by omega)]
    | succ levels ih => rw [h, ih (depth + 1) (by omega), callAt_of_lt hlevels]
  · intro h depth
    rw [h, h]
    by_cases hdepth : callLimit ≤ depth
    · rw [callAt_of_le hdepth, Nat.sub_eq_zero_of_le hdepth]
    · obtain ⟨levels, hlevels⟩ : ∃ levels, callLimit - depth = levels + 1 :=
        ⟨callLimit - depth - 1, by omega⟩
      rw [hlevels, ← callAt_of_lt hlevels, show callLimit - (depth + 1) = levels by omega]

/-! ## The recursion through statements -/

namespace Moment

variable {levels : Nat} {scopes : List Variables} {statements : List Statement} {s : State}
  {m : Moment}

/-- The moment comes up while the statement of the other one runs: in the file that it imports, or
in a function that it calls. -/
def Inside (inner m : Moment) : Prop :=
  (∃ file program, m.statement.form = .useFile file program ∧
    inner.During m.levels m.suspended program.statements (m.state.prepare program)) ∨
  ∃ i ∈ m.statement.form.invocations (callWithin m.levels) m.state,
    inner.InCall m.levels m.suspended i

/-- Along a run, either calls take levels away, or files take statements away. -/
theorem During.lt (h : m.During levels scopes statements s) :
    m.levels < levels ∨ m.levels = levels ∧ sizeOf m.statement < sizeOf statements := by
  induction h with
  | here => exact .inr ⟨rfl, by simp; omega⟩
  | next _ _ ih => exact ih.imp id fun h => ⟨h.1, by simp; omega⟩
  | file hform _ ih =>
    have hsize := Statement.sizeOf_file_lt hform
    exact ih.imp id fun h => ⟨h.1, by simp; omega⟩
  | call _ _ _ ih => exact .inl (by omega)

theorem wellFounded_inside : WellFounded Inside := by
  have hlex : WellFounded (Prod.Lex (· < ·) (· < ·) : Nat × Nat → Nat × Nat → Prop) :=
    WellFounded.prod_lex Nat.lt_wfRel.wf Nat.lt_wfRel.wf
  refine Subrelation.wf ?_ (InvImage.wf (fun m : Moment => (m.levels, sizeOf m.statement)) hlex)
  rintro inner m (⟨file, program, hform, h⟩ | ⟨i, -, k, entry, hk, -, h⟩)
  · refine Prod.lex_def.mpr (h.lt.imp id fun hlt => ⟨hlt.1, hlt.2.trans ?_⟩)
    exact Statement.sizeOf_file_lt hform
  · exact Prod.lex_def.mpr (.inl (by rcases h.lt with h | h <;> simp only <;> omega))

/-- A run goes through finitely many moments. -/
theorem finite_during (levels : Nat) (scopes : List Variables) (statements : List Statement)
    (s : State) : {m : Moment | m.During levels scopes statements s}.Finite :=
  (List.finite_toSet (Moment.all levels scopes statements s)).subset fun _ hm => mem_all_iff.mpr hm

/-- Scopes wait for each other exactly as far as levels have been used up. -/
theorem During.depth (h : m.During levels scopes statements s) :
    m.suspended.length + m.levels = scopes.length + levels := by
  induction h with
  | here => rfl
  | next _ _ ih => exact ih
  | file _ _ ih => exact ih
  | call _ _ _ ih =>
    rw [ih, List.length_cons]
    omega

end Moment

/-! ## Where calls stand -/

/-- The place of the call that a statement of the form makes, if it can make one. -/
def Form.callSpan? : Form → Option Span
  | .call c => some c.span
  | .access a => some a.span
  | .declare _ value | .assign _ value | .returns value => some value.span
  | .function _ | .useModule _ | .useFile _ _ => none

section Spans

variable {α : Type} {invoke : Invoke} {s : State}

theorem Exec.forall_mem_after {step : Exec α} {next : α → State → List Invocation}
    {P : Invocation → Prop} (h : ∀ a t, ∀ i ∈ next a t, P i) : ∀ i ∈ s.after step next, P i := by
  intro i hi
  obtain ⟨a, t, -, hi⟩ := Exec.mem_after.mp hi
  exact h a t i hi

theorem Native.span_of_mem_invocations {site : CallSite} (work : Native α) :
    ∀ i ∈ work.invocations invoke site s, i.span = site.span := by
  induction work generalizing s with
  | done | fail => exact fun i hi => absurd hi List.not_mem_nil
  | argument _ _ ih | callback _ _ ih =>
    exact Exec.forall_mem_after fun _ _ => Exec.forall_mem_after fun _ _ => ih _
  | invoke function _ _ ih =>
    rw [Native.invocations]
    split
    · exact List.forall_mem_cons.mpr ⟨rfl, Exec.forall_mem_after fun _ _ => ih _⟩
    · exact fun i hi => absurd hi List.not_mem_nil
  | lookup _ _ ih =>
    rw [Native.invocations]
    split
    · exact Exec.forall_mem_after fun _ _ => ih _
    · exact ih _
  | assign _ _ _ ih => exact Exec.forall_mem_after fun _ _ => ih
  | write _ _ ih => exact ih
  | read _ _ ih | inspect _ ih => exact Exec.forall_mem_after fun _ _ => ih _

theorem Call.span_of_mem_invocations (call : Call) :
    ∀ i ∈ call.invocations s, i.span = call.span := by
  unfold Call.invocations
  split
  · exact fun i hi => absurd hi List.not_mem_nil
  · split
    · exact fun i hi => absurd hi List.not_mem_nil
    · exact Exec.forall_mem_after fun _ _ => List.forall_mem_singleton.mpr rfl

theorem Access.span_of_mem_invocations (access : Access) :
    ∀ i ∈ access.invocations invoke s, i.span = access.span := by
  unfold Access.invocations Module.invocations
  split
  · split
    · dsimp only
      split
      · exact Native.span_of_mem_invocations _
      · exact fun i hi => absurd hi List.not_mem_nil
    · exact fun i hi => absurd hi List.not_mem_nil
  · exact fun i hi => absurd hi List.not_mem_nil

theorem Expr.span_of_mem_invocations (expr : Expr) :
    ∀ i ∈ expr.invocations invoke s, i.span = expr.span := by
  cases expr with
  | literal | reference => exact fun i hi => absurd hi List.not_mem_nil
  | call c => exact c.span_of_mem_invocations
  | access a => exact a.span_of_mem_invocations

/-- The calls of a statement stand where its expression does. -/
theorem Form.callSpan?_of_mem_invocations (form : Form) :
    ∀ i ∈ form.invocations invoke s, form.callSpan? = some i.span := by
  have hexpr : ∀ (value : Expr) (t : State), ∀ i ∈ value.invocations invoke t,
      some value.span = some i.span :=
    fun value t i hi => congrArg some (value.span_of_mem_invocations i hi).symm
  cases form with
  | function | useModule | useFile => exact fun i hi => absurd hi List.not_mem_nil
  | call c => exact fun i hi => congrArg some (c.span_of_mem_invocations i hi).symm
  | access a => exact fun i hi => congrArg some (a.span_of_mem_invocations i hi).symm
  | declare name value =>
    rw [Form.invocations]
    split
    · exact Exec.forall_mem_after fun _ _ => Exec.forall_mem_after fun _ t => hexpr value t
    · exact fun i hi => absurd hi List.not_mem_nil
  | assign target value =>
    cases target with
    | var name =>
      rw [Form.invocations]
      split
      · exact Exec.forall_mem_after fun _ _ => Exec.forall_mem_after fun _ t => hexpr value t
      · exact fun i hi => absurd hi List.not_mem_nil
    | field map field =>
      refine Exec.forall_mem_after fun current t => ?_
      split
      · exact hexpr value t
      · exact fun i hi => absurd hi List.not_mem_nil
  | returns value => exact hexpr value s

end Spans

/-! ## Chains of calls -/

/-- The functions call each other in a row: the one with index 1 calls the one with index 2 and so
on, up to the last one, which does nothing. The call of each one stands at the given place. -/
structure State.Chain (s : State) (f : Nat → Declaration) (spans : Nat → Span) (last : Nat) :
    Prop where
  declared : ∀ k ≤ last, s.function? (f k).name = some (f k)
  params : ∀ k ≤ last, (f k).params = []
  calls : ∀ k < last, ∃ st, (f k).body.statements = [st] ∧
    st.form = .call { name := (f (k + 1)).name, args := [], span := spans (k + 1) }
  nothing : (f last).body.statements = []

/-- The state after so many more scopes have been entered and left, and nothing else has changed. -/
def State.past (s : State) (count : Nat) : State :=
  { s with scopes := { s.scopes with entered := s.scopes.entered + count } }

theorem State.resume_past (s : State) (vars : Variables) (imports : ImportTable) (count : Nat) :
    s.resume ((s.nest vars imports).past count) = s.past (count + 1) := by
  have hentered : s.scopes.entered + 1 + count = s.scopes.entered + (count + 1) := by omega
  show State.mk .. = State.mk ..
  simp only [nest, past, Scopes.enter, Scopes.leave, hentered]

section Chains

variable {s t : State} {f : Nat → Declaration} {spans : Nat → Span} {last k levels : Nat}

theorem State.Chain.congr (h : s.Chain f spans last) (hfunctions : t.functions = s.functions) :
    t.Chain f spans last := by
  refine ⟨fun k hk => ?_, h.params, h.calls, h.nothing⟩
  rw [function?, hfunctions]
  exact h.declared k hk

/-- The call of a function of the chain, from the state. -/
def State.link (s : State) (f : Nat → Declaration) (spans : Nat → Span) (k : Nat) : Invocation :=
  ⟨f k, [], spans k, s⟩

theorem State.Chain.enters (h : s.Chain f spans last) (hk : k ≤ last) :
    Invocation.entry? (s.link f spans k) = some (s.enter (f k) []) := by
  have hparams : (f k).params = [] := h.params k hk
  rw [Invocation.entry?, link, if_neg (by simp [Declaration.arity, hparams])]
  simp only [hparams]
  rfl

theorem Exec.run_callDeclared_of_params {invoke : Invoke} {call : Call} {declaration : Declaration}
    (hfunction : s.function? call.name = some declaration) (hparams : declaration.params = [])
    (hargs : call.args = []) :
    s.run (Exec.callDeclared invoke call) = s.run (invoke declaration [] call.span) := by
  have harity : ¬ declaration.arity ≠ ([] : List Token).length := by
    rw [Declaration.arity, hparams]
    exact fun h => h rfl
  unfold Exec.callDeclared
  rw [Exec.run_get_bind, hfunction, hargs]
  dsimp only
  rw [if_neg harity]
  rfl

theorem State.Chain.run_call (h : s.Chain f spans last) (hk : k < last) (levels : Nat) :
    (s.enter (f k) []).run (Exec.callDeclared (callWithin levels)
      { name := (f (k + 1)).name, args := [], span := spans (k + 1) }) =
      ((s.enter (f k) []).link f spans (k + 1)).run (callWithin levels) :=
  Exec.run_callDeclared_of_params (h.declared (k + 1) hk) (h.params (k + 1) hk) rfl

/-- The body of a function in the chain ends as the call of the next function does. -/
theorem State.Chain.run_body_ok (h : s.Chain f spans last) (hk : k < last) {value : Option Value}
    (hcall : ((s.enter (f k) []).link f spans (k + 1)).run (callWithin levels) = (.ok value, t)) :
    (s.enter (f k) []).run (Exec.statementsOf (callWithin levels) (f k).body.statements) =
      (.ok .goOn, t) := by
  obtain ⟨st, hbody, hform⟩ := h.calls k hk
  rw [hbody, Exec.statementsOf, Exec.run_bind, Exec.statement_eq, Exec.run_decorate, hform,
    Exec.formOf, Exec.run_bind, h.run_call hk, hcall, Exec.statementsOf]
  rfl

theorem State.Chain.run_body_error (h : s.Chain f spans last) (hk : k < last) {e : Error}
    (hcall : ((s.enter (f k) []).link f spans (k + 1)).run (callWithin levels) = (.error e, t))
    (hspan : e.span ≠ none) :
    (s.enter (f k) []).run (Exec.statementsOf (callWithin levels) (f k).body.statements) =
      (.error e, t) := by
  obtain ⟨st, hbody, hform⟩ := h.calls k hk
  rw [hbody, Exec.statementsOf, Exec.run_bind, Exec.statement_eq, Exec.run_decorate, hform,
    Exec.formOf, Exec.run_bind, h.run_call hk, hcall]
  exact congrArg (fun e => (Except.error e, t)) (Error.orAt_of_span hspan st.span)

/-- A chain runs as far as there are levels left, and the call after that is refused. -/
theorem State.Chain.run (h : s.Chain f spans last) (hk : k ≤ last) :
    (last < k + levels →
      (s.link f spans k).run (callWithin levels) = (.ok none, s.past (last + 1 - k))) ∧
    (k + levels ≤ last →
      ∃ e, (s.link f spans k).run (callWithin levels) = (.error e, s.past levels) ∧
        e.cause = .stackOverflow ∧ e.span = some (spans (k + levels))) := by
  induction levels generalizing s k with
  | zero => exact ⟨fun hlast => absurd hk (by omega), fun _ => ⟨_, rfl, rfl, rfl⟩⟩
  | succ levels ih =>
    rw [Invocation.run_succ (h.enters hk)]
    rcases hk.eq_or_lt with rfl | hlt
    · refine ⟨fun _ => ?_, fun hlast => absurd hlast (by omega)⟩
      have hnothing : (s.link f spans k).function.body.statements = [] := h.nothing
      rw [hnothing, Exec.statementsOf, Nat.add_sub_cancel_left]
      rfl
    · have hback : ∀ count, (s.link f spans k).leave ((s.enter (f k) []).past count) =
          s.past (count + 1) := s.resume_past _ _
      obtain ⟨hok, herror⟩ := ih (h.congr (t := s.enter (f k) []) rfl) hlt
      refine ⟨fun hlast => ?_, fun hlast => ?_⟩
      · refine (congrArg (s.link f spans k).ending (h.run_body_ok hlt (hok (by omega)))).trans ?_
        refine congrArg (Except.ok none, ·) ((hback _).trans ?_)
        rw [show last + 1 - k.succ + 1 = last + 1 - k by omega]
      · obtain ⟨e, hcall, hcause, hspan⟩ := herror (by omega)
        have hbody := h.run_body_error hlt hcall (hspan ▸ Option.some_ne_none _)
        obtain ⟨hclaimed, hplace⟩ := e.claimedBy_cause (f k).file
        rw [← Declaration.claimError_eq] at hclaimed hplace
        refine ⟨_, (congrArg (s.link f spans k).ending hbody).trans
          (congrArg (Except.error _, ·) (hback levels)), hclaimed.trans hcause,
          hplace.trans (hspan.trans ?_)⟩
        rw [show k + (levels + 1) = k.succ + levels by omega]

end Chains

/-! ## Runs end -/

/-- If a statement fails while a program is run, then so does the program, with the same cause and
at the same place. -/
theorem Moment.During.exists_execute_error {s : State} {program : Program} {m : Moment}
    (h : m.During callLimit [] program.statements (s.prepare program)) (hsession : Session s)
    (hprogram : program.Loaded) {e : Error} (hfails : m.outcome = (.error e, m.after)) :
    ∃ e', (s.execute program).1 = .error e' ∧ e'.cause = e.cause ∧ e'.span = e.span := by
  obtain ⟨files, hvia⟩ := h.exists_via []
  obtain ⟨e', t, hrun, rfl⟩ := hvia.exists_run_error (hsession.readyFor hprogram) hfails
  exact ⟨_, State.execute_error_iff.mpr ⟨t, hrun⟩, Error.foldl_claimedBy_cause files e⟩

/-- Every run ends.

* The recursion through calls, with their depth counted from the top, has one solution.
* What comes up inside a statement leaves fewer levels or is a smaller statement, and so this does
  not go on forever. A run of a program goes through finitely many moments.
* At each of them at most `callLimit` scopes wait. Below the limit, a call runs the body of the
  function if its values suit the parameters. At the limit it is refused at its own place, in the
  state that it is made in, and the run fails for that reason.
* Functions that call each other in a row run if there are at most `callLimit` of them. Otherwise it
  is the call of the one after that many which is refused. Either way nothing has changed afterwards
  but the count of the scopes, by one for each function that has run. -/
theorem runs_end {s : State} {program : Program} (hsession : Session s) (hprogram : program.Loaded) :
    (∀ run : Nat → Invoke, (∀ depth, run depth = Exec.callAt depth (run (depth + 1))) ↔
      ∀ depth, run depth = callWithin (callLimit - depth)) ∧
    WellFounded Moment.Inside ∧
    {m : Moment | m.During callLimit [] program.statements (s.prepare program)}.Finite ∧
    (∀ m : Moment, m.During callLimit [] program.statements (s.prepare program) →
      m.suspended.length ≤ callLimit ∧ m.levels = callLimit - m.suspended.length ∧
      ∀ i ∈ m.statement.form.invocations (callWithin m.levels) m.state,
        m.statement.form.callSpan? = some i.span ∧
        (m.suspended.length < callLimit → ∀ entry, i.entry? = some entry →
          i.run (callWithin m.levels) = i.ending
            (entry.run (Exec.statementsOf (callWithin (m.levels - 1)) i.function.body.statements))) ∧
        (m.suspended.length = callLimit →
          i.run (callWithin m.levels) = (.error (.locate .stackOverflow i.span), i.state) ∧
          (∀ inner : Moment, ¬ inner.InCall m.levels m.suspended i) ∧
          ∃ e, (s.execute program).1 = .error e ∧ e.cause = .stackOverflow ∧
            e.span = some i.span)) ∧
    ∀ (u : State) (f : Nat → Declaration) (spans : Nat → Span) (last : Nat),
      u.Chain f spans last → 1 ≤ last →
      (last ≤ callLimit →
        u.run (callWithin callLimit (f 1) [] (spans 1)) = (.ok none, u.past last)) ∧
      (callLimit < last →
        ∃ e, u.run (callWithin callLimit (f 1) [] (spans 1)) = (.error e, u.past callLimit) ∧
          e.cause = .stackOverflow ∧ e.span = some (spans (callLimit + 1))) := by
  refine ⟨fun run => eq_callWithin_iff, Moment.wellFounded_inside, Moment.finite_during _ _ _ _,
    fun m hm => ?_, fun u f spans last h hlast => ?_⟩
  · have hdepth := hm.depth
    rw [List.length_nil, Nat.zero_add] at hdepth
    refine ⟨by omega, by omega, fun i hi => ⟨Form.callSpan?_of_mem_invocations _ i hi, ?_, ?_⟩⟩
    · intro hlt entry hentry
      obtain ⟨levels, hlevels⟩ : ∃ levels, m.levels = levels + 1 := ⟨m.levels - 1, by omega⟩
      rw [hlevels]
      exact Invocation.run_succ hentry
    · intro hlimit
      have hlevels : m.levels = 0 := by omega
      have hrefused : i.run (callWithin m.levels) =
          (.error (.locate .stackOverflow i.span), i.state) := by
        rw [hlevels]
        rfl
      have hready := hm.ready (hsession.readyFor hprogram)
      have hfails := hready.outcome_of_call hi (congrArg Prod.fst hrefused) (Option.some_ne_none _)
      obtain ⟨e, he, hcause, hspan⟩ := hm.exists_execute_error hsession hprogram hfails
      refine ⟨hrefused, ?_, e, he, hcause, hspan⟩
      rintro inner ⟨k, _, hk, -⟩
      omega
  · obtain ⟨hok, herror⟩ := @State.Chain.run u f spans last 1 callLimit h hlast
    refine ⟨fun hle => hok (by omega), fun hlt => ?_⟩
    rw [Nat.add_comm]
    exact herror (by omega)

/-! ## Chains of all lengths -/

/-- A word of the given length. -/
def wordOf (length : Nat) : String := String.ofList (List.replicate length 'f')

theorem wordOf_injective {j k : Nat} (h : wordOf j = wordOf k) : j = k := by
  have hlist := congrArg String.toList h
  simpa [wordOf] using congrArg List.length hlist

/-- A function of a chain, which calls the next one if it is not the last. -/
def linkOf (last k : Nat) : Declaration where
  name := wordOf k
  params := []
  body :=
    { statements :=
        if k < last then
          [{ form := .call { name := wordOf (k + 1), args := [], span := {} }
             span := {}
             scope := none
             exported := false }]
        else []
      imports := {} }
  span := {}
  file := none

theorem chain_linkOf (last : Nat) (console : Console) :
    State.Chain { functions := (List.range (last + 1)).map (linkOf last), console } (linkOf last)
      (fun _ => {}) last where
  declared k hk := by
    have hfind : (List.range (last + 1)).find? ((fun d => decide (d.name = (linkOf last k).name)) ∘
        linkOf last) = some k := by
      refine List.find?_range_eq_some.mpr ⟨by simp, by simp; omega, fun j hj => ?_⟩
      have hne : wordOf j ≠ wordOf k := fun h => absurd (wordOf_injective h) (by omega)
      simp [linkOf, hne]
    rw [function?, List.find?_map, hfind]
    rfl
  params _ _ := rfl
  calls _ hk := ⟨_, if_pos hk, rfl⟩
  nothing := if_neg (Nat.lt_irrefl last)

/-- A function that calls itself. -/
def recursiveText : String := "function f() \x7b f() \x7d f()"

/-- The calls of a function that calls itself reach the limit, and the run fails because of that. A
chain that just reaches the limit runs, and a longer one does not. -/
theorem runs_end_recursion :
    (∃ (program : Program) (m : Moment) (i : Invocation), program.Loaded ∧
      m.During callLimit [] program.statements (State.prepare {} program) ∧
      m.suspended.length = callLimit ∧
      i ∈ m.statement.form.invocations (callWithin m.levels) m.state ∧
      ∃ e, (({} : State).execute program).1 = .error e ∧ e.cause = .stackOverflow ∧
        e.span = some i.span) ∧
    (∃ u f spans, State.Chain u f spans 64 ∧
      u.run (callWithin callLimit (f 1) [] (spans 1)) = (.ok none, u.past 64)) ∧
    ∃ u f spans e, State.Chain u f spans 65 ∧
      u.run (callWithin callLimit (f 1) [] (spans 1)) = (.error e, u.past callLimit) ∧
        e.cause = .stackOverflow := by
  have hruns : ((Moment.ofText? recursiveText {} 1).bind (Moment.descend? callLimit)).any (fun m =>
      decide (m.suspended.length = callLimit) &&
        !(m.statement.form.invocations (callWithin m.levels) m.state).isEmpty) = true := by
    decide +kernel
  obtain ⟨m, hm, hfacts⟩ := (Option.any_eq_true _ _).mp hruns
  obtain ⟨hdepth, hcalls⟩ := (Bool.and_eq_true _ _).mp hfacts
  obtain ⟨top, htop, hdescend⟩ := Option.bind_eq_some_iff.mp hm
  obtain ⟨program, hprogram, hat⟩ := Moment.atTop_of_ofText? htop
  have hloaded := Program.loaded_of_ofText? hprogram
  have hduring := (Moment.during_of_nth? hat).trans (Moment.during_of_descend? hdescend)
  obtain ⟨-, -, -, hmoments, hchains⟩ := runs_end (.start {}) hloaded
  refine ⟨?_, ⟨_, _, _, chain_linkOf 64 {}, ?_⟩, ?_⟩
  · obtain ⟨i, hi⟩ : ∃ i, i ∈ m.statement.form.invocations (callWithin m.levels) m.state :=
      List.exists_mem_of_ne_nil _ (by simpa using hcalls)
    have hlimit := of_decide_eq_true hdepth
    obtain ⟨-, -, hfails⟩ := ((hmoments m hduring).2.2 i hi).2.2 hlimit
    exact ⟨program, m, i, hloaded, hduring, hlimit, hi, hfails⟩
  · exact (hchains _ _ _ 64 (chain_linkOf 64 {}) (by decide)).1 (by decide)
  · obtain ⟨e, hrun, hcause, -⟩ := (hchains _ _ _ 65 (chain_linkOf 65 {}) (by decide)).2 (by decide)
    exact ⟨_, _, _, e, chain_linkOf 65 {}, hrun, hcause⟩

end Scripting
