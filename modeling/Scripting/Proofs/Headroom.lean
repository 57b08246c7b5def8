import Scripting.Proofs.Order
import Scripting.Proofs.Rewriting

/-!
# The call limit cannot be noticed

How many call levels are left is seen by nothing but the refusal of a call that would go too deep,
and no step makes anything else of that refusal on its way out. So a run that does not end with it
goes the same way when there is more room: the runs simulate each other with nothing rewritten, and
the refusal excused.
-/

namespace Scripting

/-- Nothing is rewritten, and the refusal of a call for its depth is excused. -/
def Rewriting.unlessTooDeep : Rewriting where
  function := id
  statement := id
  excuses cause := cause = .stackOverflow
  function_name _ := rfl
  function_params _ := rfl
  function_span _ := rfl
  function_file _ := rfl
  function_imports _ := rfl
  statement_form st := by
    obtain ⟨form, span, scope, exported⟩ := st
    cases form with
    | useFile file program =>
      cases program
      simp only [Form.rewrite, List.map_id, id_eq]
    | _ => rfl
  statement_span _ := rfl
  statement_scope _ := rfl

theorem State.rewrite_unlessTooDeep (s : State) : s.rewrite .unlessTooDeep = s := by
  unfold rewrite Rewriting.unlessTooDeep
  rw [List.map_id]

theorem Exec.Simulated.run_eq {α : Type} {step other : Exec α} {s : State}
    (h : Simulated .unlessTooDeep step other)
    (hends : ∀ e, (s.run step).1 = .error e → e.cause ≠ .stackOverflow) :
    s.run other = s.run step := by
  rcases h s with ⟨e, he, hcause⟩ | hsame
  · exact absurd hcause (hends e he)
  · rwa [s.rewrite_unlessTooDeep, State.rewrite_unlessTooDeep] at hsame

/-- The same in another order, if the step does not depend on the order. -/
theorem Exec.Simulated.run_eq_of_reordered {α : Type} {step other : Exec α} {s : State}
    {order : Order} (h : Simulated .unlessTooDeep step other)
    (hends : ∀ e, (s.run step).1 = .error e → e.cause ≠ .stackOverflow)
    (hstep : Reordered (some order) s step step) :
    (s.inOrder order).run other = (s.run step).map id (·.inOrder order) := by
  have hrun : (s.inOrder order).run step = (s.run step).map id (·.inOrder order) := hstep
  rw [← hrun]
  refine h.run_eq fun e he => hends e ?_
  rwa [hrun] at he

/-- The induction is on the levels that are left. -/
theorem simulated_callWithin_of_le {levels levels' : Nat} (h : levels ≤ levels') :
    Invoke.Simulated .unlessTooDeep (callWithin levels) (callWithin levels') := by
  induction levels generalizing levels' with
  | zero => exact fun _ _ _ _ => .inl ⟨_, rfl, rfl⟩
  | succ levels ih =>
    obtain ⟨more, rfl⟩ : ∃ more, levels' = more + 1 := ⟨levels' - 1, by omega⟩
    refine simulated_callWithin_succ fun declaration => ?_
    have hbody := Exec.simulated_statementsOf (ih (Nat.le_of_succ_le_succ h))
      declaration.body.statements
    rwa [show Rewriting.unlessTooDeep.statement = id from rfl, List.map_id] at hbody

/-- Statements that run when `deep` calls wait for them, and do not end with a call that goes too
deep, do the same from the same state when fewer calls wait for them: the outcome is the same and so
is all of the state after it. The same holds of a declared function that is called on some values.
With `depth` calls waiting, `callLimit - depth` levels are left.

This is so if the tables of the scopes are gone through in the same order both times. If the run looks
up nothing but definite names, then it is so in any two orders. -/
theorem run_eq_of_shallower {depth deep : Nat} (h : depth ≤ deep) (s : State) :
    (∀ statements : List Statement,
      (∀ e, (s.run (Exec.statementsOf (callWithin (callLimit - deep)) statements)).1 = .error e →
        e.cause ≠ .stackOverflow) →
      s.run (Exec.statementsOf (callWithin (callLimit - depth)) statements) =
        s.run (Exec.statementsOf (callWithin (callLimit - deep)) statements) ∧
      ((∀ m : Moment, m.During (callLimit - deep) [] statements s → m.Definite) → ∀ order,
        (s.inOrder order).run (Exec.statementsOf (callWithin (callLimit - depth)) statements) =
          (s.run (Exec.statementsOf (callWithin (callLimit - deep)) statements)).map id
            (·.inOrder order))) ∧
    ∀ (declaration : Declaration) (values : List Value) (span : Span),
      (∀ e, (s.run (callWithin (callLimit - deep) declaration values span)).1 = .error e →
        e.cause ≠ .stackOverflow) →
      s.run (callWithin (callLimit - depth) declaration values span) =
        s.run (callWithin (callLimit - deep) declaration values span) ∧
      ((∀ m : Moment, m.InCall (callLimit - deep) [] ⟨declaration, values, span, s⟩ → m.Definite) →
        ∀ order, (s.inOrder order).run (callWithin (callLimit - depth) declaration values span) =
          (s.run (callWithin (callLimit - deep) declaration values span)).map id
            (·.inOrder order)) := by
  have hcalls := simulated_callWithin_of_le (Nat.sub_le_sub_left h callLimit)
  refine ⟨fun statements hends => ?_, fun declaration values span hends => ?_⟩
  · have hsame := Exec.simulated_statementsOf hcalls statements
    rw [show Rewriting.unlessTooDeep.statement = id from rfl, List.map_id] at hsame
    refine ⟨hsame.run_eq hends, fun hdefinite order => ?_⟩
    exact hsame.run_eq_of_reordered hends
      (Exec.reordered_statementsOf order (callLimit - deep) [] statements s hdefinite)
  · have hsame := hcalls declaration values span
    refine ⟨hsame.run_eq hends, fun hdefinite order => ?_⟩
    refine hsame.run_eq_of_reordered hends ?_
    refine Exec.reordered_callWithin (i := ⟨declaration, values, span, s⟩) fun k entry hk hentry => ?_
    exact Exec.reordered_statementsOf order k [s.vars] _ entry fun m hm =>
      hdefinite m ⟨k, entry, hk, hentry, hm⟩

/-- A function that calls another one on the field of a map. -/
def nestedText : String :=
  "import \"Math\" function g(x) \x7b return x \x7d " ++
  "function f() \x7b var a = Math.constants a.X = \"one\" return g(X) \x7d " ++
  "var v = f()"

/-- The calls of the text need two levels. With these it runs as it does from the top, in any order,
and with one level it does not. -/
theorem run_eq_of_shallower_nested :
    ∃ (program : Program) (flow : Flow) (t : State), Program.ofText? nestedText = some program ∧
      ({} : State).run (Exec.statementsOf (callWithin (callLimit - 62)) program.statements) =
        (.ok flow, t) ∧
      (∀ order, (({} : State).inOrder order).run
        (Exec.statementsOf (callWithin (callLimit - 0)) program.statements) =
          (.ok flow, t.inOrder order)) ∧
      t.vars.contains "v" ∧
      (({} : State).run
        (Exec.statementsOf (callWithin (callLimit - 63)) program.statements)).1.isOk = false := by
  have hfacts : (Program.ofText? nestedText).any (fun program =>
      (({} : State).run
        (Exec.statementsOf (callWithin (callLimit - 62)) program.statements)).1.isOk &&
      (({} : State).run
        (Exec.statementsOf (callWithin (callLimit - 62)) program.statements)).2.vars.contains "v" &&
      Moment.allDefinite (callLimit - 62) program.statements {} &&
      !(({} : State).run
        (Exec.statementsOf (callWithin (callLimit - 63)) program.statements)).1.isOk) = true := by
    decide +kernel
  obtain ⟨program, hprogram, hfacts⟩ := (Option.any_eq_true _ _).mp hfacts
  simp only [Bool.and_eq_true, Bool.not_eq_true'] at hfacts
  obtain ⟨⟨⟨hok, hvar⟩, hdefinite⟩, hdeeper⟩ := hfacts
  obtain ⟨flow, hflow⟩ := exists_of_isOk hok
  have hends : ∀ e, (({} : State).run
      (Exec.statementsOf (callWithin (callLimit - 62)) program.statements)).1 = .error e →
        e.cause ≠ .stackOverflow := by
    intro e he
    rw [hflow] at he
    cases he
  have hrun : ({} : State).run
      (Exec.statementsOf (callWithin (callLimit - 62)) program.statements) = (.ok flow, _) :=
    Prod.ext hflow rfl
  refine ⟨program, flow, _, hprogram, hrun, fun order => ?_, hvar, hdeeper⟩
  have hsame := ((run_eq_of_shallower (Nat.zero_le 62) {}).1 program.statements hends).2
    (fun m hm => Moment.definite_of_allDefinite hdefinite hm) order
  rw [hsame, hrun]
  rfl

/-- Two runs of the same statements from the same variables and functions, one of them with one call
waiting for it. Neither goes too deep, but the tables are gone through in different orders. -/
theorem run_ne_of_shallower_ambiguous :
    ∃ program : Program, Program.ofText? ambiguousText = some program ∧
      ((({} : State).inOrder (.foremost "a")).run
        (Exec.statementsOf (callWithin (callLimit - 1)) program.statements)).1.isOk ∧
      ((({} : State).inOrder (.foremost "a")).run
        (Exec.statementsOf (callWithin (callLimit - 1)) program.statements)).2.console.output =
          #["one"] ∧
      ((({} : State).inOrder (.foremost "b")).run
        (Exec.statementsOf (callWithin (callLimit - 0)) program.statements)).2.console.output =
          #["two"] := by
  have hfacts : (Program.ofText? ambiguousText).any (fun program =>
      ((({} : State).inOrder (.foremost "a")).run
        (Exec.statementsOf (callWithin (callLimit - 1)) program.statements)).1.isOk &&
      decide (((({} : State).inOrder (.foremost "a")).run (Exec.statementsOf
        (callWithin (callLimit - 1)) program.statements)).2.console.output = #["one"]) &&
      decide (((({} : State).inOrder (.foremost "b")).run (Exec.statementsOf
        (callWithin (callLimit - 0)) program.statements)).2.console.output = #["two"])) = true := by
    decide +kernel
  obtain ⟨program, hprogram, hfacts⟩ := (Option.any_eq_true _ _).mp hfacts
  simp only [Bool.and_eq_true, decide_eq_true_eq] at hfacts
  exact ⟨program, hprogram, hfacts.1.1, hfacts.1.2, hfacts.2⟩

end Scripting
