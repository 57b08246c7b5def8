import Scripting.Proofs.Dependence
import Scripting.Proofs.Moments

/-!
# When the order does not matter

In which order the table of a scope is gone through is up to the platform. It is noticed only if a
name is looked up that stands for nothing by itself, and that several maps of the scope have as a
field, with different values. All other names are definite: they mean the same in every order
(`State.definite_iff`). A run that looks up nothing but definite names does the same in every order
(`State.execute_inOrder`).
-/

namespace Scripting

open State

/-! ## Definite names -/

namespace State

variable {s : State} {name : String}

/-- The name stands for something by itself, or all maps with a field of that name agree on it. -/
def Definite (s : State) (name : String) : Prop :=
  (s.plainMeaning? name).isSome ∨
    ∀ a b, s.vars.Offers s.cells name a → s.vars.Offers s.cells name b → a = b

theorem findField?_eq_of_offers
    (h : ∀ a b, s.vars.Offers s.cells name a → s.vars.Offers s.cells name b → a = b)
    (scopes scopes' : Scopes) :
    s.vars.findField? s.cells name scopes = s.vars.findField? s.cells name scopes' := by
  cases hfound : s.vars.findField? s.cells name scopes with
  | none =>
    cases hother : s.vars.findField? s.cells name scopes' with
    | none => rfl
    | some value =>
      have hsome : (s.vars.findField? s.cells name scopes).isSome :=
        Variables.isSome_findField?_iff.mpr ⟨value, Variables.offers_of_findField? hother⟩
      rw [hfound] at hsome
      cases hsome
  | some value =>
    have hoffers := Variables.offers_of_findField? hfound
    have hsome : (s.vars.findField? s.cells name scopes').isSome :=
      Variables.isSome_findField?_iff.mpr ⟨value, hoffers⟩
    obtain ⟨other, hother⟩ := Option.isSome_iff_exists.mp hsome
    rw [hother, h value other hoffers (Variables.offers_of_findField? hother)]

theorem Definite.meaning?_inOrder (h : s.Definite name) (order : Order) :
    (s.inOrder order).meaning? name = s.meaning? name := by
  have hplain : (s.inOrder order).plainMeaning? name = s.plainMeaning? name := rfl
  unfold meaning?
  rw [hplain]
  rcases h with hsome | hoffers
  · obtain ⟨meaning, hmeaning⟩ := Option.isSome_iff_exists.mp hsome
    rw [hmeaning]
    rfl
  · rw [show (s.inOrder order).vars.findField? (s.inOrder order).cells name (s.inOrder order).scopes =
      s.vars.findField? s.cells name s.scopes from findField?_eq_of_offers hoffers _ _]

end State

/-- Each table is gone through from the variable of the given name on, if it has one. -/
def Order.foremost (name : String) : Order where
  arrange _ _ names := if name ∈ names then name :: names.erase name else names
  perm _ _ names := by
    split
    · next hmem => exact (List.perm_cons_erase hmem).symm
    · exact .refl names

namespace State

variable {s : State} {name : String}

theorem findField?_foremost {x : String} {v : Variable} {value : Value}
    (hv : s.vars.get? x = some v) (hvalue : v.field? s.cells name = some value) :
    s.vars.findField? s.cells name (s.inOrder (.foremost x)).scopes = some value := by
  have hmem : x ∈ s.vars.names :=
    Variables.name_of_get? hv ▸ List.mem_map_of_mem (Variables.mem_of_get? hv)
  have harrange : (s.inOrder (.foremost x)).scopes.arrange s.cells.contents.size s.vars.names =
      x :: s.vars.names.erase x := if_pos hmem
  unfold Variables.findField?
  rw [harrange, List.findSome?_cons, hv, Option.bind_some, hvalue]

/-- Exactly the definite names mean the same in every order. -/
theorem definite_iff :
    s.Definite name ↔ ∀ order, (s.inOrder order).meaning? name = s.meaning? name := by
  refine ⟨Definite.meaning?_inOrder, fun h => ?_⟩
  by_cases hplain : (s.plainMeaning? name).isSome
  · exact .inl hplain
  · refine .inr ?_
    rintro a b ⟨x, v, hv, ha⟩ ⟨y, w, hw, hb⟩
    have hfirst : ∀ {z : String} {u : Variable} {value : Value}, s.vars.get? z = some u →
        u.field? s.cells name = some value →
        (s.inOrder (.foremost z)).meaning? name = some (.value value) := by
      intro z u value hu hvalue
      have hnone : (s.inOrder (.foremost z)).plainMeaning? name = none :=
        Option.not_isSome_iff_eq_none.mp hplain
      unfold meaning?
      rw [hnone]
      exact congrArg (Option.map Meaning.value) (findField?_foremost hu hvalue)
    have hsame := (hfirst hv ha).symm.trans ((h _).trans ((h _).symm.trans (hfirst hw hb)))
    cases hsame
    rfl

end State

/-! ## Definite runs -/

/-- All names that the statement looks up are definite. -/
def Moment.Definite (m : Moment) : Prop :=
  ∀ l ∈ m.statement.form.lookups (callWithin m.levels) m.state, l.state.Definite l.name

/-- All names are definite that a run of the program from the state looks up, in the functions that it
calls and in the files that it imports too. -/
def Program.DefiniteFrom (program : Program) (s : State) : Prop :=
  ∀ m : Moment, m.During callLimit [] program.statements (s.prepare program) → m.Definite

namespace Exec

variable {α : Type} {s : State} {order? : Option Order} {order : Order}

theorem Reordered.inScope {step other : Exec α} {vars : Variables} {imports : ImportTable}
    (h : Reordered order? (s.nest vars imports) step other) :
    Reordered order? s (inScope vars imports step) (inScope vars imports other) := by
  unfold Reordered at *
  have hnest : (s.reorder order?).nest vars imports = (s.nest vars imports).reorder order? := by
    cases order? <;> rfl
  rw [run_inScope, run_inScope, hnest, h]
  cases order? <;> rfl

/-- A call does the same in another order if the body of the function does. -/
theorem reordered_callWithin {levels : Nat} {i : Invocation}
    (hbody : ∀ k entry, levels = k + 1 → i.entry? = some entry →
      Reordered (some order) entry (statementsOf (callWithin k) i.function.body.statements)
        (statementsOf (callWithin k) i.function.body.statements)) :
    Reordered (some order) i.state (callWithin levels i.function i.values i.span)
      (callWithin levels i.function i.values i.span) := by
  cases levels with
  | zero => exact reordered_refuse _ _
  | succ levels =>
    rw [callWithin]
    split
    · exact reordered_refuse _ _
    · next harity =>
      cases hbound : bindParams i.function.name i.span 0 i.function.params i.values with
      | error e => exact reordered_throw e
      | ok bound =>
        have hentry : i.entry? = some (i.state.enter i.function bound) := by
          rw [Invocation.entry?, if_neg harity, hbound]
        show Reordered (some order) i.state (body (callWithin levels) i.function bound)
          (body (callWithin levels) i.function bound)
        unfold body
        rw [programOf_eq]
        refine reordered_get_bind ?_
        rw [imports_reorder]
        refine Reordered.bind (Reordered.decorate (Reordered.inScope (hbody _ _ rfl hentry)) _)
          fun flow t _ => ?_
        cases flow with
        | returned value => exact reordered_pure _
        | goOn => exact reordered_pure _

/-- A list of statements does the same in another order if each moment of its run is definite. The
induction is over the levels that are left and, within a level, over the statements and the files that
they import. -/
theorem reordered_statementsOf (order : Order) (levels : Nat) (scopes : List Variables)
    (statements : List Statement) (s : State)
    (h : ∀ m : Moment, m.During levels scopes statements s → m.Definite) :
    Reordered (some order) s (statementsOf (callWithin levels) statements)
      (statementsOf (callWithin levels) statements) := by
  match statements with
  | [] =>
    rw [statementsOf]
    exact reordered_pure _
  | first :: rest =>
    have hform : Reordered (some order) s
        (formOf (callWithin levels) first.span first.scope first.form)
        (formOf (callWithin levels) first.span first.scope first.form) := by
      by_cases hfile : ∃ file program, first.form = .useFile file program
      · obtain ⟨file, program, hform⟩ := hfile
        have hlt := Statement.sizeOf_file_lt hform
        have hinner := reordered_statementsOf order levels scopes program.statements
          (s.prepare program) fun m hm => h m (.file hform hm)
        rw [hform, formOf, programOf_eq]
        refine Reordered.bind (reordered_modify rfl) fun _ t ht => ?_
        cases ht
        exact (hinner.decorate _).bind fun _ _ _ => reordered_pure _
      · refine reordered_formOf (fun file program hform => hfile ⟨file, program, hform⟩) ?_ ?_ _ _
        · intro i hi
          refine reordered_callWithin fun k entry hk hentry => ?_
          subst hk
          exact reordered_statementsOf order k (i.state.vars :: scopes) _ entry fun m hm =>
            h m (.call hi hentry hm)
        · exact fun l hl => (h _ .here l hl).meaning?_inOrder order
    rw [statementsOf]
    refine Reordered.bind ?_ fun flow t ht => ?_
    · rw [statement_eq]
      exact hform.decorate _
    · cases flow with
      | goOn => exact reordered_statementsOf order levels scopes rest t fun m hm => h m (.next ht hm)
      | returned value => exact reordered_pure _
termination_by (levels, sizeOf statements)

end Exec

/-- A program does the same in every order if it looks up nothing but definite names. -/
theorem State.execute_inOrder {s : State} {program : Program} (h : program.DefiniteFrom s)
    (order : Order) :
    (s.inOrder order).execute program = (s.execute program).map id (·.inOrder order) := by
  have hrun : ((s.prepare program).inOrder order).run
      (Exec.statementsOf (callWithin callLimit) program.statements) = _ :=
    Exec.reordered_statementsOf order callLimit [] program.statements (s.prepare program) h
  rw [execute_eq, execute_eq, show (s.inOrder order).prepare program =
    (s.prepare program).inOrder order from rfl, hrun]
  rcases (s.prepare program).run _ with ⟨_ | _, t⟩ <;> rfl

/-- Two runs from the same start, in the same order or without names that the order decides. -/
theorem State.executeLoaded_eq_of_definite {s : State} {loaded : Except Error Program}
    {order order' : Order} (h : order' = order ∨
      ∀ program, loaded = .ok program → program.DefiniteFrom (s.inOrder order)) :
    ((s.inOrder order').executeLoaded loaded).1 = ((s.inOrder order).executeLoaded loaded).1 ∧
      ((s.inOrder order').executeLoaded loaded).2.inOrder order =
        ((s.inOrder order).executeLoaded loaded).2.inOrder order := by
  rcases h with rfl | h
  · exact ⟨rfl, rfl⟩
  · cases loaded with
    | error e => exact ⟨rfl, rfl⟩
    | ok program =>
      have hrun : (s.inOrder order').execute program =
          ((s.inOrder order).execute program).map id (·.inOrder order') :=
        execute_inOrder (h program rfl) order'
      simp only [executeLoaded, hrun]
      exact ⟨rfl, rfl⟩

/-! ## Checking that a run is definite -/

/-- At most one map has a field of the name, unless it stands for something by itself. -/
def State.definite? (s : State) (name : String) : Bool :=
  (s.plainMeaning? name).isSome ||
    (s.vars.entries.filter fun v => (v.field? s.cells name).isSome).length ≤ 1

theorem State.definite_of_definite? {s : State} {name : String} (h : s.definite? name = true) :
    s.Definite name := by
  rcases Bool.or_eq_true_iff.mp h with hplain | hfew
  · exact .inl hplain
  · refine .inr ?_
    rintro a b ⟨x, v, hv, ha⟩ ⟨y, w, hw, hb⟩
    have hmem : ∀ {z : String} {u : Variable} {value : Value}, s.vars.get? z = some u →
        u.field? s.cells name = some value →
        u ∈ s.vars.entries.filter fun v => (v.field? s.cells name).isSome :=
      fun hu hvalue => List.mem_filter.mpr ⟨Variables.mem_of_get? hu, by rw [hvalue]; rfl⟩
    have hsame : v = w := by
      have hvmem := hmem hv ha
      have hwmem := hmem hw hb
      generalize s.vars.entries.filter _ = found at hfew hvmem hwmem
      match found, of_decide_eq_true hfew with
      | [_], _ => rw [List.mem_singleton.mp hvmem, List.mem_singleton.mp hwmem]
    rw [← hsame] at hb
    exact Option.some.inj (ha.symm.trans hb)

/-- Goes through a run of some statements and checks that all names are definite that it looks up. -/
def Moment.allDefinite (levels : Nat) (statements : List Statement) (s : State) : Bool :=
  (Moment.all levels [] statements s).all fun m =>
    (m.statement.form.lookups (callWithin m.levels) m.state).all fun l => l.state.definite? l.name

theorem Moment.definite_of_allDefinite {levels : Nat} {statements : List Statement} {s : State}
    (h : Moment.allDefinite levels statements s = true) {m : Moment}
    (hm : m.During levels [] statements s) : m.Definite := fun l hl =>
  State.definite_of_definite?
    (List.all_eq_true.mp (List.all_eq_true.mp h m (Moment.mem_all_iff.mpr hm)) l hl)

theorem Program.definiteFrom_of_allDefinite {program : Program} {s : State}
    (h : Moment.allDefinite callLimit program.statements (s.prepare program) = true) :
    program.DefiniteFrom s :=
  fun _ hm => Moment.definite_of_allDefinite h hm

/-- A function with two maps that share a field, which it reads by its bare name. -/
def ambiguousText : String :=
  "import 'IO' import 'Math' function f() \x7b var a = Math.constants a.X = 'one' " ++
  "var b = a b.X = 'two' IO.print(X) return 1 f() \x7d f()"

end Scripting
