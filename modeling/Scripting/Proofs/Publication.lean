import Scripting.Proofs.Dependence
import Scripting.Proofs.Moments

/-!
# Calls and the records of the caller

A variable that is bound to a result is published under its name when the record of the result answers
to the name. The log is shared by all scopes and knows variables by their names only, so a call can
take the name away from the record although it cannot touch the variable. It takes a scope inside the
call that has a variable of the same name, bound to the very same cell, and that binds this variable
anew (`Moment.Releases`).

`published_unless_released` says that this is the only way: a call in which no statement does that
keeps the name published all the time, and a statement that does it takes the name away at once.

That nothing else unpublishes a name is a law on the log, `Discipline.keeping`. Not all calls keep to
it, so a statement is first run in a way that refuses the calls it does not make (`Invoke.restrict`).
-/

namespace Scripting

open State

/-! ## Keeping a name published -/

namespace Discipline

/-- Records of the cell go on to answer to the name. -/
def keeping (c : Cell) (x : String) : Discipline where
  Allows := Form.Standard
  Owns _ := True
  Law a b := a.binds c x = true → b.binds c x = true
  standard _ h := h
  owns_declared _ _ _ := trivial
  owns_params _ _ _ _ := trivial
  law_refl _ h := h
  law_trans _ _ _ h h' hbinds := h' (h hbinds)
  law_push _ _ _ _ hbinds := ReturnLog.binds_push.mpr (.inr hbinds)
  law_addAlias _ _ _ _ hbinds := ReturnLog.binds_addAlias.mpr (.inl hbinds)

theorem frees_keeping {c cell : Cell} {x name : String} (h : ¬ (c = cell ∧ x = name)) :
    (keeping c x).Frees cell name :=
  fun _ hbinds => ReturnLog.binds_release.mpr ⟨hbinds, h⟩

end Discipline

theorem State.Sound.keeping {s : State} (h : s.Sound .ofLoaded) (c : Cell) (x : String) :
    s.Sound (.keeping c x) :=
  ⟨h.log, h.vars, h.functions, h.imports⟩

/-! ## Refusing calls that are not made -/

open Classical in
/-- Functions are run in the given way by the listed calls. Other calls are refused. -/
noncomputable def Invoke.restrict (invoke : Invoke) (calls : List Invocation) : Invoke :=
  fun function values span => do
    let state ← get
    if ⟨function, values, span, state⟩ ∈ calls then invoke function values span
    else Exec.refuse .stackOverflow span

theorem agreeOn_restrict (invoke : Invoke) (calls : List Invocation) :
    Exec.AgreeOn invoke (invoke.restrict calls) calls := by
  intro i hi
  unfold Invocation.run Invoke.restrict
  rw [Exec.run_bind]
  exact congrArg i.state.run (if_pos hi)

/-- A discipline that the listed calls keep to is kept to by all that are not refused. -/
theorem sound_restrict {D : Discipline} {invoke : Invoke} {calls : List Invocation}
    (h : Exec.CallsKeep D invoke calls) : (invoke.restrict calls).Sound D := by
  intro function values span s hs hmem
  refine Exec.Ensures.bind (Exec.ensures_get ?_)
  split
  · next hi => exact h _ hi hs hmem
  · exact Exec.keeps_refuse hs _ _

/-! ## Statements and calls that keep a name published -/

/-- The statement is an assignment that takes its variable `x` away from the cell. -/
def Moment.Releases (c : Cell) (x : String) (m : Moment) : Prop :=
  (∃ expr, m.statement.form = .assign (.var x) expr) ∧ m.state.cell? x = some c ∧ m.Succeeds ∧
    m.after.cell? x ≠ some c

section Keeping

variable {c : Cell} {x : String} {s : State} {levels : Nat} {scopes : List Variables}
  {i : Invocation} {m : Moment}

theorem Exec.run_statement_of_run_assign {invoke : Invoke} {st : Statement} {name : String}
    {expr : Expr} {t : State} (hform : st.form = .assign (.var name) expr)
    (hrun : s.run (Exec.assign invoke name expr st.span) = (.ok (), t)) :
    s.run (Exec.statement invoke st) = (.ok .goOn, t) := by
  rw [Exec.statement_eq, hform, Exec.formOf, Exec.run_decorate, Exec.run_bind, hrun]
  rfl

/-- A statement that does not release the cell keeps the name published if the calls it makes do. -/
theorem keeps_statement_of_not_releases {st : Statement} (hs : s.Sound (.keeping c x))
    (hforms : ∀ form ∈ st.form.forms, form.Standard)
    (hcalls : Exec.CallsKeep (.keeping c x) (callWithin levels)
      (st.form.invocations (callWithin levels) s))
    (hkept : ¬ (⟨levels, scopes, s, st⟩ : Moment).Releases c x) :
    Exec.Keeps (.keeping c x) Set.univ True s (Exec.statement (callWithin levels) st) := by
  have hsame := Exec.run_statement_congr hforms
    (agreeOn_restrict (callWithin levels) (st.form.invocations (callWithin levels) s))
  have hassign : Exec.MayAssign (.keeping c x)
      ((callWithin levels).restrict (st.form.invocations (callWithin levels) s)) st s := by
    refine fun name expr hform => ⟨fun _ => trivial, fun cell hcell hleaves => ?_⟩
    obtain ⟨t, hrun, hleft⟩ := hleaves
    refine Discipline.frees_keeping ?_
    rintro ⟨rfl, rfl⟩
    have hrun := hsame ▸ Exec.run_statement_of_run_assign hform hrun
    refine hkept ⟨⟨expr, hform⟩, hcell, ?_, ?_⟩
    · unfold Moment.Succeeds Moment.outcome
      rw [hrun]
      rfl
    · unfold Moment.after Moment.outcome
      rw [hrun]
      exact hleft
  exact (Exec.keeps_statement (sound_restrict hcalls) hforms hs hassign).congr hsame

theorem Moment.InCall.trans {inner : Moment} (h : m.InCall levels scopes i)
    (hinner : inner.During m.levels m.suspended [m.statement] m.state) :
    inner.InCall levels scopes i := by
  obtain ⟨k, entry, hk, hentry, hm⟩ := h
  exact ⟨k, entry, hk, hentry, hm.trans hinner⟩

theorem Moment.InCall.during {st : Statement} {rest : List Statement} (h : m.InCall levels scopes i)
    (hi : i ∈ st.form.invocations (callWithin levels) s) :
    m.During levels scopes (st :: rest) s := by
  obtain ⟨k, entry, rfl, hentry, hm⟩ := h
  exact .call hi hentry hm

/-- The induction is on the levels that are left: a call that a statement of the body makes has one
level less, and its moments are moments of the call that the body belongs to. -/
theorem keeps_callWithin_of_not_releases (hs : i.state.Sound (.keeping c x))
    (hmem : i.function ∈ i.state.functions)
    (hkept : ∀ m : Moment, m.InCall levels scopes i → ¬ m.Releases c x) :
    Exec.Keeps (.keeping c x) ∅ False i.state
      (callWithin levels i.function i.values i.span) := by
  induction levels generalizing scopes i with
  | zero => exact Exec.keeps_refuse hs _ _
  | succ levels ih =>
    rw [callWithin]
    split
    · exact Exec.keeps_refuse hs _ _
    · next harity =>
      refine Exec.Ensures.bind (Exec.ensures_lift (fun bound hbound => ?_) fun _ _ => hs.refl)
      have hentry : i.entry? = some (i.state.enter i.function bound) := by
        rw [Invocation.entry?, if_neg harity, hbound]
      refine Exec.keeps_body hs (Exec.keeps_statementsOf (hs.enter hmem hbound) ?_)
      intro before st after t hsplit hbefore ht
      have hduring : ∀ m : Moment, m.During levels (i.state.vars :: scopes) (st :: after) t →
          ¬ m.Releases c x :=
        fun m hm => hkept m ⟨levels, _, rfl, hentry, hsplit ▸ hm.append hbefore⟩
      exact keeps_statement_of_not_releases ht.sound
        (fun form hform => Exec.allows_body hs hmem form (mem_formsOf_of_eq_append hsplit hform))
        (fun j hj hjs hjmem => ih hjs hjmem fun m hm => hduring m (hm.during hj))
        (hduring _ .here)

theorem Moment.Sound.obeys_of_not_releases (h : m.Sound (.keeping c x))
    (hkept : ∀ inner : Moment, inner.During m.levels m.suspended [m.statement] m.state →
      ¬ inner.Releases c x) : m.Obeys (.keeping c x) := by
  have hcalls : Exec.CallsKeep (.keeping c x) (callWithin m.levels)
      (m.statement.form.invocations (callWithin m.levels) m.state) :=
    fun j hj hs hmem => keeps_callWithin_of_not_releases hs hmem fun inner hinner =>
      hkept inner (hinner.during hj)
  exact ⟨keeps_statement_of_not_releases h.state h.forms hcalls (hkept m .here), hcalls⟩

/-! ## When a call takes a name away -/

theorem Moment.Releases.not_binds (h : m.Releases c x) (hm : m.Sound .ofLoaded) :
    ¬ m.after.log.binds c x = true := by
  obtain ⟨⟨expr, hform⟩, hcell, hok, hleft⟩ := h
  obtain ⟨flow, hrun⟩ := hok.exists_outcome
  unfold Moment.outcome at hrun
  rw [Exec.statement_eq, hform, Exec.formOf] at hrun
  have howns : m.state.view x ≠ none → Discipline.ofLoaded.Owns x := fun _ => trivial
  have hassign := Exec.ensures_assign (sound_callWithin_ofLoaded m.levels) hm.state howns expr
    m.statement.span fun _ _ _ _ => trivial
  exact (hassign.of_goOn hrun).2 c hcell hleft

/-- What reaches the moments of a call, if all of them obey. -/
theorem Moment.InCall.sound {D : Discipline} (h : m.InCall levels [] i) (hs : i.state.Sound D)
    (hmem : i.function ∈ i.state.functions)
    (hobeys : ∀ m : Moment, m.InCall levels [] i → m.Sound D → m.Obeys D) :
    m.Sound D ∧ D.Law i.state.log m.state.log := by
  obtain ⟨k, entry, rfl, hentry, hduring⟩ := h
  have hinner : ∀ m : Moment, m.During k [i.state.vars] i.function.body.statements entry →
      m.Sound D → m.Obeys D := fun m hm => hobeys m ⟨k, entry, rfl, hentry, hm⟩
  obtain ⟨bound, hbound, rfl⟩ := Invocation.exists_bound_of_entry? hentry
  refine hduring.sound (hs.enter hmem hbound) ?_ (Exec.allows_body hs hmem) hinner
  exact List.forall_mem_cons.mpr ⟨hs.vars, fun _ hvars => absurd hvars List.not_mem_nil⟩

/-- After a call the variables of the caller are bound as before. If no statement in the call takes a
variable of the same name away from the same cell, then the record of such a variable answers to it
after the call, as it does after each statement in the call. A statement that does take it away takes
the name away from the record. -/
theorem published_unless_released (hreachable : i.state.Reachable)
    (hmem : i.function ∈ i.state.functions) (hcell : i.state.cell? x = some c)
    (hbinds : i.state.log.binds c x = true) (levels : Nat) :
    (i.run (callWithin levels)).2.cell? x = some c ∧
    ((∀ m : Moment, m.InCall levels [] i → ¬ m.Releases c x) →
      (i.run (callWithin levels)).2.log.binds c x = true ∧
        ∀ m : Moment, m.InCall levels [] i → m.after.log.binds c x = true) ∧
    ∀ m : Moment, m.InCall levels [] i → m.Releases c x → ¬ m.after.log.binds c x = true := by
  have hs := hreachable.sound
  refine ⟨?_, fun hkept => ⟨?_, fun m hm => ?_⟩, fun m hm hreleases => hreleases.not_binds ?_⟩
  · have hcall := (sound_callWithin_ofLoaded levels _ i.values i.span _ hs hmem).state
    rw [State.cell?_eq, Invocation.run, hcall.view x (Set.notMem_empty x), ← State.cell?_eq, hcell]
  · exact (keeps_callWithin_of_not_releases (hs.keeping c x) hmem hkept).state.law hbinds
  · have hobeys : ∀ m : Moment, m.InCall levels [] i → m.Sound (.keeping c x) →
        m.Obeys (.keeping c x) := fun m hm hsound =>
      hsound.obeys_of_not_releases fun inner hinner => hkept inner (hm.trans hinner)
    obtain ⟨hsound, hlaw⟩ := hm.sound (hs.keeping c x) hmem hobeys
    exact (hobeys m hm hsound).statement.state.law (hlaw hbinds)
  · exact (hm.sound hs hmem fun _ _ hsound => hsound.obeys).1

end Keeping

/-- The function shares the cell of its caller's `x` and then takes its own `x` away from it. -/
def releasingText : String :=
  "function one() \x7b return 1 \x7d " ++
  "function two() \x7b return 2 \x7d " ++
  "function f() \x7b var x = x x = w \x7d " ++
  "var w = one() " ++
  "var x = two() " ++
  "f()"

/-- After the call the caller's `x` has its cell, and no record of the cell answers to it. A statement
in the call is to blame. -/
theorem published_unless_released_shared :
    ∃ (i : Invocation) (c : Cell), i.state.Reachable ∧ i.state.log.binds c "x" = true ∧
      (i.run (callWithin callLimit)).2.cell? "x" = some c ∧
      ¬ (i.run (callWithin callLimit)).2.log.binds c "x" = true ∧
      ∃ m : Moment, m.InCall callLimit [] i ∧ m.Releases c "x" ∧
        ¬ m.after.log.binds c "x" = true := by
  have hruns : (Moment.ofText? releasingText {} 5).any (fun m =>
      (m.state.cell? "x").any fun c => (m.state.function? "f").any fun f =>
        decide (m.state.log.binds c "x" = true ∧
          ¬ (m.state.run (callWithin callLimit f [] m.statement.span)).2.log.binds c "x" =
            true)) = true := by decide +kernel
  obtain ⟨m, hm, hfacts⟩ := (Option.any_eq_true _ _).mp hruns
  obtain ⟨c, hcell, hfacts⟩ := (Option.any_eq_true _ _).mp hfacts
  obtain ⟨f, hf, hfacts⟩ := (Option.any_eq_true _ _).mp hfacts
  obtain ⟨hbinds, hlost⟩ := of_decide_eq_true hfacts
  have hreachable : m.state.Reachable := .before (Moment.live_of_ofText? hm)
  obtain ⟨hcell', hkept, hreleased⟩ := published_unless_released
    (i := ⟨f, [], m.statement.span, m.state⟩) hreachable (List.mem_of_find?_eq_some hf) hcell hbinds
    callLimit
  refine ⟨_, c, hreachable, hbinds, hcell', hlost, ?_⟩
  by_contra hnone
  refine hlost (hkept fun inner hinner hreleases => hnone ?_).1
  exact ⟨inner, hinner, hreleases, hreleased inner hinner hreleases⟩

end Scripting
