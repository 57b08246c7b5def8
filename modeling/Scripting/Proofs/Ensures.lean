import Scripting.Session

/-!
# Steps and what they ensure

`Exec.Ensures step s E Q` says how a step that starts in `s` ends: in `Q`, with its result, when it
succeeds, and in `E`, with its error, when it fails. Each construct that steps are made of has a rule
here, so that what a step ensures is put together from what its parts ensure, without opening the
monad again.
-/

namespace Scripting

namespace Exec

variable {α β : Type}

/-- From `s` the step ends in `Q` when it succeeds and in `E` when it fails. -/
def Ensures (step : Exec α) (s : State) (E : Error → State → Prop) (Q : α → State → Prop) : Prop :=
  match s.run step with
  | (.ok a, t) => Q a t
  | (.error e, t) => E e t

theorem run_bind (step : Exec α) (next : α → Exec β) (s : State) :
    s.run (step >>= next) = match s.run step with
      | (.ok a, t) => t.run (next a)
      | (.error e, t) => (.error e, t) := by
  unfold State.run ExceptT.run StateT.run
  simp only [bind, ExceptT.bind, ExceptT.mk, StateT.bind]
  rcases step s with ⟨_ | _, t⟩ <;> rfl

theorem run_get_bind (next : State → Exec β) (s : State) : s.run (get >>= next) = s.run (next s) :=
  rfl

theorem run_bind_congr {s : State} {step : Exec α} {next next' : α → Exec β}
    (h : ∀ a t, s.run step = (.ok a, t) → t.run (next' a) = t.run (next a)) :
    s.run (step >>= next') = s.run (step >>= next) := by
  rw [run_bind, run_bind]
  split
  · next a t hrun => exact h a t hrun
  · rfl

theorem run_decorate (f : Error → Error) (step : Exec α) (s : State) :
    s.run (decorate f step) = match s.run step with
      | (.ok a, t) => (.ok a, t)
      | (.error e, t) => (.error (f e), t) := by
  unfold State.run decorate ExceptT.adapt ExceptT.run StateT.run
  simp only [Functor.map, StateT.map, ExceptT.mk, bind, pure]
  rcases step s with ⟨_ | _, t⟩ <;> rfl

theorem run_orUndo (step : Exec α) (undo : State → State) (s : State) :
    s.run (orUndo step undo) = match s.run step with
      | (.ok a, t) => (.ok a, t)
      | (.error e, t) => (.error e, undo t) := by
  unfold State.run orUndo ExceptT.run StateT.run
  simp only [tryCatch, tryCatchThe, MonadExceptOf.tryCatch, ExceptT.tryCatch, ExceptT.mk, bind,
    StateT.bind]
  rcases step s with ⟨_ | _, t⟩ <;> rfl

section Rules

variable {s : State} {E E' : Error → State → Prop} {Q Q' : α → State → Prop}

/-- What a step ensures, read off its outcome. -/
theorem Ensures.of_ok {step : Exec α} {a : α} {t : State} (h : Ensures step s E Q)
    (hrun : s.run step = (.ok a, t)) : Q a t := by
  unfold Ensures at h
  rwa [hrun] at h

theorem Ensures.of_error {step : Exec α} {e : Error} {t : State} (h : Ensures step s E Q)
    (hrun : s.run step = (.error e, t)) : E e t := by
  unfold Ensures at h
  rwa [hrun] at h

/-- What a step ensures, together with the run that it is about. -/
theorem Ensures.withRun {step : Exec α} (h : Ensures step s E Q) :
    Ensures step s (fun e t => E e t ∧ s.run step = (.error e, t)) fun a t =>
      Q a t ∧ s.run step = (.ok a, t) := by
  unfold Ensures at *
  split at h
  · next hrun => exact ⟨h, hrun⟩
  · next hrun => exact ⟨h, hrun⟩

theorem ensures_run (step : Exec α) (s : State) :
    Ensures step s (fun e t => s.run step = (.error e, t)) fun a t => s.run step = (.ok a, t) := by
  unfold Ensures
  split
  · next hrun => exact hrun
  · next hrun => exact hrun

theorem ensures_of_run {step : Exec α} {a : α} {t : State} (hrun : s.run step = (.ok a, t))
    (h : Q a t) : Ensures step s E Q := by
  unfold Ensures
  rwa [hrun]

theorem ensures_of_run_error {step : Exec α} {e : Error} {t : State}
    (hrun : s.run step = (.error e, t)) (h : E e t) : Ensures step s E Q := by
  unfold Ensures
  rwa [hrun]

/-- A step that ensures too much if it succeeds does not succeed. -/
theorem Ensures.exists_error {step : Exec α} (h : Ensures step s E fun _ _ => False) :
    ∃ e t, s.run step = (.error e, t) ∧ E e t := by
  unfold Ensures at h
  split at h
  · exact h.elim
  · next e t hrun => exact ⟨e, t, hrun, h⟩

/-- Steps that run alike from a state ensure the same there. -/
theorem Ensures.congr {step step' : Exec α} (h : Ensures step s E Q)
    (hrun : s.run step = s.run step') : Ensures step' s E Q := by
  unfold Ensures at *
  rwa [hrun] at h

/-- A property of states that holds at both ends holds of the state after the step. -/
theorem Ensures.state {step : Exec α} {R : State → Prop}
    (h : Ensures step s (fun _ t => R t) fun _ t => R t) : R (s.run step).2 := by
  unfold Ensures at h
  split at h
  · next hrun => rw [hrun]; exact h
  · next hrun => rw [hrun]; exact h

theorem ensures_of_state {step : Exec α} {R : State → Prop} (h : R (s.run step).2) :
    Ensures step s (fun _ t => R t) fun _ t => R t := by
  unfold Ensures
  split
  · next hrun => rwa [hrun] at h
  · next hrun => rwa [hrun] at h

theorem Ensures.imp {step : Exec α} (h : Ensures step s E Q) (hE : ∀ e t, E e t → E' e t)
    (hQ : ∀ a t, Q a t → Q' a t) : Ensures step s E' Q' := by
  unfold Ensures at *
  split at h
  · exact hQ _ _ h
  · exact hE _ _ h

theorem Ensures.and {step : Exec α} (h : Ensures step s E Q) (h' : Ensures step s E' Q') :
    Ensures step s (fun e t => E e t ∧ E' e t) fun a t => Q a t ∧ Q' a t := by
  unfold Ensures at *
  split at h
  · next hrun =>
    rw [hrun] at h'
    exact ⟨h, h'⟩
  · next hrun =>
    rw [hrun] at h'
    exact ⟨h, h'⟩

theorem ensures_forall {ι : Type} {step : Exec α} {E : ι → Error → State → Prop}
    {Q : ι → α → State → Prop} (h : ∀ i, Ensures step s (E i) (Q i)) :
    Ensures step s (fun e t => ∀ i, E i e t) fun a t => ∀ i, Q i a t := by
  unfold Ensures at *
  split
  · next hrun => exact fun i => by simpa only [hrun] using h i
  · next hrun => exact fun i => by simpa only [hrun] using h i

theorem ensures_pure {a : α} (h : Q a s) : Ensures (pure a) s E Q := h

theorem ensures_get {Q : State → State → Prop} (h : Q s s) : Ensures get s E Q := h

theorem ensures_modify {Q : Unit → State → Prop} {f : State → State} (h : Q () (f s)) :
    Ensures (modify f) s E Q := h

theorem ensures_modifyGet {f : State → α × State} (h : Q (f s).1 (f s).2) :
    Ensures (modifyGet f) s E Q := h

theorem ensures_makeCell {Q : Cell → State → Prop} {content : Option Value}
    (h : Q s.cells.fresh { s with cells := s.cells.add content }) :
    Ensures (makeCell content) s E Q := h

theorem ensures_pushRecord {Q : Unit → State → Prop} {record : Record}
    (h : Q () { s with log := s.log.push record }) : Ensures (pushRecord record) s E Q := h

theorem ensures_replaceVariable {Q : Unit → State → Prop} {v : Variable}
    (h : Q () { s with vars := s.vars.replace v }) : Ensures (replaceVariable v) s E Q := h

theorem ensures_lift {x : Except Error α} (hok : ∀ a, x = .ok a → Q a s)
    (herror : ∀ e, x = .error e → E e s) : Ensures (liftM x) s E Q := by
  cases x with
  | ok a => exact hok a rfl
  | error e => exact herror e rfl

theorem Ensures.bind {step : Exec α} {next : α → Exec β} {Q : β → State → Prop}
    (h : Ensures step s E fun a t => Ensures (next a) t E Q) : Ensures (step >>= next) s E Q := by
  unfold Ensures at *
  rw [run_bind]
  cases hrun : s.run step with
  | mk result t =>
    rw [hrun] at h
    cases result with
    | ok a => exact h
    | error e => exact h

theorem Ensures.map {step : Exec α} {f : α → β} {Q : β → State → Prop}
    (h : Ensures step s E fun a t => Q (f a) t) : Ensures (f <$> step) s E Q := by
  rw [map_eq_pure_bind]
  exact Ensures.bind h

theorem Ensures.decorate {step : Exec α} {f : Error → Error}
    (h : Ensures step s (fun e t => E (f e) t) Q) : Ensures (decorate f step) s E Q := by
  unfold Ensures at *
  rw [run_decorate]
  cases hrun : s.run step with
  | mk result t =>
    rw [hrun] at h
    cases result with
    | ok a => exact h
    | error e => exact h

theorem Ensures.orUndo {step : Exec α} {undo : State → State}
    (h : Ensures step s (fun e t => E e (undo t)) Q) : Ensures (orUndo step undo) s E Q := by
  unfold Ensures at *
  rw [run_orUndo]
  cases hrun : s.run step with
  | mk result t =>
    rw [hrun] at h
    cases result with
    | ok a => exact h
    | error e => exact h

theorem run_inScope (vars : Variables) (imports : ImportTable) (step : Exec α) :
    s.run (inScope vars imports step) = ((s.nest vars imports).run step).map id s.resume := rfl

theorem Ensures.inScope {step : Exec α} {vars : Variables} {imports : ImportTable}
    (h : Ensures step (s.nest vars imports) (fun e t => E e (s.resume t))
      fun a t => Q a (s.resume t)) : Ensures (inScope vars imports step) s E Q := by
  unfold Ensures at *
  rw [run_inScope]
  cases hstep : (s.nest vars imports).run step with
  | mk result t =>
    rw [hstep] at h
    cases result with
    | ok a => exact h
    | error e => exact h

end Rules

end Exec

end Scripting
