import Scripting.Proofs.Conduct

/-!
# How bindings end

A declaration and an assignment bind a variable in one of three ways: it captures the result of a
call, it shares the cell that another name stands for, or it gets a value of its own. `Exec.Bound`
lists what each of them does to the state, and `Exec.Unbound` does so for the bindings that fail.
Everything that is said about bindings later on is read off these lists.

The two kinds of binding differ in how they put a variable into the scope (`Exec.Places`) and in how
they take it back. After an assignment the records of the log move along with the variable. In the
end a variable that is bound to a cell is published: the record of the cell answers to its name
(`State.Publishes`).
-/

namespace Scripting

open State

namespace State

variable {D : Discipline} {s : State}

/-- The variable waits for the result of a call. -/
def Waits (s : State) (name : String) : Prop := ∃ cell, s.view name = some (none, cell)

/-- No variable of the running scope waits for the result of a call. -/
def Settled (s : State) : Prop := ∀ name, ¬ s.Waits name

/-- The cells that names stand for in a settled state are those of records. -/
theorem Sound.exists_record_of_meaning? (hs : s.Sound D) (hsettled : s.Settled) {name : String}
    {cell : Cell} (h : s.meaning? name = some (.cell cell)) :
    ∃ r ∈ s.log.latestFirst, r.cell = cell := by
  rcases Exec.cell_of_meaning? h with ⟨v, hv, hcell⟩ | ⟨r, hr, hcell⟩
  · have hsound := hs.of_get? hv
    obtain ⟨value, hvalue⟩ : ∃ value, s.cells.get? cell = some value := by
      refine Option.ne_none_iff_exists'.mp fun hnone => hsettled name ⟨some cell, ?_⟩
      rw [view_eq_some hv, hsound.peek_eq hcell, hcell, hnone]
    exact hsound.recorded cell value hcell hvalue
  · exact ⟨r, List.mem_of_find?_eq_some hr, hcell⟩

/-- Variables were read on the way from `s` to `t`, and nothing else was done. -/
structure Reads (D : Discipline) (s t : State) : Prop where
  advances : Advances D ∅ False s t
  cells : t.cells = s.cells
  functions : t.functions = s.functions
  log : t.log = s.log

theorem view_of_ofCell {name : String} {cell : Cell}
    (h : s.vars.get? name = some (.ofCell name cell)) :
    s.view name = some (s.cells.get? cell, some cell) := view_eq_some h

theorem Sound.reads (hs : s.Sound D) : Reads D s s := ⟨hs.refl, rfl, rfl, rfl⟩

end State

/-! ## The outcomes -/

/-- The variables with another one in front of them. -/
def Variables.prepend (vars : Variables) (v : Variable) : Variables :=
  { entries := v :: vars.entries }

/-- The state in which the call of a capture runs: its variable is bound to a fresh cell. -/
def State.await (s : State) (place : Variables → Variable → Variables) (name : String) : State :=
  { s with
    cells := s.cells.add none
    vars := place s.vars (.ofCell name s.cells.fresh) }

/-- The value of what a name stands for, if it is there yet. -/
def Meaning.value? (cells : Cells) : Meaning → Option Value
  | .value known => some known
  | .cell c => cells.get? c

namespace Exec

/-- The value that an expression gives to a variable that is bound to it. A name gives what it stands
for. A call is run when the variable is bound to the cell for its result already. -/
def Gives (invoke : Invoke) (place : Variables → Variable → Variables) (name : String) (s : State)
    (value : Value) : Expr → Prop
  | .reference token => (s.meaning? token.lexeme).bind (·.value? s.cells) = some value
  | expr => ∃ u, (if expr.isCall then s.await place name else s).run (evaluate invoke expr) =
      (.ok value, u)

section Outcomes

variable (D : Discipline) (invoke : Invoke) (place : Variables → Variable → Variables)
  (name : String) (expr : Expr) (s : State)

/-- The states that a binding which succeeds can lead to. -/
inductive Bound : State → Prop
  /-- The result of a call is put into the cell that the variable is bound to. -/
  | captured {value : Value} {u : State} (hcall : expr.isCall = true)
      (hvalue : (s.await place name).run (evaluate invoke expr) = (.ok value, u)) :
      Bound { u with
        cells := u.cells.fill s.cells.fresh value
        log := u.log.push
          { name := label expr, cell := s.cells.fresh, owner := some name, span := expr.span } }
  /-- The variable shares the cell that another name stands for. -/
  | shared {token : Token} {cell : Cell} (hexpr : expr = .reference token)
      (hmeaning : s.meaning? token.lexeme = some (.cell cell)) :
      Bound { s with
        log := s.log.addAlias cell name
        vars := place s.vars (.ofCell name cell) }
  /-- The variable gets a value of its own. -/
  | plain {value : Value} {u : State} (hread : Reads D s u)
      (hvalue : Gives invoke place name s value expr) :
      Bound { u with vars := place u.vars (.plain name value) }

/-- The errors and states that a binding which fails can lead to. -/
inductive Unbound (undo : Variables → Variables) : Error → State → Prop
  /-- The call fails, and the binding is taken back. -/
  | reverted {e : Error} {u : State} (hcall : expr.isCall = true)
      (herror : (s.await place name).run (evaluate invoke expr) = (.error e, u)) :
      Unbound undo e { u with vars := undo u.vars }
  /-- There is no binding to take back. -/
  | refused {e : Error} {u : State} (hread : Reads D s u) : Unbound undo e u

end Outcomes

variable {D : Discipline} {s t : State} {invoke : Invoke} {name : String} {expr : Expr}
  {place : Variables → Variable → Variables}

/-! ## Reading -/

/-- Only the scope and the console were changed on the way from `s` to `t`. -/
def OnlyScope (s t : State) : Prop :=
  t.cells = s.cells ∧ t.functions = s.functions ∧ t.log = s.log

theorem allows_onlyScope (spans : List Span) : (Conduct.ofMoves OnlyScope).Allows spans where
  refl _ := ⟨rfl, rfl, rfl⟩
  trans _ _ _ h h' := ⟨h'.1.trans h.1, h'.2.1.trans h.2.1, h'.2.2.trans h.2.2⟩
  settle _ _ _ _ _ _ := ⟨rfl, rfl, rfl⟩
  raw _ _ := trivial
  orAt _ _ _ _ := trivial

theorem allowsWriting_onlyScope : (Conduct.ofMoves OnlyScope).AllowsWriting where
  console _ _ := ⟨rfl, rfl, rfl⟩
  assign _ _ _ := ⟨rfl, rfl, rfl⟩

theorem reads_readVariable (hs : s.Sound D) (name : String) :
    Ensures (readVariable name) s (fun _ t => Reads D s t) fun _ t => Reads D s t := by
  refine ((ensures_readVariable hs name).and
    (follows_readVariable (allows_onlyScope []) name)).imp ?_ ?_
  · rintro _ _ ⟨rfl, -⟩
    exact hs.reads
  · rintro _ t ⟨⟨ht, -⟩, hcells, hfunctions, hlog⟩
    exact ⟨ht, hcells, hfunctions, hlog⟩

theorem scanned_of_not_isCall (h : ¬ expr.isCall = true) : expr.scanned = ∅ := by
  cases expr with
  | literal | reference | call => rfl
  | access access => exact Access.scanned_none (by simpa [Expr.isCall] using h)

/-- An expression that is no call reads variables at most. -/
theorem reads_evaluate (hinvoke : invoke.Sound D) (hs : s.Sound D) (h : ¬ expr.isCall = true) :
    Ensures (evaluate invoke expr) s (fun _ t => Reads D s t) fun _ t => Reads D s t := by
  have hadvances := ensures_evaluate hinvoke hs expr
  rw [scanned_of_not_isCall h] at hadvances
  have hcalls : CallsFollow (.ofMoves OnlyScope) invoke (expr.invocations invoke s) := by
    rw [invocations_of_not_isCall h]
    exact fun i hi => absurd hi List.not_mem_nil
  refine (hadvances.and (traces_evaluate (allows_onlyScope expr.spans) allowsWriting_onlyScope
    hs.imports (List.Subset.refl _) hcalls).follows).imp ?_ ?_
  · rintro _ t ⟨ht, ⟨hcells, hfunctions, hlog⟩, -⟩
    exact ⟨ht, hcells, hfunctions, hlog⟩
  · rintro _ t ⟨ht, hcells, hfunctions, hlog⟩
    exact ⟨ht, hcells, hfunctions, hlog⟩

/-- Apart from names, all expressions are evaluated. -/
theorem gives_iff (hname : ∀ token, expr ≠ .reference token) {value : Value} :
    Gives invoke place name s value expr ↔
      ∃ u, (if expr.isCall then s.await place name else s).run (evaluate invoke expr) =
        (.ok value, u) := by
  cases expr with
  | reference token => exact absurd rfl (hname token)
  | _ => rfl

theorem gives_of_not_isCall (hcall : ¬ expr.isCall = true)
    (hname : ∀ token, expr ≠ .reference token) {value : Value} {u : State}
    (h : s.run (evaluate invoke expr) = (.ok value, u)) :
    Gives invoke place name s value expr := by
  rw [gives_iff hname, if_neg hcall]
  exact ⟨u, h⟩

theorem run_evaluate_literal {token : Token} {value : Value}
    (h : Value.ofLiteral token = .ok value) :
    s.run (evaluate invoke (.literal token)) = (.ok value, s) := by
  have hoperand : operand token = liftM (Value.ofLiteral token) := by
    unfold operand
    cases hkind : token.kind with
    | string | number | boolean => rfl
    | _ =>
      rw [Value.ofLiteral, hkind] at h
      cases h
  have hvalue : evaluate? invoke (.literal token) = some <$> operand token := rfl
  unfold evaluate
  rw [hvalue, hoperand, h]
  rfl

theorem reference_cases (hs : s.Sound D) (token : Token) (undo : Variables → Variables) :
    Ensures (reference name token) s (Unbound D invoke place name (.reference token) s undo)
      fun v t => v.name = name ∧ t.vars = s.vars ∧
        Bound D invoke place name (.reference token) s { t with vars := place t.vars v } := by
  refine Ensures.bind (Ensures.bind (ensures_get ?_))
  split
  · next meaning hmeaning =>
    refine ensures_pure ?_
    split
    · refine ⟨rfl, rfl, .plain hs.reads ?_⟩
      rw [Gives, hmeaning]
      rfl
    · exact Ensures.bind (ensures_modify ⟨rfl, rfl, .shared rfl hmeaning⟩)
  · exact .refused hs.reads

/-- The capture for a variable that is bound to the fresh cell already. -/
theorem capture_cases (D : Discipline) (invoke : Invoke) (place : Variables → Variable → Variables)
    (name : String) (s : State) (hcall : expr.isCall = true) (undo : Variables → Variables) :
    Ensures (orUndo (capture invoke name s.cells.fresh expr) fun state =>
        { state with vars := undo state.vars }) (s.await place name)
      (Unbound D invoke place name expr s undo) fun _ t => Bound D invoke place name expr s t := by
  refine Ensures.orUndo ?_
  cases hrun : (s.await place name).run (evaluate invoke expr) with
  | mk result u =>
    unfold Ensures capture
    rw [run_bind, hrun]
    cases result with
    | ok value => exact .captured hcall hrun
    | error e => exact .reverted hcall hrun

/-! ## Declarations and assignments -/

theorem run_declareVariable {v : Variable} (h : s.vars.contains v.name = false) :
    s.run (declareVariable v) = (.ok (), { s with vars := s.vars.prepend v }) := by
  unfold declareVariable
  rw [run_get_bind, Variables.declare, h]
  rfl

theorem declare_cases (hinvoke : invoke.Sound D) (hs : s.Sound D) (name : String) (expr : Expr)
    (span : Span) :
    Ensures (declare invoke name expr span) s
      (Unbound D invoke .prepend name expr s (·.remove name)) fun _ t =>
        s.view name = none ∧ Bound D invoke .prepend name expr s t := by
  refine Ensures.bind (ensures_get ?_)
  split
  · exact .refused hs.reads
  · next hcontains =>
    have hnew : s.vars.contains name = false := by simpa using hcontains
    have hname : s.view name = none :=
      view_eq_none_iff.mpr (Variables.get?_eq_none_of_contains hnew)
    split
    · next hcall =>
      refine Ensures.bind (ensures_makeCell ?_)
      refine Ensures.bind (ensures_of_run (run_declareVariable hnew) ?_)
      have hcapture := capture_cases D invoke .prepend name s hcall (·.remove name)
      exact hcapture.imp (fun _ _ h => h) fun _ _ h => ⟨hname, h⟩
    · next hcall =>
      split
      · refine Ensures.bind ((reference_cases hs _ _).imp (fun _ _ h => h) ?_)
        rintro v t ⟨rfl, hvars, hbound⟩
        exact ensures_of_run (run_declareVariable (hvars ▸ hnew)) ⟨hname, hbound⟩
      · next hother =>
        refine Ensures.bind (((reads_evaluate hinvoke hs hcall).and (ensures_run _ s)).imp
          (fun _ _ h => .refused h.1) ?_)
        rintro value t ⟨ht, hrun⟩
        refine ensures_of_run (run_declareVariable ?_)
          ⟨hname, .plain ht (gives_of_not_isCall hcall hother hrun)⟩
        rw [← ht.advances.view name (Set.notMem_empty name), view_eq_none_iff] at hname
        rw [Variables.contains_eq_isSome]
        exact hname ▸ rfl

/-- A variable is given a value after it has been read at most. -/
theorem assignVariable_cases (hread : Reads D s t) {value : Value}
    (hvalue : Gives invoke .replace name s value expr) (undo : Variables → Variables) :
    Ensures (assignVariable name value) t (Unbound D invoke .replace name expr s undo) fun _ u =>
      Bound D invoke .replace name expr s u := by
  refine Ensures.bind (ensures_get (Ensures.bind (ensures_lift ?_ fun _ _ => .refused hread)))
  intro vars hassign
  unfold Variables.assign at hassign
  split at hassign
  · cases hassign
    exact .plain hread hvalue
  · cases hassign

theorem rebind_cases (hinvoke : invoke.Sound D) (hs : s.Sound D) (name : String) (expr : Expr)
    (previous : Variable) :
    Ensures (rebind invoke name previous expr) s
      (Unbound D invoke .replace name expr s (·.replace previous)) fun _ t =>
        Bound D invoke .replace name expr s t := by
  unfold rebind
  split
  · next hcall =>
    refine Ensures.bind (ensures_makeCell (Ensures.bind (ensures_replaceVariable ?_)))
    exact capture_cases D invoke .replace name s hcall (·.replace previous)
  · next hcall =>
    split
    · refine Ensures.bind (ensures_lift (fun value hvalue => ?_) fun _ _ => .refused hs.reads)
      refine Ensures.bind ((reads_readVariable hs name).imp (fun _ _ h => .refused h) ?_)
      intro current t ht
      split
      · exact .refused ht
      · exact assignVariable_cases ht
          (gives_of_not_isCall hcall nofun (run_evaluate_literal hvalue)) _
    · refine Ensures.bind ((reference_cases hs _ _).imp (fun _ _ h => h) ?_)
      rintro v t ⟨rfl, -, hbound⟩
      exact ensures_replaceVariable hbound
    · next _ hother =>
      refine Ensures.bind (((reads_evaluate hinvoke hs hcall).and (ensures_run _ s)).imp
        (fun _ _ h => .refused h.1) ?_)
      exact fun value t ht =>
        assignVariable_cases ht.1 (gives_of_not_isCall hcall hother ht.2) _

/-! ## What a bound variable is -/

/-- A way to put a variable of the name into scopes in which the name stands for what it stands for
in `s`. -/
structure Places (D : Discipline) (place : Variables → Variable → Variables) (name : String)
    (s : State) : Prop where
  advances : ∀ {u : State} {v : Variable}, u.Sound D → v.Sound u.cells u.log → v.name = name →
    Advances D {name} False u { u with vars := place u.vars v }
  get? : ∀ {u : State} {v : Variable}, v.name = name → u.view name = s.view name →
    (place u.vars v).get? name = some v

theorem places_prepend (howns : D.Owns name) : Places D .prepend name s where
  advances hu hv hname := hu.declare hv hname (hname ▸ howns)
  get? {u v} hname _ := by
    rw [Variables.prepend, Variables.get?_cons, if_pos hname]

theorem places_replace (hthere : s.view name ≠ none) : Places D .replace name s where
  advances hu hv hname := hu.replace hv hname
  get? {u v} hname hview := by
    rw [← hview] at hthere
    obtain ⟨old, hold⟩ := Option.ne_none_iff_exists'.mp (mt view_eq_none_iff.mpr hthere)
    subst hname
    exact Variables.get?_replace_self hold

theorem Places.advances_await (h : Places D place name s) (hs : s.Sound D) :
    Advances D {name} False s (s.await place name) := by
  have hcell := hs.addCell (X := {name}) (I := False) none
  exact hcell.trans (h.advances hcell.sound (Variable.sound_pending s.cells s.log name) rfl)

theorem Places.view_await (h : Places D place name s) (hs : s.Sound D) :
    (s.await place name).view name = some (none, some s.cells.fresh) := by
  have hcell := hs.addCell (X := ∅) (I := False) none
  have hget := h.get? (v := .ofCell name s.cells.fresh) rfl
    (hcell.view name (Set.notMem_empty name))
  rw [view_of_ofCell hget]
  exact congrArg (fun value => some (value, _)) (Cells.get?_add_fresh s.cells none)

end Exec

/-- After the binding of a variable it holds a value. Either it is bound to a cell, and the record
of the cell answers to its name, or no other record answers to its name than before. -/
def State.Publishes (s : State) (name : String) (t : State) : Prop :=
  (∃ value cell, t.view name = some (some value, some cell) ∧ t.log.binds cell name = true) ∨
    ∃ value, t.view name = some (some value, none) ∧ t.functions = s.functions ∧
      ∀ c, t.log.binds c name = true ↔ s.log.binds c name = true

theorem State.Publishes.not_waits {name : String} {s t : State} (h : s.Publishes name t) :
    ¬ t.Waits name := by
  rintro ⟨cell, hwaits⟩
  rcases h with ⟨value, _, hview, -⟩ | ⟨value, hview, -⟩
  · cases hview.symm.trans hwaits
  · cases hview.symm.trans hwaits

namespace Exec

variable {D : Discipline} {s t : State} {invoke : Invoke} {name : String} {expr : Expr}
  {place : Variables → Variable → Variables}

theorem Bound.publishes (h : Bound D invoke place name expr s t) (hplaces : Places D place name s)
    (hinvoke : invoke.Sound D) (hs : s.Sound D) (hsettled : s.Settled) :
    s.Publishes name t := by
  cases h with
  | @captured value u hcall hvalue =>
    have hawait := hplaces.advances_await hs
    have hu := (ensures_evaluate hinvoke hawait.sound expr).of_ok hvalue
    have hview := (hu.view name (Set.notMem_empty name)).trans (hplaces.view_await hs)
    have hhas : u.cells.Has s.cells.fresh :=
      hu.cells.has (Cells.has_add_fresh s.cells none)
    refine .inl ⟨value, s.cells.fresh, view_complete hview hu.sound hhas _, ?_⟩
    exact ReturnLog.binds_push.mpr (.inl ⟨rfl, Record.answersTo_iff.mpr (.inl rfl)⟩)
  | @shared token cell hexpr hmeaning =>
    obtain ⟨r, hr, rfl⟩ := hs.exists_record_of_meaning? hsettled hmeaning
    obtain ⟨value, hvalue⟩ := Option.isSome_iff_exists.mp (hs.log.filled r hr)
    refine .inl ⟨value, r.cell, ?_, ReturnLog.binds_addAlias.mpr (.inr ⟨rfl, rfl, r, hr, rfl⟩)⟩
    have hget := hplaces.get? (u := s) (v := .ofCell name r.cell) rfl rfl
    rw [view_of_ofCell hget]
    exact congrArg (fun value => some (value, _)) hvalue
  | @plain value u hread =>
    have hget := hplaces.get? (v := .plain name value) rfl
      (hread.advances.view name (Set.notMem_empty name))
    refine .inr ⟨value, ?_, hread.functions, fun c => ?_⟩
    · rw [view_eq_some hget]
      rfl
    · show u.log.binds c name = true ↔ _
      rw [hread.log]

/-- A variable that gets a cell of its own shows the value that it held. -/
theorem view_republish {v : Variable} (hv : t.vars.get? name = some v) (value : Value)
    (log : ReturnLog) :
    ({ t with
      vars := (t.vars.replace (v.settle value)).replace (.ofCell name t.cells.fresh)
      cells := t.cells.add (some value)
      log } : State).view name = some (some value, some t.cells.fresh) := by
  have hname : v.name = name := Variables.name_of_get? hv
  have hself : (t.vars.replace (v.settle value)).get? name = some (v.settle value) := by
    have hget := Variables.get?_replace_self (v := v.settle value) (hname.symm ▸ hv)
    rwa [Variable.name_settle, hname] at hget
  have hget := Variables.get?_replace_self (v := .ofCell name t.cells.fresh) hself
  rw [view_of_ofCell hget]
  exact congrArg (fun value => some (value, _)) (Cells.get?_add_fresh t.cells (some value))

/-- Moving the records takes the name away from the previous cell of the variable, but not from the
cell that it is bound to now. -/
theorem publishes_moveRecords (ht : t.Sound D) (h : s.Publishes name t) (previous : Cell)
    (span : Span) :
    Ensures (moveRecords name previous span) t (fun _ _ => False)
      fun _ u => s.Publishes name u := by
  have hthere : t.view name ≠ none := by
    rcases h with ⟨value, cell, hview, -⟩ | ⟨value, hview, -⟩
    · exact hview ▸ Option.some_ne_none _
    · exact hview ▸ Option.some_ne_none _
  refine (moveRecords_cases ht hthere previous span).imp (fun _ _ h => h) ?_
  rintro _ u (⟨-, rfl⟩ | ⟨hmoved, hunbound, rfl⟩ | ⟨-, v, value, hv, hpeek, rfl⟩)
  · exact h
  · rcases h with ⟨value, cell, hview, hbinds⟩ | ⟨value, hview, hfunctions, hbinds⟩
    · refine .inl ⟨value, cell, hview, ReturnLog.binds_release.mpr ⟨hbinds, ?_⟩⟩
      rintro ⟨rfl, -⟩
      exact hmoved (by rw [cell?_eq, hview]; rfl)
    · have hfree := hunbound (by rw [cell?_eq, hview]; rfl)
      refine .inr ⟨value, hview, hfunctions, fun c => ?_⟩
      rw [← hbinds c]
      refine ReturnLog.binds_release.trans (and_iff_left_of_imp fun hc => ?_)
      rintro ⟨rfl, -⟩
      exact hfree hc
  · refine .inl ⟨value, t.cells.fresh, view_republish hv value _, ?_⟩
    exact ReturnLog.binds_push.mpr (.inl ⟨rfl, Record.answersTo_iff.mpr (.inl rfl)⟩)

theorem publishes_declare (hinvoke : invoke.Sound D) (hs : s.Sound D) (hsettled : s.Settled)
    (howns : D.Owns name) (expr : Expr) (span : Span) :
    Ensures (declare invoke name expr span) s (fun _ _ => True) fun _ t => s.Publishes name t :=
  (declare_cases hinvoke hs name expr span).imp (fun _ _ _ => trivial) fun _ _ h =>
    h.2.publishes (places_prepend howns) hinvoke hs hsettled

/-- What an assignment that fails can lead to, and what one that succeeds makes of its variable. -/
theorem assign_cases (hinvoke : invoke.Sound D) (hs : s.Sound D) (hsettled : s.Settled)
    (howns : D.Owns name) (expr : Expr) (span : Span) :
    Ensures (assign invoke name expr span) s
      (Unbound D invoke .replace name expr s fun vars =>
        (s.vars.get? name).elim vars vars.replace) fun _ t => s.Publishes name t := by
  refine Ensures.bind (ensures_get ?_)
  cases hprevious : s.vars.get? name with
  | none => exact .refused hs.reads
  | some previous =>
    have hthere : s.view name ≠ none := view_eq_some hprevious ▸ Option.some_ne_none _
    have hrebind := (rebind_cases hinvoke hs name expr previous).and
      (ensures_rebind hinvoke hs howns hprevious expr)
    refine Ensures.bind (hrebind.imp (fun _ _ h => h.1) ?_)
    rintro _ t ⟨hbound, ht, -⟩
    have hpublishes := hbound.publishes (places_replace hthere) hinvoke hs hsettled
    split
    · exact (publishes_moveRecords ht.sound hpublishes _ span).imp (fun _ _ h => h.elim)
        fun _ _ h => h
    · exact hpublishes

end Exec

end Scripting
