import Scripting.Proofs.Settled

/-!
# Using a name and binding to it

A name is used in one way and bound to in another. A use reads the variable, whatever its slot
holds, and takes the result out of the cell. A binding does not look at the slot: it goes by the
cell that the variable came from, by the log, by functions, modules and maps, and shares the cell
where there is one. At rest the two agree, since a slot that was read holds what the cell holds and
no variable waits for a result. Both give the value of what the name stands for (`State.use`).
-/

namespace Scripting

open State

namespace State

/-- What the use of a token as a name comes to. -/
def use (s : State) (token : Token) : Except Error Value :=
  match (s.meaning? token.lexeme).bind (·.value? s.cells) with
  | some value => .ok value
  | none => .error (.locate (.notFound token.lexeme) token.span)

/-- The state after reads of the variables of some names, one after another. A read that fails is
passed over. -/
def readAll (s : State) : List String → State
  | [] => s
  | name :: names => readAll (s.run (Exec.readVariable name)).2 names

variable {D : Discipline} {s t : State}

theorem Sound.reads_readAll (hs : s.Sound D) (names : List String) :
    Advances D ∅ False s (s.readAll names) := by
  induction names generalizing s with
  | nil => exact hs.refl
  | cons name names ih =>
    have hread := (Exec.keeps_readVariable (X := ∅) (I := False) hs name).state
    exact hread.trans (ih hread.sound)

/-- Reads declare no variable. -/
theorem Sound.contains_readAll (hs : s.Sound D) {name : String} (h : s.vars.get? name = none)
    (names : List String) : (s.readAll names).vars.contains name = false := by
  have hview := (hs.reads_readAll names).view name (Set.notMem_empty name)
  rw [Variables.contains_eq_isSome, view_eq_none_iff.mp (hview.trans (view_eq_none_iff.mpr h))]
  rfl

/-- Reads change no value that a variable shows. -/
theorem Sound.shows_readAll (hs : s.Sound D) {name : String} {value : Value} {cell : Option Cell}
    (h : s.view name = some (some value, cell)) (names : List String) :
    ∃ v, (s.readAll names).vars.get? name = some v ∧
      v.peek (s.readAll names).cells = some value := by
  have hview := (hs.reads_readAll names).view name (Set.notMem_empty name)
  obtain ⟨v, hv, hpeek, -⟩ := exists_of_view_eq_some (hview.trans h)
  exact ⟨v, hv, hpeek⟩

/-! ## What names stand for at rest -/

/-- A variable stands for the value that it shows. -/
theorem Sound.exists_meaning_of_get? (hs : s.Sound D) {name : String} {v : Variable} {value : Value}
    (hv : s.vars.get? name = some v) (hpeek : v.peek s.cells = some value) :
    ∃ meaning, s.meaning? name = some meaning ∧ meaning.value? s.cells = some value := by
  have hmeaning : ∀ meaning, s.variableMeaning? name = some meaning →
      s.meaning? name = some meaning := fun meaning h => by
    rw [meaning?, plainMeaning?, h]; rfl
  cases hcell : v.cell with
  | some cell =>
    refine ⟨.cell cell, hmeaning _ ?_, ((hs.of_get? hv).peek_eq hcell).symm.trans hpeek⟩
    rw [variableMeaning?, hv]
    simp only [Option.bind_eq_bind, Option.bind_some, hcell]
    rfl
  | none =>
    refine ⟨.value value, hmeaning _ ?_, rfl⟩
    rw [variableMeaning?, hv]
    simp only [Option.bind_eq_bind, Option.bind_some, hcell, hpeek]
    rfl

/-- Nothing that a name stands for in a settled state is still to come. -/
theorem Sound.exists_value_of_meaning? (hs : s.Sound D) (hsettled : s.Settled) {name : String}
    {meaning : Meaning} (h : s.meaning? name = some meaning) :
    ∃ value, meaning.value? s.cells = some value := by
  cases meaning with
  | value value => exact ⟨value, rfl⟩
  | cell cell =>
    obtain ⟨r, hr, rfl⟩ := hs.exists_record_of_meaning? hsettled h
    exact Option.isSome_iff_exists.mp (hs.log.filled r hr)

theorem use_of_meaning? {token : Token} {meaning : Meaning} {value : Value}
    (h : s.meaning? token.lexeme = some meaning) (hvalue : meaning.value? s.cells = some value) :
    s.use token = .ok value := by
  rw [use, h, Option.bind_some, hvalue]

theorem use_of_meaning?_eq_none {token : Token} (h : s.meaning? token.lexeme = none) :
    s.use token = .error (.locate (.notFound token.lexeme) token.span) := by
  rw [use, h]
  rfl

end State

/-! ## The two ways -/

namespace Exec

variable {D : Discipline} {s : State} {token : Token}

theorem run_meaning {meaning : Meaning} (h : s.meaning? token.lexeme = some meaning) :
    s.run (Exec.meaning token) = (.ok meaning, s) := by
  unfold Exec.meaning
  rw [run_get_bind, h]
  rfl

theorem run_meaning_of_none (h : s.meaning? token.lexeme = none) :
    s.run (Exec.meaning token) = (.error (.locate (.notFound token.lexeme) token.span), s) := by
  unfold Exec.meaning
  rw [run_get_bind, h]
  rfl

/-- Using a name gives the value of what it stands for. -/
theorem use_of_nameValue (hs : s.Sound D) (hsettled : s.Settled) (token : Token) :
    (s.run (nameValue token)).1 = s.use token := by
  unfold nameValue
  rw [run_get_bind]
  split
  · next hcontains =>
    -- a variable is read, and shows something because it does not wait
    rw [Variables.contains_eq_isSome] at hcontains
    obtain ⟨v, hv⟩ := Option.isSome_iff_exists.mp hcontains
    obtain ⟨value, hpeek⟩ : ∃ value, v.peek s.cells = some value := by
      refine Option.ne_none_iff_exists'.mp fun hnone => hsettled token.lexeme ⟨v.cell, ?_⟩
      rw [view_eq_some hv, hnone]
    obtain ⟨meaning, hmeaning, hvalue⟩ := hs.exists_meaning_of_get? hv hpeek
    rw [run_decorate, run_readVariable hv hpeek, use_of_meaning? hmeaning hvalue]
  · rw [run_bind]
    cases hmeaning : s.meaning? token.lexeme with
    | none => rw [run_meaning_of_none hmeaning, use_of_meaning?_eq_none hmeaning]
    | some meaning =>
      obtain ⟨value, hvalue⟩ := hs.exists_value_of_meaning? hsettled hmeaning
      rw [run_meaning hmeaning, use_of_meaning? hmeaning hvalue]
      cases meaning with
      | value other =>
        cases hvalue
        rfl
      | cell cell =>
        have hcell : s.cells.get? cell = some value := hvalue
        dsimp only
        rw [run_get_bind, hcell]
        rfl

/-- Binding a new variable to a name gives it the value of what the name stands for. -/
theorem use_of_declare {invoke : Invoke} (hs : s.Sound D) (hsettled : s.Settled) (token : Token)
    {name : String} (hname : s.vars.contains name = false) (span : Span) :
    Ensures (declare invoke name (.reference token) span) s (fun e _ => s.use token = .error e)
      fun _ t => ∃ value cell, s.use token = .ok value ∧ t.view name = some (some value, cell) := by
  refine Ensures.bind (ensures_get ?_)
  rw [if_neg (by simp [hname]), if_neg (by simp [Expr.isCall])]
  refine Ensures.bind (Ensures.bind ?_)
  cases hmeaning : s.meaning? token.lexeme with
  | none =>
    exact ensures_of_run_error (run_meaning_of_none hmeaning) (use_of_meaning?_eq_none hmeaning)
  | some meaning =>
    obtain ⟨value, hvalue⟩ := hs.exists_value_of_meaning? hsettled hmeaning
    refine ensures_of_run (run_meaning hmeaning) ?_
    cases meaning with
    | value other =>
      cases hvalue
      refine ensures_pure (ensures_of_run (run_declareVariable hname) ?_)
      exact ⟨value, none, use_of_meaning? hmeaning rfl, view_declare s (.plain name value)⟩
    | cell cell =>
      refine Ensures.bind (ensures_modify (ensures_pure
        (ensures_of_run (run_declareVariable hname) ?_)))
      refine ⟨value, some cell, use_of_meaning? hmeaning hvalue, ?_⟩
      exact (view_declare s (.ofCell name cell)).trans
        (congrArg (fun v => some (v, some cell)) hvalue)

/-- An error of a use has a place already, so that it comes out of the statement as it is. -/
theorem use_of_statement (invoke : Invoke) (hs : s.Sound D) (hsettled : s.Settled)
    {token : Token} {name : String} (hname : s.vars.contains name = false) {st : Statement}
    (hst : st.form = .declare name (.reference token)) :
    Ensures (statement invoke st) s (fun e _ => s.use token = .error e) fun flow t =>
      flow = .goOn ∧ ∃ value cell, s.use token = .ok value ∧
        t.view name = some (some value, cell) := by
  rw [statement_eq, hst, formOf]
  refine Ensures.decorate (Ensures.bind
    ((use_of_declare hs hsettled token hname st.span).imp ?_ ?_))
  · intro e _ he
    have hspan : e.orAt st.span = e := by
      rw [use] at he
      split at he
      · cases he
      · cases he
        rfl
    rwa [hspan]
  · exact fun _ _ ht => ensures_pure ⟨rfl, ht⟩

end Exec

/-- Using a name and binding to it agree.

The state is one between two statements or two programs of a session, in any scope, after any reads
of its variables. A token that is a name can be used as an argument if and only if a new variable
can be bound to it. The variable then has the value that the use gives, and keeps it whatever is
read later. If the name cannot be used, the binding fails with the same error. -/
theorem binding_agrees_with_use {s : State} (hs : s.AtRest) (reads : List String) {token : Token}
    (htoken : token.kind = .identifier) {name : String} (hname : s.vars.get? name = none)
    (levels : Nat) {st : Statement} (hst : st.form = .declare name (.reference token)) :
    (∀ value, ((s.readAll reads).run (Exec.operand token)).1 = .ok value ↔
      ∃ t, (s.readAll reads).run (Exec.statement (callWithin levels) st) = (.ok .goOn, t) ∧
        ∀ later, ∃ v, (t.readAll later).vars.get? name = some v ∧
          v.peek (t.readAll later).cells = some value) ∧
    ∀ e, ((s.readAll reads).run (Exec.operand token)).1 = .error e ↔
      ((s.readAll reads).run (Exec.statement (callWithin levels) st)).1 = .error e := by
  have hread := hs.sound.reads_readAll reads
  have hnew := hs.sound.contains_readAll hname reads
  generalize s.readAll reads = u at hread hnew ⊢
  have hsettled : u.Settled :=
    hs.settled.of_advances hread fun x hx => absurd hx (Set.notMem_empty x)
  have huse : (u.run (Exec.operand token)).1 = u.use token := by
    rw [Exec.operand, htoken]
    exact Exec.use_of_nameValue hread.sound hsettled token
  have hbinds := Exec.use_of_statement (callWithin levels) hread.sound hsettled hnew hst
  have hforms : ∀ form ∈ st.form.forms, form.Standard := by
    rw [hst]
    exact List.forall_mem_singleton.mpr trivial
  have hkeeps := Exec.keeps_statement (sound_callWithin_ofLoaded levels) hforms hread.sound
    Exec.mayAssign_ofLoaded
  rw [huse]
  cases hrun : u.run (Exec.statement (callWithin levels) st) with
  | mk result t =>
    cases result with
    | error e =>
      rw [hbinds.of_error hrun]
      refine ⟨fun value => ⟨?_, ?_⟩, fun other => ⟨?_, ?_⟩⟩
      · rintro ⟨⟩
      · rintro ⟨_, ⟨⟩, -⟩
      · rintro ⟨⟩
        rfl
      · rintro ⟨⟩
        rfl
    | ok flow =>
      obtain ⟨rfl, value, cell, hok, hview⟩ := hbinds.of_ok hrun
      have hlater := (hkeeps.of_ok hrun).sound.shows_readAll hview
      rw [hok]
      refine ⟨fun other => ⟨?_, ?_⟩, fun e => ⟨?_, ?_⟩⟩
      · rintro ⟨⟩
        exact ⟨t, rfl, hlater⟩
      · rintro ⟨_, ⟨⟩, hother⟩
        obtain ⟨v, hv, hpeek⟩ := hlater []
        obtain ⟨w, hw, hother⟩ := hother []
        cases hv.symm.trans hw
        rw [Option.some.inj (hpeek.symm.trans hother)]
      · rintro ⟨⟩
      · rintro ⟨⟩

/-- The second of two variables that share a result, as it is used and bound to. -/
def sharedToken : Token where
  kind := .identifier
  lexeme := "b"

/-- A third variable that is to share the result with them. -/
def sharingStatement : Statement where
  form := .declare "c" (.reference sharedToken)
  span := {}
  scope := none
  exported := false

/-- A read has taken the result of the call out of its cell. Still a variable that is bound to the
cell later has the value that the use of the name gives. -/
theorem binding_agrees_with_use_after_read :
    ∃ m value t v, Moment.ofText? sharingText {} 2 = some m ∧
      (m.after.vars.get? "b").map Variable.isAlias = some true ∧
      ((m.after.readAll ["b"]).vars.get? "b").map Variable.isAlias = some false ∧
      ((m.after.readAll ["b"]).run (Exec.operand sharedToken)).1 = .ok value ∧
      value.text = "five" ∧
      (m.after.readAll ["b"]).run (Exec.statement (callWithin callLimit) sharingStatement) =
        (.ok .goOn, t) ∧
      t.vars.get? "c" = some v ∧ v.peek t.cells = some value := by
  have hrun : (Moment.ofText? sharingText {} 2).any (fun m => decide
      ((m.after.vars.get? "b").map Variable.isAlias = some true ∧
        ((m.after.readAll ["b"]).vars.get? "b").map Variable.isAlias = some false ∧
        (m.after.vars.get? "c").isNone ∧
        (((m.after.readAll ["b"]).run (Exec.operand sharedToken)).1.toOption.map Value.text) =
          some "five")) = true := by
    decide +kernel
  obtain ⟨m, hm, hfacts⟩ := (Option.any_eq_true _ _).mp hrun
  obtain ⟨halias, hread, hnew, hvalue⟩ := of_decide_eq_true hfacts
  obtain ⟨value, hvalue, htext⟩ := Option.map_eq_some_iff.mp hvalue
  have hkind : sharedToken.kind = .identifier := rfl
  have hform : sharingStatement.form = .declare "c" (.reference sharedToken) := rfl
  have hagrees := binding_agrees_with_use (.after (Moment.live_of_ofText? hm)) ["b"] hkind
    (Option.isNone_iff_eq_none.mp hnew) callLimit hform
  obtain ⟨t, ht, hshows⟩ := (hagrees.1 value).mp (eq_ok_of_toOption hvalue)
  obtain ⟨v, hv, hpeek⟩ := hshows []
  exact ⟨m, value, t, v, hm, halias, hread, eq_ok_of_toOption hvalue, htext, ht, hv, hpeek⟩

end Scripting
