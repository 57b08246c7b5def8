import Scripting.Proofs.Evaluation

/-!
# Declarations and assignments

Binding a variable changes that variable and no other. Where the value comes from a call, the variable
is bound to a pending cell while the call runs. If the call gives a value, the cell is filled and
recorded, and the binding is complete; if not, the variable becomes what it was before. So a binding
that fails has changed nothing that can be seen, unless the expression was a call of `IO.scan`.
-/

namespace Scripting

open State

namespace State

variable {D : Discipline} {X : Set String} {I : Prop} {s t u : State} {name : String}

theorem view_declare (s : State) (v : Variable) :
    view { s with vars := { entries := v :: s.vars.entries } } v.name =
      some (v.peek s.cells, v.cell) := by
  unfold view
  rw [Variables.get?_cons, if_pos rfl]
  rfl

theorem view_replace {v : Variable} (h : s.view v.name ≠ none) :
    view { s with vars := s.vars.replace v } v.name = some (v.peek s.cells, v.cell) := by
  obtain ⟨old, hold⟩ := Option.ne_none_iff_exists'.mp (mt view_eq_none_iff.mpr h)
  unfold view
  rw [Variables.get?_replace, if_pos rfl, hold]
  rfl

/-- The variable that a capture was made for, after its cell is filled. -/
theorem view_complete {cell : Cell} {value : Value} (h : s.view name = some (none, some cell))
    (hs : s.Sound D) (hhas : s.cells.Has cell) (log : ReturnLog) :
    view { s with cells := s.cells.fill cell value, log } name = some (some value, some cell) := by
  obtain ⟨v, hv, hpeek, hcell⟩ := exists_of_view_eq_some h
  unfold view
  rw [hv, Option.map_some, hcell]
  congr 2
  rcases hslot : v.slot with value' | cell'
  · rw [Variable.peek, hslot] at hpeek
    cases hpeek
  · have heq := ((hs.of_get? hv).slot cell' hslot).symm.trans hcell
    cases heq
    rw [Variable.peek, hslot]
    exact Cells.get?_fill_self hhas value

/-- A variable gets a cell and a record of its own. -/
theorem Sound.republish (h : s.Sound D) {name : String} (howns : D.Owns name) (value : Value)
    (span : Span) :
    Advances D {name} I s
      { s with
        vars := s.vars.replace (.ofCell name s.cells.fresh)
        cells := s.cells.add (some value)
        log := s.log.push { name, cell := s.cells.fresh, owner := some name, span } } := by
  -- the record comes first here, so that the variable finds its cell in the log
  have hrecord := h.addRecord (X := {name}) (I := I) value
    (r := { name, cell := s.cells.fresh, owner := some name, span }) rfl
    (fun owner howner => Option.some.inj howner ▸ howns) rfl
  refine hrecord.trans (hrecord.sound.replace ?_ rfl)
  exact Variable.sound_ofCell (Cells.has_add_fresh _ _) fun _ _ => ⟨_, List.mem_cons_self, rfl⟩

/-- Taking back a declaration leaves what was there before it. -/
theorem Advances.undeclare (h : Advances D {name} I s t) (hname : s.view name = none)
    (hu : Advances D X I t u) :
    Advances D X I s { u with vars := u.vars.remove name } where
  sound :=
    { log := hu.sound.log
      vars := fun v hv => hu.sound.vars v (Variables.mem_remove hv)
      functions := hu.sound.functions
      imports := hu.sound.imports }
  cells := h.cells.trans hu.cells
  log := h.log.trans hu.log
  functions := h.functions.trans hu.functions
  imports hI := (hu.imports hI).trans (h.imports hI)
  view other hother := by
    show ((u.vars.remove name).get? other).map _ = _
    rw [Variables.get?_remove]
    split
    · next heq => rw [heq, hname]; rfl
    · next hne => exact (hu.view other hother).trans (h.view other hne)
  law := D.law_trans _ _ _ h.law hu.law
  created other howns hother := by
    have hget := view_eq_none_iff.mp (hu.created other howns (h.created other howns hother))
    refine view_eq_none_iff.mpr ?_
    show (u.vars.remove name).get? other = none
    rw [Variables.get?_remove, hget]
    split <;> rfl

/-- Putting a variable back leaves what was there before it was bound anew. -/
theorem Advances.restore {previous : Variable} (h : Advances D {name} I s t)
    (hs : s.Sound D) (hprevious : s.vars.get? name = some previous)
    (hbound : t.view name ≠ none) (hu : Advances D X I t u) :
    Advances D X I s { u with vars := u.vars.replace previous } where
  sound :=
    { log := hu.sound.log
      vars := by
        intro v hv
        rcases Variables.mem_replace hv with rfl | hv
        · exact (hs.of_get? hprevious).mono (h.cells.trans hu.cells) (h.log.trans hu.log)
        · exact hu.sound.vars v hv
      functions := hu.sound.functions
      imports := hu.sound.imports }
  cells := h.cells.trans hu.cells
  log := h.log.trans hu.log
  functions := h.functions.trans hu.functions
  imports hI := (hu.imports hI).trans (h.imports hI)
  view other hother := by
    have hpname := Variables.name_of_get? hprevious
    by_cases heq : other = name
    · subst heq
      have hthere : u.view previous.name ≠ none := by
        rw [hpname, hu.view other hother]
        exact hbound
      have hview := view_replace hthere
      rw [hpname] at hview
      rw [hview, view_eq_some hprevious,
        (hs.of_get? hprevious).peek_extends (h.cells.trans hu.cells)]
    · show ((u.vars.replace previous).get? other).map _ = _
      rw [Variables.get?_replace, hpname, if_neg heq]
      exact (hu.view other hother).trans (h.view other heq)
  law := D.law_trans _ _ _ h.law hu.law
  created other howns hother := by
    have hget := view_eq_none_iff.mp (hu.created other howns (h.created other howns hother))
    exact view_eq_none_iff.mpr (Variables.get?_replace_eq_none hget previous)

end State

namespace Exec

variable {D : Discipline} {X : Set String} {I : Prop} {s t : State} {invoke : Invoke}

/-- A variable is declared by putting it in front, if there is none of its name. -/
theorem ensures_declareVariable_eq (v : Variable) :
    Ensures (declareVariable v) s (fun _ t => t = s) fun _ t =>
      s.view v.name = none ∧ t = { s with vars := { entries := v :: s.vars.entries } } := by
  refine Ensures.bind (ensures_get ?_)
  refine Ensures.bind (ensures_lift ?_ fun _ _ => rfl)
  intro vars hdeclare
  unfold Variables.declare at hdeclare
  split at hdeclare
  · cases hdeclare
  · next hcontains =>
    cases hdeclare
    refine ⟨?_, rfl⟩
    rw [view_eq_none_iff]
    exact Variables.get?_eq_none_of_contains (by simpa using hcontains)

theorem ensures_declareVariable (hs : s.Sound D) {v : Variable} (howns : D.Owns v.name)
    (hv : v.Sound s.cells s.log) :
    Ensures (declareVariable v) s (fun _ t => t = s) fun _ t =>
      s.view v.name = none ∧ Advances D {v.name} False s t ∧
        t.view v.name = some (v.peek s.cells, v.cell) := by
  refine (ensures_declareVariable_eq v).imp (fun _ _ h => h) ?_
  rintro _ _ ⟨hname, rfl⟩
  exact ⟨hname, hs.declare hv rfl howns, view_declare s v⟩

/-- A name that stands for a cell does so as a variable or by the log. -/
theorem cell_of_meaning? {token : String} {cell : Cell} (h : s.meaning? token = some (.cell cell)) :
    (∃ v, s.vars.get? token = some v ∧ v.cell = some cell) ∨
      ∃ r, s.log.find? token = some r ∧ r.cell = cell := by
  unfold State.meaning? State.plainMeaning? at h
  cases hvariable : s.variableMeaning? token with
  | some meaning =>
    rw [hvariable] at h
    cases h
    unfold State.variableMeaning? at hvariable
    obtain ⟨v, hv, hmeaning⟩ := Option.bind_eq_some_iff.mp hvariable
    refine .inl ⟨v, hv, ?_⟩
    split at hmeaning
    · next c hcell =>
      cases hmeaning
      exact hcell
    · obtain ⟨value, -, hvalue⟩ := Option.bind_eq_some_iff.mp hmeaning
      cases hvalue
  | none =>
    rw [hvariable] at h
    cases hrecord : s.log.find? token with
    | some r =>
      rw [hrecord] at h
      cases h
      exact .inr ⟨r, rfl, rfl⟩
    | none =>
      rw [hrecord] at h
      -- what is left are functions, exports and fields, which stand for values
      cases hfunction : s.function? token with
      | some declaration =>
        rw [hfunction] at h
        cases h
      | none =>
        rw [hfunction] at h
        cases hexport : s.exportMeaning? token with
        | some meaning =>
          rw [hexport] at h
          cases h
          unfold State.exportMeaning? at hexport
          obtain ⟨⟨module, item⟩, -, hitem⟩ := Option.bind_eq_some_iff.mp hexport
          cases item with
          | field value => cases hitem
          | function native => cases hitem
        | none =>
          rw [hexport] at h
          obtain ⟨value, -, hvalue⟩ := Option.map_eq_some_iff.mp h
          cases hvalue

theorem sound_of_meaning? (hs : s.Sound D) {token : String} {cell : Cell}
    (h : s.meaning? token = some (.cell cell)) (name : String) :
    (Variable.ofCell name cell).Sound s.cells s.log := by
  rcases cell_of_meaning? h with ⟨v, hv, hcell⟩ | ⟨r, hr, rfl⟩
  · have hsound := hs.of_get? hv
    exact Variable.sound_ofCell (hsound.has cell hcell) fun value => hsound.recorded cell value hcell
  · have hmem := List.mem_of_find?_eq_some hr
    exact Variable.sound_ofCell (hs.has_of_mem hmem) fun _ _ => ⟨r, hmem, rfl⟩

/-- Making a variable out of a name leaves the scope as it is. -/
theorem ensures_reference (hs : s.Sound D) {name : String} (howns : D.Owns name)
    (token : Token) :
    Ensures (reference name token) s (fun _ t => t = s) fun v t =>
      Advances D ∅ False s t ∧ t.vars = s.vars ∧ v.name = name ∧ v.Sound t.cells t.log := by
  refine Ensures.bind (Ensures.bind (ensures_get ?_))
  split
  · next meaning hmeaning =>
    refine ensures_pure ?_
    split
    · exact ⟨hs.refl, rfl, rfl, Variable.sound_plain _ _⟩
    · next cell =>
      refine Ensures.bind (ensures_modify ?_)
      have halias := hs.addAlias (X := ∅) (I := False) cell howns
      exact ⟨halias, rfl, rfl, halias.sound_variable (sound_of_meaning? hs hmeaning name)⟩
  · exact rfl

/-! ## Captures -/

/-- A call that is run for a variable that is bound to a pending cell already. Here `s` is the state
before the binding, which knows neither the cell nor the binding. -/
theorem ensures_capture (hinvoke : invoke.Sound D) (hs : s.Sound D) {owner : String}
    (howns : D.Owns owner) {cell : Cell} (h : Advances D {owner} False s t) (hnew : ¬ s.cells.Has cell)
    (hhas : t.cells.Has cell) (hpending : t.cells.get? cell = none)
    (howner : t.view owner = some (none, some cell)) (expr : Expr) :
    Ensures (capture invoke owner cell expr) t
      (fun _ u => Advances D expr.scanned False t u) fun _ u =>
        Advances D {owner} False s u ∧
          ∃ value, u.view owner = some (some value, some cell) := by
  refine Ensures.bind ((ensures_evaluate hinvoke h.sound expr).imp (fun _ _ hu => hu) ?_)
  intro value u hu
  refine Ensures.bind (ensures_modify (ensures_pushRecord ?_))
  have hpending' : u.cells.get? cell = none := (hu.cells.get?_eq hhas).trans hpending
  refine ⟨(h.trans hu.weaken).complete hs (r := ⟨label expr, cell, some owner, [], expr.span⟩)
    hnew (hu.cells.has hhas) hpending' (fun owner howner => Option.some.inj howner ▸ howns) rfl
    value, value, ?_⟩
  exact view_complete ((hu.view owner (Set.notMem_empty owner)).trans howner) hu.sound
    (hu.cells.has hhas) _

theorem ensures_declare (hinvoke : invoke.Sound D) (hs : s.Sound D) {name : String}
    (howns : D.Owns name) (expr : Expr) (span : Span) :
    Ensures (declare invoke name expr span) s
      (fun _ t => Advances D expr.scanned False s t) fun _ t =>
        Advances D {name} False s t ∧ s.view name = none := by
  refine Ensures.bind (ensures_get ?_)
  split
  · exact hs.refl
  · next hcontains =>
    have hname : s.view name = none :=
      view_eq_none_iff.mpr (Variables.get?_eq_none_of_contains (by simpa using hcontains))
    split
    · -- a call: the pending cell and the variable first, then the capture
      refine Ensures.bind (ensures_makeCell ?_)
      have hcell := hs.addCell (X := {name}) (I := False) none
      have hpending : (s.cells.add none).get? s.cells.fresh = none := Cells.get?_add_fresh _ _
      have hv := Variable.sound_pending s.cells s.log name
      refine Ensures.bind ((ensures_declareVariable hcell.sound howns hv).imp ?_ ?_)
      · rintro _ _ rfl
        exact hs.addCell none
      · rintro _ t ⟨-, ht, hview⟩
        have hbound := hcell.trans ht
        refine Ensures.orUndo ((ensures_capture hinvoke hs howns hbound (Cells.not_has_fresh _)
          (ht.cells.has (Cells.has_add_fresh _ _)) ?_ ?_ expr).imp ?_ ?_)
        · exact (ht.cells.get?_eq (Cells.has_add_fresh _ _)).trans hpending
        · refine hview.trans ?_
          rw [show (Variable.ofCell name s.cells.fresh).peek (s.cells.add none) = none from hpending]
          rfl
        · exact fun _ u hu => hbound.undeclare hname hu
        · exact fun _ u hu => ⟨hu.1, hname⟩
    · split
      · refine Ensures.bind ((ensures_reference hs howns _).imp ?_ ?_)
        · rintro _ _ rfl
          exact hs.refl
        · rintro v t ⟨ht, -, rfl, hv⟩
          refine (ensures_declareVariable ht.sound howns hv).imp ?_ ?_
          · rintro _ _ rfl
            exact ht.weaken
          · exact fun _ u hu => ⟨ht.weaken.trans hu.2.1, hname⟩
      · refine Ensures.bind ((ensures_evaluate hinvoke hs expr).imp (fun _ _ ht => ht) ?_)
        intro value t ht
        refine (ensures_declareVariable ht.sound howns (Variable.sound_plain name value)).imp ?_ ?_
        · rintro _ _ rfl
          exact ht.weaken
        · exact fun _ u hu => ⟨ht.weaken.trans hu.2.1, hname⟩

/-! ## Assignments -/

theorem view_ne_none_of_advances (h : Advances D ∅ I s t) {name : String}
    (hname : s.view name ≠ none) : t.view name ≠ none := by
  rw [h.view name (Set.notMem_empty name)]
  exact hname

/-- A variable is given a value after steps that left the scope alone. -/
theorem ensures_assignVariable_after (ht : Advances D ∅ False s t) (name : String) (value : Value) :
    Ensures (assignVariable name value) t (fun _ u => Advances D X False s u) fun _ u =>
      Advances D {name} False s u ∧ u.view name ≠ none := by
  refine (ensures_assignVariable (X := {name}) (I := False) ht.sound name value rfl).imp ?_ ?_
  · rintro _ _ rfl
    exact ht.weaken
  · rintro _ u ⟨hu, hview, -⟩
    refine ⟨ht.weaken.trans hu, ?_⟩
    rw [hview]
    exact Option.some_ne_none _

/-- Binding an existing variable anew. After a success the variable is there as before. -/
theorem ensures_rebind (hinvoke : invoke.Sound D) (hs : s.Sound D) {name : String}
    (howns : D.Owns name) {previous : Variable} (hprevious : s.vars.get? name = some previous)
    (expr : Expr) :
    Ensures (rebind invoke name previous expr) s
      (fun _ t => Advances D expr.scanned False s t) fun _ t =>
        Advances D {name} False s t ∧ t.view name ≠ none := by
  have hthere : s.view name ≠ none := by
    rw [view_eq_some hprevious]
    exact Option.some_ne_none _
  unfold rebind
  split
  · refine Ensures.bind (ensures_makeCell ?_)
    have hcell := hs.addCell (X := {name}) (I := False) none
    have hpending : (s.cells.add none).get? s.cells.fresh = none := Cells.get?_add_fresh _ _
    have hv := Variable.sound_pending s.cells s.log name
    refine Ensures.bind (ensures_modify ?_)
    have hbound := hcell.trans (hcell.sound.replace hv rfl)
    have hview := view_replace (s := { s with cells := s.cells.add none })
      (v := .ofCell name s.cells.fresh)
      (view_ne_none_of_advances (hs.addCell (I := False) none) hthere)
    rw [show (Variable.ofCell name s.cells.fresh).peek (s.cells.add none) = none from hpending]
      at hview
    refine Ensures.orUndo ((ensures_capture hinvoke hs howns hbound (Cells.not_has_fresh _)
      (Cells.has_add_fresh _ _) hpending hview expr).imp ?_ ?_)
    · intro _ u hu
      refine hbound.restore hs hprevious ?_ hu
      exact hview ▸ Option.some_ne_none _
    · rintro _ u ⟨hu, value, hvalue⟩
      refine ⟨hu, ?_⟩
      rw [hvalue]
      exact Option.some_ne_none _
  · split
    · -- a literal, which has to be of the type that the variable has
      refine Ensures.bind ((keeps_lift hs _).imp (fun _ _ ht => ht.weaken) fun value t ht => ?_)
      refine Ensures.bind (((keeps_readVariable ht.sound name).after ht).imp
        (fun _ _ hu => hu.weaken) fun current u hu => ?_)
      split
      · exact hu.weaken
      · exact ensures_assignVariable_after hu name value
    · next token _ =>
      refine Ensures.bind ((ensures_reference hs howns token).imp ?_ ?_)
      · rintro _ _ rfl
        exact hs.refl
      · rintro v t ⟨ht, -, rfl, hv⟩
        refine ensures_modify ⟨ht.weaken.trans (ht.sound.replace hv rfl), ?_⟩
        rw [view_replace (view_ne_none_of_advances ht hthere)]
        exact Option.some_ne_none _
    · refine Ensures.bind ((ensures_evaluate hinvoke hs expr).imp (fun _ _ ht => ht) ?_)
      exact fun value t ht => ensures_assignVariable_after ht name value

theorem cell?_republish {name : String} {v : Variable} (hv : s.vars.get? name = some v)
    (value : Value) :
    ({ s with
      vars := (s.vars.replace (v.settle value)).replace (.ofCell name s.cells.fresh) } :
        State).cell? name = some s.cells.fresh := by
  have hname : (v.settle value).name = name := by
    rw [Variable.name_settle, Variables.name_of_get? hv]
  have hthere := Variables.get?_replace_self (v := v.settle value) (hname.symm ▸ hv)
  rw [hname] at hthere
  exact cell?_replace (s := { s with vars := s.vars.replace (v.settle value) })
    (v := .ofCell name s.cells.fresh) hthere

/-- Moving records never fails, and there are three ways in which it can end: nothing is done for a
variable that is still bound to the cell; otherwise the records of the cell are released, and if that
concerned some record and the variable holds a plain value, it gets a cell and a record of its own. -/
theorem moveRecords_cases (hs : s.Sound D) {name : String} (hname : s.view name ≠ none)
    (previous : Cell) (span : Span) :
    Ensures (moveRecords name previous span) s (fun _ _ => False) fun _ t =>
      (s.cell? name = some previous ∧ t = s) ∨
      (s.cell? name ≠ some previous ∧ (s.cell? name = none → ¬ s.log.binds previous name = true) ∧
        t = { s with log := s.log.release previous name }) ∨
      (s.cell? name = none ∧ ∃ v value, s.vars.get? name = some v ∧ v.peek s.cells = some value ∧
        t = { s with
          vars := (s.vars.replace (v.settle value)).replace (.ofCell name s.cells.fresh)
          cells := s.cells.add (some value)
          log := (s.log.release previous name).push
            { name, cell := s.cells.fresh, owner := some name, span } }) := by
  refine Ensures.bind (ensures_get ?_)
  simp only
  split
  · next hsame => exact .inl ⟨hsame, rfl⟩
  · next hmoved =>
    refine Ensures.bind (ensures_modify ?_)
    split
    · next hcurrent =>
      -- the variable is there and bound to no cell, so it holds a value
      obtain ⟨v, hv⟩ := Option.ne_none_iff_exists'.mp (mt view_eq_none_iff.mpr hname)
      have hnone : s.cell? name = none :=
        Option.isNone_iff_eq_none.mp (Bool.and_eq_true_iff.mp hcurrent).2
      have hcell : v.cell = none := by
        rw [State.cell?, hv] at hnone
        exact hnone
      obtain ⟨value, hslot⟩ := (hs.of_get? hv).exists_ready hcell
      have hpeek : v.peek s.cells = some value := by rw [Variable.peek, hslot]
      refine Ensures.bind (ensures_of_run (run_readVariable hv hpeek) ?_)
      refine Ensures.bind (ensures_makeCell ?_)
      refine Ensures.bind (ensures_replaceVariable (ensures_pushRecord ?_))
      exact .inr (.inr ⟨hnone, v, value, hv, hpeek, rfl⟩)
    · next hcurrent =>
      refine .inr (.inl ⟨hmoved, fun hnone hbinds => hcurrent ?_, rfl⟩)
      exact Bool.and_eq_true_iff.mpr ⟨hbinds, Option.isNone_iff_eq_none.mpr hnone⟩

/-- Moving records touches only the variable that they are moved for. Unless the variable is still bound
to the cell, the records of the cell do not answer to it afterwards. -/
theorem ensures_moveRecords (hs : s.Sound D) {name : String} (howns : D.Owns name)
    (hname : s.view name ≠ none) {previous : Cell} (hhas : s.cells.Has previous)
    (hfrees : s.cell? name ≠ some previous → D.Frees previous name) (span : Span) :
    Ensures (moveRecords name previous span) s (fun _ _ => False) fun _ t =>
      Advances D {name} False s t ∧ (s.cell? name = some previous → t = s) ∧
        (s.cell? name ≠ some previous →
          t.cell? name ≠ some previous ∧ ¬ t.log.binds previous name = true) := by
  have hreleased : ¬ (s.log.release previous name).binds previous name = true :=
    fun h => (ReturnLog.binds_release.mp h).2 ⟨rfl, rfl⟩
  refine (moveRecords_cases hs hname previous span).imp (fun _ _ h => h) ?_
  rintro _ t (⟨hsame, rfl⟩ | ⟨hmoved, -, rfl⟩ | ⟨hnone, v, value, hv, hpeek, rfl⟩)
  · exact ⟨hs.refl, fun _ => rfl, fun h => absurd hsame h⟩
  · have hrelease := hs.release (X := {name}) (I := False) (hfrees hmoved)
    exact ⟨hrelease, fun h => absurd h hmoved, fun _ => ⟨hmoved, hreleased⟩⟩
  · have hmoved : s.cell? name ≠ some previous := by
      rw [hnone]
      exact nofun
    have hnew : s.cells.fresh ≠ previous := fun heq => Cells.not_has_fresh _ (heq ▸ hhas)
    have hrelease := hs.release (X := ∅) (I := False) (hfrees hmoved)
    have hread := hrelease.trans (hrelease.sound.settle hv hpeek)
    refine ⟨hread.weaken.trans (hread.sound.republish howns value span),
      fun h => absurd h hmoved, fun _ => ⟨?_, fun hbinds => ?_⟩⟩
    · have hcell := cell?_republish hv value
      exact fun heq => hnew (Option.some.inj (hcell.symm.trans heq))
    · rcases ReturnLog.binds_push.mp hbinds with h | h
      · exact hnew h.1
      · exact hreleased h

/-- The assignment succeeds and takes its variable away from the cell. -/
def Leaves (invoke : Invoke) (name : String) (expr : Expr) (span : Span) (s : State) (cell : Cell) :
    Prop :=
  ∃ t, s.run (assign invoke name expr span) = (.ok (), t) ∧ t.cell? name ≠ some cell

/-- Once a variable is bound anew, the assignment succeeds, and does not bind it back. -/
theorem leaves_of_rebind {name : String} {previous : Variable} {cell : Cell} {expr : Expr}
    {span : Span} (hprevious : s.vars.get? name = some previous) (hcell : previous.cell = some cell)
    (hrebind : s.run (rebind invoke name previous expr) = (.ok (), t)) (ht : t.Sound D)
    (hthere : t.view name ≠ none) (hhas : t.cells.Has cell) (hmoved : t.cell? name ≠ some cell) :
    Leaves invoke name expr span s cell := by
  have hassign : s.run (assign invoke name expr span) = t.run (moveRecords name cell span) := by
    unfold assign
    rw [run_get_bind]
    simp only [hprevious]
    rw [run_bind, hrebind, hcell]
  have hmove := ensures_moveRecords (D := .ofLoaded) ht.ofLoaded trivial hthere hhas
    (fun _ _ => trivial) span
  cases hrun : t.run (moveRecords name cell span) with
  | mk result u =>
    cases result with
    | error e => exact (hmove.of_error hrun).elim
    | ok _ => exact ⟨u, hassign.trans hrun, ((hmove.of_ok hrun).2.2 hmoved).1⟩

/-- An assignment changes its variable only. If it takes the variable away from a cell, it takes the
name away from the records of the cell as well. -/
theorem ensures_assign (hinvoke : invoke.Sound D) (hs : s.Sound D) {name : String}
    (howns : s.view name ≠ none → D.Owns name) (expr : Expr) (span : Span)
    (hfrees : ∀ cell, s.cell? name = some cell → Leaves invoke name expr span s cell →
      D.Frees cell name) :
    Ensures (assign invoke name expr span) s
      (fun _ t => Advances D expr.scanned False s t) fun _ t =>
        Advances D {name} False s t ∧ ∀ cell, s.cell? name = some cell → t.cell? name ≠ some cell →
          ¬ t.log.binds cell name = true := by
  refine Ensures.bind (ensures_get ?_)
  split
  · exact hs.refl
  · next previous hprevious =>
    have howns := howns (by rw [view_eq_some hprevious]; exact Option.some_ne_none _)
    have hscell : s.cell? name = previous.cell := by rw [State.cell?, hprevious]; rfl
    refine Ensures.bind ((ensures_rebind hinvoke hs howns hprevious expr).withRun.imp
      (fun _ _ ht => ht.1) ?_)
    rintro _ t ⟨⟨ht, hthere⟩, hrebind⟩
    split
    · next cell hcell =>
      have hhas := ht.cells.has ((hs.of_get? hprevious).has cell hcell)
      refine (ensures_moveRecords ht.sound howns hthere hhas (fun hmoved => hfrees cell
        (hscell.trans hcell) (leaves_of_rebind hprevious hcell hrebind ht.sound hthere hhas
          hmoved)) span).imp (fun _ _ h => h.elim) ?_
      rintro _ u ⟨hu, hsame, hmoved⟩
      refine ⟨ht.trans hu, fun c hc hleft => ?_⟩
      obtain rfl : cell = c := Option.some.inj ((hscell.trans hcell).symm.trans hc)
      by_cases hbound : t.cell? name = some cell
      · rw [hsame hbound] at hleft
        exact absurd hbound hleft
      · exact (hmoved hbound).2
    · next hcell =>
      refine ⟨ht, fun c hc => ?_⟩
      rw [hscell, hcell] at hc
      cases hc

/-! ## Fields of maps -/

/-- What an assignment to a field makes of a map: the field has the value of the expression, which is
evaluated after the map has been read, and all other fields are what they were. -/
def SetsField (invoke : Invoke) (map field : String) (expr : Expr) (s t : State) : Prop :=
  ∃ old new value afterRead afterValue,
    (s.view map).bind Prod.fst = some (.map old) ∧
    s.run (readVariable map) = (.ok (.map old), afterRead) ∧
    afterRead.run (evaluate invoke expr) = (.ok value, afterValue) ∧
    t.view map = some (some (.map new), none) ∧
    Fields.get? new field = some value ∧
    ∀ other, other ≠ field → Fields.get? new other = Fields.get? old other

theorem ensures_assignField (hinvoke : invoke.Sound D) (hs : s.Sound D)
    (map field : String) (expr : Expr) (span : Span) :
    Ensures (assignField invoke map field expr span) s
      (fun _ t => Advances D expr.scanned False s t) fun _ t =>
        Advances D {map} False s t ∧ SetsField invoke map field expr s t := by
  refine Ensures.bind ((ensures_readVariable hs map).withRun.imp ?_ ?_)
  · rintro _ _ ⟨rfl, -⟩
    exact hs.refl
  · rintro current t ⟨⟨ht, cell, hold⟩, hread⟩
    split
    · next old =>
      refine Ensures.bind ((ensures_evaluate hinvoke ht.sound expr).withRun.imp
        (fun _ _ hu => ht.weaken.trans hu.1) ?_)
      rintro value u ⟨hu, hvalue⟩
      have hassign : Ensures (assignVariable map (.map (Fields.insert field value old))) u
          (fun _ v => Advances D expr.scanned False s v) fun _ v =>
            Advances D {map} False s v ∧ SetsField invoke map field expr s v := by
        refine (ensures_assignVariable (X := {map}) (I := False) hu.sound map _ rfl).imp ?_ ?_
        · rintro _ _ rfl
          exact (ht.trans hu).weaken
        · rintro _ v ⟨hv, hview, -⟩
          exact ⟨(ht.trans hu).weaken.trans hv, old, _, value, t, u,
            by rw [hold]; rfl, hread, hvalue, hview,
            Fields.get?_insert_self field value old,
            fun other hother => Fields.get?_insert_of_ne hother value old⟩
      split
      · split
        · exact (ht.trans hu).weaken
        · exact hassign
      · exact hassign
    · exact ht.weaken

end Exec

end Scripting
