import Scripting.Proofs.Attachment

/-!
# What functions see of the variables of the top level

A function that does not bind a name reads under it what the latest record holds that answers to the
name. When no function of a program binds the name, this is the current value of the variable of the
top level, with one exception. Declarations and assignments move the records along, but there are two
ways to change a variable in place, reading into it and setting a field of the map that it holds, and
these leave the record with the old value behind.

`published_iff_current` says exactly that: as long as the variable was not changed in place while a
record answered to it, functions see its current value after every statement, and the first change in
place is seen by functions only if it changes nothing.
-/

namespace Scripting

open State

/-- The value of a variable of the running scope. -/
def State.value? (s : State) (x : String) : Option Value :=
  (s.vars.get? x).bind (Variable.peek s.cells)

/-- Whether a statement of the form changes the variable in place. -/
def Form.WritesInPlace (x : String) : Form → Prop
  | .access a => x ∈ a.scanned
  | .assign (.field map _) _ => map = x
  | _ => False

instance (x : String) (form : Form) : Decidable (form.WritesInPlace x) :=
  match form with
  | .access a => inferInstanceAs (Decidable (x ∈ a.scanned))
  | .assign (.field map _) _ => inferInstanceAs (Decidable (map = x))
  | .assign (.var _) _ | .function _ | .call _ | .declare _ _ | .returns _ | .useModule _
  | .useFile _ _ => isFalse id

/-- The statement changes the variable in place while some record answers to it. -/
def Moment.Detaches (x : String) (m : Moment) : Prop :=
  m.statement.form.WritesInPlace x ∧ (m.state.log.find? x).isSome

namespace State

variable {D : Discipline} {s : State} {x : String}

theorem Sound.value?_eq (hs : s.Sound D) {c : Cell} (h : s.cell? x = some c) :
    s.value? x = s.cells.get? c := by
  obtain ⟨v, hv, hcell⟩ := Option.bind_eq_some_iff.mp h
  rw [value?, hv]
  exact (hs.of_get? hv).peek_eq hcell

theorem binds_of_find? {r : Record} (h : s.log.find? x = some r) :
    s.log.binds r.cell x = true := by
  have hans : r.answersTo x = true := List.find?_some (p := fun r : Record => r.answersTo x) h
  exact ReturnLog.binds_iff.mpr ⟨r, List.mem_of_find?_eq_some h, rfl, hans⟩

theorem find?_isSome_of_binds {c : Cell} (h : s.log.binds c x = true) :
    (s.log.find? x).isSome := by
  obtain ⟨r, hr, -, hans⟩ := ReturnLog.binds_iff.mp h
  exact List.find?_isSome.mpr ⟨r, hr, hans⟩

/-- A scope without a variable of the name reads what the latest record holds that answers to it. -/
theorem run_nameValue_of_find? {token : Token} {r : Record} {value : Value}
    (hvar : s.vars.get? token.lexeme = none) (hr : s.log.find? token.lexeme = some r)
    (hvalue : s.cells.get? r.cell = some value) :
    s.run (Exec.nameValue token) = (.ok value, s) := by
  have hcontains : s.vars.contains token.lexeme = false := by
    rw [Variables.contains_eq_isSome, hvar]
    rfl
  have hmeaning : s.meaning? token.lexeme = some (.cell r.cell) := by
    rw [meaning?, plainMeaning?, variableMeaning?, hvar, hr]
    rfl
  have hname : s.run (Exec.meaning token) = (.ok (.cell r.cell), s) := by
    unfold Exec.meaning
    rw [Exec.run_get_bind]
    simp only [hmeaning]
    rfl
  unfold Exec.nameValue
  rw [Exec.run_get_bind]
  simp only [hcontains, Bool.false_eq_true, if_false]
  rw [Exec.run_bind, hname]
  simp only [Exec.run_get_bind, hvalue]
  rfl

end State

/-! ## Statements of the top level -/

section TopLevel

variable {x : String} {s t : State} {st : Statement} {levels : Nat} {flow : Flow}

/-- A statement that neither declares a name nor assigns to it does not change which records answer to
it. -/
theorem ensures_statement_sparing (hs : s.Sound (.sparing x))
    (hforms : ∀ form ∈ st.form.forms, (Discipline.sparingInFunctions x).Allows form)
    (hbinds : ¬ st.form.Binds x) (hassign : ∀ expr, st.form ≠ .assign (.var x) expr) :
    Exec.Ensures (Exec.statement (callWithin levels) st) s (fun _ _ => True) fun _ t =>
      Advances (.sparing x) st.form.writes st.form.Imports s t := by
  have hspared := Statement.not_binds_of_mem_forms (fun form hform => (hforms form hform).1)
    (fun declaration hmem => (hforms _ hmem).2 declaration rfl) hbinds
  have hmay : Exec.MayAssign (.sparing x) (callWithin levels) st s := by
    intro name expr hform
    have hne : name ≠ x := fun heq => hassign expr (heq ▸ hform)
    exact ⟨fun _ => hne, fun cell _ _ => Discipline.lenient_sparing x name hne cell⟩
  exact (Exec.ensures_statement (sound_callWithin (Discipline.lenient_sparing x) _) st
    (fun form hform => ⟨(hforms form hform).1, hspared form hform⟩) hs hmay).imp
      (fun _ _ _ => trivial) fun _ _ ht => ht

theorem Form.not_binds_of_writesInPlace {form : Form} (h : form.WritesInPlace x) :
    ¬ form.Binds x ∧ ∀ expr, form ≠ .assign (.var x) expr := by
  cases form with
  | access access => exact ⟨id, nofun⟩
  | assign target value =>
    cases target with
    | var name => cases h
    | field map field => exact ⟨id, nofun⟩
  | _ => cases h

theorem Form.writesInPlace_of_writes {form : Form} (h : x ∈ form.writes) (hbinds : ¬ form.Binds x)
    (hassign : ∀ expr, form ≠ .assign (.var x) expr) : form.WritesInPlace x := by
  cases form with
  | access access => exact h
  | declare name value => exact absurd (Eq.symm h) hbinds
  | assign target value =>
    cases target with
    | var name =>
      obtain rfl : x = name := h
      exact absurd rfl (hassign value)
    | field map field => exact Eq.symm h
  | _ => cases h

/-- A variable of the top level stays attached unless it is changed in place. -/
theorem attached_of_statement (hs : s.Sound (.sparingInFunctions x))
    (hforms : ∀ form ∈ st.form.forms, (Discipline.sparingInFunctions x).Allows form)
    (hattached : s.Attached x)
    (hkept : ¬ (st.form.WritesInPlace x ∧ (s.log.find? x).isSome))
    (hrun : s.run (Exec.statement (callWithin levels) st) = (.ok flow, t)) : t.Attached x := by
  have hinvoke := sound_callWithin (Discipline.lenient_sparing x) levels
  by_cases hbinds : st.form.Binds x ∨ ∃ expr, st.form = .assign (.var x) expr
  · rw [Exec.statement_eq] at hrun
    rcases hbinds with hbinds | ⟨expr, hform⟩
    · cases hform : st.form with
      | declare name expr =>
        rw [hform] at hbinds hrun
        obtain rfl : name = x := hbinds
        rw [Exec.formOf] at hrun
        exact (Exec.ensures_declare_attached hinvoke hs.sparing hattached expr st.span).of_goOn hrun
      | function declaration =>
        exact absurd (hform ▸ hbinds) ((hforms st.form (mem_forms_self _)).2 declaration hform _
          (mem_forms_self _))
      | _ =>
        rw [hform] at hbinds
        cases hbinds
    · rw [hform, Exec.formOf] at hrun
      exact (Exec.ensures_assign_attached hinvoke hs.sparing (sound_callWithin_ofLoaded _) hattached
        expr st.span).of_goOn hrun
  · rw [not_or, not_exists] at hbinds
    have hst := (ensures_statement_sparing hs.sparing hforms hbinds.1 hbinds.2).of_ok hrun
    by_cases hwrites : x ∈ st.form.writes
    · -- no record answers to the variable, before the change and after it
      intro c hc
      have hinPlace := Form.writesInPlace_of_writes hwrites hbinds.1 hbinds.2
      exact absurd ⟨hinPlace, find?_isSome_of_binds ((hst.law c).mp hc)⟩ hkept
    · exact hattached.advances hst hwrites

/-- What the statements of the top level leave behind: a sound state in which the variable is attached,
if none of them changed it in place while a record answered to it. -/
theorem attached_of_statementsOf {statements : List Statement}
    (hs : s.Sound (.sparingInFunctions x))
    (hforms : ∀ form ∈ formsOf statements, (Discipline.sparingInFunctions x).Allows form)
    (hattached : s.Attached x)
    (hkept : ∀ before st after u, statements = before ++ st :: after →
      s.run (Exec.statementsOf (callWithin levels) before) = (.ok .goOn, u) →
        ¬ (st.form.WritesInPlace x ∧ (u.log.find? x).isSome))
    (hrun : s.run (Exec.statementsOf (callWithin levels) statements) = (.ok .goOn, t)) :
    t.Sound (.sparingInFunctions x) ∧ t.Attached x := by
  induction statements generalizing s with
  | nil =>
    rw [Exec.statementsOf] at hrun
    cases hrun
    exact ⟨hs, hattached⟩
  | cons first rest ih =>
    obtain ⟨u, hfirst, hrest⟩ := Exec.exists_of_run_statementsOf_cons hrun
    have hfirstForms : ∀ form ∈ first.form.forms, (Discipline.sparingInFunctions x).Allows form :=
      fun form hform => hforms form (by simp [formsOf, hform])
    have hlenient := Discipline.lenient_sparingInFunctions x
    have hu := (Exec.keeps_statement (sound_callWithin hlenient _) hfirstForms hs
      (hlenient.mayAssign fun _ _ => trivial)).of_ok hfirst
    have hfirstKept := hkept [] first rest s rfl (by rw [Exec.statementsOf]; rfl)
    refine ih hu.sound (fun form hform => hforms form (by simp [formsOf, hform]))
      (attached_of_statement hs hfirstForms hattached hfirstKept hfirst)
      (fun before st after w hsplit hbefore => ?_) hrest
    refine hkept (first :: before) st after w (by rw [hsplit]; rfl) ?_
    rw [Exec.run_statementsOf_cons hfirst, hbefore]

end TopLevel

section Programs

variable {program : Program} {console : Console} {scopes : Scopes} {index : Nat} {m : Moment}
  {x : String}

theorem Program.Loaded.allows (hprogram : program.Loaded) (hspared : ¬ program.FunctionsBind x) :
    ∀ form ∈ formsOf program.statements, (Discipline.sparingInFunctions x).Allows form := by
  refine fun form hform => ⟨hprogram.standard.2 form hform, ?_⟩
  rintro declaration rfl inner hinner hbinds
  exact hspared ⟨_, hform, rfl, inner, hinner, hbinds⟩

/-- A statement of the top level that stands before another one comes up before it. -/
theorem Moment.atTop_of_take {before after : List Statement} {st : Statement} {u : State}
    (hsplit : program.statements.take index = before ++ st :: after)
    (hrun : (State.prepare { console, scopes } program).run
      (Exec.statementsOf (callWithin callLimit) before) = (.ok .goOn, u)) :
    before.length < index ∧
      Moment.AtTop console scopes program before.length ⟨callLimit, [], u, st⟩ := by
  have hstatements : program.statements = before ++ st :: (after ++ program.statements.drop index) := by
    rw [← List.cons_append, ← List.append_assoc, ← hsplit, List.take_append_drop]
  have hlength : before.length < index := by
    have := congrArg List.length hsplit
    rw [List.length_take, List.length_append, List.length_cons] at this
    omega
  refine ⟨hlength, Moment.nth?_eq_some_iff.mpr ⟨?_, ?_, rfl, rfl⟩⟩
  · rw [hstatements, List.getElem?_append_right (Nat.le_refl _), Nat.sub_self]
    rfl
  · rw [hstatements, List.take_left]
    exact hrun

/-- At a moment of the top level the variable is attached, if it was not changed in place before. -/
theorem Moment.AtTop.attached (hm : m.AtTop console scopes program index)
    (hprogram : program.Loaded) (hspared : ¬ program.FunctionsBind x)
    (hhistory : ∀ j < index, ∀ earlier : Moment, earlier.AtTop console scopes program j →
      ¬ earlier.Detaches x) :
    m.state.Sound (.sparingInFunctions x) ∧ m.state.Attached x := by
  have hforms := hprogram.allows hspared
  have hstart := sound_start (.sparingInFunctions x) console scopes
  have hmerge := Exec.keeps_mergeImports hstart hprogram.standard.1
  obtain ⟨-, hmrun, -, -⟩ := Moment.nth?_eq_some_iff.mp hm
  refine attached_of_statementsOf (State.Advances.sound hmerge) (fun form hform => hforms form ?_)
    (fun c hc => ?_) (fun before st after u hsplit hrun => ?_) hmrun
  · obtain ⟨st, hst, hform⟩ := mem_formsOf.mp hform
    exact mem_formsOf.mpr ⟨st, List.mem_of_mem_take hst, hform⟩
  · cases hc
  · obtain ⟨hlt, hearlier⟩ := Moment.atTop_of_take hsplit hrun
    exact hhistory _ hlt _ hearlier

/-- Where no function binds a name and some record answers to it, functions read one and the same value
under it after a statement of the top level. As long as no statement has changed the variable in place
while a record answered to it, this is the current value of the variable. The first statement that does
so changes the variable without letting functions know. -/
theorem published_iff_current {r : Record} (hprogram : program.Loaded)
    (hspared : ¬ program.FunctionsBind x) (hm : m.AtTop console scopes program index)
    (hok : m.Succeeds)
    (hhistory : ∀ j < index, ∀ earlier : Moment, earlier.AtTop console scopes program j →
      ¬ earlier.Detaches x)
    (hr : m.after.log.find? x = some r) :
    ∃ value,
      (∀ (token : Token) (u : State), token.lexeme = x → u.vars.get? x = none →
        u.log = m.after.log → u.cells = m.after.cells →
          u.run (Exec.nameValue token) = (.ok value, u)) ∧
      (m.after.value? x = some value ↔
        ¬ (m.statement.form.WritesInPlace x ∧ m.after.value? x ≠ m.state.value? x)) := by
  obtain ⟨hs, hattached⟩ := hm.attached hprogram hspared hhistory
  obtain ⟨hget, -, -, -⟩ := Moment.nth?_eq_some_iff.mp hm
  have hforms : ∀ form ∈ m.statement.form.forms, (Discipline.sparingInFunctions x).Allows form :=
    fun form hform => hprogram.allows hspared form
      (mem_formsOf.mpr ⟨m.statement, List.mem_of_getElem? hget, hform⟩)
  obtain ⟨flow, hrun⟩ := hok.exists_outcome
  have hlive := hm.live hprogram
  have hafter := hlive.advances
  obtain ⟨value, hvalue⟩ := Option.isSome_iff_exists.mp
    (hafter.sound.log.filled r (List.mem_of_find?_eq_some hr))
  refine ⟨value, ?_, ?_⟩
  · rintro token u rfl hvar hlog hcells
    exact run_nameValue_of_find? hvar (hlog ▸ hr) (hcells ▸ hvalue)
  · by_cases hinPlace : m.statement.form.WritesInPlace x
    · -- the record is the one of the value before
      obtain ⟨hbinds, hassign⟩ := Form.not_binds_of_writesInPlace hinPlace
      have hst := (ensures_statement_sparing hs.sparing hforms hbinds hassign).of_ok hrun
      have hcell := hattached r.cell ((hst.law r.cell).mp (binds_of_find? hr))
      have hbefore : m.state.value? x = some value := by
        obtain ⟨v, hv, hvcell⟩ := Option.bind_eq_some_iff.mp hcell
        rw [hs.value?_eq hcell, ← hvalue, hst.cells.get?_eq ((hs.of_get? hv).has _ hvcell)]
      rw [hbefore, not_and, not_not]
      exact ⟨fun h _ => h, fun h => h hinPlace⟩
    · have hattached' := attached_of_statement hs hforms hattached (fun h => hinPlace h.1) hrun
      rw [hafter.sound.value?_eq (hattached' r.cell (binds_of_find? hr)), hvalue]
      exact ⟨fun _ h => hinPlace h.1, fun _ => rfl⟩

/-- The variable is read into after a function that reads it was declared. -/
def scanText : String :=
  "import \"IO\" import \"String\" " ++
  "var s = String.trim(\" old \") " ++
  "function show() \x7b return s \x7d " ++
  "IO.scan(\"\", s)"

/-- The line that was read is the value of the variable, and functions see another one. -/
theorem published_iff_current_scan :
    ∃ m value, Moment.ofText? scanText { input := ["new"] } 4 = some m ∧ m.Succeeds ∧
      (∀ (token : Token) (u : State), token.lexeme = "s" → u.vars.get? "s" = none →
        u.log = m.after.log → u.cells = m.after.cells →
          u.run (Exec.nameValue token) = (.ok value, u)) ∧
      (m.after.value? "s").map Value.text = some "new" ∧ m.after.value? "s" ≠ some value := by
  have hloads : (Program.ofText? scanText).any (fun p => decide (¬ p.FunctionsBind "s" ∧
      ∀ st ∈ p.statements.take 4, ¬ st.form.WritesInPlace "s")) = true := by decide +kernel
  have hruns : (Moment.ofText? scanText { input := ["new"] } 4).any (fun m => decide (m.Succeeds ∧
      (m.after.log.find? "s").isSome ∧ m.statement.form.WritesInPlace "s" ∧
      (m.after.value? "s").map Value.text = some "new" ∧
      (m.state.value? "s").map Value.text = some "old")) = true := by decide +kernel
  obtain ⟨program, hprogram, hfacts⟩ := (Option.any_eq_true _ _).mp hloads
  obtain ⟨hspared, hearlier⟩ := of_decide_eq_true hfacts
  obtain ⟨m, hm, hfacts⟩ := (Option.any_eq_true _ _).mp hruns
  obtain ⟨hok, hfound, hinPlace, hnew, hold⟩ := of_decide_eq_true hfacts
  obtain ⟨r, hr⟩ := Option.isSome_iff_exists.mp hfound
  obtain ⟨program', hprogram', hatTop⟩ := Moment.atTop_of_ofText? hm
  obtain rfl := Option.some.inj (hprogram.symm.trans hprogram')
  have hhistory : ∀ j < 4, ∀ earlier : Moment,
      earlier.AtTop { input := ["new"] } {} program j → ¬ earlier.Detaches "s" := by
    intro j hj earlier hat hdetaches
    obtain ⟨hget, -, -, -⟩ := Moment.nth?_eq_some_iff.mp hat
    have hmem := List.mem_of_getElem? ((List.getElem?_take_of_lt hj).trans hget)
    exact hearlier _ hmem hdetaches.1
  obtain ⟨value, hreads, hcurrent⟩ := published_iff_current (Program.loaded_of_ofText? hprogram)
    hspared hatTop hok hhistory hr
  refine ⟨m, value, hm, hok, hreads, hnew, fun heq => hcurrent.mp heq ⟨hinPlace, fun hsame => ?_⟩⟩
  rw [hsame, hold] at hnew
  exact absurd hnew (by decide)

end Programs

end Scripting
