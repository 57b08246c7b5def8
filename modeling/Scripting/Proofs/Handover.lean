import Scripting.Proofs.MixedArrays
import Scripting.Proofs.Unaided

/-!
# An assignment hands one name over

A variable that shares the result of a call is known to other scopes by the record of the result,
which answers to its name. When the variable is assigned to, its name goes from that record to
another one. `ReturnLog.Rewords` says that nothing else happens to the log: records may come to
answer to the name or cease to do so, and may be added for it, but no record comes to answer to
another name or ceases to. It holds of each single change of the log that an assignment makes, and
so of all of them together. The value that the variable shows in the end is the one that the
expression gives (`Exec.Bound.gives`).
-/

namespace Scripting

open State

/-! ## Records that answer to a name -/

namespace ReturnLog

variable {a b c log : ReturnLog} {cell : Cell} {r : Record} {name other : String}

/-- The records that answer to a name, in the order in which they were made. -/
def answering (log : ReturnLog) (name : String) : List Record :=
  log.toList.filter (·.answersTo name)

theorem mem_answering : r ∈ log.answering name ↔ r ∈ log.latestFirst ∧ r.answersTo name = true := by
  rw [answering, List.mem_filter, toList, List.mem_reverse]

theorem binds_of_answering (h : log.answering name = [r]) (cell : Cell) :
    log.binds cell name = true ↔ cell = r.cell := by
  have hmem : ∀ other, other ∈ log.latestFirst ∧ other.answersTo name = true ↔ other = r :=
    fun other => by rw [← mem_answering, h, List.mem_singleton]
  rw [binds_iff]
  constructor
  · rintro ⟨other, hother, rfl, hanswers⟩
    rw [(hmem other).mp ⟨hother, hanswers⟩]
  · rintro rfl
    obtain ⟨hr, hanswers⟩ := (hmem r).mpr rfl
    exact ⟨r, hr, rfl, hanswers⟩

/-- If the name is bound to one cell, then one record answers to it. -/
theorem exists_answering (hdistinct : (log.latestFirst.map Record.cell).Nodup)
    (h : ∀ c, log.binds c name = true ↔ c = cell) :
    ∃ r, log.answering name = [r] ∧ r.cell = cell := by
  obtain ⟨r, hr, hcell, hanswers⟩ := binds_iff.mp ((h cell).mpr rfl)
  refine ⟨r, List.perm_singleton.mp ?_, hcell⟩
  -- both lists are free of repetitions, so that it is enough to compare their members
  have hnodup : log.toList.Nodup := List.nodup_reverse.mpr (List.Nodup.of_map _ hdistinct)
  refine (List.perm_ext_iff_of_nodup (hnodup.filter _) (List.nodup_singleton r)).mpr fun other => ?_
  show other ∈ log.answering name ↔ _
  rw [mem_answering, List.mem_singleton]
  constructor
  · rintro ⟨hother, hanswers⟩
    have hbound := (h other.cell).mp (binds_iff.mpr ⟨other, hother, rfl, hanswers⟩)
    exact List.inj_on_of_nodup_map hdistinct hother hr (hbound.trans hcell.symm)
  · rintro rfl
    exact ⟨hr, hanswers⟩

/-! ### Changes that concern one name -/

/-- Only one name has changed what it refers to: the earlier records hold the same cells and answer
to the same other names, and the records that were added answer to no other name. -/
def Rewords (name : String) (earlier later : ReturnLog) : Prop :=
  ∃ (f : Record → Record) (added : List Record), later.toList = earlier.toList.map f ++ added ∧
    (∀ r, (f r).cell = r.cell ∧ ∀ other, other ≠ name → (f r).answersTo other = r.answersTo other) ∧
    ∀ r ∈ added, ∀ other, other ≠ name → r.answersTo other = false

theorem Rewords.refl (name : String) (log : ReturnLog) : log.Rewords name log :=
  ⟨id, [], by simp, fun _ => ⟨rfl, fun _ _ => rfl⟩, fun _ hr => absurd hr List.not_mem_nil⟩

theorem Rewords.trans (hab : a.Rewords name b) (hbc : b.Rewords name c) : a.Rewords name c := by
  obtain ⟨f, added, hb, hf, hadded⟩ := hab
  obtain ⟨g, later, hc, hg, hlater⟩ := hbc
  refine ⟨g ∘ f, added.map g ++ later, ?_, fun r => ⟨?_, fun other hother => ?_⟩, ?_⟩
  · rw [hc, hb, List.map_append, List.map_map, List.append_assoc]
  · exact (hg (f r)).1.trans (hf r).1
  · exact ((hg (f r)).2 other hother).trans ((hf r).2 other hother)
  · intro r hr other hother
    rcases List.mem_append.mp hr with hr | hr
    · obtain ⟨r, hmem, rfl⟩ := List.mem_map.mp hr
      exact ((hg r).2 other hother).trans (hadded r hmem other hother)
    · exact hlater r hr other hother

theorem rewords_push (howner : r.owner = some name) (haliases : r.aliases = []) :
    log.Rewords name (log.push r) := by
  refine ⟨id, [r], by simp, fun _ => ⟨rfl, fun _ _ => rfl⟩, ?_⟩
  refine List.forall_mem_singleton.mpr fun other hother => ?_
  simp [Record.answersTo, howner, haliases, hother.symm]

/-- The records of one cell are changed in what concerns one name. -/
theorem rewords_mapRecords (cell : Cell) {f : Record → Record} (hcell : ∀ r, (f r).cell = r.cell)
    (hf : ∀ r other, other ≠ name → ((f r).answersTo other = true ↔ r.answersTo other = true)) :
    log.Rewords name (log.mapRecords fun r => if r.cell = cell then f r else r) := by
  refine ⟨fun r => if r.cell = cell then f r else r, [], ?_,
    fun r => ⟨?_, fun other hother => ?_⟩, fun _ hr => absurd hr List.not_mem_nil⟩
  · rw [List.append_nil]
    exact List.map_reverse.symm
  · dsimp only
    split
    · exact hcell r
    · rfl
  · dsimp only
    split
    · exact Bool.eq_iff_iff.mpr (hf r other hother)
    · rfl

theorem rewords_addAlias (hdistinct : (log.latestFirst.map Record.cell).Nodup) (cell : Cell)
    (name : String) : log.Rewords name (log.addAlias cell name) := by
  rw [addAlias_eq_mapRecords hdistinct]
  refine rewords_mapRecords cell (fun r => (r.becomes_addAlias name).cell) fun r other hother => ?_
  rw [Record.answersTo_addAlias]
  exact or_iff_left hother

theorem rewords_release (log : ReturnLog) (cell : Cell) (name : String) :
    log.Rewords name (log.release cell name) := by
  rw [release_eq_mapRecords]
  refine rewords_mapRecords cell (fun _ => rfl) fun r other hother => ?_
  rw [Record.answersTo_release]
  exact and_iff_left hother

/-- The same records answer to each other name as before. -/
theorem Rewords.answering_eq (h : a.Rewords name b) (hother : other ≠ name) :
    (b.answering other).map Record.cell = (a.answering other).map Record.cell := by
  obtain ⟨f, added, hb, hf, hadded⟩ := h
  have hnone : added.filter (·.answersTo other) = [] :=
    List.filter_eq_nil_iff.mpr fun r hr => Bool.not_eq_true _ ▸ hadded r hr other hother
  have hsame : (fun r => (f r).answersTo other) = fun r : Record => r.answersTo other :=
    funext fun r => (hf r).2 other hother
  have hcells : (fun r => (f r).cell) = Record.cell := funext fun r => (hf r).1
  calc (b.answering other).map Record.cell
      = ((a.toList.map f).filter (·.answersTo other)).map Record.cell := by
        rw [answering, hb, List.filter_append, hnone, List.append_nil]
    _ = ((a.toList.filter fun r => (f r).answersTo other).map f).map Record.cell := by
        rw [List.filter_map]
        rfl
    _ = (a.answering other).map Record.cell := by
        rw [hsame, List.map_map]
        exact congrArg (fun g => List.map g _) hcells

theorem Rewords.exists_mem (h : a.Rewords name b) (hr : r ∈ a.toList) :
    ∃ r' ∈ b.toList, r'.cell = r.cell ∧
      ∀ other, other ≠ name → r'.answersTo other = r.answersTo other := by
  obtain ⟨f, added, hb, hf, -⟩ := h
  refine ⟨f r, ?_, hf r⟩
  rw [hb]
  exact List.mem_append_left _ (List.mem_map_of_mem hr)

end ReturnLog

/-! ## Assignments -/

namespace Exec

variable {D : Discipline} {s t : State} {invoke : Invoke} {name : String} {expr : Expr}

/-- An expression that makes no calls changes the scope at most. -/
theorem onlyScope_evaluate (hmodules : s.imports.modules ⊆ Library.modules)
    (h : expr.invocations invoke s = []) :
    Ensures (evaluate invoke expr) s (fun _ t => OnlyScope s t) fun _ t => OnlyScope s t := by
  have hcalls : CallsFollow (.ofMoves OnlyScope) invoke (expr.invocations invoke s) := by
    rw [h]
    exact fun i hi => absurd hi List.not_mem_nil
  exact (traces_evaluate (allows_onlyScope expr.spans) allowsWriting_onlyScope hmodules
    (List.Subset.refl _) hcalls).follows.imp (fun _ _ ht => ht.1) fun _ _ ht => ht

/-- The binding gives the name to the record of the cell that the variable is bound to in the end,
and leaves it to the records that had it. -/
theorem Bound.rewords (h : Bound D invoke .replace name expr s t) (hinvoke : invoke.Sound D)
    (hs : s.Sound D) (hsettled : s.Settled) (hthere : s.view name ≠ none)
    (hcalls : expr.invocations invoke (s.await .replace name) = []) :
    s.log.Rewords name t.log ∧ ∀ c, t.log.binds c name = true ↔
      s.log.binds c name = true ∨ t.cell? name = some c := by
  have hplaces : Places D .replace name s := places_replace hthere
  cases h with
  | @captured value u hcall hvalue =>
    have hawait := hplaces.advances_await hs
    have hlog : u.log = s.log :=
      ((onlyScope_evaluate hawait.sound.imports hcalls).of_ok hvalue).2.2
    have hu := (ensures_evaluate hinvoke hawait.sound expr).of_ok hvalue
    have hcell : u.cell? name = some s.cells.fresh := by
      rw [cell?_eq, hu.view name (Set.notMem_empty name), hplaces.view_await hs]
      rfl
    refine ⟨hlog ▸ ReturnLog.rewords_push rfl rfl, fun c => ?_⟩
    show (u.log.push _).binds c name = true ↔ _ ∨ u.cell? name = some c
    rw [ReturnLog.binds_push, hlog, hcell, or_comm, Option.some.injEq]
    exact or_congr_right (and_iff_left (Record.answersTo_iff.mpr (.inl rfl)))
  | @shared token cell hexpr hmeaning =>
    obtain ⟨r, hr, hcell⟩ := hs.exists_record_of_meaning? hsettled hmeaning
    refine ⟨ReturnLog.rewords_addAlias hs.log.distinct cell name, fun c => ?_⟩
    have hget := hplaces.get? (u := s) (v := .ofCell name cell) rfl rfl
    have hbound : ({ s with
        log := s.log.addAlias cell name
        vars := s.vars.replace (.ofCell name cell) } : State).cell? name = some cell := by
      rw [cell?, hget]
      rfl
    rw [hbound, ReturnLog.binds_addAlias, Option.some.injEq]
    refine or_congr_right ⟨fun h => h.1.symm, ?_⟩
    rintro rfl
    exact ⟨rfl, rfl, r, hr, hcell⟩
  | @plain value u hread =>
    have hget := hplaces.get? (v := .plain name value) rfl
      (hread.advances.view name (Set.notMem_empty name))
    have hunbound : ({ u with vars := u.vars.replace (.plain name value) } : State).cell? name =
        none := by
      rw [cell?, hget]
      rfl
    rw [hunbound]
    refine ⟨hread.log ▸ .refl name u.log, fun c => ?_⟩
    show u.log.binds c name = true ↔ _
    rw [hread.log]
    exact (or_iff_left (by rintro ⟨⟩)).symm

/-- After a binding the variable shows the value that the expression gives. -/
theorem Bound.gives (h : Bound D invoke .replace name expr s t) (hinvoke : invoke.Sound D)
    (hs : s.Sound D) (hthere : s.view name ≠ none) {value : Value} {cell : Option Cell}
    (hview : t.view name = some (some value, cell)) : Gives invoke .replace name s value expr := by
  have hplaces : Places D .replace name s := places_replace hthere
  cases h with
  | @captured result u hcall hresult =>
    have hawait := hplaces.advances_await hs
    have hu := (ensures_evaluate hinvoke hawait.sound expr).of_ok hresult
    have hwaits := (hu.view name (Set.notMem_empty name)).trans (hplaces.view_await hs)
    have hhas : u.cells.Has s.cells.fresh := hu.cells.has (Cells.has_add_fresh s.cells none)
    cases hview.symm.trans (view_complete hwaits hu.sound hhas _)
    have hname : ∀ token, expr ≠ .reference token := by
      rintro token rfl
      cases hcall
    rw [gives_iff hname, if_pos hcall]
    exact ⟨u, hresult⟩
  | @shared token shared hexpr hmeaning =>
    have hget := hplaces.get? (u := s) (v := .ofCell name shared) rfl rfl
    have hshown := view_of_ofCell (s := { s with
      log := s.log.addAlias shared name
      vars := s.vars.replace (.ofCell name shared) }) hget
    rw [hexpr, Gives, hmeaning]
    exact (Prod.mk.inj (Option.some.inj (hshown.symm.trans hview))).1
  | @plain result u hread hvalue =>
    have hget := hplaces.get? (v := .plain name result) rfl
      (hread.advances.view name (Set.notMem_empty name))
    have hshown := view_eq_some (s := { u with vars := u.vars.replace (.plain name result) }) hget
    cases hview.symm.trans hshown
    exact hvalue

/-- Moving the records does not change the value that the variable shows. -/
theorem shows_moveRecords (ht : t.Sound D) (hthere : t.view name ≠ none) (previous : Cell)
    (span : Span) :
    Ensures (moveRecords name previous span) t (fun _ _ => False) fun _ u =>
      ∀ value cell, u.view name = some (some value, cell) →
        ∃ cell', t.view name = some (some value, cell') := by
  refine (moveRecords_cases ht hthere previous span).imp (fun _ _ h => h) ?_
  rintro _ u (⟨-, rfl⟩ | ⟨-, -, rfl⟩ | ⟨-, v, shown, hv, hpeek, rfl⟩) value cell hview
  · exact ⟨cell, hview⟩
  · exact ⟨cell, hview⟩
  · cases hview.symm.trans (view_republish hv shown _)
    exact ⟨v.cell, (view_eq_some hv).trans (congrArg (fun value => some (value, _)) hpeek)⟩

/-- Moving the records leaves the name to the record of the cell that the variable is bound to. -/
theorem rewords_moveRecords (ht : t.Sound D) (hthere : t.view name ≠ none) {previous : Cell}
    (hbinds : ∀ c, t.log.binds c name = true ↔ c = previous ∨ t.cell? name = some c) (span : Span) :
    Ensures (moveRecords name previous span) t (fun _ _ => False) fun _ u =>
      t.log.Rewords name u.log ∧ ∀ c, u.log.binds c name = true ↔ u.cell? name = some c := by
  refine (moveRecords_cases ht hthere previous span).imp (fun _ _ h => h) ?_
  rintro _ u (⟨hsame, rfl⟩ | ⟨hmoved, hunbound, rfl⟩ | ⟨hnone, v, value, hv, hpeek, rfl⟩)
  · refine ⟨.refl name _, fun c => ?_⟩
    rw [hbinds, hsame, Option.some.injEq, eq_comm, or_self]
  · refine ⟨ReturnLog.rewords_release _ _ _, fun c => ?_⟩
    show (t.log.release previous name).binds c name = true ↔ t.cell? name = some c
    rw [ReturnLog.binds_release, hbinds]
    constructor
    · rintro ⟨rfl | h, hne⟩
      · exact absurd ⟨rfl, rfl⟩ hne
      · exact h
    · refine fun h => ⟨.inr h, ?_⟩
      rintro ⟨rfl, -⟩
      exact hmoved h
  · refine ⟨(ReturnLog.rewords_release _ _ _).trans (ReturnLog.rewords_push rfl rfl), fun c => ?_⟩
    have hcell := cell?_republish hv value
    refine Iff.trans ?_ (iff_of_eq (congrArg (· = some c) hcell.symm))
    rw [Option.some.injEq, ReturnLog.binds_push, ReturnLog.binds_release, hbinds, hnone]
    constructor
    · rintro (⟨h, -⟩ | ⟨rfl | ⟨⟨⟩⟩, hne⟩)
      · exact h
      · exact absurd ⟨rfl, rfl⟩ hne
    · exact fun h => .inl ⟨h, Record.answersTo_iff.mpr (.inl rfl)⟩

/-- The name is taken over by the record of the cell that the variable is bound to in the end, and the
variable shows what the expression gives. An assignment that fails leaves the log as it is. -/
theorem rewords_assign (hinvoke : invoke.Sound .ofLoaded) (hs : s.Sound .ofLoaded)
    (hsettled : s.Settled) {previous : Variable} {cell : Cell}
    (hprevious : s.vars.get? name = some previous) (hcell : previous.cell = some cell)
    (hbinds : ∀ c, s.log.binds c name = true ↔ c = cell)
    (hcalls : expr.invocations invoke (s.await .replace name) = []) (span : Span) :
    Ensures (assign invoke name expr span) s (fun _ t => t.log = s.log) fun _ t =>
      (s.log.Rewords name t.log ∧ ∀ c, t.log.binds c name = true ↔ t.cell? name = some c) ∧
        ∀ value cell, t.view name = some (some value, cell) →
          Gives invoke .replace name s value expr := by
  have hthere : s.view name ≠ none := view_eq_some hprevious ▸ Option.some_ne_none _
  refine Ensures.bind (ensures_get ?_)
  rw [hprevious]
  have hrebind := (rebind_cases hinvoke hs name expr previous).and
    (ensures_rebind hinvoke hs trivial hprevious expr)
  refine Ensures.bind (hrebind.imp ?_ ?_)
  · rintro e t ⟨hunbound, -⟩
    cases hunbound with
    | reverted hcall herror =>
      have hawait := (places_replace hthere).advances_await hs
      exact ((onlyScope_evaluate hawait.sound.imports hcalls).of_error herror).2.2
    | refused hread => exact hread.log
  · rintro _ t ⟨hbound, ht, htthere⟩
    obtain ⟨hrewords, hcells⟩ := hbound.rewords hinvoke hs hsettled hthere hcalls
    rw [hcell]
    have hmoves := (rewords_moveRecords ht.sound htthere
      (fun c => (hcells c).trans (or_congr_left (hbinds c))) span).and
      (shows_moveRecords ht.sound htthere cell span)
    refine hmoves.imp (fun _ _ h => h.1.elim) ?_
    rintro _ u ⟨hu, hshows⟩
    refine ⟨⟨hrewords.trans hu.1, hu.2⟩, fun value cell hview => ?_⟩
    obtain ⟨cell', hview⟩ := hshows value cell hview
    exact hbound.gives hinvoke hs hthere hview

end Exec

/-! ## What becomes of the records -/

/-- Another record, or the same one once more, takes over the name of a variable from a record, and
the variable gets the value of an expression. -/
structure State.HandsOver (s : State) (name : String) (record : Record) (invoke : Invoke)
    (expr : Expr) (t : State) : Prop where
  /-- One record answers to the name. The variable is bound to its cell, which holds its value. The
  value is the one that the expression gives. -/
  taken : ∃ r v value, t.log.answering name = [r] ∧ t.vars.get? name = some v ∧
    v.cell = some r.cell ∧ v.peek t.cells = some value ∧ t.cells.get? r.cell = some value ∧
    Exec.Gives invoke .replace name s value expr
  /-- The record that answered to the name answers to all other names as before, with the same
  value. -/
  left : ∃ r ∈ t.log.toList, ∃ value, r.cell = record.cell ∧
    s.cells.get? record.cell = some value ∧ t.cells.get? r.cell = some value ∧
    ∀ other, other ≠ name → record.answersTo other = true → r.answersTo other = true
  /-- No other name has changed what it refers to. -/
  others : ∀ other, other ≠ name →
    (t.log.answering other).map Record.cell = (s.log.answering other).map Record.cell

theorem State.Sound.handsOver {s t : State} (hs : s.Sound .ofLoaded) {name : String}
    {record : Record} {invoke : Invoke} {expr : Expr}
    (hrecord : s.log.answering name = [record]) (ht : Advances .ofLoaded {name} False s t)
    (hpublishes : s.Publishes name t) (hrewords : s.log.Rewords name t.log)
    (hbinds : ∀ c, t.log.binds c name = true ↔ t.cell? name = some c)
    (hgives : ∀ value cell, t.view name = some (some value, cell) →
      Exec.Gives invoke .replace name s value expr) :
    s.HandsOver name record invoke expr t := by
  obtain ⟨hmem, -⟩ := ReturnLog.mem_answering.mp (hrecord ▸ List.mem_singleton.mpr rfl)
  refine ⟨?_, ?_, fun other hother => hrewords.answering_eq hother⟩
  · rcases hpublishes with ⟨value, cell, hview, -⟩ | ⟨value, hview, -, hkept⟩
    · obtain ⟨v, hv, hpeek, hcell⟩ := exists_of_view_eq_some hview
      have hone : ∀ c, t.log.binds c name = true ↔ c = cell := fun c => by
        rw [hbinds, cell?_eq, hview, Option.bind_some, Option.some.injEq, eq_comm]
      obtain ⟨r, hr, rfl⟩ := ReturnLog.exists_answering ht.sound.log.distinct hone
      exact ⟨r, v, value, hr, hv, hcell, hpeek,
        ((ht.sound.of_get? hv).peek_eq hcell).symm.trans hpeek, hgives value _ hview⟩
    · -- the name would have no cell and be bound to that of the record
      have hcell := (hbinds record.cell).mp
        ((hkept _).mpr ((ReturnLog.binds_of_answering hrecord _).mpr rfl))
      rw [cell?_eq, hview] at hcell
      cases hcell
  · obtain ⟨r, hr, hcell, hanswers⟩ := hrewords.exists_mem (List.mem_reverse.mpr hmem)
    obtain ⟨value, hvalue⟩ := Option.isSome_iff_exists.mp (hs.log.filled record hmem)
    refine ⟨r, hr, value, hcell, hvalue, ?_, fun other hother h => (hanswers other hother).trans h⟩
    rw [hcell, ht.cells.get?_eq (hs.has_of_mem hmem)]
    exact hvalue

/-- An assignment moves one name between records.

The state is one between two statements or two programs of a session, in any scope. A variable is
bound to the cell of a record, which alone answers to its name, and is assigned the value of an
expression that runs no declared function. If the assignment succeeds, then one record answers to
the name, the one whose cell the variable is bound to and holds its value, which is what the
expression gives. The earlier record
answers to all its other names as before, with the same value, and to each other name the same
records answer as before. If it fails, then the records are what they were. -/
theorem assignment_hands_name_over {s : State} (hs : s.AtRest) {name : String} {v : Variable}
    (hv : s.vars.get? name = some v) {record : Record} (hcell : v.cell = some record.cell)
    (hrecord : s.log.answering name = [record]) {value : Expr} (hvalue : value.RunsNoFunction)
    (levels : Nat) {st : Statement} (hst : st.form = .assign (.var name) value) :
    Exec.Ensures (Exec.statement (callWithin levels) st) s (fun _ t => t.log = s.log) fun _ t =>
      s.HandsOver name record (callWithin levels) value t := by
  have hsound := hs.sound
  have hinvoke := sound_callWithin_ofLoaded levels
  have hthere : s.view name ≠ none := view_eq_some hv ▸ Option.some_ne_none _
  have hawait := (Exec.places_replace (D := .ofLoaded) hthere).advances_await hsound
  have hcalls := Expr.invocations_eq_nil hvalue (callWithin levels) hawait.sound.imports
  rw [Exec.statement_eq, hst, Exec.formOf]
  refine Exec.Ensures.decorate (Exec.Ensures.bind ?_)
  have hassign := (Exec.rewords_assign hinvoke hsound hs.settled hv hcell
    (ReturnLog.binds_of_answering hrecord) hcalls st.span).and
    ((Exec.assign_cases hinvoke hsound hs.settled trivial value st.span).and
      (Exec.ensures_assign hinvoke hsound (fun _ => trivial) value st.span
        fun _ _ _ _ => trivial))
  refine hassign.imp (fun _ _ h => h.1) ?_
  rintro _ t ⟨⟨⟨hrewords, hbinds⟩, hgives⟩, hpublishes, ht, -⟩
  exact Exec.ensures_pure (hsound.handsOver hrecord ht hpublishes hrewords hbinds hgives)

/-- The first of two variables that share a result is assigned a text of its own. -/
def partingStatement : Statement where
  form := .assign (.var "a") (.literal { kind := .string, lexeme := "six" })
  span := {}
  scope := none
  exported := false

/-- The record of the call goes on answering to the second variable. -/
theorem assignment_hands_name_over_shared :
    ∃ m record flow t, Moment.ofText? sharingText {} 2 = some m ∧
      m.after.log.answering "a" = [record] ∧ record.answersTo "b" = true ∧
      m.after.run (Exec.statement (callWithin callLimit) partingStatement) = (.ok flow, t) ∧
      m.after.HandsOver "a" record (callWithin callLimit)
        (.literal { kind := .string, lexeme := "six" }) t := by
  have hrun : (Moment.ofText? sharingText {} 2).any (fun m =>
      (m.after.vars.get? "a").any fun v =>
        (m.after.log.answering "a").head?.any fun record => decide
          (v.cell = some record.cell ∧ m.after.log.answering "a" = [record] ∧
            record.answersTo "b" = true ∧
            (m.after.run (Exec.statement (callWithin callLimit) partingStatement)).1.isOk)) =
      true := by
    decide +kernel
  obtain ⟨m, hm, hrun⟩ := (Option.any_eq_true _ _).mp hrun
  obtain ⟨v, hv, hrun⟩ := (Option.any_eq_true _ _).mp hrun
  obtain ⟨record, -, hfacts⟩ := (Option.any_eq_true _ _).mp hrun
  obtain ⟨hcell, hrecord, hother, hok⟩ := of_decide_eq_true hfacts
  have hassign := assignment_hands_name_over (.after (Moment.live_of_ofText? hm)) hv hcell hrecord
    (show (Expr.literal { kind := .string, lexeme := "six" }).RunsNoFunction from trivial) callLimit
    (show partingStatement.form = _ from rfl)
  obtain ⟨flow, hflow⟩ := exists_of_isOk hok
  have hends :
      m.after.run (Exec.statement (callWithin callLimit) partingStatement) = (.ok flow, _) :=
    Prod.ext hflow rfl
  exact ⟨m, record, flow, _, hm, hrecord, hother, hends, hassign.of_ok hends⟩

end Scripting
