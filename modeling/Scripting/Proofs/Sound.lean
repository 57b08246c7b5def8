import Mathlib.Data.Set.Basic
import Scripting.Proofs.Forms
import Scripting.Proofs.Store

/-!
# Sound states and how they advance

A state is sound when the variables of the running scope, the cells and the return log fit together:
a variable that is bound to a filled cell finds the cell in the log, and one that was read holds what
the cell holds. `State.Advances D X I s t` says what a step from `s` to `t` may have done at most:

1. `t` is sound, the cells of `s` have kept their contents, the log has only grown, and so has the
   list of functions;
2. variables outside `X` are what they were, by value and by cell (`State.view`);
3. the import table is what it was, unless `I`;
4. the later log is related to the earlier one by the law of the discipline `D`, and new variables
   have names that `D` owns.

A discipline is what a run is held to beyond that. `Discipline.ofLoaded` asks for nothing; others have
laws that say which names the log answers to.

Cells are written once. A capture makes a pending cell, runs its call and fills the cell at the end,
and everything in between leaves the cell alone, since it is one of the cells of the state in which
the call began. So filling it (`Advances.complete`) is no change for anybody who knew the state before
the capture.
-/

namespace Scripting

/-! ## Sound variables -/

namespace Variable

/-- A variable that suits the cells and the log. -/
structure Sound (cells : Cells) (log : ReturnLog) (v : Variable) : Prop where
  slot : ∀ cell, v.slot = .alias cell → v.cell = some cell
  has : ∀ cell, v.cell = some cell → cells.Has cell
  recorded : ∀ cell value, v.cell = some cell → cells.get? cell = some value →
    ∃ r ∈ log.latestFirst, r.cell = cell
  settled : ∀ cell value, v.cell = some cell → v.slot = .ready value →
    cells.get? cell = some value

variable {cells cells' : Cells} {log log' : ReturnLog} {v : Variable}

theorem sound_plain (name : String) (value : Value) : (plain name value).Sound cells log := by
  refine ⟨?_, ?_, ?_, ?_⟩
  · intro cell hslot
    cases hslot
  all_goals
    intros
    contradiction

theorem sound_ofCell {name : String} {cell : Cell} (hhas : cells.Has cell)
    (hrecorded : ∀ value, cells.get? cell = some value → ∃ r ∈ log.latestFirst, r.cell = cell) :
    (ofCell name cell).Sound cells log := by
  refine ⟨?_, ?_, ?_, ?_⟩
  · intro c hslot
    cases hslot
    rfl
  · intro c hcell
    cases hcell
    exact hhas
  · intro c value hcell
    cases hcell
    exact hrecorded value
  · intro c value _ hslot
    cases hslot

/-- A variable that is bound to a fresh cell for a result that is still to come. -/
theorem sound_pending (cells : Cells) (log : ReturnLog) (name : String) :
    (ofCell name cells.fresh).Sound (cells.add none) log := by
  refine sound_ofCell (Cells.has_add_fresh _ _) fun value hvalue => ?_
  rw [Cells.get?_add_fresh] at hvalue
  cases hvalue

theorem Sound.mono (h : v.Sound cells log) (hcells : cells.Extends cells')
    (hlog : log.Evolves log') : v.Sound cells' log' where
  slot := h.slot
  has cell hcell := hcells.has (h.has cell hcell)
  recorded := by
    intro cell value hcell hvalue
    rw [hcells.get?_eq (h.has cell hcell)] at hvalue
    obtain ⟨r, hr, rfl⟩ := h.recorded cell value hcell hvalue
    exact hlog.exists_mem hr
  settled := by
    intro cell value hcell hslot
    rw [hcells.get?_eq (h.has cell hcell)]
    exact h.settled cell value hcell hslot

/-- A variable that is bound to a cell has the value of the cell, read or not. -/
theorem Sound.peek_eq {cell : Cell} (h : v.Sound cells log) (hcell : v.cell = some cell) :
    v.peek cells = cells.get? cell := by
  unfold peek
  split
  · next value hslot => exact (h.settled cell value hcell hslot).symm
  · next c hslot =>
    have heq := (h.slot c hslot).symm.trans hcell
    rw [Option.some.inj heq]

/-- A variable that is bound to no cell holds a value. -/
theorem Sound.exists_ready (h : v.Sound cells log) (hcell : v.cell = none) :
    ∃ value, v.slot = .ready value := by
  rcases hslot : v.slot with value | cell
  · exact ⟨value, rfl⟩
  · rw [h.slot cell hslot] at hcell
    cases hcell

theorem Sound.settle {value : Value} (h : v.Sound cells log) (hpeek : v.peek cells = some value) :
    (v.settle value).Sound cells log := by
  refine ⟨?_, h.has, h.recorded, ?_⟩
  · intro cell hslot
    cases hslot
  · intro cell value' hcell hslot
    cases hslot
    rw [← h.peek_eq hcell]
    exact hpeek

/-- What an observer sees of a sound variable stays the same when the cells become more. -/
theorem Sound.peek_extends (h : v.Sound cells log) (hcells : cells.Extends cells') :
    v.peek cells' = v.peek cells := by
  unfold peek
  split
  · rfl
  · next cell hslot => exact hcells.get?_eq (h.has cell (h.slot cell hslot))

end Variable

/-! ## Disciplines -/

/-- What a run is held to: the forms of statements that it may hold, the names that its scopes may
declare variables under, and a law that relates earlier logs to later ones. The law has to allow for
what statements of these forms do to the log, except for taking names away from records. -/
structure Discipline where
  Allows : Form → Prop
  Owns : String → Prop
  Law : ReturnLog → ReturnLog → Prop
  standard : ∀ form, Allows form → form.Standard
  owns_declared : ∀ name value, Allows (.declare name value) → Owns name
  owns_params : ∀ declaration, Allows (.function declaration) →
    ∀ param ∈ declaration.params, Owns param.name
  law_refl : ∀ log, Law log log
  law_trans : ∀ a b c, Law a b → Law b c → Law a c
  law_push : ∀ log r, (∀ owner, r.owner = some owner → Owns owner) → r.aliases = [] →
    Law log (log.push r)
  law_addAlias : ∀ log cell name, Owns name → Law log (log.addAlias cell name)

namespace Discipline

/-- The discipline that all loaded programs keep to. -/
def ofLoaded : Discipline where
  Allows := Form.Standard
  Owns _ := True
  Law _ _ := True
  standard _ h := h
  owns_declared _ _ _ := trivial
  owns_params _ _ _ _ := trivial
  law_refl _ := trivial
  law_trans _ _ _ _ _ := trivial
  law_push _ _ _ _ := trivial
  law_addAlias _ _ _ _ := trivial

/-- The law allows for taking the name away from the records of the cell. -/
def Frees (D : Discipline) (cell : Cell) (name : String) : Prop :=
  ∀ log, D.Law log (log.release cell name)

end Discipline

/-! ## Sound states -/

namespace State

/-- What can be seen of a variable of the running scope: its value and the cell it is bound to. -/
def view (s : State) (name : String) : Option (Option Value × Option Cell) :=
  (s.vars.get? name).map fun v => (v.peek s.cells, v.cell)

/-- The cell that a variable of the running scope is bound to. -/
def cell? (s : State) (name : String) : Option Cell :=
  (s.vars.get? name).bind Variable.cell

variable (D : Discipline)

/-- The variables, cells and log of the state fit together, and its functions and modules are of the
kind allowed. -/
structure Sound (s : State) : Prop where
  log : s.log.Sound s.cells
  vars : ∀ v ∈ s.vars.entries, v.Sound s.cells s.log
  functions : ∀ declaration ∈ s.functions, ∀ form ∈ (Form.function declaration).forms, D.Allows form
  imports : s.imports.modules ⊆ Library.modules

/-- What a step from `s` to `t` may have done: see the head of the file. -/
structure Advances (X : Set String) (I : Prop) (s t : State) : Prop where
  sound : t.Sound D
  cells : s.cells.Extends t.cells
  log : s.log.Evolves t.log
  functions : s.functions <:+ t.functions
  imports : ¬ I → t.imports = s.imports
  view : ∀ name, name ∉ X → t.view name = s.view name
  law : D.Law s.log t.log
  created : ∀ name, ¬ D.Owns name → s.view name = none → t.view name = none

variable {D} {X Y : Set String} {I J : Prop} {s t u : State}

theorem Sound.refl (h : s.Sound D) : Advances D X I s s :=
  ⟨h, .refl _, .refl _, List.suffix_refl _, fun _ => rfl, fun _ _ => rfl, D.law_refl _,
    fun _ _ h => h⟩

theorem Advances.trans (h : Advances D X I s t) (h' : Advances D X I t u) :
    Advances D X I s u where
  sound := h'.sound
  cells := h.cells.trans h'.cells
  log := h.log.trans h'.log
  functions := h.functions.trans h'.functions
  imports hI := (h'.imports hI).trans (h.imports hI)
  view name hname := (h'.view name hname).trans (h.view name hname)
  law := D.law_trans _ _ _ h.law h'.law
  created name howns hname := h'.created name howns (h.created name howns hname)

theorem Advances.mono (h : Advances D X I s t) (hXY : X ⊆ Y) (hIJ : I → J) :
    Advances D Y J s t where
  sound := h.sound
  cells := h.cells
  log := h.log
  functions := h.functions
  imports hJ := h.imports fun hI => hJ (hIJ hI)
  view name hname := h.view name fun hX => hname (hXY hX)
  law := h.law
  created := h.created

/-- A step that writes nothing is one that may write something. -/
theorem Advances.weaken (h : Advances D ∅ False s t) : Advances D X I s t :=
  h.mono (Set.empty_subset X) False.elim

/-- A sound variable of another scope stays sound while this one advances. -/
theorem Advances.sound_variable {v : Variable} (h : Advances D X I s t)
    (hv : v.Sound s.cells s.log) : v.Sound t.cells t.log :=
  hv.mono h.cells h.log

theorem view_eq_none_iff {name : String} : s.view name = none ↔ s.vars.get? name = none :=
  Option.map_eq_none_iff

theorem view_eq_some {name : String} {v : Variable} (h : s.vars.get? name = some v) :
    s.view name = some (v.peek s.cells, v.cell) := by
  rw [view, h]
  rfl

theorem exists_of_view_eq_some {name : String} {value : Option Value} {cell : Option Cell}
    (h : s.view name = some (value, cell)) :
    ∃ v, s.vars.get? name = some v ∧ v.peek s.cells = value ∧ v.cell = cell := by
  obtain ⟨v, hv, heq⟩ := Option.map_eq_some_iff.mp h
  obtain ⟨hvalue, hcell⟩ := Prod.mk.inj heq
  exact ⟨v, hv, hvalue, hcell⟩

theorem cell?_eq (s : State) (name : String) : s.cell? name = (s.view name).bind Prod.snd := by
  unfold cell? view
  cases s.vars.get? name <;> rfl

theorem cell?_replace {v w : Variable} (h : s.vars.get? v.name = some w) :
    ({ s with vars := s.vars.replace v } : State).cell? v.name = v.cell := by
  show ((s.vars.replace v).get? v.name).bind Variable.cell = v.cell
  rw [Variables.get?_replace, if_pos rfl, h]
  rfl

theorem cell?_declare (v : Variable) :
    ({ s with vars := { entries := v :: s.vars.entries } } : State).cell? v.name = v.cell := by
  show (Variables.get? { entries := v :: s.vars.entries } v.name).bind Variable.cell = v.cell
  rw [Variables.get?_cons, if_pos rfl]
  rfl

/-- A state that is sound under some discipline is sound under the one that asks for nothing. -/
theorem Sound.ofLoaded (h : s.Sound D) : s.Sound .ofLoaded :=
  ⟨h.log, h.vars, fun d hd form hform => D.standard form (h.functions d hd form hform), h.imports⟩

theorem Sound.of_get? {name : String} {v : Variable} (h : s.Sound D)
    (hv : s.vars.get? name = some v) : v.Sound s.cells s.log :=
  h.vars v (Variables.mem_of_get? hv)

/-! ## Changes of what all scopes share -/

/-- A step that leaves the scope and the functions alone, and lets the cells and the log grow. -/
theorem Sound.share (h : s.Sound D) {t : State} (hvars : t.vars = s.vars)
    (himports : t.imports = s.imports) (hfunctions : t.functions = s.functions)
    (hcells : s.cells.Extends t.cells) (hlog : s.log.Evolves t.log)
    (hsound : t.log.Sound t.cells) (hlaw : D.Law s.log t.log) : Advances D X I s t where
  sound :=
    { log := hsound
      vars := by
        rw [hvars]
        exact fun v hv => (h.vars v hv).mono hcells hlog
      functions := hfunctions ▸ h.functions
      imports := himports ▸ h.imports }
  cells := hcells
  log := hlog
  functions := hfunctions ▸ List.suffix_refl _
  imports _ := himports
  view name _ := by
    unfold view
    rw [hvars]
    cases hv : s.vars.get? name with
    | none => rfl
    | some v =>
      rw [Option.map_some, Option.map_some, (h.of_get? hv).peek_extends hcells]
  law := hlaw
  created name _ hname := by
    rw [view_eq_none_iff] at hname ⊢
    rw [hvars]
    exact hname

theorem Sound.console (h : s.Sound D) (console : Console) :
    Advances D X I s { s with console } :=
  h.share rfl rfl rfl (.refl _) (.refl _) h.log (D.law_refl _)

theorem Sound.addCell (h : s.Sound D) (content : Option Value) :
    Advances D X I s { s with cells := s.cells.add content } :=
  h.share rfl rfl rfl (Cells.extends_add _ _) (.refl _) (h.log.extend (Cells.extends_add _ _))
    (D.law_refl _)

theorem Sound.addAlias (h : s.Sound D) (cell : Cell) {name : String} (hname : D.Owns name) :
    Advances D X I s { s with log := s.log.addAlias cell name } :=
  h.share rfl rfl rfl (.refl _) (h.log.evolves_addAlias cell name) (h.log.addAlias cell name)
    (D.law_addAlias _ _ _ hname)

theorem Sound.release (h : s.Sound D) {cell : Cell} {name : String} (hfrees : D.Frees cell name) :
    Advances D X I s { s with log := s.log.release cell name } :=
  h.share rfl rfl rfl (.refl _) (s.log.evolves_release cell name) (h.log.release cell name)
    (hfrees s.log)

theorem Sound.has_of_mem (h : s.Sound D) {r : Record} (hr : r ∈ s.log.latestFirst) :
    s.cells.Has r.cell := by
  obtain ⟨value, hvalue⟩ := Option.isSome_iff_exists.mp (h.log.filled r hr)
  exact Cells.has_of_get? hvalue

/-- A record for a value that gets a cell of its own. -/
theorem Sound.addRecord (h : s.Sound D) (value : Value) {r : Record}
    (hcell : r.cell = s.cells.fresh) (howner : ∀ owner, r.owner = some owner → D.Owns owner)
    (haliases : r.aliases = []) :
    Advances D X I s
      { s with cells := s.cells.add (some value), log := s.log.push r } := by
  refine h.share rfl rfl rfl (Cells.extends_add _ _) (s.log.evolves_push r) ?_
    (D.law_push _ r howner haliases)
  refine (h.log.extend (Cells.extends_add _ _)).push ?_ ?_ (.of_aliases_eq_nil haliases)
  · rw [hcell, Cells.get?_add_fresh]
    rfl
  · intro r' hr' hsame
    rw [hcell] at hsame
    exact s.cells.not_has_fresh (hsame ▸ h.has_of_mem hr')

/-! ## Changes of the scope -/

theorem Sound.withVars (h : s.Sound D) {vars : Variables}
    (hvars : ∀ v ∈ vars.entries, v ∈ s.vars.entries ∨ v.Sound s.cells s.log) :
    ({ s with vars } : State).Sound D where
  log := h.log
  vars := fun v hv => (hvars v hv).elim (h.vars v) id
  functions := h.functions
  imports := h.imports

/-- A step that changes variables in `X` only, and makes sound ones. -/
theorem Sound.setVars (h : s.Sound D) {vars : Variables}
    (hvars : ∀ v ∈ vars.entries, v ∈ s.vars.entries ∨ v.Sound s.cells s.log)
    (hget : ∀ name, name ∉ X → (vars.get? name).map (fun v => (v.peek s.cells, v.cell)) = s.view name)
    (hcreated : ∀ name, ¬ D.Owns name → s.vars.get? name = none → vars.get? name = none) :
    Advances D X I s { s with vars } where
  sound := h.withVars hvars
  cells := .refl _
  log := .refl _
  functions := List.suffix_refl _
  imports _ := rfl
  view := hget
  law := D.law_refl _
  created name howns hname :=
    view_eq_none_iff.mpr (hcreated name howns (view_eq_none_iff.mp hname))

theorem Sound.replace (h : s.Sound D) {v : Variable} (hv : v.Sound s.cells s.log)
    (hX : v.name ∈ X) : Advances D X I s { s with vars := s.vars.replace v } := by
  refine h.setVars (fun w hw => ?_) (fun name hname => ?_) fun name _ hname => ?_
  · rcases Variables.mem_replace hw with rfl | hw
    · exact .inr hv
    · exact .inl hw
  · rw [Variables.get?_replace, if_neg fun heq => hname (by rw [heq]; exact hX)]
    rfl
  · exact Variables.get?_replace_eq_none hname v

theorem Sound.declare (h : s.Sound D) {v : Variable} (hv : v.Sound s.cells s.log)
    (hX : v.name ∈ X) (howns : D.Owns v.name) :
    Advances D X I s { s with vars := { entries := v :: s.vars.entries } } := by
  refine h.setVars (fun w hw => ?_) (fun name hname => ?_) fun name hother hname => ?_
  · rcases List.mem_cons.mp hw with rfl | hw
    · exact .inr hv
    · exact .inl hw
  · rw [Variables.get?_cons, if_neg (fun heq : v.name = name => hname (heq ▸ hX))]
    rfl
  · rw [Variables.get?_cons, if_neg (fun heq : v.name = name => hother (heq ▸ howns))]
    exact hname

/-- Reading a variable is no change that can be seen. -/
theorem Sound.settle (h : s.Sound D) {name : String} {v : Variable} {value : Value}
    (hget : s.vars.get? name = some v) (hpeek : v.peek s.cells = some value) :
    Advances D X I s { s with vars := s.vars.replace (v.settle value) } := by
  refine h.setVars (fun w hw => ?_) (fun other _ => ?_) fun other _ hother =>
    Variables.get?_replace_eq_none hother _
  · rcases Variables.mem_replace hw with rfl | hw
    · exact .inr ((h.of_get? hget).settle hpeek)
    · exact .inl hw
  · rw [Variables.get?_replace, Variable.name_settle, Variables.name_of_get? hget]
    split
    · next heq =>
      rw [heq, hget, view_eq_some hget, hpeek]
      rfl
    · rfl

end State

/-! ## Captures -/

section Complete

variable {cells : Cells} {log : ReturnLog} {r : Record}

theorem Cells.ne_of_pending {cell c : Cell} {value : Value} (hpending : cells.get? cell = none)
    (h : cells.get? c = some value) : c ≠ cell := by
  rintro rfl
  rw [hpending] at h
  cases h

/-- A log gets the record of a cell that was pending, together with the result. -/
theorem ReturnLog.Sound.complete (h : log.Sound cells) (hhas : cells.Has r.cell)
    (hpending : cells.get? r.cell = none) (haliases : r.aliases = []) (value : Value) :
    (log.push r).Sound (cells.fill r.cell value) := by
  have hne : ∀ r' ∈ log.latestFirst, r'.cell ≠ r.cell := by
    intro r' hr'
    obtain ⟨v, hv⟩ := Option.isSome_iff_exists.mp (h.filled r' hr')
    exact Cells.ne_of_pending hpending hv
  have hlog : log.Sound (cells.fill r.cell value) := by
    refine ⟨fun r' hr' => ?_, h.distinct, h.tidy⟩
    rw [Cells.get?_fill_of_ne (hne r' hr')]
    exact h.filled r' hr'
  refine hlog.push ?_ hne (.of_aliases_eq_nil haliases)
  rw [Cells.get?_fill_self hhas]
  rfl

theorem Variable.Sound.complete {v : Variable} (h : v.Sound cells log)
    (hpending : cells.get? r.cell = none) (value : Value) :
    v.Sound (cells.fill r.cell value) (log.push r) := by
  refine ⟨h.slot, ?_, ?_, ?_⟩
  · intro cell hcell
    simpa [Cells.Has, Cells.fill] using h.has cell hcell
  · intro cell w hcell hw
    by_cases heq : cell = r.cell
    · exact ⟨r, List.mem_cons_self, heq.symm⟩
    · rw [Cells.get?_fill_of_ne heq] at hw
      obtain ⟨r', hr', hr'cell⟩ := h.recorded cell w hcell hw
      exact ⟨r', List.mem_cons_of_mem _ hr', hr'cell⟩
  · intro cell w hcell hslot
    have hw := h.settled cell w hcell hslot
    rw [Cells.get?_fill_of_ne (Cells.ne_of_pending hpending hw)]
    exact hw

/-- A variable that is bound to another cell does not see that the cell is filled. -/
theorem Variable.Sound.peek_fill {v : Variable} {cell : Cell} (h : v.Sound cells log)
    (hcell : v.cell ≠ some cell) (value : Value) :
    v.peek (cells.fill cell value) = v.peek cells := by
  unfold peek
  split
  · rfl
  · next c hslot =>
    refine Cells.get?_fill_of_ne ?_ value
    rintro rfl
    exact hcell (h.slot c hslot)

end Complete

/-- A capture ends: its cell, which is no older than the capture, is filled and recorded. -/
theorem State.Advances.complete {D : Discipline} {I : Prop} {s t : State} {x : String}
    (h : Advances D {x} I s t) (hs : s.Sound D) {r : Record} (hnew : ¬ s.cells.Has r.cell)
    (hhas : t.cells.Has r.cell) (hpending : t.cells.get? r.cell = none)
    (howner : ∀ owner, r.owner = some owner → D.Owns owner) (haliases : r.aliases = [])
    (value : Value) :
    Advances D {x} I s
      { t with cells := t.cells.fill r.cell value, log := t.log.push r } where
  sound := ⟨h.sound.log.complete hhas hpending haliases value,
    fun v hv => (h.sound.vars v hv).complete hpending value, h.sound.functions, h.sound.imports⟩
  cells := h.cells.fill hnew value
  log := h.log.trans (t.log.evolves_push r)
  functions := h.functions
  imports := h.imports
  view := by
    intro name hname
    rw [← h.view name hname]
    show (t.vars.get? name).map _ = (t.vars.get? name).map _
    cases hget : t.vars.get? name with
    | none => rfl
    | some v =>
      -- a variable that was there before the capture knows only cells from before it
      have hview := h.view name hname
      rw [view_eq_some hget] at hview
      obtain ⟨w, hw, -, hwcell⟩ := exists_of_view_eq_some hview.symm
      have hcell : v.cell ≠ some r.cell :=
        fun heq => hnew ((hs.of_get? hw).has _ (hwcell.trans heq))
      rw [Option.map_some, Option.map_some, (h.sound.of_get? hget).peek_fill hcell]
  law := D.law_trans _ _ _ h.law (D.law_push _ r howner haliases)
  created := by
    intro name howns hname
    have hget := view_eq_none_iff.mp (h.created name howns hname)
    exact view_eq_none_iff.mpr hget

end Scripting
