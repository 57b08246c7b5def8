import Mathlib.Data.List.Nodup
import Mathlib.Data.List.Infix
import Scripting.State.Basic

/-!
# How cells, records and variables change

The cells of a run only become more: `Cells.Extends` says that the earlier ones are there with the
contents that they had. The return log only becomes longer: `ReturnLog.Evolves` says that the earlier
records stand where they stood, and at most changed under which names they answer. A list of
variables is known by what `get?` finds in it.
-/

namespace Scripting

/-! ## Fields of maps -/

namespace Fields

theorem get?_insert_self (name : String) (value : Value) (fields : Fields) :
    get? (insert name value fields) name = some value := by
  unfold get?
  induction fields with
  | nil => rw [insert, List.lookup_cons, beq_self_eq_true]
  | cons field fields ih =>
    obtain ⟨key, old⟩ := field
    rw [insert]
    split
    · rw [List.lookup_cons, beq_self_eq_true]
    · split
      · rw [List.lookup_cons, beq_self_eq_true]
      · next hne =>
        have hbeq : (name == key) = false := by simpa using hne
        rw [List.lookup_cons, hbeq]
        exact ih

theorem get?_insert_of_ne {name other : String} (h : other ≠ name) (value : Value)
    (fields : Fields) : get? (insert name value fields) other = get? fields other := by
  have hbeq : (other == name) = false := by simpa using h
  unfold get?
  induction fields with
  | nil => rw [insert, List.lookup_cons, hbeq]
  | cons field fields ih =>
    obtain ⟨key, old⟩ := field
    rw [insert]
    split
    · rw [List.lookup_cons, hbeq]
    · split
      · next heq =>
        subst heq
        rw [List.lookup_cons, List.lookup_cons, hbeq]
      · rw [List.lookup_cons, List.lookup_cons, ih]

end Fields

/-! ## Cells -/

namespace Cells

/-- The handle is that of a cell made before. -/
def Has (cells : Cells) (cell : Cell) : Prop := cell.index < cells.contents.size

/-- The later cells start with the earlier ones, contents included. -/
def Extends (earlier later : Cells) : Prop := earlier.contents.toList <+: later.contents.toList

variable {a b c : Cells} {cell : Cell} {value : Value}

theorem Extends.refl (a : Cells) : a.Extends a := List.prefix_refl _

theorem Extends.trans (hab : a.Extends b) (hbc : b.Extends c) : a.Extends c :=
  List.IsPrefix.trans hab hbc

theorem Extends.has (h : a.Extends b) (hcell : a.Has cell) : b.Has cell := by
  have hle := h.length_le
  simp only [Array.length_toList] at hle
  exact Nat.lt_of_lt_of_le hcell hle

theorem Extends.get?_eq (h : a.Extends b) (hcell : a.Has cell) : b.get? cell = a.get? cell := by
  unfold get?
  rw [← Array.getElem?_toList, ← Array.getElem?_toList]
  obtain ⟨rest, hrest⟩ := h
  rw [← hrest, List.getElem?_append_left (by simpa [Has] using hcell)]

theorem has_of_get? (h : a.get? cell = some value) : a.Has cell := by
  unfold get? at h
  by_contra hnot
  rw [Array.getElem?_eq_none (Nat.le_of_not_lt hnot)] at h
  cases h

theorem not_has_fresh (a : Cells) : ¬ a.Has a.fresh := Nat.lt_irrefl _

theorem has_add_fresh (a : Cells) (content : Option Value) : (a.add content).Has a.fresh := by
  simp [Has, add, fresh]

theorem extends_add (a : Cells) (content : Option Value) : a.Extends (a.add content) := by
  simp [Extends, add]

/-- Filling a cell that came later leaves the earlier ones alone. -/
theorem Extends.fill (h : a.Extends b) (hcell : ¬ a.Has cell) (value : Value) :
    a.Extends (b.fill cell value) := by
  obtain ⟨rest, hrest⟩ := h
  have hle : a.contents.toList.length ≤ cell.index := by
    simpa [Has] using hcell
  refine ⟨rest.set (cell.index - a.contents.toList.length) (some value), ?_⟩
  unfold Cells.fill
  rw [Array.toList_setIfInBounds, ← hrest, List.set_append_right _ _ hle]

end Cells

/-! ## Records -/

namespace Record

/-- What may become of a record: it keeps its name, its cell and its place, and it may lose its
owner. -/
structure Becomes (earlier later : Record) : Prop where
  name : later.name = earlier.name
  cell : later.cell = earlier.cell
  span : later.span = earlier.span
  owner : later.owner = earlier.owner ∨ later.owner = none

/-- A record names every variable that it answers to only once. -/
structure Tidy (record : Record) : Prop where
  nodup : record.aliases.Nodup
  owner : ∀ owner, record.owner = some owner → owner ∉ record.aliases

variable {r r' r'' : Record} {name other : String}

theorem Tidy.of_aliases_eq_nil (h : r.aliases = []) : r.Tidy where
  nodup := h ▸ List.nodup_nil
  owner _ _ := h ▸ List.not_mem_nil

theorem Becomes.refl (r : Record) : r.Becomes r := ⟨rfl, rfl, rfl, .inl rfl⟩

theorem Becomes.trans (h : r.Becomes r') (h' : r'.Becomes r'') : r.Becomes r'' where
  name := h'.name.trans h.name
  cell := h'.cell.trans h.cell
  span := h'.span.trans h.span
  owner := by
    rcases h'.owner with ho' | ho'
    · rw [ho']; exact h.owner
    · exact .inr ho'

theorem answersTo_iff : r.answersTo name = true ↔ r.owner = some name ∨ name ∈ r.aliases := by
  simp [answersTo]

theorem becomes_addAlias (r : Record) (name : String) : r.Becomes (r.addAlias name) := by
  unfold addAlias
  split
  · exact .refl r
  · exact ⟨rfl, rfl, rfl, .inl rfl⟩

theorem becomes_release (r : Record) (name : String) : r.Becomes (r.release name) := by
  refine ⟨rfl, rfl, rfl, ?_⟩
  unfold release
  split
  · exact .inr rfl
  · exact .inl rfl

theorem Tidy.addAlias (h : r.Tidy) (name : String) : (r.addAlias name).Tidy := by
  unfold Record.addAlias
  split
  · exact h
  · next hans =>
    rw [answersTo_iff, not_or] at hans
    refine ⟨?_, ?_⟩
    · exact h.nodup.append (List.nodup_singleton name) (List.disjoint_singleton.mpr hans.2)
    · intro owner howner hmem
      rcases List.mem_append.mp hmem with hmem | hmem
      · exact h.owner owner howner hmem
      · rw [List.mem_singleton] at hmem
        exact hans.1 (hmem ▸ howner)

theorem Tidy.release (h : r.Tidy) (name : String) : (r.release name).Tidy := by
  refine ⟨h.nodup.filter _, ?_⟩
  intro owner howner hmem
  simp only [Record.release] at howner hmem
  split at howner
  · cases howner
  · exact h.owner owner howner (List.mem_filter.mp hmem).1

theorem answersTo_addAlias (r : Record) (name other : String) :
    (r.addAlias name).answersTo other = true ↔ r.answersTo other = true ∨ other = name := by
  unfold addAlias
  split
  · next hans =>
    constructor
    · exact .inl
    · rintro (h | rfl)
      · exact h
      · exact hans
  · simp only [answersTo_iff, List.mem_append, List.mem_singleton, or_assoc]

theorem answersTo_release (r : Record) (name other : String) :
    (r.release name).answersTo other = true ↔ r.answersTo other = true ∧ other ≠ name := by
  rw [answersTo_iff, answersTo_iff]
  simp only [release, List.mem_filter, decide_eq_true_eq]
  by_cases howner : r.owner = some name
  · rw [if_pos howner, howner]
    constructor
    · rintro (h | h)
      · cases h
      · exact ⟨.inr h.1, h.2⟩
    · rintro ⟨h | h, hne⟩
      · exact absurd (Option.some.inj h).symm hne
      · exact .inr ⟨h, hne⟩
  · rw [if_neg howner]
    constructor
    · rintro (h | h)
      · exact ⟨.inl h, fun heq => howner (heq ▸ h)⟩
      · exact ⟨.inr h.1, h.2⟩
    · rintro ⟨h | h, hne⟩
      · exact .inl h
      · exact .inr ⟨h, hne⟩

end Record

/-! ## The return log -/

namespace ReturnLog

/-- The earlier records stand where they stood, each as what may have become of it. -/
def Evolves (earlier later : ReturnLog) : Prop :=
  ∀ (i : Nat) (r : Record), earlier.toList[i]? = some r →
    ∃ r', later.toList[i]? = some r' ∧ r.Becomes r'

/-- The log with every record changed in the same way. -/
def mapRecords (log : ReturnLog) (f : Record → Record) : ReturnLog :=
  { latestFirst := log.latestFirst.map f }

/-- A log that suits the cells: each record has a result of its own, and names each variable only
once. -/
structure Sound (cells : Cells) (log : ReturnLog) : Prop where
  filled : ∀ r ∈ log.latestFirst, (cells.get? r.cell).isSome
  distinct : (log.latestFirst.map Record.cell).Nodup
  tidy : ∀ r ∈ log.latestFirst, r.Tidy

variable {a b c log : ReturnLog} {cells cells' : Cells} {cell : Cell} {r : Record} {name : String}

theorem Evolves.refl (a : ReturnLog) : a.Evolves a := fun _ r hr => ⟨r, hr, .refl r⟩

theorem Evolves.trans (hab : a.Evolves b) (hbc : b.Evolves c) : a.Evolves c := by
  intro i r hr
  obtain ⟨r', hr', h⟩ := hab i r hr
  obtain ⟨r'', hr'', h'⟩ := hbc i r' hr'
  exact ⟨r'', hr'', h.trans h'⟩

theorem evolves_push (log : ReturnLog) (r : Record) : log.Evolves (log.push r) := by
  intro i r' hr'
  refine ⟨r', ?_, .refl r'⟩
  rw [toList_push, List.getElem?_append_left (List.getElem?_eq_some_iff.mp hr').1]
  exact hr'

theorem evolves_mapRecords (log : ReturnLog) {f : Record → Record}
    (hf : ∀ r : Record, r.Becomes (f r)) :
    log.Evolves (log.mapRecords f) := by
  intro i r hr
  refine ⟨f r, ?_, hf r⟩
  rw [show (log.mapRecords f).toList = log.toList.map f from List.map_reverse.symm,
    List.getElem?_map, hr]
  rfl

theorem Evolves.exists_mem (h : a.Evolves b) (hr : r ∈ a.latestFirst) :
    ∃ r' ∈ b.latestFirst, r'.cell = r.cell := by
  obtain ⟨i, hi⟩ := List.getElem?_of_mem (List.mem_reverse.mpr hr)
  obtain ⟨r', hr', hbecomes⟩ := h i r hi
  exact ⟨r', List.mem_reverse.mp (List.mem_of_getElem? hr'), hbecomes.cell⟩

theorem release_eq_mapRecords (log : ReturnLog) (cell : Cell) (name : String) :
    log.release cell name =
      log.mapRecords fun r => if r.cell = cell then r.release name else r := rfl

/-- When every record has a cell of its own, only one can be the latest that holds a given cell. -/
theorem addAliasTo_eq_map {records : List Record} (h : (records.map Record.cell).Nodup)
    (cell : Cell) (name : String) :
    addAliasTo cell name records =
      records.map fun r => if r.cell = cell then r.addAlias name else r := by
  induction records with
  | nil => rfl
  | cons r rest ih =>
    obtain ⟨hr, hrest⟩ := List.nodup_cons.mp h
    rw [addAliasTo, List.map_cons]
    split
    · next hcell =>
      have hother : ∀ r' ∈ rest, r'.cell ≠ cell := by
        intro r' hr' hcell'
        exact hr (by rw [hcell, ← hcell']; exact List.mem_map_of_mem hr')
      rw [List.map_congr_left fun r' hr' => if_neg (hother r' hr'), List.map_id']
    · rw [ih hrest]

theorem addAlias_eq_mapRecords (h : (log.latestFirst.map Record.cell).Nodup) (cell : Cell)
    (name : String) :
    log.addAlias cell name =
      log.mapRecords fun r => if r.cell = cell then r.addAlias name else r := by
  unfold addAlias mapRecords
  rw [addAliasTo_eq_map h]

theorem Sound.extend (h : log.Sound cells) (hcells : cells.Extends cells') : log.Sound cells' where
  filled r hr := by
    obtain ⟨value, hvalue⟩ := Option.isSome_iff_exists.mp (h.filled r hr)
    rw [hcells.get?_eq (Cells.has_of_get? hvalue), hvalue]
    rfl
  distinct := h.distinct
  tidy := h.tidy

theorem Sound.push (h : log.Sound cells) (hfilled : (cells.get? r.cell).isSome)
    (hnew : ∀ r' ∈ log.latestFirst, r'.cell ≠ r.cell) (htidy : r.Tidy) :
    (log.push r).Sound cells where
  filled := List.forall_mem_cons.mpr ⟨hfilled, h.filled⟩
  distinct := by
    refine List.nodup_cons.mpr ⟨fun hmem => ?_, h.distinct⟩
    obtain ⟨r', hr', hcell⟩ := List.mem_map.mp hmem
    exact hnew r' hr' hcell
  tidy := List.forall_mem_cons.mpr ⟨htidy, h.tidy⟩

theorem Sound.mapRecords (h : log.Sound cells) {f : Record → Record}
    (hcell : ∀ r, (f r).cell = r.cell) (htidy : ∀ r : Record, r.Tidy → (f r).Tidy) :
    (log.mapRecords f).Sound cells where
  filled := by
    intro r hr
    obtain ⟨r', hr', rfl⟩ := List.mem_map.mp hr
    rw [hcell]
    exact h.filled r' hr'
  distinct := by
    have hmap : Record.cell ∘ f = Record.cell := funext hcell
    rw [show (log.mapRecords f).latestFirst = log.latestFirst.map f from rfl, List.map_map, hmap]
    exact h.distinct
  tidy := by
    intro r hr
    obtain ⟨r', hr', rfl⟩ := List.mem_map.mp hr
    exact htidy r' (h.tidy r' hr')

theorem Sound.addAlias (h : log.Sound cells) (cell : Cell) (name : String) :
    (log.addAlias cell name).Sound cells := by
  rw [addAlias_eq_mapRecords h.distinct]
  refine h.mapRecords (fun r => ?_) fun r hr => ?_
  · split
    · exact (r.becomes_addAlias name).cell
    · rfl
  · split
    · exact hr.addAlias name
    · exact hr

theorem Sound.release (h : log.Sound cells) (cell : Cell) (name : String) :
    (log.release cell name).Sound cells := by
  rw [release_eq_mapRecords]
  refine h.mapRecords (fun r => ?_) fun r hr => ?_
  · split
    · rfl
    · rfl
  · split
    · exact hr.release name
    · exact hr

theorem Sound.evolves_addAlias (h : log.Sound cells) (cell : Cell) (name : String) :
    log.Evolves (log.addAlias cell name) := by
  rw [addAlias_eq_mapRecords h.distinct]
  refine evolves_mapRecords log fun r => ?_
  split
  · exact r.becomes_addAlias name
  · exact .refl r

theorem evolves_release (log : ReturnLog) (cell : Cell) (name : String) :
    log.Evolves (log.release cell name) := by
  rw [release_eq_mapRecords]
  refine evolves_mapRecords log fun r => ?_
  split
  · exact r.becomes_release name
  · exact .refl r

/-! ### The names that a log binds cells to -/

theorem binds_iff {c : Cell} {x : String} :
    log.binds c x = true ↔ ∃ r ∈ log.latestFirst, r.cell = c ∧ r.answersTo x = true := by
  simp [binds]

theorem binds_push {c : Cell} {x : String} :
    (log.push r).binds c x = true ↔ r.cell = c ∧ r.answersTo x = true ∨ log.binds c x = true := by
  simp [binds, push]

theorem exists_mem_addAliasTo {records : List Record} {c : Cell} {x : String} :
    (∃ r ∈ addAliasTo cell name records, r.cell = c ∧ r.answersTo x = true) ↔
      (∃ r ∈ records, r.cell = c ∧ r.answersTo x = true) ∨
        c = cell ∧ x = name ∧ ∃ r ∈ records, r.cell = cell := by
  induction records with
  | nil => simp [addAliasTo]
  | cons r rest ih =>
    rw [addAliasTo]
    split
    · next hcell =>
      simp only [List.mem_cons, exists_eq_or_imp, Record.answersTo_addAlias,
        (r.becomes_addAlias name).cell, hcell, true_or, and_true]
      constructor
      · rintro (⟨rfl, h | rfl⟩ | h)
        · exact .inl (.inl ⟨rfl, h⟩)
        · exact .inr ⟨rfl, rfl⟩
        · exact .inl (.inr h)
      · rintro ((h | h) | ⟨rfl, rfl⟩)
        · exact .inl ⟨h.1, .inl h.2⟩
        · exact .inr h
        · exact .inl ⟨rfl, .inr rfl⟩
    · next hcell =>
      simp only [List.mem_cons, exists_eq_or_imp, ih, hcell, false_or, or_assoc]

theorem binds_addAlias {c : Cell} {x : String} :
    (log.addAlias cell name).binds c x = true ↔
      log.binds c x = true ∨ c = cell ∧ x = name ∧ ∃ r ∈ log.latestFirst, r.cell = cell := by
  rw [binds_iff, binds_iff]
  exact exists_mem_addAliasTo

theorem binds_release {c : Cell} {x : String} :
    (log.release cell name).binds c x = true ↔ log.binds c x = true ∧ ¬ (c = cell ∧ x = name) := by
  rw [binds_iff, binds_iff]
  constructor
  · rintro ⟨r', hr', rfl, hans⟩
    obtain ⟨r, hr, rfl⟩ := List.mem_map.mp hr'
    split at hans
    · next hcell =>
      rw [Record.answersTo_release] at hans
      rw [if_pos hcell]
      exact ⟨⟨r, hr, rfl, hans.1⟩, fun h => hans.2 h.2⟩
    · next hcell =>
      rw [if_neg hcell]
      exact ⟨⟨r, hr, rfl, hans⟩, fun h => hcell h.1⟩
  · rintro ⟨⟨r, hr, rfl, hans⟩, hne⟩
    refine ⟨_, List.mem_map_of_mem hr, ?_⟩
    split
    · next hcell =>
      refine ⟨rfl, ?_⟩
      rw [Record.answersTo_release]
      exact ⟨hans, fun hname => hne ⟨hcell, hname⟩⟩
    · exact ⟨rfl, hans⟩

end ReturnLog

/-! ## Variables -/

namespace Variable

@[simp] theorem name_settle (v : Variable) (value : Value) : (v.settle value).name = v.name := rfl

end Variable

namespace Variables

variable {vars : Variables} {v : Variable} {name : String}

theorem mem_of_get? (h : vars.get? name = some v) : v ∈ vars.entries := List.mem_of_find?_eq_some h

theorem name_of_get? (h : vars.get? name = some v) : v.name = name := by
  simpa using List.find?_some h

theorem contains_eq_isSome (vars : Variables) (name : String) :
    vars.contains name = (vars.get? name).isSome := by
  rw [contains, get?, List.isSome_find?]

theorem get?_eq_none_of_contains (h : vars.contains name = false) : vars.get? name = none := by
  rw [contains_eq_isSome] at h
  exact Option.isNone_iff_eq_none.mp (by simpa using h)

/-- Some variable holds a map with the value in the field. -/
def Offers (vars : Variables) (cells : Cells) (field : String) (value : Value) : Prop :=
  ∃ name v, vars.get? name = some v ∧ v.field? cells field = some value

theorem offers_of_findField? {cells : Cells} {field : String} {scopes : Scopes} {value : Value}
    (h : vars.findField? cells field scopes = some value) : vars.Offers cells field value := by
  obtain ⟨name, -, hname⟩ := List.exists_of_findSome?_eq_some h
  obtain ⟨v, hv, hvalue⟩ := Option.bind_eq_some_iff.mp hname
  exact ⟨name, v, hv, hvalue⟩

/-- In whatever order the variables are asked, a field is found if there is one. -/
theorem isSome_findField?_iff {cells : Cells} {field : String} {scopes : Scopes} :
    (vars.findField? cells field scopes).isSome ↔ ∃ value, vars.Offers cells field value := by
  constructor
  · intro h
    obtain ⟨value, hvalue⟩ := Option.isSome_iff_exists.mp h
    exact ⟨value, offers_of_findField? hvalue⟩
  · rintro ⟨value, name, v, hv, hvalue⟩
    have hname : name ∈ vars.names := name_of_get? hv ▸ List.mem_map_of_mem (mem_of_get? hv)
    refine List.findSome?_isSome_iff.mpr ⟨name, ?_, by rw [hv, Option.bind_some, hvalue]; rfl⟩
    exact (scopes.order.perm _ _ _).mem_iff.mpr hname

theorem get?_cons (v : Variable) (entries : List Variable) (name : String) :
    get? { entries := v :: entries } name =
      if v.name = name then some v else get? { entries } name := by
  unfold get?
  rw [List.find?_cons]
  by_cases h : v.name = name
  · simp [h]
  · simp [h]

theorem get?_replace (vars : Variables) (v : Variable) (name : String) :
    (vars.replace v).get? name =
      if name = v.name then (vars.get? name).map fun _ => v else vars.get? name := by
  obtain ⟨entries⟩ := vars
  induction entries with
  | nil => split <;> rfl
  | cons old entries ih =>
    have hcons : replace { entries := old :: entries } v =
        { entries := (if old.name = v.name then v else old) :: (replace { entries } v).entries } :=
      rfl
    rw [hcons, get?_cons, get?_cons, ih]
    by_cases hold : old.name = v.name
    · rw [if_pos hold]
      by_cases hname : name = v.name
      · simp [hname, hold]
      · have hne : v.name ≠ name := Ne.symm hname
        simp [hname, hne, hold]
    · rw [if_neg hold]
      by_cases hname : name = v.name
      · simp [hname, hold]
      · simp [hname]

theorem get?_replace_eq_none {vars : Variables} {name : String} (h : vars.get? name = none)
    (v : Variable) : (vars.replace v).get? name = none := by
  rw [get?_replace, h]
  split <;> rfl

theorem get?_replace_self {vars : Variables} {v w : Variable} (h : vars.get? v.name = some w) :
    (vars.replace v).get? v.name = some v := by
  rw [get?_replace, if_pos rfl, h]
  rfl

theorem get?_remove (vars : Variables) (removed name : String) :
    (vars.remove removed).get? name = if name = removed then none else vars.get? name := by
  unfold remove get?
  rw [List.find?_filter]
  split
  · next h =>
    rw [List.find?_eq_none]
    intro v _
    simp [h]
  · next h =>
    congr 1
    funext v
    by_cases hv : v.name = name
    · simp [hv, h]
    · simp [hv]

theorem mem_replace {w : Variable} (h : w ∈ (vars.replace v).entries) :
    w = v ∨ w ∈ vars.entries := by
  obtain ⟨old, hold, hw⟩ := List.mem_map.mp h
  split at hw
  · exact .inl hw.symm
  · exact .inr (hw ▸ hold)

theorem mem_remove {w : Variable} (h : w ∈ (vars.remove name).entries) : w ∈ vars.entries :=
  (List.mem_filter.mp h).1

theorem mem_put {w : Variable} (h : w ∈ (vars.put v).entries) : w = v ∨ w ∈ vars.entries := by
  unfold put at h
  split at h
  · exact mem_replace h
  · exact List.mem_cons.mp h

theorem mem_ofList {list : List Variable} (h : v ∈ (ofList list).entries) : v ∈ list := by
  have hfold : ∀ (list : List Variable) (vars : Variables),
      v ∈ (list.foldl put vars).entries → v ∈ vars.entries ∨ v ∈ list := by
    intro list
    induction list with
    | nil => exact fun vars h => .inl h
    | cons w list ih =>
      intro vars h
      rcases ih _ h with h | h
      · rcases mem_put h with rfl | h
        · exact .inr List.mem_cons_self
        · exact .inl h
      · exact .inr (List.mem_cons_of_mem w h)
  exact (hfold list {} h).resolve_left List.not_mem_nil

end Variables

/-! ## Functions -/

theorem State.function?_eq_none_iff {s : State} {name : String} :
    s.function? name = none ↔ ∀ declaration ∈ s.functions, declaration.name ≠ name := by
  simp [function?]

/-- A name that leads to a function in the one state leads to the same function in the other. -/
def State.Retains (s t : State) : Prop :=
  ∀ name declaration, s.function? name = some declaration → t.function? name = some declaration

theorem State.Retains.trans {s t u : State} (h : s.Retains t) (h' : t.Retains u) : s.Retains u :=
  fun name declaration hfunction => h' name declaration (h name declaration hfunction)

end Scripting
