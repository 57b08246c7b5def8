import Scripting.Proofs.Moments

/-!
# What states hold

A value can have other values in it, at any depth. A state is fit by a `Norm` if all values that it
holds are: a function that a value refers to by its name alone is declared, and the arrays in the
value are among those that the norm allows. Which arrays these are is left open; those with items of
one type are always among them.

The values that a state holds are those of its variables and those in its cells, which is where
records lead.
-/

namespace Scripting

open State

/-! ## Values -/

/-- The value is the other one or stands in it, at any depth. -/
inductive Value.Within : Value → Value → Prop
  | whole {value : Value} : Within value value
  | item {part value : Value} {items : List Value} (h : value ∈ items) (hpart : Within part value) :
      Within part (.array items)
  | field {part value : Value} {name : String} {fields : Fields} (h : (name, value) ∈ fields)
      (hpart : Within part value) : Within part (.map fields)

/-- The items of an array. -/
def Value.items? : Value → Option (List Value)
  | array items => some items
  | _ => none

theorem Value.items?_eq_some_iff {value : Value} {items : List Value} :
    value.items? = some items ↔ value = .array items := by
  cases value <;> simp [items?]

/-- What a reference to a function refers to. -/
def Value.ref? : Value → Option FunctionRef
  | function ref => some ref
  | _ => none

theorem Value.ref?_eq_some_iff {value : Value} {ref : FunctionRef} :
    value.ref? = some ref ↔ value = .function ref := by
  cases value <;> simp [ref?]

/-- All items are of one type. -/
def Value.Uniform (items : List Value) : Prop :=
  ∀ item ∈ items, ∀ other ∈ items, item.type = other.type

instance (items : List Value) : Decidable (Value.Uniform items) :=
  inferInstanceAs (Decidable (∀ item ∈ items, ∀ other ∈ items, item.type = other.type))

/-- The cause is that a function is not declared. -/
def Cause.IsUndefined : Cause → Prop
  | .undefinedFunction _ => True
  | _ => False

/-- What the values of a run and its errors are held to: which arrays there may be besides those
with items of one type, and which failures because a function is not declared. -/
structure Norm where
  arrays : List Value → Prop
  causes : Cause → Prop
  uniform : ∀ items, Value.Uniform items → arrays items
  defined : ∀ cause, ¬ cause.IsUndefined → causes cause

/-- The value is fit to be held where the functions are declared. -/
structure Value.Fit (N : Norm) (functions : List Declaration) (value : Value) : Prop where
  declared : ∀ name, (Value.function { module := none, name }).Within value →
    ∃ declaration ∈ functions, declaration.name = name
  arrays : ∀ items, (Value.array items).Within value → N.arrays items

namespace Value

variable {N : Norm} {functions functions' : List Declaration} {value : Value}

theorem Fit.mono (h : value.Fit N functions) (hsubset : functions ⊆ functions') :
    value.Fit N functions' where
  declared name hname := by
    obtain ⟨declaration, hmem, heq⟩ := h.declared name hname
    exact ⟨declaration, hsubset hmem, heq⟩
  arrays := h.arrays

theorem fit_string (text : String) : (Value.string text).Fit N functions where
  declared := by rintro name ⟨⟩
  arrays := by rintro items ⟨⟩

theorem fit_number (x : Float) : (Value.number x).Fit N functions where
  declared := by rintro name ⟨⟩
  arrays := by rintro items ⟨⟩

theorem fit_boolean (b : Bool) : (Value.boolean b).Fit N functions where
  declared := by rintro name ⟨⟩
  arrays := by rintro items ⟨⟩

/-- A function of a module need not be declared. -/
theorem fit_export (module name : String) :
    (Value.function { module := some module, name }).Fit N functions where
  declared := by rintro name ⟨⟩
  arrays := by rintro items ⟨⟩

theorem fit_function {name : String} (h : ∃ declaration ∈ functions, declaration.name = name) :
    (Value.function { module := none, name }).Fit N functions where
  declared := by
    rintro name ⟨⟩
    exact h
  arrays := by rintro items ⟨⟩

theorem fit_array {items : List Value} (harray : N.arrays items)
    (h : ∀ item ∈ items, item.Fit N functions) : (Value.array items).Fit N functions where
  declared := by
    rintro name (_ | ⟨hitem, hpart⟩)
    exact (h _ hitem).declared name hpart
  arrays := by
    rintro inner (_ | ⟨hitem, hpart⟩)
    · exact harray
    · exact (h _ hitem).arrays inner hpart

theorem Fit.item {items : List Value} {item : Value} (h : (Value.array items).Fit N functions)
    (hitem : item ∈ items) : item.Fit N functions where
  declared name hname := h.declared name (.item hitem hname)
  arrays inner hinner := h.arrays inner (.item hitem hinner)

theorem fit_map {fields : Fields} (h : ∀ field ∈ fields, field.2.Fit N functions) :
    (Value.map fields).Fit N functions where
  declared := by
    rintro name (_ | _ | ⟨hfield, hpart⟩)
    exact (h _ hfield).declared name hpart
  arrays := by
    rintro items (_ | _ | ⟨hfield, hpart⟩)
    exact (h _ hfield).arrays items hpart

theorem Fit.field {fields : Fields} {field : String × Value}
    (h : (Value.map fields).Fit N functions) (hfield : field ∈ fields) :
    field.2.Fit N functions where
  declared name hname := h.declared name (.field hfield hname)
  arrays items hitems := h.arrays items (.field hfield hitems)

theorem Fit.get? {fields : Fields} {name : String} (h : (Value.map fields).Fit N functions)
    (hget : Fields.get? fields name = some value) : value.Fit N functions := by
  obtain ⟨before, after, hfields, -⟩ := List.lookup_eq_some_iff.mp hget
  have hfield : (name, value) ∈ fields := by simp [hfields]
  exact h.field hfield

end Value

theorem Fields.mem_insert {name : String} {value : Value} {fields : Fields}
    {field : String × Value} (h : field ∈ Fields.insert name value fields) :
    field = (name, value) ∨ field ∈ fields := by
  induction fields with
  | nil => exact .inl (List.mem_singleton.mp h)
  | cons first fields ih =>
    obtain ⟨key, old⟩ := first
    rw [Fields.insert] at h
    split at h
    · exact List.mem_cons.mp h
    · split at h
      · exact (List.mem_cons.mp h).imp id (List.mem_cons_of_mem _)
      · rcases List.mem_cons.mp h with h | h
        · exact .inr (h ▸ List.mem_cons_self)
        · exact (ih h).imp id (List.mem_cons_of_mem _)

theorem Value.Fit.insert {N : Norm} {functions : List Declaration} {fields : Fields}
    {value : Value} (h : (Value.map fields).Fit N functions) (name : String)
    (hvalue : value.Fit N functions) :
    (Value.map (Fields.insert name value fields)).Fit N functions := by
  refine Value.fit_map fun field hfield => ?_
  rcases Fields.mem_insert hfield with rfl | hfield
  · exact hvalue
  · exact h.field hfield

theorem Value.fit_ofLiteral {N : Norm} {functions : List Declaration} {token : Token}
    {value : Value} (h : Value.ofLiteral token = .ok value) : value.Fit N functions := by
  unfold Value.ofLiteral at h
  split at h
  · cases h
    exact fit_string _
  · split at h
    · cases h
      exact fit_number _
    · cases h
  · cases h
    exact fit_boolean _
  · cases h

/-! ## States -/

namespace Cells

variable {cells : Cells} {cell other : Cell} {value : Value}

theorem get?_add_cases {content : Option Value}
    (h : (cells.add content).get? cell = some value) :
    cells.get? cell = some value ∨ content = some value := by
  unfold get? add at h
  rw [Array.getElem?_push] at h
  split at h
  · exact .inr h
  · exact .inl h

theorem get?_fill_cases {content : Value} (h : (cells.fill other content).get? cell = some value) :
    cells.get? cell = some value ∨ content = value := by
  unfold get? fill at h
  rw [Array.getElem?_setIfInBounds] at h
  split at h
  · split at h
    · exact .inr (Option.some.inj h)
    · cases h
  · exact .inl h

end Cells

/-- The value that the variable holds by itself is fit, if there is one. -/
def Variable.Fit (N : Norm) (functions : List Declaration) (v : Variable) : Prop :=
  ∀ value, v.slot = .ready value → value.Fit N functions

/-- The values that the variables hold by themselves are fit. -/
def Variables.Fit (N : Norm) (functions : List Declaration) (vars : Variables) : Prop :=
  ∀ v ∈ vars.entries, v.Fit N functions

/-- All values that the state holds are fit, its functions have different names, and it sees no
modules but those of the library. -/
structure State.Fit (N : Norm) (s : State) : Prop where
  vars : s.vars.Fit N s.functions
  cells : ∀ cell value, s.cells.get? cell = some value → value.Fit N s.functions
  names : (s.functions.map Declaration.name).Nodup
  modules : s.imports.modules ⊆ Library.modules

theorem State.fit_start (N : Norm) (console : Console) (scopes : Scopes) :
    ({ console, scopes } : State).Fit N where
  vars v hv := absurd hv List.not_mem_nil
  cells cell value hvalue := by cases hvalue
  names := List.nodup_nil
  modules := List.nil_subset _

/-- The later state is fit, and its functions are those of the earlier one with newer ones in
front. -/
structure State.Grows (N : Norm) (s t : State) : Prop where
  functions : s.functions <:+ t.functions
  fit : t.Fit N

section States

variable {N : Norm} {s t u : State} {functions functions' : List Declaration} {vars : Variables}

theorem Variable.fit_plain {value : Value} (h : value.Fit N functions) (name : String) :
    (Variable.plain name value).Fit N functions := by
  rintro _ ⟨⟩
  exact h

theorem Variable.fit_ofCell (name : String) (cell : Cell) :
    (Variable.ofCell name cell).Fit N functions := by
  rintro _ ⟨⟩

theorem Variables.Fit.mono (h : vars.Fit N functions) (hsubset : functions ⊆ functions') :
    vars.Fit N functions' :=
  fun v hv value hvalue => (h v hv value hvalue).mono hsubset

theorem Variables.Fit.replace (h : vars.Fit N functions) {v : Variable} (hv : v.Fit N functions) :
    (vars.replace v).Fit N functions := by
  intro w hw
  rcases Variables.mem_replace hw with rfl | hw
  · exact hv
  · exact h w hw

namespace State

theorem Fit.grows (h : s.Fit N) : s.Grows N s := ⟨List.suffix_rfl, h⟩

theorem Grows.trans (h : s.Grows N t) (h' : t.Grows N u) : s.Grows N u :=
  ⟨h.functions.trans h'.functions, h'.fit⟩

theorem Grows.subset (h : s.Grows N t) : s.functions ⊆ t.functions := h.functions.subset

theorem Fit.peek (h : s.Fit N) (hvars : vars.Fit N s.functions) {v : Variable}
    (hv : v ∈ vars.entries) {value : Value} (hpeek : v.peek s.cells = some value) :
    value.Fit N s.functions := by
  unfold Variable.peek at hpeek
  split at hpeek
  · next slot hslot =>
    cases hpeek
    exact hvars v hv _ hslot
  · exact h.cells _ _ hpeek

theorem Fit.withVars (h : s.Fit N) (hvars : vars.Fit N s.functions) :
    s.Grows N { s with vars } :=
  ⟨List.suffix_rfl, hvars, h.cells, h.names, h.modules⟩

theorem Fit.withConsole (h : s.Fit N) (console : Console) : s.Grows N { s with console } :=
  ⟨List.suffix_rfl, h.vars, h.cells, h.names, h.modules⟩

theorem Fit.withLog (h : s.Fit N) (log : ReturnLog) : s.Grows N { s with log } :=
  ⟨List.suffix_rfl, h.vars, h.cells, h.names, h.modules⟩

theorem Fit.withImports (h : s.Fit N) {imports : ImportTable}
    (himports : imports.modules ⊆ Library.modules) : s.Grows N { s with imports } :=
  ⟨List.suffix_rfl, h.vars, h.cells, h.names, himports⟩

theorem Fit.addFunction (h : s.Fit N) {declaration : Declaration}
    (hfree : ∀ other ∈ s.functions, other.name ≠ declaration.name) :
    s.Grows N { s with functions := declaration :: s.functions } where
  functions := List.suffix_cons _ _
  fit :=
    { vars := h.vars.mono (List.subset_cons_self _ _)
      cells := fun cell value hvalue => (h.cells cell value hvalue).mono (List.subset_cons_self _ _)
      names := by
        refine List.nodup_cons.mpr ⟨fun hmem => ?_, h.names⟩
        obtain ⟨other, hother, hname⟩ := List.mem_map.mp hmem
        exact hfree other hother hname
      modules := h.modules }

theorem Fit.addCell (h : s.Fit N) {content : Option Value}
    (hcontent : ∀ value ∈ content, value.Fit N s.functions) :
    s.Grows N { s with cells := s.cells.add content } := by
  refine ⟨List.suffix_rfl, h.vars, fun cell value hvalue => ?_, h.names, h.modules⟩
  rcases Cells.get?_add_cases hvalue with hvalue | hvalue
  · exact h.cells cell value hvalue
  · exact hcontent value hvalue

theorem Fit.fillCell (h : s.Fit N) (cell : Cell) {value : Value}
    (hvalue : value.Fit N s.functions) :
    s.Grows N { s with cells := s.cells.fill cell value } := by
  refine ⟨List.suffix_rfl, h.vars, fun other content hcontent => ?_, h.names, h.modules⟩
  rcases Cells.get?_fill_cases hcontent with hcontent | rfl
  · exact h.cells other content hcontent
  · exact hvalue

/-- A name that is found is found ever after: newer functions have other names. -/
theorem Grows.function? (h : s.Grows N t) {name : String} {declaration : Declaration}
    (hfunction : s.function? name = some declaration) : t.function? name = some declaration := by
  obtain ⟨newer, hnewer⟩ := h.functions
  have hnames := h.fit.names
  rw [← hnewer, List.map_append, List.nodup_append] at hnames
  have hname : declaration.name = name := by simpa using List.find?_some hfunction
  have hnone : newer.find? (·.name = name) = none := by
    rw [List.find?_eq_none]
    intro other hother
    have hne := hnames.2.2 other.name (List.mem_map_of_mem hother) declaration.name
      (List.mem_map_of_mem (List.mem_of_find?_eq_some hfunction))
    simpa [hname] using hne
  unfold State.function? at *
  rw [← hnewer, List.find?_append, hnone, hfunction]
  rfl

end State

end States

/-! ## What is held -/

/-- The value stands in what a variable of the running scope or of one of these scopes holds, or in
what a record leads to. -/
def State.Holds (s : State) (scopes : List Variables) (value : Value) : Prop :=
  (∃ vars ∈ s.vars :: scopes, ∃ v ∈ vars.entries, ∃ held, v.peek s.cells = some held ∧
    value.Within held) ∨
  ∃ record ∈ s.log.latestFirst, ∃ held, s.cells.get? record.cell = some held ∧ value.Within held

/-- The items of the array that a variable of the running scope holds. -/
def State.items? (s : State) (name : String) : Option (List Value) := do
  let v ← s.vars.get? name
  let value ← v.peek s.cells
  value.items?

theorem State.holds_of_items? {s : State} {name : String} {items : List Value}
    (h : s.items? name = some items) (scopes : List Variables) : s.Holds scopes (.array items) := by
  obtain ⟨v, hv, h⟩ := Option.bind_eq_some_iff.mp h
  obtain ⟨held, hheld, h⟩ := Option.bind_eq_some_iff.mp h
  rw [Value.items?_eq_some_iff] at h
  exact .inl ⟨s.vars, List.mem_cons_self, v, Variables.mem_of_get? hv, held, hheld, h ▸ .whole⟩

theorem Value.Within.trans {part value whole : Value} (h : part.Within value)
    (h' : value.Within whole) : part.Within whole := by
  induction h' with
  | whole => exact h
  | item hitem _ ih => exact .item hitem ih
  | field hfield _ ih => exact .field hfield ih

theorem State.Holds.within {s : State} {scopes : List Variables} {part value : Value}
    (h : s.Holds scopes value) (hpart : part.Within value) : s.Holds scopes part := by
  rcases h with ⟨vars, hvars, v, hv, held, hheld, hwithin⟩ | ⟨record, hrecord, held, hheld, hwithin⟩
  · exact .inl ⟨vars, hvars, v, hv, held, hheld, hpart.trans hwithin⟩
  · exact .inr ⟨record, hrecord, held, hheld, hpart.trans hwithin⟩

theorem Value.Fit.within {N : Norm} {functions : List Declaration} {part whole : Value}
    (h : whole.Fit N functions) (hpart : part.Within whole) : part.Fit N functions where
  declared name hname := h.declared name (hname.trans hpart)
  arrays items hitems := h.arrays items (hitems.trans hpart)

theorem State.Fit.of_holds {N : Norm} {s : State} {scopes : List Variables} {value : Value}
    (h : s.Fit N) (hscopes : ∀ vars ∈ scopes, vars.Fit N s.functions)
    (hholds : s.Holds scopes value) : value.Fit N s.functions := by
  rcases hholds with ⟨vars, hvars, v, hv, held, hheld, hwithin⟩ | ⟨record, -, held, hheld, hwithin⟩
  · have hfit : vars.Fit N s.functions :=
      List.forall_mem_cons.mpr ⟨h.vars, hscopes⟩ vars hvars
    exact (h.peek hfit hv hheld).within hwithin
  · exact (h.cells _ _ hheld).within hwithin

/-- The value is fit, if there is one. -/
def Norm.Admits (N : Norm) (functions : List Declaration) (result : Option Value) : Prop :=
  ∀ value ∈ result, value.Fit N functions

theorem Norm.admits_none (N : Norm) (functions : List Declaration) : N.Admits functions none := by
  rintro value ⟨⟩

theorem Norm.admits_some {N : Norm} {functions : List Declaration} {value : Value}
    (h : value.Fit N functions) : N.Admits functions (some value) := by
  rintro _ ⟨⟩
  exact h

/-- The call is made in a fit state and with fit values. -/
structure Invocation.Fit (N : Norm) (i : Invocation) : Prop where
  state : i.state.Fit N
  values : ∀ value ∈ i.values, value.Fit N i.state.functions

end Scripting
