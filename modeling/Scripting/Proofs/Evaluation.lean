import Scripting.Proofs.Ensures
import Scripting.Proofs.Requests
import Scripting.Proofs.Sound

/-!
# Evaluation leaves the scope as it is

Evaluating an expression reads variables, may run declared functions and may run library functions.
Here it is shown that all this advances a sound state and changes no variable of the scope as far as
can be seen, with one exception: the variable that a call of `IO.scan` reads into. Since such a call
has no result, an expression that has a value changes no variable at all.

How declared functions behave is taken as an assumption (`Invoke.Sound`), which is discharged by
induction over the call levels once statements are dealt with.
-/

namespace Scripting

open State

/-- The variable that an access reads into, if it is a call of `IO.scan`. -/
def Access.scanned (access : Access) : Set String :=
  match access.args with
  | some args => Library.writes access.module access.field args
  | none => ∅

theorem Access.scanned_some {access : Access} {args : List Token} (h : access.args = some args) :
    access.scanned = Library.writes access.module access.field args := by
  rw [scanned, h]

theorem Access.scanned_none {access : Access} (h : access.args = none) : access.scanned = ∅ := by
  rw [scanned, h]

instance (access : Access) (name : String) : Decidable (name ∈ access.scanned) :=
  match h : access.args with
  | some args =>
    decidable_of_iff (access.module = Library.Terminal.name ∧ access.field = "scan" ∧
      args[1]?.map Token.lexeme = some name) (by rw [Access.scanned_some h]; rfl)
  | none => isFalse (by rw [Access.scanned_none h]; exact Set.notMem_empty name)

/-- The variable that an expression reads into, if it is a call of `IO.scan`. -/
def Expr.scanned : Expr → Set String
  | .access a => a.scanned
  | _ => ∅

namespace Exec

variable {α β : Type} {D : Discipline} {X Y : Set String} {I J : Prop} {s t : State}

variable (D X I s) in
/-- Whether it succeeds or fails, the step advances the state and writes in `X` only. -/
def Keeps (step : Exec α) : Prop :=
  Ensures step s (fun _ t => Advances D X I s t) fun _ t => Advances D X I s t

/-- What a step does from a state that has been advanced to, seen from the start. -/
theorem Keeps.after {step : Exec α} (hst : Advances D X I s t) (h : Keeps D X I t step) :
    Ensures step t (fun _ u => Advances D X I s u) fun _ u => Advances D X I s u :=
  Ensures.imp h (fun _ _ hu => hst.trans hu) fun _ _ hu => hst.trans hu

theorem Keeps.andThen {step : Exec α} {next : α → Exec β} {Q : β → State → Prop}
    (h : Keeps D X I t step) (hst : Advances D X I s t)
    (hnext : ∀ a u, Advances D X I s u →
      Ensures (next a) u (fun _ v => Advances D X I s v) Q) :
    Ensures (step >>= next) t (fun _ u => Advances D X I s u) Q :=
  Ensures.bind ((h.after hst).imp (fun _ _ hu => hu) hnext)

theorem Keeps.bind {step : Exec α} {next : α → Exec β} (h : Keeps D X I s step)
    (hnext : ∀ a t, Advances D X I s t → Keeps D X I t (next a)) :
    Keeps D X I s (step >>= next) :=
  Ensures.bind (Ensures.imp h (fun _ _ ht => ht) fun a t ht => (hnext a t ht).after ht)

theorem Keeps.map {step : Exec α} {f : α → β} (h : Keeps D X I s step) :
    Keeps D X I s (f <$> step) := Ensures.map h

theorem Keeps.mono {step : Exec α} (h : Keeps D X I s step) (hXY : X ⊆ Y) (hIJ : I → J) :
    Keeps D Y J s step :=
  Ensures.imp h (fun _ _ ht => ht.mono hXY hIJ) fun _ _ ht => ht.mono hXY hIJ

theorem Keeps.weaken {step : Exec α} (h : Keeps D ∅ False s step) :
    Keeps D X I s step := h.mono (Set.empty_subset X) False.elim

theorem Keeps.decorate {step : Exec α} {f : Error → Error} (h : Keeps D X I s step) :
    Keeps D X I s (decorate f step) := Ensures.decorate h

theorem keeps_pure (hs : s.Sound D) (a : α) : Keeps D X I s (pure a) := hs.refl

theorem keeps_throw (hs : s.Sound D) (error : Error) :
    Keeps D X I s (throw error : Exec α) := hs.refl

theorem keeps_refuse (hs : s.Sound D) (cause : Cause) (span : Span) :
    Keeps D X I s (refuse cause span : Exec α) := hs.refl

theorem keeps_get (hs : s.Sound D) : Keeps D X I s get := hs.refl

theorem keeps_lift (hs : s.Sound D) (x : Except Error α) :
    Keeps D X I s (liftM x : Exec α) :=
  ensures_lift (fun _ _ => hs.refl) fun _ _ => hs.refl

/-! ## Reading -/

theorem run_readVariable_eq (s : State) (name : String) :
    s.run (readVariable name) =
      ((s.vars.read s.cells name).map Prod.fst,
        { s with vars := ((s.vars.read s.cells name).map Prod.snd).toOption.getD s.vars }) := by
  unfold readVariable
  rw [run_get_bind]
  cases s.vars.read s.cells name <;> rfl

theorem run_readVariable {name : String} {v : Variable} {value : Value}
    (hget : s.vars.get? name = some v) (hpeek : v.peek s.cells = some value) :
    s.run (readVariable name) = (.ok value, { s with vars := s.vars.replace (v.settle value) }) := by
  have hread : s.vars.read s.cells name = .ok (value, s.vars.replace (v.settle value)) := by
    rw [Variables.read, hget]
    simp only [hpeek]
  rw [run_readVariable_eq, hread]
  rfl

/-- Reading a variable gives the value that can be seen. -/
theorem ensures_readVariable (hs : s.Sound D) (name : String) :
    Ensures (readVariable name) s (fun _ t => t = s) fun value t =>
      Advances D ∅ False s t ∧ ∃ cell, s.view name = some (some value, cell) := by
  refine Ensures.bind (ensures_get ?_)
  refine Ensures.bind (ensures_lift ?_ fun _ _ => rfl)
  rintro ⟨value, vars⟩ hread
  unfold Variables.read at hread
  split at hread
  · cases hread
  · next v hget =>
    split at hread
    · cases hread
    · next value' hpeek =>
      cases hread
      refine ⟨hs.settle hget hpeek, v.cell, ?_⟩
      rw [view_eq_some hget, hpeek]

theorem keeps_readVariable (hs : s.Sound D) (name : String) :
    Keeps D X I s (readVariable name) :=
  (ensures_readVariable hs name).imp (by rintro _ _ rfl; exact hs.refl) fun _ _ ht => ht.1.weaken

theorem keeps_meaning (hs : s.Sound D) (token : Token) :
    Keeps D X I s (meaning token) := by
  refine (keeps_get hs).bind fun state t ht => ?_
  split
  · exact keeps_pure ht.sound _
  · exact keeps_refuse ht.sound _ _

theorem keeps_nameValue (hs : s.Sound D) (token : Token) :
    Keeps D X I s (nameValue token) := by
  refine (keeps_get hs).bind fun state t ht => ?_
  split
  · exact (keeps_readVariable ht.sound _).decorate
  · refine (keeps_meaning ht.sound token).bind fun meaning u hu => ?_
    split
    · exact keeps_pure hu.sound _
    · refine (keeps_get hu.sound).bind fun state v hv => ?_
      split
      · exact keeps_pure hv.sound _
      · exact keeps_refuse hv.sound _ _

theorem keeps_operand (hs : s.Sound D) (token : Token) :
    Keeps D X I s (operand token) := by
  unfold operand
  split
  · exact keeps_lift hs _
  · exact keeps_lift hs _
  · exact keeps_lift hs _
  · exact keeps_nameValue hs token
  · exact keeps_refuse hs _ _

theorem keeps_operands (hs : s.Sound D) (tokens : List Token) :
    Keeps D X I s (operands tokens) := by
  induction tokens generalizing s with
  | nil => exact keeps_pure hs []
  | cons token tokens ih =>
    exact (keeps_operand hs token).bind fun first t ht =>
      (ih ht.sound).bind fun rest u hu => keeps_pure hu.sound _

theorem keeps_callback (hs : s.Sound D) (token : Token) :
    Keeps D X I s (callback token) := by
  refine (keeps_operand hs token).bind fun value t ht => ?_
  split
  · refine (keeps_get ht.sound).bind fun state u hu => ?_
    split
    · exact keeps_pure hu.sound _
    · exact keeps_refuse hu.sound _ _
  · exact keeps_refuse ht.sound _ _

/-! ## Library functions -/

theorem keeps_argumentToken (hs : s.Sound D) (site : CallSite) (index : Nat) :
    Keeps D X I s (argumentToken site index) := by
  unfold argumentToken
  split
  · exact keeps_pure hs _
  · exact keeps_throw hs _

theorem keeps_readLine (hs : s.Sound D) (prompt : String) :
    Keeps D X I s (readLine prompt) := by
  have hread : Advances D X I s { s with console := (s.console.read prompt).2 } := hs.console _
  refine Ensures.bind (ensures_modifyGet ?_)
  split
  · exact hread
  · exact hread

theorem keeps_overview (hs : s.Sound D) : Keeps D X I s overview :=
  (keeps_get hs).bind fun _ _ ht => keeps_pure ht.sound _

/-- Giving a variable a value changes that variable only. -/
theorem ensures_assignVariable (hs : s.Sound D) (name : String) (value : Value)
    (hname : name ∈ X) :
    Ensures (assignVariable name value) s (fun _ t => t = s) fun _ t =>
      Advances D X I s t ∧ t.view name = some (some value, none) ∧ s.view name ≠ none := by
  refine Ensures.bind (ensures_get ?_)
  refine Ensures.bind (ensures_lift ?_ fun _ _ => rfl)
  intro vars hassign
  unfold Variables.assign at hassign
  split at hassign
  · next hcontains =>
    cases hassign
    obtain ⟨v, hv⟩ := Option.isSome_iff_exists.mp
      (Variables.contains_eq_isSome s.vars name ▸ hcontains)
    refine ⟨hs.replace (Variable.sound_plain name value) hname, ?_, ?_⟩
    · show (Variables.get? _ name).map _ = _
      rw [Variables.get?_replace, if_pos (show name = (Variable.plain name value).name from rfl), hv]
      rfl
    · rw [view_eq_some hv]
      exact Option.some_ne_none _
  · cases hassign

theorem keeps_assignVariable (hs : s.Sound D) (name : String) (value : Value)
    (hname : name ∈ X) : Keeps D X I s (assignVariable name value) :=
  (ensures_assignVariable hs name value hname).imp (by rintro _ _ rfl; exact hs.refl) fun _ _ ht => ht.1

theorem mem_functions_of_function? {name : String} {declaration : Declaration}
    (h : s.function? name = some declaration) : declaration ∈ s.functions :=
  List.mem_of_find?_eq_some h

end Exec

variable (D : Discipline) in
/-- Declared functions can be run in every sound state, and leave the scope of the caller alone. -/
def Invoke.Sound (invoke : Invoke) : Prop :=
  ∀ (declaration : Declaration) (values : List Value) (span : Span) (s : State),
    s.Sound D → declaration ∈ s.functions →
      Exec.Keeps D ∅ False s (invoke declaration values span)

namespace Exec

variable {α : Type} {D : Discipline} {X : Set String} {s : State} {invoke : Invoke}

/-- Running requests one after another is running the one that does both. -/
theorem native_bind {β : Type} (invoke : Invoke) (site : CallSite) (work : Native α)
    (next : α → Native β) :
    native invoke site (work >>= next) =
      native invoke site work >>= fun a => native invoke site (next a) := by
  show native invoke site (work.bind next) = _
  induction work with
  | done result => rw [Native.bind, native, pure_bind]
  | fail error => rfl
  | argument index k ih => simp only [Native.bind, native, bind_assoc, ih]
  | callback index k ih => simp only [Native.bind, native, bind_assoc, ih]
  | invoke function values k ih =>
    simp only [Native.bind, native, bind_assoc]
    refine bind_congr fun state => ?_
    split
    · simp only [bind_assoc, ih]
    · rfl
  | lookup name k ih =>
    simp only [Native.bind, native, bind_assoc]
    refine bind_congr fun state => ?_
    split
    · simp only [bind_assoc, ih]
    · exact ih none
  | assign name value k ih => simp only [Native.bind, native, bind_assoc, ih]
  | write line k ih => simp only [Native.bind, native, bind_assoc, ih]
  | read prompt k ih => simp only [Native.bind, native, bind_assoc, ih]
  | inspect k ih => simp only [Native.bind, native, bind_assoc, ih]

/-- The induction is on the tree of requests, with the tree's own confinement as its invariant. -/
theorem ensures_native (hinvoke : invoke.Sound D) (hs : s.Sound D) (site : CallSite)
    {Q : α → Prop} {work : Native α} (hwork : work.Confined X Q) :
    Ensures (native invoke site work) s (fun _ t => Advances D X False s t) fun result t =>
      Advances D X False s t ∧ Q result := by
  suffices h : ∀ t, Advances D X False s t →
      Ensures (native invoke site work) t (fun _ u => Advances D X False s u)
        fun result u => Advances D X False s u ∧ Q result from h s hs.refl
  induction work with
  | done result => exact fun t ht => ⟨ht, hwork⟩
  | fail error => exact fun t ht => ht
  | argument index next ih =>
    intro t ht
    refine (keeps_argumentToken ht.sound site index).andThen ht fun token u hu => ?_
    exact (keeps_operand hu.sound token).andThen hu fun value => ih value (hwork value)
  | callback index next ih =>
    intro t ht
    refine (keeps_argumentToken ht.sound site index).andThen ht fun token u hu => ?_
    exact (keeps_callback hu.sound token).andThen hu fun declaration => ih _ (hwork _)
  | invoke function values next ih =>
    intro t ht
    rw [native]
    refine Ensures.bind (ensures_get ?_)
    split
    · next declaration hfunction =>
      have hmem := mem_functions_of_function? hfunction
      exact (hinvoke declaration values site.span t ht.sound hmem).weaken.andThen ht
        fun result => ih result (hwork result)
    · exact ht
  | lookup name next ih =>
    intro t ht
    rw [native]
    refine Ensures.bind (ensures_get ?_)
    split
    · exact (keeps_readVariable ht.sound name).andThen ht fun value => ih _ (hwork _)
    · exact ih none (hwork none) t ht
  | assign name value next ih =>
    intro t ht
    exact (keeps_assignVariable ht.sound name value hwork.1).andThen ht fun _ => ih hwork.2
  | write line next ih =>
    intro t ht
    refine Ensures.bind (ensures_modify ?_)
    exact ih hwork _ (ht.trans (ht.sound.console _))
  | read prompt next ih =>
    intro t ht
    exact (keeps_readLine ht.sound prompt).andThen ht fun line => ih line (hwork line)
  | inspect next ih =>
    intro t ht
    exact (keeps_overview ht.sound).andThen ht fun overview => ih overview (hwork overview)

/-! ## Fields, calls and expressions -/

/-- What an evaluation that may be a call of `IO.scan` ensures: if it has a result, it is none. -/
abbrev Evaluates (D : Discipline) (X : Set String) (s : State) (step : Exec (Option Value)) :
    Prop :=
  Ensures step s (fun _ t => Advances D X False s t) fun result t =>
    Advances D X False s t ∧ (result.isSome → X = ∅)

theorem Keeps.evaluates {step : Exec (Option Value)} (h : Keeps D ∅ False s step) :
    Evaluates D ∅ s step :=
  Ensures.imp h (fun _ _ ht => ht) fun _ _ ht => ⟨ht, fun _ => rfl⟩

theorem evaluates_moduleField (hinvoke : invoke.Sound D) (hs : s.Sound D)
    {module : Module} (hmodule : module ∈ Library.modules) {access : Access}
    (hname : module.name = access.module) :
    Evaluates D access.scanned s (moduleField invoke module access) := by
  unfold moduleField
  split
  · exact hs.refl
  · next function args hexport hargs =>
    rw [Access.scanned_some hargs]
    unfold callNative
    split
    · have hconfined := Library.confined_body hmodule hexport
        { function := function.name, args, span := access.span }
      rw [hname] at hconfined
      exact Ensures.decorate (ensures_native hinvoke hs _ hconfined)
    · exact hs.refl
  · next hargs =>
    rw [Access.scanned_none hargs]
    exact (keeps_pure hs _).evaluates
  · exact hs.refl
  · next hargs =>
    rw [Access.scanned_none hargs]
    exact (keeps_pure hs _).evaluates

theorem evaluates_mapField (hs : s.Sound D) (access : Access) :
    Evaluates D access.scanned s (mapField access) := by
  unfold mapField
  split
  · exact hs.refl
  · next hargs =>
    rw [Access.scanned_none (by simpa using hargs)]
    refine ((keeps_readVariable hs access.module).bind fun value t ht => ?_).evaluates
    split
    · split
      · exact keeps_pure ht.sound _
      · exact keeps_refuse ht.sound _ _
    · exact keeps_refuse ht.sound _ _

theorem evaluates_field (hinvoke : invoke.Sound D) (hs : s.Sound D) (access : Access) :
    Evaluates D access.scanned s (field invoke access) := by
  refine Ensures.bind (ensures_get ?_)
  split
  · next module hget =>
    exact evaluates_moduleField hinvoke hs (hs.imports (ImportTable.mem_of_get? hget))
      (ImportTable.name_of_get? hget)
  · split
    · exact evaluates_mapField hs access
    · exact hs.refl

theorem keeps_callDeclared (hinvoke : invoke.Sound D) (hs : s.Sound D) (call : Call) :
    Keeps D ∅ False s (callDeclared invoke call) := by
  refine Ensures.bind (ensures_get ?_)
  split
  · exact hs.refl
  · next declaration hfunction =>
    split
    · exact hs.refl
    · refine (keeps_operands hs call.args).bind fun values t ht => ?_
      exact hinvoke declaration values call.span t ht.sound
        (ht.functions.subset (mem_functions_of_function? hfunction))

theorem evaluates_evaluate? (hinvoke : invoke.Sound D) (hs : s.Sound D) (expr : Expr) :
    Evaluates D expr.scanned s (evaluate? invoke expr) := by
  cases expr with
  | literal token => exact (keeps_operand hs token).map.evaluates
  | reference token => exact (keeps_operand hs token).map.evaluates
  | call call => exact (keeps_callDeclared hinvoke hs call).evaluates
  | access access => exact evaluates_field hinvoke hs access

/-- An evaluation that gives a value changes nothing that can be seen in the scope; one that fails may
have read into a variable. -/
theorem ensures_evaluate (hinvoke : invoke.Sound D) (hs : s.Sound D) (expr : Expr) :
    Ensures (evaluate invoke expr) s (fun _ t => Advances D expr.scanned False s t) fun _ t =>
      Advances D ∅ False s t := by
  refine Ensures.bind ((evaluates_evaluate? hinvoke hs expr).imp (fun _ _ ht => ht) ?_)
  rintro result t ⟨ht, hscanned⟩
  cases result with
  | some value => exact hscanned rfl ▸ ht
  | none => exact ht

end Exec

end Scripting
