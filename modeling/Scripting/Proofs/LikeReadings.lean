import Scripting.Proofs.LikeStates
import Scripting.Proofs.Loading

/-!
# Like tokens read alike

Tokens that are the same but for their places write programs that are the same but for places, and
if one list of tokens writes no program, then neither does the other, for the same reason. The
grammar tells the first half of this, but nothing about refusals. So the two readings are compared
step by step here: two steps of reading are alike if from like cursors they end alike, as for steps
of a run.

What an import stands for depends on the name that is imported alone, and a refusal of it points at
the place of the name or belongs to another file (`Loader.alike_resolve`).
-/

namespace Scripting

variable {c : Correspondence}

/-! ## Rules -/

/-- Lists that are related item by item are so up to the first item without a property and from it
on, if related items have the property alike. -/
theorem forall₂_takeWhile {α β : Type} {R : α → β → Prop} {p : α → Bool} {q : β → Bool}
    (hpq : ∀ a b, R a b → p a = q b) {xs : List α} {ys : List β} (h : List.Forall₂ R xs ys) :
    List.Forall₂ R (xs.takeWhile p) (ys.takeWhile q) ∧
      List.Forall₂ R (xs.dropWhile p) (ys.dropWhile q) := by
  induction h with
  | nil => exact ⟨.nil, .nil⟩
  | @cons a b xs ys hab hrest ih =>
    rw [List.takeWhile_cons, List.takeWhile_cons, List.dropWhile_cons, List.dropWhile_cons,
      hpq a b hab]
    split
    · exact ⟨.cons hab ih.1, ih.2⟩
    · exact ⟨.nil, .cons hab hrest⟩

theorem option_rel_self {α : Type} {R : α → α → Prop} (hR : ∀ a, R a a) (x : Option α) :
    Option.Rel R x x := by
  cases x with
  | none => exact .none
  | some a => exact .some (hR a)

theorem Outcome.Alike.bind {α β γ δ : Type} {P : α → β → Prop} {Q : γ → δ → Prop}
    {x : Except Error α} {y : Except Error β} {f : α → Except Error γ} {g : β → Except Error δ}
    (h : Outcome.Alike c P x y) (hfg : ∀ a b, P a b → Outcome.Alike c Q (f a) (g b)) :
    Outcome.Alike c Q (x >>= f) (y >>= g) := by
  cases h with
  | ok h => exact hfg _ _ h
  | error h => exact .error h

namespace Program

variable (c) in
/-- The cursors stand at the same tokens but for places. -/
structure Cursor.Alike (cursor other : Cursor) : Prop where
  previous : c.span cursor.previous other.previous
  rest : List.Forall₂ (Token.Alike c) cursor.rest other.rest

namespace Parser

variable {α β γ δ : Type} {P : α → β → Prop} {Q : γ → δ → Prop}

variable (c) in
/-- Both readings come to related items and leave like cursors, or both are refused alike. -/
abbrev Ends (P : α → β → Prop) : Except Error (α × Cursor) → Except Error (β × Cursor) → Prop :=
  Outcome.Alike c fun x y => P x.1 y.1 ∧ x.2.Alike c y.2

variable (c) in
/-- From like cursors the steps end alike. -/
def Alike (P : α → β → Prop) (parser : Parser α) (other : Parser β) : Prop :=
  ∀ cursor cursor', cursor.Alike c cursor' → Ends c P (parser cursor) (other cursor')

theorem alike_pure {a : α} {b : β} (h : P a b) : Alike c P (pure a) (pure b) :=
  fun _ _ hcursor => .ok ⟨h, hcursor⟩

theorem alike_refuse {span span' : Span} (cause : Cause) (h : c.span span span') :
    Alike c P (refuse cause span : Parser α) (refuse cause span' : Parser β) :=
  fun _ _ _ => .error (Error.alike_locate cause h)

theorem alike_refuseEnd (cause : Cause) :
    Alike c P (refuseEnd cause : Parser α) (refuseEnd cause : Parser β) :=
  fun _ _ hcursor => .error (Error.alike_locate cause hcursor.previous)

theorem alike_lift {x : Except Error α} {y : Except Error β} (h : Outcome.Alike c P x y) :
    Alike c P (liftM x : Parser α) (liftM y : Parser β) := by
  intro cursor cursor' hcursor
  cases h with
  | ok h => exact .ok ⟨h, hcursor⟩
  | error h => exact .error h

theorem alike_set {cursor cursor' : Cursor} (h : cursor.Alike c cursor') :
    Alike c Eq (set cursor : Parser PUnit) (set cursor' : Parser PUnit) :=
  fun _ _ _ => .ok ⟨rfl, h⟩

theorem Alike.bind {parser : Parser α} {other : Parser β} {next : α → Parser γ}
    {next' : β → Parser δ} (h : Alike c P parser other)
    (hnext : ∀ a b, P a b → Alike c Q (next a) (next' b)) :
    Alike c Q (parser >>= next) (other >>= next') := by
  intro cursor cursor' hcursor
  show Ends c Q (parser cursor >>= fun x => next x.1 x.2) (other cursor' >>= fun y => next' y.1 y.2)
  have hends := h cursor cursor' hcursor
  exact hends.bind fun x y h => hnext x.1 y.1 h.1 x.2 y.2 h.2

theorem Alike.map {parser : Parser α} {other : Parser β} {f : α → γ} {g : β → δ}
    (h : Alike c P parser other) (hfg : ∀ a b, P a b → Q (f a) (g b)) :
    Alike c Q (f <$> parser) (g <$> other) := by
  rw [map_eq_pure_bind, map_eq_pure_bind]
  exact h.bind fun a b hab => alike_pure (hfg a b hab)

theorem alike_get : Alike c (Cursor.Alike c) get get :=
  fun _ _ hcursor => .ok ⟨hcursor, hcursor⟩

/-! ## Single tokens -/

theorem alike_peek? : Alike c (Option.Rel (Token.Alike c)) peek? peek? := by
  intro cursor cursor' hcursor
  refine .ok ⟨?_, hcursor⟩
  have hrest := hcursor.rest
  show Option.Rel _ cursor.rest.head? cursor'.rest.head?
  generalize cursor.rest = tokens at hrest ⊢
  generalize cursor'.rest = others at hrest ⊢
  cases hrest with
  | nil => exact .none
  | cons htoken _ => exact .some htoken

theorem alike_peekKind? : Alike c Eq peekKind? peekKind? := by
  refine alike_peek?.bind fun token? other? h => alike_pure ?_
  cases h with
  | none => rfl
  | some h => exact congrArg some h.kind

theorem alike_next? : Alike c (Option.Rel (Token.Alike c)) next? next? := by
  refine alike_get.bind fun cursor cursor' hcursor => ?_
  obtain ⟨-, hrest⟩ := hcursor
  generalize cursor.rest = tokens at hrest ⊢
  generalize cursor'.rest = others at hrest ⊢
  cases hrest with
  | nil => exact alike_pure .none
  | cons htoken hrest =>
    exact (alike_set ⟨htoken.span, hrest⟩).bind fun _ _ _ => alike_pure (.some htoken)

theorem alike_next : Alike c (Token.Alike c) next next := by
  refine alike_next?.bind fun token? other? h => ?_
  cases h with
  | none => exact alike_refuseEnd _
  | some h => exact alike_pure h

theorem alike_accept (kind : TokenKind) : Alike c Eq (accept kind) (accept kind) := by
  refine alike_peekKind?.bind ?_
  rintro found _ rfl
  split
  · exact alike_next?.bind fun _ _ _ => alike_pure rfl
  · exact alike_pure rfl

theorem alike_expect (kind : TokenKind) (expected : String) :
    Alike c (Token.Alike c) (expect kind expected) (expect kind expected) := by
  refine alike_next?.bind fun token? other? h => ?_
  cases h with
  | none => exact alike_refuseEnd _
  | some h =>
    dsimp only
    rw [← h.kind, ← h.lexeme]
    split
    · exact alike_pure h
    · exact alike_refuse _ h.span

theorem alike_expectName (expected : String) :
    Alike c (Token.Alike c) (expectName expected) (expectName expected) := by
  refine (alike_expect _ _).bind fun token other h => ?_
  rw [← h.keyword?_eq, ← h.lexeme]
  split
  · exact alike_refuse _ h.span
  · exact alike_pure h

/-! ## Lists of arguments and parameters -/

/-- The induction follows the recursion of the reading, two tokens at a time. -/
theorem ends_argumentsFrom {rest rest' : List Token} {previous previous' : Span}
    (hprevious : c.span previous previous') (hrest : List.Forall₂ (Token.Alike c) rest rest') :
    Ends c (List.Forall₂ (Token.Alike c)) (argumentsFrom previous rest)
      (argumentsFrom previous' rest') := by
  induction rest using List.twoStepInduction generalizing rest' previous previous' with
  | nil =>
    cases hrest
    exact .error (Error.alike_locate _ hprevious)
  | singleton token =>
    obtain _ | ⟨htoken, _ | _⟩ := hrest
    unfold argumentsFrom
    rw [htoken.kind, htoken.keyword?_eq, htoken.lexeme]
    split
    · exact .error (Error.alike_locate _ htoken.span)
    · exact .error (Error.alike_locate _ htoken.span)
  | cons_cons token separator rest ih =>
    obtain _ | ⟨htoken, _ | @⟨_, separator', _, _, hseparator, hrest⟩⟩ := hrest
    unfold argumentsFrom
    rw [htoken.kind, htoken.keyword?_eq, htoken.lexeme]
    split
    · exact .error (Error.alike_locate _ htoken.span)
    · dsimp only
      rw [hseparator.kind, hseparator.lexeme]
      cases separator'.kind with
      | comma =>
        exact (ih hseparator.span hrest).bind fun x y h => .ok ⟨.cons htoken h.1, h.2⟩
      | rightParen => exact .ok ⟨.cons htoken .nil, hseparator.span, hrest⟩
      | _ => exact .error (Error.alike_locate _ hseparator.span)

theorem alike_arguments : Alike c (List.Forall₂ (Token.Alike c)) arguments arguments := by
  refine (alike_accept _).bind ?_
  rintro closed _ rfl
  split
  · exact alike_pure .nil
  · refine alike_get.bind fun cursor cursor' hcursor => ?_
    have hlist := ends_argumentsFrom hcursor.previous hcursor.rest
    exact (alike_lift hlist).bind fun x y h => (alike_set h.2).bind fun _ _ _ => alike_pure h.1

theorem alike_parameterType {token other : Token} (h : token.Alike c other) :
    Outcome.Alike c Eq (parameterType token) (parameterType other) := by
  unfold parameterType
  rw [h.lexeme]
  split
  · exact .ok rfl
  · exact .error (Error.alike_locate _ h.span)

/-- The induction is on the number of tokens, since a parameter takes two or four of them. -/
theorem ends_parametersFrom {rest rest' : List Token} {previous previous' : Span}
    (taken : List String) (hprevious : c.span previous previous')
    (hrest : List.Forall₂ (Token.Alike c) rest rest') :
    Ends c Eq (parametersFrom taken previous rest) (parametersFrom taken previous' rest') := by
  induction hn : rest.length using Nat.strongRecOn
    generalizing rest rest' previous previous' taken with
  | ind n ih =>
    subst hn
    obtain _ | @⟨_, name', _, _, hname, hrest⟩ := hrest
    · exact .error (Error.alike_locate _ hprevious)
    unfold parametersFrom
    rw [hname.isName_eq, hname.lexeme]
    split
    · exact .error (Error.alike_locate _ hname.span)
    split
    · exact .error (Error.alike_locate _ hname.span)
    obtain _ | @⟨_, separator', _, _, hseparator, hrest⟩ := hrest
    · exact .error (Error.alike_locate _ hname.span)
    have hbad : ∀ token other : Token, token.Alike c other →
        (parametersFrom.badSeparator token).Alike c (parametersFrom.badSeparator other) := by
      intro token other h
      unfold parametersFrom.badSeparator
      rw [h.lexeme]
      exact Error.alike_locate _ h.span
    dsimp only
    rw [hseparator.kind]
    cases separator'.kind with
    | colon =>
      obtain _ | ⟨htype, hrest⟩ := hrest
      · exact .error (Error.alike_locate _ hseparator.span)
      refine (alike_parameterType htype).bind ?_
      rintro type _ rfl
      obtain _ | @⟨_, last', _, _, hlast, hrest⟩ := hrest
      · exact .error (Error.alike_locate _ htype.span)
      dsimp only
      rw [hlast.kind]
      cases last'.kind with
      | comma =>
        refine (ih _ ?_ (name'.lexeme :: taken) hlast.span hrest rfl).bind fun x y h =>
          .ok ⟨congrArg (List.cons _) h.1, h.2⟩
        simp only [List.length_cons]
        omega
      | rightParen => exact .ok ⟨rfl, hlast.span, hrest⟩
      | _ => exact .error (hbad _ _ hlast)
    | comma =>
      refine (ih _ ?_ (name'.lexeme :: taken) hseparator.span hrest rfl).bind fun x y h =>
        .ok ⟨congrArg (List.cons _) h.1, h.2⟩
      simp only [List.length_cons]
      omega
    | rightParen => exact .ok ⟨rfl, hseparator.span, hrest⟩
    | _ => exact .error (hbad _ _ hseparator)

theorem alike_parameters : Alike c Eq parameters parameters := by
  refine (alike_accept _).bind ?_
  rintro closed _ rfl
  split
  · exact alike_pure rfl
  · refine alike_get.bind fun cursor cursor' hcursor => ?_
    have hlist := ends_parametersFrom [] hcursor.previous hcursor.rest
    exact (alike_lift hlist).bind fun x y h => (alike_set h.2).bind fun _ _ _ => alike_pure h.1

/-! ## Values -/

theorem alike_call {name name' : Token} (hname : name.Alike c name') :
    Alike c (Call.Alike c) (call name) (call name') :=
  (alike_expect _ _).bind fun _ _ _ => alike_arguments.bind fun _ _ hargs =>
    alike_pure ⟨hname.lexeme, hargs, hname.span⟩

theorem alike_access {name name' : Token} (hname : name.Alike c name') :
    Alike c (Access.Alike c) (access name) (access name') := by
  refine (alike_expect _ _).bind fun _ _ _ => alike_next.bind fun field field' hfield => ?_
  rw [← hfield.isName_eq, ← hfield.lexeme]
  split
  · exact alike_refuse _ hfield.span
  · refine (alike_accept _).bind ?_
    rintro called _ rfl
    dsimp only
    split
    · refine Alike.bind (P := Option.Rel (List.Forall₂ (Token.Alike c)))
        (alike_arguments.map fun _ _ h => .some h) fun _ _ hargs => ?_
      exact alike_pure ⟨hname.lexeme, rfl, hargs, hname.span⟩
    · refine Alike.bind (P := Option.Rel (List.Forall₂ (Token.Alike c))) (alike_pure .none)
        fun _ _ hargs => ?_
      exact alike_pure ⟨hname.lexeme, rfl, hargs, hname.span⟩

theorem alike_value : Alike c (Expr.Alike c) value value := by
  refine alike_next?.bind fun token? other? h => ?_
  cases h with
  | none => exact alike_refuseEnd _
  | some htoken =>
    dsimp only
    rw [← htoken.kind, ← htoken.isName_eq, ← htoken.lexeme]
    split
    · exact alike_pure (.literal htoken)
    · split
      · refine alike_peekKind?.bind ?_
        rintro kind _ rfl
        split
        · exact (alike_call htoken).map fun _ _ h => .call h
        · exact (alike_access htoken).map fun _ _ h => .access h
        · exact alike_pure (.reference htoken)
      · exact alike_refuse _ htoken.span

/-! ## Statements -/

variable (c) in
/-- The resolvers answer alike to targets that are the same but for their places. -/
def Resolves (resolve other : Resolver) : Prop :=
  ∀ target target', target.Alike c target' →
    Outcome.Alike c (Form.Alike c) (resolve target) (other target')

section Statements

open Program.Grammar (alike_statementAt)

variable {resolve other : Resolver} (hresolve : Resolves c resolve other)
  {function function' : Bool → Parser Statement}
  (hfunction : ∀ exported, Alike c (Statement.Alike c) (function exported) (function' exported))

include hresolve in
theorem alike_importStatement (exported : Bool) :
    Alike c (Statement.Alike c) (importStatement resolve exported)
      (importStatement other exported) := by
  refine alike_next.bind fun keyword keyword' hkeyword =>
    alike_next.bind fun target target' htarget => ?_
  rw [← htarget.kind, ← htarget.lexeme]
  split
  · exact alike_refuse _ htarget.span
  · exact (alike_lift (hresolve _ _ htarget)).bind fun form form' hform =>
      alike_pure (alike_statementAt hkeyword hform)

include hresolve hfunction in
theorem alike_exportStatement :
    Alike c (Statement.Alike c) (exportStatement resolve function)
      (exportStatement other function') := by
  refine alike_next.bind fun keyword keyword' hkeyword => alike_peek?.bind fun token? other? h => ?_
  cases h with
  | none => exact alike_refuse _ hkeyword.span
  | some htoken =>
    dsimp only
    rw [← htoken.keyword?_eq, ← htoken.lexeme]
    split
    · exact alike_importStatement hresolve true
    · exact hfunction true
    · exact alike_refuse _ htoken.span

theorem alike_declareStatement :
    Alike c (Statement.Alike c) declareStatement declareStatement := by
  refine alike_next.bind fun keyword keyword' hkeyword =>
    (alike_expectName _).bind fun name name' hname => (alike_expect _ _).bind fun _ _ _ =>
    alike_value.bind fun value value' hvalue => ?_
  rw [← hname.lexeme]
  exact alike_pure (alike_statementAt hkeyword (.declare hvalue))

theorem alike_returnStatement : Alike c (Statement.Alike c) returnStatement returnStatement := by
  refine alike_next.bind fun keyword keyword' hkeyword => ?_
  rw [← hkeyword.scope]
  split
  · exact alike_refuse _ hkeyword.span
  · exact alike_value.bind fun value value' hvalue =>
      alike_pure (alike_statementAt hkeyword (.returns hvalue))

theorem alike_callStatement : Alike c (Statement.Alike c) callStatement callStatement :=
  alike_next.bind fun _ _ hname => (alike_call hname).bind fun _ _ hcall =>
    alike_pure (alike_statementAt hname (.call hcall))

theorem alike_accessStatement : Alike c (Statement.Alike c) accessStatement accessStatement := by
  refine alike_next.bind fun name name' hname => (alike_access hname).bind
    fun access access' haccess => ?_
  have hargs : access.args.isNone = access'.args.isNone := by
    have hrel := haccess.args
    generalize access.args = args at hrel ⊢
    generalize access'.args = args' at hrel ⊢
    cases hrel <;> rfl
  have hsame : (statementAt name (.access access) false).Alike c
      (statementAt name' (.access access') false) := alike_statementAt hname (.access haccess)
  rw [hargs]
  split
  · refine (alike_accept _).bind ?_
    rintro assigned _ rfl
    split
    · refine alike_value.bind fun value value' hvalue => ?_
      rw [haccess.module, haccess.field]
      exact alike_pure (alike_statementAt hname (.assign hvalue))
    · exact alike_pure hsame
  · exact alike_pure hsame

theorem alike_assignStatement : Alike c (Statement.Alike c) assignStatement assignStatement := by
  refine alike_next.bind fun name name' hname => (alike_expect _ _).bind fun _ _ _ =>
    alike_value.bind fun value value' hvalue => ?_
  rw [← hname.lexeme]
  exact alike_pure (alike_statementAt hname (.assign hvalue))

include hresolve hfunction in
theorem alike_statement :
    Alike c (Statement.Alike c) (statement resolve function) (statement other function') := by
  refine alike_get.bind fun cursor cursor' hcursor => ?_
  have hrest := hcursor.rest
  generalize cursor.rest = tokens at hrest ⊢
  generalize cursor'.rest = others at hrest ⊢
  obtain _ | @⟨token, token', rest, rest', htoken, hrest⟩ := hrest
  · exact alike_refuseEnd _
  have hhead : rest.head?.map Token.kind = rest'.head?.map Token.kind := by
    obtain _ | ⟨hnext, -⟩ := hrest
    · rfl
    · exact congrArg some hnext.kind
  dsimp only
  rw [← htoken.keyword?_eq, ← htoken.kind, ← htoken.lexeme, ← hhead]
  split
  · exact alike_importStatement hresolve false
  · exact alike_exportStatement hresolve hfunction
  · exact hfunction false
  · exact alike_declareStatement
  · exact alike_returnStatement
  · split
    · exact alike_callStatement
    · exact alike_accessStatement
    · exact alike_assignStatement
    · exact alike_refuse _ htoken.span

end Statements

theorem alike_statements {one one' : Parser Statement} (hone : Alike c (Statement.Alike c) one one')
    (count : Nat) :
    Alike c (List.Forall₂ (Statement.Alike c)) (statements one count) (statements one' count) := by
  induction count with
  | zero => exact alike_pure .nil
  | succ count ih =>
    refine alike_get.bind fun cursor cursor' hcursor => ?_
    have hempty : cursor.rest.isEmpty = cursor'.rest.isEmpty := by
      rw [Bool.eq_iff_iff, List.isEmpty_iff_length_eq_zero, List.isEmpty_iff_length_eq_zero,
        hcursor.rest.length_eq]
    rw [hempty]
    split
    · exact alike_pure .nil
    · exact hone.bind fun _ _ hfirst => ih.bind fun _ _ hrest => alike_pure (.cons hfirst hrest)

/-- Reading starts at a place of its own. -/
theorem alike_all (hstart : c.span {} {}) {one one' : Parser Statement}
    (hone : Alike c (Statement.Alike c) one one') {tokens others : List Token}
    (h : List.Forall₂ (Token.Alike c) tokens others) :
    Outcome.Alike c (List.Forall₂ (Statement.Alike c)) (all one tokens) (all one' others) := by
  unfold all
  rw [h.length_eq]
  exact (alike_statements hone others.length _ _ ⟨hstart, h⟩).bind fun x y h => .ok h.1

/-! ## Functions -/

theorem alike_nestedFunction (exported : Bool) :
    Alike c (Statement.Alike c) (nestedFunction exported) (nestedFunction exported) := by
  refine alike_next.bind fun keyword keyword' hkeyword => ?_
  rw [← hkeyword.scope]
  exact alike_refuse _ hkeyword.span

section Functions

variable (hstart : c.span {} {}) {resolve other : Resolver} (hresolve : Resolves c resolve other)
include hstart hresolve

theorem alike_body (name : String) {tokens others : List Token}
    (h : List.Forall₂ (Token.Alike c) tokens others) :
    Outcome.Alike c (Program.Alike c) (body resolve name tokens) (body other name others) := by
  rw [body_eq, body_eq]
  exact (alike_all hstart (alike_statement hresolve alike_nestedFunction)
    (Token.forall₂_inBody h name)).bind fun _ _ h => .ok (alike_ofStatements h)

theorem alike_functionStatement (file : Option SourceFile) (exported : Bool) :
    Alike c (Statement.Alike c) (functionStatement resolve file exported)
      (functionStatement other file exported) := by
  refine alike_next.bind fun keyword keyword' hkeyword => ?_
  rw [← hkeyword.scope]
  split
  · exact alike_refuse _ hkeyword.span
  refine (alike_expectName _).bind fun name name' hname => (alike_expect _ _).bind fun _ _ _ =>
    alike_parameters.bind fun params params' hparams => (alike_expect _ _).bind fun _ _ _ =>
    alike_get.bind fun cursor cursor' hcursor => ?_
  obtain ⟨hinner, hafter⟩ := forall₂_takeWhile (p := (·.kind ≠ .rightBrace))
    (q := (·.kind ≠ .rightBrace)) (fun token other h => by rw [h.kind]) hcursor.rest
  generalize cursor.rest.dropWhile _ = after at hafter ⊢
  generalize cursor'.rest.dropWhile _ = after' at hafter ⊢
  obtain _ | ⟨hclose, hrest⟩ := hafter
  · exact alike_refuseEnd _
  dsimp only
  rw [← hname.lexeme, ← hparams]
  refine (alike_lift (alike_body hstart hresolve name.lexeme hinner)).bind fun body body' hbody =>
    (alike_set ⟨hclose.span, hrest⟩).bind fun _ _ _ => alike_pure ?_
  exact Grammar.alike_statementAt hkeyword (.function ⟨rfl, rfl, hbody, hname.span, rfl⟩)

end Functions

end Parser

/-- Like tokens write like programs, or are refused alike. -/
theorem alike_ofTokens (hstart : c.span {} {}) {resolve other : Resolver}
    (hresolve : Parser.Resolves c resolve other) (file : Option SourceFile)
    {tokens others : List Token} (h : List.Forall₂ (Token.Alike c) tokens others) :
    Outcome.Alike c (Program.Alike c) (ofTokens resolve file tokens)
      (ofTokens other file others) := by
  rw [ofTokens_eq, ofTokens_eq]
  exact (Parser.alike_all hstart (Parser.alike_statement hresolve
    (Parser.alike_functionStatement hstart hresolve file)) h).bind
    fun _ _ h => .ok (alike_ofStatements h)

end Program

/-! ## Imports -/

namespace Loader

open Program.Grammar (Consistent)

variable (hplaces : ∀ span, c.span span span)
include hplaces

/-- A refusal belongs to the imported file and is the same then, or it points at the import. -/
theorem alike_resolveBy (read : Reading → Except Error Program) (loader : Loader)
    {target other : Token} (h : target.Alike c other) :
    Outcome.Alike c (fun _ _ => True) (resolveBy read loader target)
      (resolveBy read loader other) := by
  unfold resolveBy
  rw [← h.lexeme]
  split
  · exact .ok trivial
  · exact .error (Error.alike_locate _ h.span)
  · exact .error (Error.alike_locate _ h.span)
  split
  · exact .error (Error.alike_locate _ h.span)
  dsimp only
  split
  · exact .error (Error.alike_locate _ h.span)
  unfold importOf
  rw [← h.lexeme]
  generalize read _ = loaded
  cases loaded with
  | error e =>
    have hself : e.Alike c e := ⟨rfl, rfl, option_rel_self hplaces e.span⟩
    exact .error (hself.inFile _ _)
  | ok program =>
    dsimp only [Except.mapError, bind, Except.bind]
    split
    · exact .error (Error.alike_locate _ h.span)
    · exact .ok trivial

theorem alike_resolve {loader : Loader} (hresolve : Consistent c loader.resolve) :
    Program.Parser.Resolves c loader.resolve loader.resolve := by
  intro target other h
  have hends := alike_resolveBy hplaces load loader h
  rw [← resolve_eq] at hends
  cases hform : loader.resolve target with
  | ok form =>
    obtain ⟨hsame, hself⟩ := hresolve _ _ _ h hform
    rw [hsame]
    exact .ok hself
  | error e =>
    rw [hform] at hends
    generalize loader.resolve other = outcome at hends ⊢
    cases hends with
    | error h => exact .error h

/-- Texts with like tokens write like programs, or are refused alike. -/
theorem alike_ofSource {loader : Loader} (hresolve : Consistent c loader.resolve)
    {source other : String} {tokens others : List Token} (hsource : Token.scan source = .ok tokens)
    (hother : Token.scan other = .ok others) (h : List.Forall₂ (Token.Alike c) tokens others) :
    Outcome.Alike c (Program.Alike c) (loader.ofSource source) (loader.ofSource other) := by
  unfold ofSource
  rw [hsource, hother]
  exact Program.alike_ofTokens (hplaces _) (alike_resolve hplaces hresolve) _ h

end Loader

end Scripting
