import Scripting.Proofs.WellFormed

/-!
# Why texts are refused

A text that cannot be cut into tokens is refused for what it is written with (`Cause.IsLexical`).
When some tokens do not read as a program, there is one error, and it has one of two sources. Either
the grammar is not met, and the error points at one of the tokens, or an import cannot be resolved,
and the error is that of the resolver (`Program.Refusal`). The argument goes through the steps of
the parser one by one. A second pass through the steps that import shows that the resolver is asked
for nothing but what the tokens import (`Program.ofTokens_congr`).
-/

namespace Scripting

/-! ## Cutting -/

/-- The cause is that a text cannot be cut into tokens. -/
def Cause.IsLexical : Cause → Prop
  | .unexpectedCharacter _ | .unterminatedString | .invalidIdentifier _ => True
  | _ => False

namespace Token

theorem isLexical_of_cut {position : Position} {c : Char} {rest : List Char} {e : Error}
    (h : cut position c rest = .error e) : e.cause.IsLexical := by
  unfold cut at h
  split at h
  · cases h
  · split at h
    · unfold cutString at h
      dsimp only at h
      split at h <;> cases h
      trivial
    · split at h
      · unfold cutWord at h
        dsimp only at h
        split at h <;> cases h
        trivial
      · cases h
        trivial

theorem isLexical_of_scanFrom {position : Position} {cs : List Char} {e : Error}
    (h : scanFrom position cs = .error e) : e.cause.IsLexical := by
  fun_induction scanFrom position cs with
  | case1 => cases h
  | case2 _ _ _ _ ih => exact ih h
  | case3 _ _ _ _ _ ih => exact ih h
  | case4 _ _ _ _ _ error hcut =>
    cases h
    exact isLexical_of_cut hcut
  | case5 _ _ _ _ _ piece _ _ ih => exact ih (eq_error_of_bind_pure h)

end Token

/-! ## Answers to tokens -/

/-- The cause is that the grammar is not met. -/
def Cause.IsSyntactic : Cause → Prop
  | .unexpectedToken _ | .expectedToken _ _ | .expectedString _ | .expectedValue _
  | .invalidArgument _ | .invalidParameter _ | .unterminatedArguments | .unknownType _
  | .reservedWord _ | .nestedFunction _ | .returnOutsideFunction | .invalidExport _
  | .alreadyDeclared _ => True
  | _ => False

/-- Somewhere in the tokens the target is imported: it stands behind the word `import`. Its scope
may be another one than that of the token. -/
def Token.Imports (tokens : List Token) (target : Token) : Prop :=
  ∃ keyword found, [keyword, found] <:+: tokens ∧ keyword.keyword? = some .imports ∧
    found.kind = .string ∧ target.lexeme = found.lexeme ∧ target.span = found.span

/-- What is imported in the body of a function is imported in the file. -/
theorem Token.Imports.of_inBody {name : String} {inner tokens : List Token} {target : Token}
    (h : Token.Imports (inner.map (Token.inBody name)) target) (hinner : inner <:+: tokens) :
    Token.Imports tokens target := by
  obtain ⟨_, _, hpair, hkeyword, hkind, hlexeme, hspan⟩ := h
  obtain ⟨_, hinfix, hmap⟩ := List.infix_map_iff.mp hpair
  obtain ⟨keyword, _, rfl, rfl, htail⟩ := List.map_eq_cons_iff.mp hmap.symm
  obtain ⟨found, _, rfl, rfl, hnil⟩ := List.map_eq_cons_iff.mp htail
  cases List.map_eq_nil_iff.mp hnil
  exact ⟨keyword, found, hinfix.trans hinner, hkeyword, hkind, hlexeme,
    hspan.trans (Token.span_inBody name found)⟩

namespace Program

/-- The error is the answer to some tokens that do not read as a program. -/
inductive Refusal (resolve : Resolver) (tokens : List Token) : Error → Prop
  | syntactic {cause : Cause} {token : Token} (htoken : token ∈ tokens)
      (hcause : cause.IsSyntactic) :
      Refusal resolve tokens (.locate cause token.span)
  | unresolved {target : Token} {e : Error} (htarget : Token.Imports tokens target)
      (herror : resolve target = .error e) : Refusal resolve tokens e

/-- The cursor stands in the tokens: what is left to read is their end, and once nothing is left,
the token that was read last is one of them. -/
structure Cursor.In (cursor : Cursor) (tokens : List Token) : Prop where
  rest : cursor.rest <:+ tokens
  previous : cursor.rest = [] → ∃ token ∈ tokens, token.span = cursor.previous

theorem Cursor.In.mem {cursor : Cursor} {tokens : List Token} (h : cursor.In tokens) {token : Token}
    {rest : List Token} (hrest : cursor.rest = token :: rest) : token ∈ tokens := by
  refine h.rest.subset ?_
  rw [hrest]
  exact List.mem_cons_self

/-- After a token of the list, the cursor stands in the list. -/
theorem Cursor.in_of_suffix {tokens rest : List Token} {token : Token}
    (h : token :: rest <:+ tokens) : Cursor.In { previous := token.span, rest } tokens where
  rest := (List.suffix_cons token rest).trans h
  previous _ := ⟨token, h.subset List.mem_cons_self, rfl⟩

/-- The answer when the tokens run out. -/
theorem Cursor.In.refusal {cursor : Cursor} {tokens : List Token} (h : cursor.In tokens)
    (hrest : cursor.rest = []) {resolve : Resolver} {cause : Cause} (hcause : cause.IsSyntactic) :
    Refusal resolve tokens (.locate cause cursor.previous) := by
  obtain ⟨token, htoken, hspan⟩ := h.previous hrest
  rw [← hspan]
  exact .syntactic htoken hcause

namespace Parser

variable {α β : Type} {resolve : Resolver} {tokens : List Token} {parser : Parser α}
  {cursor : Cursor}

/-! ## Steps -/

/-- If the parser goes on, then it does so in the tokens, and if it fails, then that is an answer to
them. -/
def Heeds (resolve : Resolver) (tokens : List Token) (parser : Parser α) (cursor : Cursor)
    (Q : α → Cursor → Prop) : Prop :=
  match parser cursor with
  | .ok (a, after) => after.In tokens ∧ Q a after
  | .error e => Refusal resolve tokens e

section Rules

variable {P Q : α → Cursor → Prop}

theorem heeds_pure {a : α} (hcursor : cursor.In tokens) (h : Q a cursor) :
    Heeds resolve tokens (pure a) cursor Q :=
  ⟨hcursor, h⟩

theorem heeds_refuse {cause : Cause} {token : Token} (htoken : token ∈ tokens)
    (hcause : cause.IsSyntactic) :
    Heeds resolve tokens (refuse cause token.span : Parser α) cursor Q :=
  .syntactic htoken hcause

theorem heeds_refuseEnd {cause : Cause} (hcursor : cursor.In tokens) (hrest : cursor.rest = [])
    (hcause : cause.IsSyntactic) :
    Heeds resolve tokens (refuseEnd cause : Parser α) cursor Q :=
  hcursor.refusal hrest hcause

theorem Heeds.bind {next : α → Parser β} {Q : β → Cursor → Prop}
    (h : Heeds resolve tokens parser cursor P)
    (hnext : ∀ a after, after.In tokens → P a after → Heeds resolve tokens (next a) after Q) :
    Heeds resolve tokens (parser >>= next) cursor Q := by
  unfold Heeds at h
  split at h
  · next a after hrun =>
    have hbind : (parser >>= next) cursor = next a after := by
      show (parser cursor >>= _) = _
      rw [hrun]
      rfl
    unfold Heeds
    rw [hbind]
    exact hnext a after h.1 h.2
  · next e hrun =>
    have hbind : (parser >>= next) cursor = .error e := by
      show (parser cursor >>= _) = _
      rw [hrun]
      rfl
    unfold Heeds
    rw [hbind]
    exact h

theorem Heeds.map {f : α → β} {Q : β → Cursor → Prop} (h : Heeds resolve tokens parser cursor P)
    (hQ : ∀ a after, P a after → Q (f a) after) :
    Heeds resolve tokens (f <$> parser) cursor Q := by
  rw [map_eq_pure_bind]
  exact h.bind fun a after hafter hp => heeds_pure hafter (hQ a after hp)

theorem heeds_lift {x : Except Error α} (hcursor : cursor.In tokens)
    (hok : ∀ a, x = .ok a → Q a cursor) (herror : ∀ e, x = .error e → Refusal resolve tokens e) :
    Heeds resolve tokens (liftM x : Parser α) cursor Q := by
  cases x with
  | ok a => exact ⟨hcursor, hok a rfl⟩
  | error e => exact herror e rfl

theorem heeds_get_bind {next : Cursor → Parser β} {Q : β → Cursor → Prop}
    (h : Heeds resolve tokens (next cursor) cursor Q) :
    Heeds resolve tokens (get >>= next) cursor Q := h

theorem heeds_set {after : Cursor} (h : after.In tokens) :
    Heeds resolve tokens (set after : Parser PUnit) cursor fun _ _ => True :=
  ⟨h, trivial⟩

end Rules

/-! ## Single tokens -/

/-- Where the cursor stands after it has taken a token, if there was one. -/
inductive Taken (cursor : Cursor) : Option Token → Cursor → Prop
  | none (hrest : cursor.rest = []) : Taken cursor none cursor
  | some {token : Token} {rest : List Token} (hrest : cursor.rest = token :: rest) :
      Taken cursor (some token) { previous := token.span, rest }

theorem heeds_next? (hcursor : cursor.In tokens) :
    Heeds resolve tokens next? cursor (Taken cursor) := by
  unfold Heeds
  cases hrest : cursor.rest with
  | nil =>
    rw [next?_of_nil hrest]
    exact ⟨hcursor, .none hrest⟩
  | cons token rest =>
    rw [next?_of_cons hrest]
    exact ⟨Cursor.in_of_suffix (hrest ▸ hcursor.rest), .some hrest⟩

theorem heeds_next (hcursor : cursor.In tokens) : Heeds resolve tokens next cursor
    fun token after => cursor.rest = token :: after.rest := by
  refine (heeds_next? hcursor).bind fun token? after hafter htaken => ?_
  cases htaken with
  | some hrest => exact heeds_pure hafter hrest
  | none hrest => exact heeds_refuseEnd hafter hrest trivial

theorem peek?_bind {next : Option Token → Parser β} :
    (peek? >>= next) cursor = next cursor.rest.head? cursor := rfl

theorem heeds_peek?_bind {next : Option Token → Parser β} {Q : β → Cursor → Prop}
    (h : Heeds resolve tokens (next cursor.rest.head?) cursor Q) :
    Heeds resolve tokens (peek? >>= next) cursor Q := h

theorem heeds_peekKind?_bind {next : Option TokenKind → Parser β} {Q : β → Cursor → Prop}
    (h : Heeds resolve tokens (next (cursor.rest.head?.map Token.kind)) cursor Q) :
    Heeds resolve tokens (peekKind? >>= next) cursor Q := h

theorem heeds_accept (hcursor : cursor.In tokens) (kind : TokenKind) :
    Heeds resolve tokens (accept kind) cursor fun _ _ => True := by
  refine heeds_peekKind?_bind ?_
  split
  · exact (heeds_next? hcursor).bind fun _ after hafter _ => heeds_pure hafter trivial
  · exact heeds_pure hcursor trivial

theorem heeds_expect (hcursor : cursor.In tokens) (kind : TokenKind) (expected : String) :
    Heeds resolve tokens (expect kind expected) cursor
      fun token after => token ∈ tokens ∧ after.previous = token.span := by
  refine (heeds_next? hcursor).bind fun token? after hafter htaken => ?_
  cases htaken with
  | some hrest =>
    have hmem := hcursor.mem hrest
    show Heeds resolve tokens (ite _ _ _) _ _
    split
    · exact heeds_pure hafter ⟨hmem, rfl⟩
    · exact heeds_refuse hmem trivial
  | none hrest => exact heeds_refuseEnd hafter hrest trivial

theorem heeds_expectName (hcursor : cursor.In tokens) (expected : String) :
    Heeds resolve tokens (expectName expected) cursor fun _ _ => True := by
  refine (heeds_expect hcursor _ _).bind fun token after hafter htoken => ?_
  split
  · exact heeds_refuse htoken.1 trivial
  · exact heeds_pure hafter trivial

/-! ## Lists of arguments and parameters -/

/-- What a list between parentheses comes to. -/
def HeedsList (resolve : Resolver) (tokens : List Token) : Except Error (β × Cursor) → Prop
  | .ok (_, after) => after.In tokens
  | .error e => Refusal resolve tokens e

theorem HeedsList.lift {x : Except Error (β × Cursor)} (h : HeedsList resolve tokens x)
    (hcursor : cursor.In tokens) :
    Heeds resolve tokens (liftM x : Parser (β × Cursor)) cursor fun pair _ => pair.2.In tokens := by
  refine heeds_lift hcursor (fun pair hpair => ?_) fun e he => ?_
  · rw [hpair] at h
    exact h
  · rw [he] at h
    exact h

theorem heedsList_argumentsFrom {previous : Span} {rest : List Token}
    (hcursor : Cursor.In { previous, rest } tokens) :
    HeedsList resolve tokens (argumentsFrom previous rest) := by
  fun_induction argumentsFrom previous rest with
  | case1 previous => exact hcursor.refusal rfl trivial
  | case2 previous token rest => exact .syntactic (hcursor.mem rfl) trivial
  | case3 previous token => exact .syntactic (hcursor.mem rfl) trivial
  | case4 previous token _ separator rest _ ih =>
    have hafter := Cursor.in_of_suffix ((List.suffix_cons token _).trans hcursor.rest)
    have hlist := ih hafter
    cases hinner : argumentsFrom separator.span rest with
    | ok pair =>
      rw [hinner] at hlist
      exact hlist
    | error e =>
      rw [hinner] at hlist
      exact hlist
  | case5 previous token _ separator rest =>
    exact Cursor.in_of_suffix ((List.suffix_cons token _).trans hcursor.rest)
  | case6 previous token _ separator rest =>
    exact .syntactic (hcursor.rest.subset (by simp)) trivial

theorem heeds_arguments (hcursor : cursor.In tokens) :
    Heeds resolve tokens arguments cursor fun _ _ => True := by
  refine (heeds_accept hcursor _).bind fun closed after hafter _ => ?_
  split
  · exact heeds_pure hafter trivial
  · refine heeds_get_bind (((heedsList_argumentsFrom hafter).lift hafter).bind ?_)
    intro pair _ _ hpair
    exact (heeds_set hpair).bind fun _ _ hlast _ => heeds_pure hlast trivial

theorem heedsList_parametersFrom {taken : List String} {previous : Span} {rest : List Token}
    (hcursor : Cursor.In { previous, rest } tokens) :
    HeedsList resolve tokens (parametersFrom taken previous rest) := by
  fun_induction parametersFrom taken previous rest with
  | case1 taken previous => exact hcursor.refusal rfl trivial
  | case2 | case3 | case4 => exact .syntactic (hcursor.mem rfl) trivial
  | case5 => exact .syntactic (hcursor.rest.subset (by simp)) trivial
  | case6 taken _ name _ _ colon _ annotation rest ih =>
    have hannotation : annotation ∈ tokens := hcursor.rest.subset (by simp)
    cases htype : parameterType annotation with
    | error e =>
      unfold parameterType at htype
      split at htype
      · cases htype
      · cases htype
        exact .syntactic hannotation trivial
    | ok type =>
      cases rest with
      | nil => exact .syntactic hannotation trivial
      | cons separator rest =>
        have hsuffix : separator :: rest <:+ tokens :=
          List.IsSuffix.trans ⟨[name, colon, annotation], rfl⟩ hcursor.rest
        have hafter := Cursor.in_of_suffix hsuffix
        have hlist := ih hafter
        dsimp only [bind, Except.bind]
        split
        · cases hinner : parametersFrom (name.lexeme :: taken) separator.span rest with
          | ok pair =>
            rw [hinner] at hlist
            exact hlist
          | error e =>
            rw [hinner] at hlist
            exact hlist
        · exact hafter
        · exact .syntactic (hsuffix.subset List.mem_cons_self) trivial
  | case7 taken _ name _ _ separator rest _ ih =>
    have hafter := Cursor.in_of_suffix ((List.suffix_cons name _).trans hcursor.rest)
    have hlist := ih hafter
    cases hinner : parametersFrom (name.lexeme :: taken) separator.span rest with
    | ok pair =>
      rw [hinner] at hlist
      exact hlist
    | error e =>
      rw [hinner] at hlist
      exact hlist
  | case8 taken _ name _ _ separator rest =>
    exact Cursor.in_of_suffix ((List.suffix_cons name _).trans hcursor.rest)
  | case9 => exact .syntactic (hcursor.rest.subset (by simp)) trivial

theorem heeds_parameters (hcursor : cursor.In tokens) :
    Heeds resolve tokens parameters cursor fun _ _ => True := by
  refine (heeds_accept hcursor _).bind fun closed after hafter _ => ?_
  split
  · exact heeds_pure hafter trivial
  · refine heeds_get_bind (((heedsList_parametersFrom hafter).lift hafter).bind ?_)
    intro pair _ _ hpair
    exact (heeds_set hpair).bind fun _ _ hlast _ => heeds_pure hlast trivial

/-! ## Values -/

theorem heeds_call (hcursor : cursor.In tokens) (name : Token) :
    Heeds resolve tokens (call name) cursor fun _ _ => True :=
  (heeds_expect hcursor _ _).bind fun _ _ hafter _ => (heeds_arguments hafter).bind
    fun _ _ hlast _ => heeds_pure hlast trivial

theorem heeds_access (hcursor : cursor.In tokens) (name : Token) :
    Heeds resolve tokens (access name) cursor fun _ _ => True := by
  refine (heeds_expect hcursor _ _).bind fun _ dotted hdotted _ =>
    (heeds_next hdotted).bind fun field after hafter hfield => ?_
  split
  · exact heeds_refuse (hdotted.mem hfield) trivial
  · refine (heeds_accept hafter _).bind fun called opened hopened _ => ?_
    dsimp only
    split
    · refine Heeds.bind (P := fun _ _ => True) ((heeds_arguments hopened).map fun _ _ h => h) ?_
      exact fun _ _ hlast _ => heeds_pure hlast trivial
    · refine Heeds.bind (P := fun _ _ => True) (heeds_pure hopened trivial) ?_
      exact fun _ _ hlast _ => heeds_pure hlast trivial

theorem heeds_value (hcursor : cursor.In tokens) :
    Heeds resolve tokens value cursor fun _ _ => True := by
  refine (heeds_next? hcursor).bind fun token? after hafter htaken => ?_
  cases htaken with
  | none hrest => exact heeds_refuseEnd hafter hrest trivial
  | @some token rest hrest =>
    show Heeds resolve tokens (ite _ _ _) _ _
    split
    · exact heeds_pure hafter trivial
    · split
      · refine heeds_peekKind?_bind ?_
        split
        · exact (heeds_call hafter token).map fun _ _ h => h
        · exact (heeds_access hafter token).map fun _ _ h => h
        · exact heeds_pure hafter trivial
      · exact heeds_refuse (hcursor.mem hrest) trivial

/-! ## Statements -/

/-- The cursor is at the word `import`. -/
def AtImport (cursor : Cursor) : Prop :=
  ∃ keyword ∈ cursor.rest.head?, keyword.keyword? = some .imports

/-- The string behind the word is imported. -/
theorem AtImport.imports (hat : AtImport cursor) (hcursor : cursor.In tokens)
    {keyword target : Token} {rest : List Token} (hrest : cursor.rest = keyword :: target :: rest)
    (hstring : target.kind = .string) : Token.Imports tokens target := by
  obtain ⟨word, hword, himports⟩ := hat
  rw [hrest] at hword
  cases hword
  have hpair : [keyword, target] <+: cursor.rest := ⟨rest, hrest.symm⟩
  exact ⟨keyword, target, hpair.isInfix.trans hcursor.rest.isInfix, himports, hstring, rfl, rfl⟩

theorem heeds_importStatement (hcursor : cursor.In tokens) (hat : AtImport cursor)
    (exported : Bool) :
    Heeds resolve tokens (importStatement resolve exported) cursor fun _ _ => True := by
  refine (heeds_next hcursor).bind fun keyword after hafter hkeyword =>
    (heeds_next hafter).bind fun target last hlast htarget => ?_
  split
  · exact heeds_refuse (hafter.mem htarget) trivial
  · next hstring =>
    refine (heeds_lift (Q := fun _ _ => True) hlast (fun _ _ => trivial) fun e he => ?_).bind
      fun form _ hend _ => heeds_pure hend trivial
    rw [htarget] at hkeyword
    exact .unresolved (hat.imports hcursor hkeyword (by simpa using hstring)) he

theorem heeds_exportStatement (hcursor : cursor.In tokens) {function : Bool → Parser Statement}
    (hfunction : ∀ cursor exported, cursor.In tokens →
      Heeds resolve tokens (function exported) cursor fun _ _ => True) :
    Heeds resolve tokens (exportStatement resolve function) cursor fun _ _ => True := by
  refine (heeds_next hcursor).bind fun keyword after hafter hkeyword => heeds_peek?_bind ?_
  split
  · exact heeds_refuse (hcursor.mem hkeyword) trivial
  · next token htoken =>
    split
    · next himports => exact heeds_importStatement hafter ⟨token, htoken, himports⟩ true
    · exact hfunction _ _ hafter
    · obtain ⟨rest, hrest⟩ := List.head?_eq_some_iff.mp htoken
      exact heeds_refuse (hafter.mem hrest) trivial

theorem heeds_declareStatement (hcursor : cursor.In tokens) :
    Heeds resolve tokens declareStatement cursor fun _ _ => True :=
  (heeds_next hcursor).bind fun _ _ h _ => (heeds_expectName h _).bind fun _ _ h _ =>
    (heeds_expect h _ _).bind fun _ _ h _ => (heeds_value h).bind fun _ _ h _ =>
    heeds_pure h trivial

theorem heeds_returnStatement (hcursor : cursor.In tokens) :
    Heeds resolve tokens returnStatement cursor fun _ _ => True := by
  refine (heeds_next hcursor).bind fun keyword after hafter hkeyword => ?_
  split
  · exact heeds_refuse (hcursor.mem hkeyword) trivial
  · exact (heeds_value hafter).bind fun _ _ h _ => heeds_pure h trivial

theorem heeds_callStatement (hcursor : cursor.In tokens) :
    Heeds resolve tokens callStatement cursor fun _ _ => True :=
  (heeds_next hcursor).bind fun name _ h _ => (heeds_call h name).bind fun _ _ h _ =>
    heeds_pure h trivial

theorem heeds_accessStatement (hcursor : cursor.In tokens) :
    Heeds resolve tokens accessStatement cursor fun _ _ => True := by
  refine (heeds_next hcursor).bind fun name _ h _ => (heeds_access h name).bind
    fun access after hafter _ => ?_
  split
  · refine (heeds_accept hafter _).bind fun accepted last hlast _ => ?_
    split
    · exact (heeds_value hlast).bind fun _ _ h _ => heeds_pure h trivial
    · exact heeds_pure hlast trivial
  · exact heeds_pure hafter trivial

theorem heeds_assignStatement (hcursor : cursor.In tokens) :
    Heeds resolve tokens assignStatement cursor fun _ _ => True :=
  (heeds_next hcursor).bind fun _ _ h _ => (heeds_expect h _ _).bind fun _ _ h _ =>
    (heeds_value h).bind fun _ _ h _ => heeds_pure h trivial

theorem heeds_statement (hcursor : cursor.In tokens) {function : Bool → Parser Statement}
    (hfunction : ∀ cursor exported, cursor.In tokens →
      Heeds resolve tokens (function exported) cursor fun _ _ => True) :
    Heeds resolve tokens (statement resolve function) cursor fun _ _ => True := by
  refine heeds_get_bind ?_
  split
  · next hrest => exact heeds_refuseEnd hcursor hrest trivial
  · next token rest hrest =>
    split
    · next himports =>
      exact heeds_importStatement hcursor ⟨token, by rw [hrest]; rfl, himports⟩ false
    · exact heeds_exportStatement hcursor hfunction
    · exact hfunction _ _ hcursor
    · exact heeds_declareStatement hcursor
    · exact heeds_returnStatement hcursor
    · split
      · exact heeds_callStatement hcursor
      · exact heeds_accessStatement hcursor
      · exact heeds_assignStatement hcursor
      · exact heeds_refuse (hcursor.mem hrest) trivial

theorem heeds_statements {one : Parser Statement}
    (hone : ∀ cursor, cursor.In tokens → Heeds resolve tokens one cursor fun _ _ => True)
    (count : Nat) (hcursor : cursor.In tokens) :
    Heeds resolve tokens (statements one count) cursor fun _ _ => True := by
  induction count generalizing cursor with
  | zero => exact heeds_pure hcursor trivial
  | succ count ih =>
    refine heeds_get_bind ?_
    split
    · exact heeds_pure hcursor trivial
    · exact (hone _ hcursor).bind fun _ _ h _ => (ih h).bind fun _ _ h _ => heeds_pure h trivial

/-- All statements of a list of tokens are read, or there is an answer to the tokens. -/
theorem refusal_of_all {one : Parser Statement}
    (hone : ∀ cursor, cursor.In tokens → Heeds resolve tokens one cursor fun _ _ => True)
    {e : Error} (h : all one tokens = .error e) : Refusal resolve tokens e := by
  cases tokens with
  | nil => cases h
  | cons token rest =>
    have hcursor : Cursor.In { previous := {}, rest := token :: rest } (token :: rest) :=
      ⟨List.suffix_refl _, nofun⟩
    have hheeds := heeds_statements hone (token :: rest).length hcursor
    unfold Heeds at hheeds
    have hrun : (statements one (token :: rest).length { previous := {}, rest := token :: rest } >>=
        fun pair => .ok pair.1) = .error e := h
    split at hheeds
    · next hok =>
      rw [hok] at hrun
      cases hrun
    · next herror =>
      rw [herror] at hrun
      cases hrun
      exact hheeds

/-! ## Functions -/

theorem Refusal.of_inBody {name : String} {inner : List Token} {e : Error}
    (h : Refusal resolve (inner.map (Token.inBody name)) e) (hinner : inner <:+: tokens) :
    Refusal resolve tokens e := by
  cases h with
  | syntactic htoken hcause =>
    obtain ⟨token, hmem, rfl⟩ := List.mem_map.mp htoken
    rw [Token.span_inBody]
    exact .syntactic (hinner.subset hmem) hcause
  | unresolved htarget herror => exact .unresolved (htarget.of_inBody hinner) herror

theorem heeds_nestedFunction (exported : Bool) (hcursor : cursor.In tokens) :
    Heeds resolve tokens (nestedFunction exported) cursor fun _ _ => True :=
  (heeds_next hcursor).bind fun _ _ _ hkeyword => heeds_refuse (hcursor.mem hkeyword) trivial

theorem refusal_of_body {name : String} {e : Error} (h : body resolve name tokens = .error e) :
    Refusal resolve (tokens.map (Token.inBody name)) e := by
  rw [body_eq] at h
  exact refusal_of_all (fun _ hcursor => heeds_statement hcursor fun _ => heeds_nestedFunction)
    (eq_error_of_bind_pure h)

theorem heeds_functionStatement (file : Option SourceFile) (exported : Bool)
    (hcursor : cursor.In tokens) :
    Heeds resolve tokens (functionStatement resolve file exported) cursor fun _ _ => True := by
  refine (heeds_next hcursor).bind fun keyword after hafter hkeyword => ?_
  split
  · exact heeds_refuse (hcursor.mem hkeyword) trivial
  · refine (heeds_expectName hafter _).bind fun name _ h _ => (heeds_expect h _ _).bind
      fun _ _ h _ => (heeds_parameters h).bind fun params _ h _ => (heeds_expect h _ _).bind
      fun _ opened hopened hbrace => heeds_get_bind ?_
    split
    · have hrefusal : Refusal resolve tokens (.locate
          (.expectedToken "\"\x7d\" after function body" endOfInput) opened.previous) := by
        rw [hbrace.2]
        exact .syntactic hbrace.1 trivial
      exact hrefusal
    · next close rest hclose =>
      have hrest : close :: rest <:+ tokens := by
        rw [← hclose]
        exact (List.dropWhile_suffix _).trans hopened.rest
      refine (heeds_lift (Q := fun _ _ => True) hopened (fun _ _ => trivial) fun e he => ?_).bind
        fun body _ _ _ => (heeds_set (Cursor.in_of_suffix hrest)).bind
        fun _ _ h _ => heeds_pure h trivial
      exact Refusal.of_inBody (refusal_of_body he)
        ((List.takeWhile_prefix _).isInfix.trans hopened.rest.isInfix)

end Parser

/-- If the tokens do not read as a program, then the error is an answer to them. -/
theorem refusal_of_ofTokens {resolve : Resolver} {file : Option SourceFile} {tokens : List Token}
    {e : Error} (h : ofTokens resolve file tokens = .error e) : Refusal resolve tokens e := by
  rw [ofTokens_eq] at h
  exact Parser.refusal_of_all (fun _ hcursor => Parser.heeds_statement hcursor fun _ exported =>
    Parser.heeds_functionStatement file exported) (eq_error_of_bind_pure h)

/-! ## What is asked of the resolver -/

namespace Parser

/-- The resolvers agree on everything that is imported in the tokens. -/
def Agree (resolve other : Resolver) (tokens : List Token) : Prop :=
  ∀ target, Token.Imports tokens target → resolve target = other target

variable {α β : Type} {resolve other : Resolver} {tokens : List Token} {cursor : Cursor}

/-- Two parsers that start alike do the same if they go on alike. -/
theorem heeds_bind_congr (resolve : Resolver) {parser parser' : Parser α}
    {next next' : α → Parser β} {P : α → Cursor → Prop} (h : Heeds resolve tokens parser cursor P)
    (hsame : parser cursor = parser' cursor)
    (hnext : ∀ a after, after.In tokens → P a after → next a after = next' a after) :
    (parser >>= next) cursor = (parser' >>= next') cursor := by
  show (parser cursor >>= _) = (parser' cursor >>= _)
  rw [← hsame]
  unfold Heeds at h
  split at h
  · next a after hrun =>
    rw [hrun]
    exact hnext a after h.1 h.2
  · next e hrun =>
    rw [hrun]
    rfl

theorem importStatement_congr (hagree : Agree resolve other tokens) (hcursor : cursor.In tokens)
    (hat : AtImport cursor) (exported : Bool) :
    importStatement resolve exported cursor = importStatement other exported cursor := by
  refine heeds_bind_congr resolve (heeds_next hcursor) rfl fun keyword after hafter hkeyword =>
    heeds_bind_congr resolve (heeds_next hafter) rfl fun target last hlast htarget => ?_
  split
  · rfl
  · next hstring =>
    rw [htarget] at hkeyword
    rw [hagree target (hat.imports hcursor hkeyword (by simpa using hstring))]

theorem exportStatement_congr (hagree : Agree resolve other tokens) (hcursor : cursor.In tokens)
    {function function' : Bool → Parser Statement}
    (hfunction : ∀ cursor exported, cursor.In tokens →
      function exported cursor = function' exported cursor) :
    exportStatement resolve function cursor = exportStatement other function' cursor := by
  refine heeds_bind_congr resolve (heeds_next hcursor) rfl fun keyword after hafter _ => ?_
  rw [peek?_bind, peek?_bind]
  cases htoken : after.rest.head? with
  | none => rfl
  | some token =>
    dsimp only
    cases hword : token.keyword? with
    | none => rfl
    | some word =>
      cases word with
      | imports => exact importStatement_congr hagree hafter ⟨token, htoken, hword⟩ true
      | function => exact hfunction _ _ hafter
      | _ => rfl

theorem statement_congr (hagree : Agree resolve other tokens) (hcursor : cursor.In tokens)
    {function function' : Bool → Parser Statement}
    (hfunction : ∀ cursor exported, cursor.In tokens →
      function exported cursor = function' exported cursor) :
    statement resolve function cursor = statement other function' cursor := by
  unfold statement
  rw [get_bind, get_bind]
  cases hrest : cursor.rest with
  | nil => rfl
  | cons token rest =>
    dsimp only
    cases hword : token.keyword? with
    | none => rfl
    | some word =>
      cases word with
      | imports =>
        exact importStatement_congr hagree hcursor ⟨token, by rw [hrest]; rfl, hword⟩ false
      | exports => exact exportStatement_congr hagree hcursor hfunction
      | function => exact hfunction _ _ hcursor
      | _ => rfl

theorem statements_congr {one one' : Parser Statement}
    (hone : ∀ cursor, cursor.In tokens → Heeds resolve tokens one cursor fun _ _ => True)
    (hsame : ∀ cursor, cursor.In tokens → one cursor = one' cursor) (count : Nat)
    (hcursor : cursor.In tokens) : statements one count cursor = statements one' count cursor := by
  induction count generalizing cursor with
  | zero => rfl
  | succ count ih =>
    unfold statements
    rw [get_bind, get_bind]
    split
    · rfl
    · exact heeds_bind_congr resolve (hone _ hcursor) (hsame _ hcursor) fun _ _ hafter _ =>
        heeds_bind_congr resolve (heeds_statements hone count hafter) (ih hafter)
          fun _ _ _ _ => rfl

theorem all_congr {one one' : Parser Statement}
    (hone : ∀ cursor, cursor.In tokens → Heeds resolve tokens one cursor fun _ _ => True)
    (hsame : ∀ cursor, cursor.In tokens → one cursor = one' cursor) :
    all one tokens = all one' tokens := by
  cases tokens with
  | nil => rfl
  | cons token rest =>
    have hcursor : Cursor.In { previous := {}, rest := token :: rest } (token :: rest) :=
      ⟨List.suffix_refl _, nofun⟩
    show (statements one _ _ >>= _) = (statements one' _ _ >>= _)
    rw [statements_congr hone hsame _ hcursor]

theorem body_congr {name : String} (hagree : Agree resolve other (tokens.map (Token.inBody name))) :
    body resolve name tokens = body other name tokens := by
  have hall : all (statement resolve nestedFunction) (tokens.map (Token.inBody name)) =
      all (statement other nestedFunction) (tokens.map (Token.inBody name)) :=
    all_congr (fun _ hcursor => heeds_statement hcursor fun _ => heeds_nestedFunction)
      fun _ hcursor => statement_congr hagree hcursor fun _ _ _ => rfl
  rw [body_eq, body_eq]
  show (all _ (tokens.map (Token.inBody name)) >>= _) = _
  rw [hall]
  rfl

theorem functionStatement_congr (hagree : Agree resolve other tokens) (hcursor : cursor.In tokens)
    (file : Option SourceFile) (exported : Bool) :
    functionStatement resolve file exported cursor =
      functionStatement other file exported cursor := by
  refine heeds_bind_congr resolve (heeds_next hcursor) rfl fun keyword after hafter _ => ?_
  cases keyword.scope with
  | some enclosing => rfl
  | none =>
    refine heeds_bind_congr resolve (heeds_expectName hafter _) rfl fun name _ h _ =>
      heeds_bind_congr resolve (heeds_expect h _ _) rfl fun _ _ h _ =>
      heeds_bind_congr resolve (heeds_parameters h) rfl fun params _ h _ =>
      heeds_bind_congr resolve (heeds_expect h _ _) rfl fun _ opened hopened _ => ?_
    rw [get_bind, get_bind]
    cases opened.rest.dropWhile (·.kind ≠ .rightBrace) with
    | nil => rfl
    | cons close rest =>
      have hinner := (List.takeWhile_prefix (·.kind ≠ .rightBrace) (l := opened.rest)).isInfix.trans
        hopened.rest.isInfix
      rw [body_congr fun target htarget => hagree target (htarget.of_inBody hinner)]

end Parser

/-- Reading some tokens asks the resolver for nothing but what they import. -/
theorem ofTokens_congr {resolve other : Resolver} {tokens : List Token}
    (hagree : Parser.Agree resolve other tokens) (file : Option SourceFile) :
    ofTokens resolve file tokens = ofTokens other file tokens := by
  have hall : Parser.all (Parser.statement resolve (Parser.functionStatement resolve file)) tokens =
      Parser.all (Parser.statement other (Parser.functionStatement other file)) tokens :=
    Parser.all_congr
      (fun _ hcursor => Parser.heeds_statement hcursor fun _ => Parser.heeds_functionStatement file)
      fun _ hcursor => Parser.statement_congr hagree hcursor fun _ _ h =>
        Parser.functionStatement_congr hagree h file _
  rw [ofTokens_eq, ofTokens_eq, hall]

end Program

end Scripting
