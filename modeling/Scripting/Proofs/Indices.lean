import Scripting.Proofs.Loading

/-!
# Reading tokens by number

A parser has the tokens that are left in its hands, and the place of the one that was read last.
Here the same grammar is read in another way: the tokens stay where they are, and a step knows only
the number of the next one. It looks tokens up, takes the body of a function out of the list as the
part between two numbers, and looks for the token that was read last when an error needs a place.
That can go wrong, since a number may be beyond the end of the list, and before the first token
there is none that was read last. A `Walk` has no result then.

Main statement: it never goes wrong, and reads what the parser reads (`Program.walkTokens_eq`). The
argument compares the steps one by one: the number of a step and the cursor of the other stand at
the same token, and each step of a statement goes at least one token ahead, so that no loop runs
longer than the list.
-/

namespace Scripting

/-! ## Parts of a list -/

section Parts

variable {α : Type} (items : List α)

/-- The items from a number on. -/
def partFrom? (start : Nat) : Option (List α) :=
  if start ≤ items.length then some (items.drop start) else none

/-- The items between two numbers. -/
def part? (start stop : Nat) : Option (List α) :=
  if start ≤ stop ∧ stop ≤ items.length then some ((items.drop start).take (stop - start)) else none

end Parts

namespace Program

/-- A step of reading that may go ahead in a list of tokens, of which it knows the number of the
next one, and may fail. It has no result if it asks for something that the list does not have. -/
abbrev Walk := StateT Nat (ExceptT Error Option)

namespace Walk

/-! ## Single tokens -/

section Steps

variable {α : Type} (tokens : List Token)

/-- The place of the token before a number, or of the last one of all. The first token stands for
what is before it. -/
def lastSpan? (number : Nat) : Option Span :=
  tokens[min number tokens.length - 1]?.map Token.span

/-- Take what was found, if anything. -/
def within (found : Option (Except Error α)) : Walk α :=
  fun number => found.map (·.map (·, number))

/-- Take a part of the list, if there is such a part. -/
def demand (part : Option α) : Walk α :=
  within (part.map .ok)

/-- Fail at a place. -/
def refuse (cause : Cause) (span : Span) : Walk α :=
  throw (.locate cause span)

/-- Fail at the token read last. -/
def refuseEnd (cause : Cause) : Walk α := do
  refuse cause (← demand (lastSpan? tokens (← get)))

/-- The next token, if there is one. -/
def peek? : Walk (Option Token) := do
  return tokens[← get]?

/-- The kind of the next token, if there is one. -/
def peekKind? : Walk (Option TokenKind) := do
  return (← peek? tokens).map Token.kind

/-- Go over the next token, if there is one. -/
def next? : Walk (Option Token) := do
  let number ← get
  match tokens[number]? with
  | none => return none
  | some token =>
    set (number + 1)
    return some token

/-- Go over the next token, of whatever kind. -/
def next : Walk Token := do
  match ← next? tokens with
  | some token => return token
  | none => refuseEnd tokens (.unexpectedToken Parser.endOfInput)

/-- Go over the next token if it has the given kind, and say whether it had. -/
def accept (kind : TokenKind) : Walk Bool := do
  if (← peekKind? tokens) = some kind then
    let _ ← next? tokens
    return true
  else
    return false

/-- Go over a token of the given kind. -/
def expect (kind : TokenKind) (expected : String) : Walk Token := do
  match ← next? tokens with
  | some token =>
    if token.kind = kind then return token
    else refuse (.expectedToken expected token.lexeme) token.span
  | none => refuseEnd tokens (.expectedToken expected Parser.endOfInput)

/-- Go over a word that is not reserved. -/
def expectName (expected : String) : Walk Token := do
  let token ← expect tokens .identifier expected
  if token.keyword?.isSome then refuse (.reservedWord token.lexeme) token.span
  else return token

/-! ## Lists of arguments and parameters -/

/-- The arguments after an opening parenthesis that is not closed at once, at most `count` of them.
-/
def argumentsFrom : (count : Nat) → Walk (List Token)
  | 0 => within none
  | count + 1 => do
    match ← next? tokens with
    | none => refuseEnd tokens .unterminatedArguments
    | some token =>
      if !token.kind.isOperand || token.keyword?.isSome then
        refuse (.invalidArgument token.lexeme) token.span
      else
        match ← next? tokens with
        | none => refuseEnd tokens .unterminatedArguments
        | some separator =>
          match separator.kind with
          | .comma => return token :: (← argumentsFrom count)
          | .rightParen => return [token]
          | _ =>
            refuse (.expectedToken "\",\" or \")\" in argument list" separator.lexeme)
              separator.span

/-- The arguments after an opening parenthesis. -/
def arguments : Walk (List Token) := do
  if ← accept tokens .rightParen then return []
  else argumentsFrom tokens (tokens.length + 1)

/-- The type of a parameter, if it has one. -/
def annotated : Walk (Option ValueType) := do
  if ← accept tokens .colon then
    let token ← next tokens
    let type ← within (some (Parser.parameterType token))
    return some type
  else
    return none

/-- What follows a parameter: the end of the list, or a comma and more parameters. -/
def separated (more : Walk (List Param)) (param : Param) : Walk (List Param) := do
  let separator ← next tokens
  match separator.kind with
  | .comma => return param :: (← more)
  | .rightParen => return [param]
  | _ => throw (Parser.parametersFrom.badSeparator separator)

/-- The parameter of the given name, and what follows it. -/
def named (taken : List String) (more : Walk (List Param)) (name : Token) : Walk (List Param) :=
  if !name.isName then
    refuse (.invalidParameter name.lexeme) name.span
  else if taken.contains name.lexeme then
    refuse (.alreadyDeclared name.lexeme) name.span
  else do
    let type ← annotated tokens
    separated tokens more { name := name.lexeme, type }

/-- The parameters after an opening parenthesis that is not closed at once, at most `count` of them,
given the names of those before. -/
def parametersFrom : (count : Nat) → List String → Walk (List Param)
  | 0, _ => within none
  | count + 1, taken => do
    let name ← next tokens
    named tokens taken (parametersFrom count (name.lexeme :: taken)) name

/-- The parameters after an opening parenthesis. -/
def parameters : Walk (List Param) := do
  if ← accept tokens .rightParen then return []
  else parametersFrom tokens (tokens.length + 1) []

/-! ## Values -/

/-- A call of the function with the given name. -/
def call (name : Token) : Walk Call := do
  let _ ← expect tokens .leftParen "\"(\" after function name"
  let args ← arguments tokens
  return { name := name.lexeme, args, span := name.span }

/-- A field of the module or map with the given name. -/
def access (name : Token) : Walk Access := do
  let _ ← expect tokens .dot "\".\" after module name"
  let field ← next tokens
  if !field.isName then
    refuse (.expectedToken "identifier after \".\"" field.lexeme) field.span
  else
    let args ← if ← accept tokens .leftParen then some <$> arguments tokens else pure none
    return { module := name.lexeme, field := field.lexeme, args, span := name.span }

/-- A value. -/
def value : Walk Expr := do
  match ← next? tokens with
  | none => refuseEnd tokens (.expectedValue Parser.endOfInput)
  | some token =>
    if token.kind.isLiteral then
      return .literal token
    else if token.isName then
      match ← peekKind? tokens with
      | some .leftParen => .call <$> call tokens token
      | some .dot => .access <$> access tokens token
      | _ => return .reference token
    else
      refuse (.expectedValue token.lexeme) token.span

end Steps

/-! ## Statements -/

/-- Where a statement finds what it imports, if that has a result. -/
abbrev Resolver := Token → Option (Except Error Form)

section Statements

variable (tokens : List Token) (resolve : Resolver) (function : Bool → Walk Statement)

/-- An import. -/
def importStatement (exported : Bool) : Walk Statement := do
  let keyword ← next tokens
  let target ← next tokens
  if target.kind ≠ .string then
    refuse (.expectedString target.lexeme) target.span
  else
    let form ← within (resolve target)
    return Parser.statementAt keyword form exported

/-- An import or a function behind `export`. -/
def exportStatement : Walk Statement := do
  let keyword ← next tokens
  match ← peek? tokens with
  | none => refuse (.invalidExport Parser.endOfInput) keyword.span
  | some token =>
    match token.keyword? with
    | some .imports => importStatement tokens resolve true
    | some .function => function true
    | _ => refuse (.invalidExport token.lexeme) token.span

/-- A declaration of a variable. -/
def declareStatement : Walk Statement := do
  let keyword ← next tokens
  let name ← expectName tokens "variable name"
  let _ ← expect tokens .equal "\"=\" after variable name"
  let value ← value tokens
  return Parser.statementAt keyword (.declare name.lexeme value) false

/-- A return, which only a function body may hold. -/
def returnStatement : Walk Statement := do
  let keyword ← next tokens
  if keyword.scope.isNone then
    refuse .returnOutsideFunction keyword.span
  else
    let value ← value tokens
    return Parser.statementAt keyword (.returns value) false

/-- A call that stands as a statement. -/
def callStatement : Walk Statement := do
  let name ← next tokens
  let call ← call tokens name
  return Parser.statementAt name (.call call) false

/-- A field of a module or map that stands as a statement, or an assignment to a field of a map. -/
def accessStatement : Walk Statement := do
  let name ← next tokens
  let access ← access tokens name
  if access.args.isNone then
    if ← accept tokens .equal then
      let value ← value tokens
      return Parser.statementAt name (.assign (.field access.module access.field) value) false
    else
      return Parser.statementAt name (.access access) false
  else
    return Parser.statementAt name (.access access) false

/-- An assignment to a variable. -/
def assignStatement : Walk Statement := do
  let name ← next tokens
  let _ ← expect tokens .equal "\"=\" after variable name"
  let value ← value tokens
  return Parser.statementAt name (.assign (.var name.lexeme) value) false

/-- A statement. What it is depends on the next two tokens. -/
def statement : Walk Statement := do
  let number ← get
  match tokens[number]? with
  | none => refuseEnd tokens (.unexpectedToken Parser.endOfInput)
  | some token =>
    match token.keyword? with
    | some .imports => importStatement tokens resolve false
    | some .exports => exportStatement tokens resolve function
    | some .function => function false
    | some .declares => declareStatement tokens
    | some .returns => returnStatement tokens
    | none =>
      match token.kind, tokens[number + 1]?.map Token.kind with
      | .identifier, some .leftParen => callStatement tokens
      | .identifier, some .dot => accessStatement tokens
      | .identifier, some .equal => assignStatement tokens
      | _, _ => refuse (.unexpectedToken token.lexeme) token.span

/-- Statements up to the end of the tokens, if there are fewer than `count`. -/
def statements (one : Walk Statement) : (count : Nat) → Walk (List Statement)
  | 0 => within none
  | count + 1 => do
    if tokens.length ≤ (← get) then
      return []
    else
      let first ← one
      let rest ← statements one count
      return first :: rest

/-- All statements of the tokens. -/
def all (one : Walk Statement) : Option (Except Error (List Statement)) :=
  ((statements tokens one (tokens.length + 1)).run' 0).run

/-- Inside a body there are no functions. -/
def nestedFunction (_exported : Bool) : Walk Statement := do
  let keyword ← next tokens
  refuse (.nestedFunction (keyword.scope.getD "")) keyword.span

end Statements

/-- The program of a function body, of which all tokens carry the function's name. -/
def body (resolve : Resolver) (name : String) (tokens : List Token) :
    Option (Except Error Program) :=
  let tokens := tokens.map fun token => { token with scope := some name }
  (all tokens (statement tokens resolve (nestedFunction tokens))).map (·.map Program.ofStatements)

/-- A function. Its body is the part of the list up to the first closing brace. -/
def functionStatement (tokens : List Token) (resolve : Resolver) (file : Option SourceFile)
    (exported : Bool) : Walk Statement := do
  let keyword ← next tokens
  match keyword.scope with
  | some enclosing => refuse (.nestedFunction enclosing) keyword.span
  | none =>
    let name ← expectName tokens "function name"
    let _ ← expect tokens .leftParen "\"(\" after function name"
    let params ← parameters tokens
    let _ ← expect tokens .leftBrace "\"\x7b\" before function body"
    let start ← get
    let rest ← demand (partFrom? tokens start)
    match rest.findIdx? (·.kind = .rightBrace) with
    | none => refuseEnd tokens (.expectedToken "\"\x7d\" after function body" Parser.endOfInput)
    | some length =>
      let inside ← demand (part? tokens start (start + length))
      let body ← within (body resolve name.lexeme inside)
      set (start + length + 1)
      return Parser.statementAt keyword
        (.function { name := name.lexeme, params, body, span := name.span, file }) exported

end Walk

/-- The program that a list of tokens writes, read by number. -/
def walkTokens (resolve : Walk.Resolver) (file : Option SourceFile) (tokens : List Token) :
    Option (Except Error Program) :=
  let function := Walk.functionStatement tokens resolve file
  (Walk.all tokens (Walk.statement tokens resolve function)).map (·.map Program.ofStatements)

/-! ## Parameters, token by token -/

namespace Parser

/-- The type of a parameter, if it has one. -/
def annotated : Parser (Option ValueType) := do
  if ← accept .colon then
    let token ← next
    let type ← parameterType token
    return some type
  else
    return none

/-- What follows a parameter: the end of the list, or a comma and more parameters. -/
def separated (more : Parser (List Param)) (param : Param) : Parser (List Param) := do
  let separator ← next
  match separator.kind with
  | .comma => return param :: (← more)
  | .rightParen => return [param]
  | _ => throw (parametersFrom.badSeparator separator)

/-- The parameter of the given name, and what follows it. -/
def named (taken : List String) (more : Parser (List Param)) (name : Token) : Parser (List Param) :=
  if !name.isName then
    refuse (.invalidParameter name.lexeme) name.span
  else if taken.contains name.lexeme then
    refuse (.alreadyDeclared name.lexeme) name.span
  else do
    let type ← annotated
    separated more { name := name.lexeme, type }

theorem annotated_colon (previous : Span) (lexeme : String) (span : Span) (scope : Option String)
    (token : Token) (rest : List Token) :
    annotated ⟨previous, ⟨.colon, lexeme, span, scope⟩ :: token :: rest⟩ =
      (parameterType token).map fun type => (some type, ⟨token.span, rest⟩) := by
  show ((liftM (parameterType token) : Parser ValueType) >>= fun type => pure (some type))
    ⟨token.span, rest⟩ = _
  cases parameterType token <;> rfl

/-- The parameters from the cursor on. -/
def parametersAt (taken : List String) : Parser (List Param) :=
  fun cursor => parametersFrom taken cursor.previous cursor.rest

/-- A list of parameters is its first parameter and what follows it. -/
theorem parametersAt_eq (taken : List String) :
    parametersAt taken =
      next >>= fun name => named taken (parametersAt (name.lexeme :: taken)) name := by
  funext ⟨previous, rest⟩
  cases rest with
  | nil => rfl
  | cons name rest =>
    show parametersFrom taken previous (name :: rest) =
      named taken (parametersAt (name.lexeme :: taken)) name ⟨name.span, rest⟩
    unfold parametersFrom named
    by_cases hname : (!name.isName) = true
    · rw [if_pos hname, if_pos hname]
      rfl
    rw [if_neg hname, if_neg hname]
    by_cases htaken : name.lexeme ∈ taken
    · rw [if_pos htaken, if_pos (List.contains_iff_mem.mpr htaken)]
      rfl
    rw [if_neg htaken, if_neg (mt List.contains_iff_mem.mp htaken)]
    cases rest with
    | nil => rfl
    | cons separator rest =>
      obtain ⟨kind, lexeme, span, scope⟩ := separator
      cases kind with
      | colon =>
        cases rest with
        | nil => rfl
        | cons token rest =>
          -- the type takes two tokens, and the separator comes behind them
          show _ = (annotated _ >>= fun x => separated _ { name := name.lexeme, type := x.1 } x.2)
          rw [annotated_colon]
          dsimp only
          cases parameterType token with
          | error e => rfl
          | ok type =>
            cases rest with
            | nil => rfl
            | cons separator rest =>
              obtain ⟨kind, lexeme, span, scope⟩ := separator
              cases kind <;> rfl
      | _ => rfl

end Parser

/-! ## The two ways agree -/

/-- The cursor and the number stand at the same token, and the number is large enough. -/
structure Cursor.At (tokens : List Token) (least : Nat) (cursor : Cursor) (number : Nat) :
    Prop where
  nonempty : 0 < tokens.length
  least_le : least ≤ number
  le_length : number ≤ tokens.length
  rest : cursor.rest = tokens.drop number
  previous : ∀ last, number = last + 1 → tokens[last]?.map Token.span = some cursor.previous

theorem drop_eq_cons {tokens : List Token} {number : Nat} {token : Token}
    (h : tokens[number]? = some token) :
    tokens.drop number = token :: tokens.drop (number + 1) := by
  obtain ⟨hlt, rfl⟩ := List.getElem?_eq_some_iff.mp h
  exact List.drop_eq_getElem_cons hlt

namespace Cursor.At

variable {tokens : List Token} {least number : Nat} {cursor : Cursor}

theorem mono (h : cursor.At tokens least number) {less : Nat} (hle : less ≤ least) :
    cursor.At tokens less number :=
  { h with least_le := hle.trans h.least_le }

theorem head?_rest (h : cursor.At tokens least number) : cursor.rest.head? = tokens[number]? := by
  rw [h.rest, List.head?_drop]

theorem rest_eq_nil (h : cursor.At tokens least number) (hend : tokens[number]? = none) :
    cursor.rest = [] :=
  List.head?_eq_none_iff.mp (h.head?_rest.trans hend)

/-- Without a next token all have been read, and there are some. -/
theorem positive (h : cursor.At tokens least number) (hend : tokens[number]? = none) :
    cursor.At tokens (max least 1) number := by
  have hle := List.getElem?_eq_none_iff.mp hend
  exact { h with least_le := max_le h.least_le (Nat.lt_of_lt_of_le h.nonempty hle) }

/-- Behind a token of the list, the token is the one that was read last. -/
theorem behind {token : Token} (htoken : tokens[number]? = some token)
    (hleast : least ≤ number + 1) :
    Cursor.At tokens least ⟨token.span, tokens.drop (number + 1)⟩ (number + 1) := by
  obtain ⟨hlt, -⟩ := List.getElem?_eq_some_iff.mp htoken
  refine ⟨Nat.zero_lt_of_lt hlt, hleast, hlt, rfl, ?_⟩
  rintro last hlast
  cases hlast
  rw [htoken]
  rfl

theorem step (h : cursor.At tokens least number) {token : Token}
    (htoken : tokens[number]? = some token) :
    cursor.rest = token :: tokens.drop (number + 1) ∧
      Cursor.At tokens (least + 1) ⟨token.span, tokens.drop (number + 1)⟩ (number + 1) :=
  ⟨by rw [h.rest, drop_eq_cons htoken], behind htoken (Nat.succ_le_succ h.least_le)⟩

end Cursor.At

/-- Both readings come to the same item and leave a cursor and a number that stand at the same
token, or both are refused for the same error. -/
inductive Walk.Ends (tokens : List Token) (least : Nat) {α : Type} :
    Except Error (α × Cursor) → Option (Except Error (α × Nat)) → Prop
  | ok {a : α} {cursor : Cursor} {number : Nat} (h : cursor.At tokens least number) :
      Ends tokens least (.ok (a, cursor)) (some (.ok (a, number)))
  | error (e : Error) : Ends tokens least (.error e) (some (.error e))

/-- From the same token the steps end alike. The step starts at a number that is not less than
`least` and gets to one that is not less than `reached`. -/
def Walk.Follows (tokens : List Token) (least reached : Nat) {α : Type} (parser : Parser α)
    (walk : Walk α) : Prop :=
  ∀ (cursor : Cursor) (number : Nat), cursor.At tokens least number →
    Ends tokens reached (parser cursor) (walk number)

namespace Walk

section Rules

variable {tokens : List Token} {least reached last : Nat} {α β : Type}

theorem follows_pure (a : α) : Follows tokens least least (pure a) (pure a) :=
  fun _ _ h => .ok h

theorem follows_refuse (cause : Cause) (span : Span) :
    Follows tokens least reached (Parser.refuse cause span : Parser α) (refuse cause span) :=
  fun _ _ _ => .error _

theorem Follows.bind {parser : Parser α} {walk : Walk α} {next : α → Parser β} {next' : α → Walk β}
    (h : Follows tokens least reached parser walk)
    (hnext : ∀ a, Follows tokens reached last (next a) (next' a)) :
    Follows tokens least last (parser >>= next) (walk >>= next') := by
  intro cursor number hcursor
  have hends := h cursor number hcursor
  show Ends tokens last (parser cursor >>= fun x => next x.1 x.2)
    (ExceptT.bind (walk number) fun x => next' x.1 x.2)
  generalize parser cursor = x at hends ⊢
  generalize walk number = y at hends ⊢
  cases hends with
  | ok h => exact hnext _ _ _ h
  | error e => exact .error e

theorem Follows.map {parser : Parser α} {walk : Walk α}
    (h : Follows tokens least reached parser walk) (f : α → β) :
    Follows tokens least reached (f <$> parser) (f <$> walk) := by
  rw [map_eq_pure_bind, map_eq_pure_bind]
  exact h.bind fun a => follows_pure (f a)

/-- A step that gets far gets less far too. -/
theorem Follows.reach {parser : Parser α} {walk : Walk α}
    (h : Follows tokens least last parser walk) (hle : reached ≤ last) :
    Follows tokens least reached parser walk := by
  intro cursor number hcursor
  have hends := h cursor number hcursor
  generalize parser cursor = x at hends ⊢
  generalize walk number = y at hends ⊢
  cases hends with
  | ok h => exact .ok (h.mono hle)
  | error e => exact .error e

/-- Beyond the end of the list there is nothing to do. -/
theorem follows_of_length_lt {parser : Parser α} {walk : Walk α} (h : tokens.length < least) :
    Follows tokens least reached parser walk :=
  fun _ _ hcursor => absurd (hcursor.least_le.trans hcursor.le_length) (Nat.not_le.mpr h)

theorem follows_within {x : Except Error α} {y : Option (Except Error α)} (h : y = some x) :
    Follows tokens least least (liftM x : Parser α) (within y) := by
  intro cursor number hcursor
  subst h
  cases x with
  | ok a => exact .ok hcursor
  | error e => exact .error e

/-- Behind a token there is one that was read last. -/
theorem follows_refuseEnd (hleast : 0 < least) (cause : Cause) :
    Follows tokens least reached (Parser.refuseEnd cause : Parser α) (refuseEnd tokens cause) := by
  intro cursor number h
  obtain ⟨before, rfl⟩ := Nat.exists_eq_add_one.mpr (hleast.trans_le h.least_le)
  have hspan : lastSpan? tokens (before + 1) = some cursor.previous := by
    rw [lastSpan?, Nat.min_eq_left h.le_length, Nat.add_sub_cancel]
    exact h.previous before rfl
  show Ends tokens reached _ (ExceptT.bind (within ((lastSpan? tokens (before + 1)).map .ok)
    (before + 1)) fun x => refuse cause x.1 x.2)
  rw [hspan]
  exact .error _

theorem demand_bind {part : Option α} {a : α} (h : part = some a) (next : α → Walk β)
    (number : Nat) :
    (demand part >>= next) number = next a number := by
  rw [h]
  rfl

theorem follows_peek? : Follows tokens least least Parser.peek? (peek? tokens) := by
  intro cursor number h
  show Ends tokens least (.ok (cursor.rest.head?, cursor)) (some (.ok (tokens[number]?, number)))
  rw [h.head?_rest]
  exact .ok h

theorem follows_peekKind? : Follows tokens least least Parser.peekKind? (peekKind? tokens) :=
  follows_peek?.bind fun _ => follows_pure _

theorem follows_get_bind {next : Cursor → Parser β} {next' : Nat → Walk β}
    (h : ∀ cursor number, cursor.At tokens least number →
      Ends tokens reached (next cursor cursor) (next' number number)) :
    Follows tokens least reached (get >>= next) (get >>= next') :=
  h

theorem get_bind_apply (next : Nat → Walk β) (number : Nat) :
    (get >>= next : Walk β) number = next number number := rfl

theorem next?_bind_none {number : Nat} (h : tokens[number]? = none) (next : Option Token → Walk β) :
    (next? tokens >>= next) number = next none number := by
  rw [next?, bind_assoc, get_bind_apply, h]
  rfl

theorem next?_bind_some {number : Nat} {token : Token} (h : tokens[number]? = some token)
    (next : Option Token → Walk β) :
    (next? tokens >>= next) number = next (some token) (number + 1) := by
  rw [next?, bind_assoc, get_bind_apply, h]
  rfl

/-- Going over a token. At the end of the list there is a token that was read last. -/
theorem follows_next?_bind {next : Option Token → Parser β} {next' : Option Token → Walk β}
    (hnone : Follows tokens (max least 1) reached (next none) (next' none))
    (hsome : ∀ token, Follows tokens (least + 1) reached (next (some token)) (next' (some token))) :
    Follows tokens least reached (Parser.next? >>= next) (next? tokens >>= next') := by
  rintro ⟨previous, rest⟩ number h
  cases htoken : tokens[number]? with
  | none =>
    obtain rfl : rest = [] := h.rest_eq_nil htoken
    rw [next?_bind_none htoken]
    exact hnone _ _ (h.positive htoken)
  | some token =>
    obtain ⟨hrest, hnext⟩ := h.step htoken
    obtain rfl : rest = token :: tokens.drop (number + 1) := hrest
    rw [next?_bind_some htoken]
    exact hsome token _ _ hnext

/-! ## Single tokens -/

theorem follows_next : Follows tokens least (least + 1) Parser.next (next tokens) :=
  follows_next?_bind (follows_refuseEnd (by omega) _) fun token => follows_pure token

theorem follows_accept (kind : TokenKind) :
    Follows tokens least least (Parser.accept kind) (accept tokens kind) := by
  refine follows_peekKind?.bind fun found => ?_
  split
  · -- the token is there, but the rule for going over it asks for both cases
    exact follows_next?_bind ((follows_pure true).reach (le_max_left _ _))
      fun _ => (follows_pure true).reach (Nat.le_succ _)
  · exact follows_pure false

theorem follows_expect (kind : TokenKind) (expected : String) :
    Follows tokens least (least + 1) (Parser.expect kind expected)
      (expect tokens kind expected) := by
  refine follows_next?_bind (follows_refuseEnd (by omega) _) fun token => ?_
  dsimp only
  split
  · exact follows_pure token
  · exact follows_refuse _ _

theorem follows_expectName (expected : String) :
    Follows tokens least (least + 1) (Parser.expectName expected) (expectName tokens expected) := by
  refine (follows_expect _ _).bind fun token => ?_
  split
  · exact follows_refuse _ _
  · exact follows_pure token

/-! ## Lists of arguments and parameters -/

/-- The induction is on the number of arguments that are allowed. There are enough of them, since
each takes two tokens. -/
theorem follows_argumentsFrom {count : Nat} (hcount : tokens.length < count + least) :
    Follows tokens least (least + 1)
      (fun cursor => Parser.argumentsFrom cursor.previous cursor.rest)
      (argumentsFrom tokens count) := by
  induction count generalizing least with
  | zero => exact follows_of_length_lt (by omega)
  | succ count ih =>
    rintro ⟨previous, rest⟩ number h
    rw [argumentsFrom]
    cases htoken : tokens[number]? with
    | none =>
      obtain rfl : rest = [] := h.rest_eq_nil htoken
      rw [next?_bind_none htoken]
      exact follows_refuseEnd (by omega) _ _ _ (h.positive htoken)
    | some token =>
      obtain ⟨hrest, hnext⟩ := h.step htoken
      obtain rfl : rest = token :: tokens.drop (number + 1) := hrest
      rw [next?_bind_some htoken]
      dsimp only
      unfold Parser.argumentsFrom
      split
      · exact .error _
      · cases hseparator : tokens[number + 1]? with
        | none =>
          have hrest : tokens.drop (number + 1) = [] := hnext.rest_eq_nil hseparator
          rw [next?_bind_none hseparator, hrest]
          rw [hrest] at hnext
          exact follows_refuseEnd (Nat.succ_pos _) _ _ _ hnext
        | some separator =>
          obtain ⟨hrest, hnext⟩ := hnext.step hseparator
          rw [next?_bind_some hseparator, show tokens.drop (number + 1) = _ from hrest]
          dsimp only
          cases separator.kind with
          | comma =>
            have hmore := ih (show tokens.length < count + (least + 1 + 1) by omega)
            exact ((hmore.bind fun args => follows_pure (token :: args)).reach (by omega)) _ _ hnext
          | rightParen => exact .ok (hnext.mono (by omega))
          | _ => exact .error _

/-- Reading a list from the cursor and going to where it ends is reading the list. -/
theorem listed_apply (list : Cursor → Except Error (α × Cursor)) (cursor : Cursor) :
    (do
      let before ← get
      let read ← list before
      set read.2
      return read.1 : Parser α) cursor = list cursor := by
  show ((list cursor >>= fun read => pure (read, cursor)) >>= fun x =>
    Except.ok (x.1.1, x.1.2)) = list cursor
  cases list cursor <;> rfl

/-- A list that is read from the cursor. -/
theorem Follows.listed {list : Cursor → Except Error (α × Cursor)} {walk : Walk α}
    (h : Follows tokens least reached list walk) :
    Follows tokens least reached (do
      let before ← get
      let read ← list before
      set read.2
      return read.1) walk := by
  intro cursor number hcursor
  rw [listed_apply]
  exact h cursor number hcursor

theorem follows_arguments : Follows tokens least least Parser.arguments (arguments tokens) := by
  have hlist := follows_argumentsFrom (show tokens.length < tokens.length + 1 + least by omega)
  refine (follows_accept _).bind fun closed => ?_
  split
  · exact follows_pure []
  · exact (hlist.reach (Nat.le_succ least)).listed

theorem follows_annotated :
    Follows tokens least least Parser.annotated (annotated tokens) := by
  refine (follows_accept _).bind fun typed => ?_
  split
  · refine follows_next.bind fun token => ?_
    exact ((follows_within rfl).bind fun type => follows_pure (some type)).reach (Nat.le_succ _)
  · exact follows_pure none

theorem follows_separated {more : Parser (List Param)} {more' : Walk (List Param)}
    (h : Follows tokens (least + 1) (least + 1) more more') (param : Param) :
    Follows tokens least (least + 1) (Parser.separated more param)
      (separated tokens more' param) := by
  refine follows_next.bind fun separator => ?_
  cases separator.kind with
  | comma => exact h.bind fun params => follows_pure (param :: params)
  | rightParen => exact follows_pure [param]
  | _ => exact fun _ _ _ => .error _

/-- The induction is on the number of parameters that are allowed. There are enough of them, since
each takes two tokens. -/
theorem follows_parametersFrom {count : Nat} (hcount : tokens.length < count + least)
    (taken : List String) :
    Follows tokens least (least + 1) (Parser.parametersAt taken)
      (parametersFrom tokens count taken) := by
  induction count generalizing least taken with
  | zero => exact follows_of_length_lt (by omega)
  | succ count ih =>
    rw [Parser.parametersAt_eq, parametersFrom]
    refine follows_next.bind fun name => ?_
    unfold Parser.named named
    split
    · exact follows_refuse _ _
    split
    · exact follows_refuse _ _
    refine follows_annotated.bind fun type => ?_
    have hmore := ih (show tokens.length < count + (least + 1 + 1) by omega) (name.lexeme :: taken)
    exact (follows_separated (hmore.reach (Nat.le_succ _)) _).reach (Nat.le_succ _)

theorem follows_parameters : Follows tokens least least Parser.parameters (parameters tokens) := by
  have hlist := follows_parametersFrom (show tokens.length < tokens.length + 1 + least by omega) []
  refine (follows_accept _).bind fun closed => ?_
  split
  · exact follows_pure []
  · exact (hlist.reach (Nat.le_succ least)).listed

/-! ## Values -/

theorem follows_call (name : Token) :
    Follows tokens least (least + 1) (Parser.call name) (call tokens name) :=
  (follows_expect _ _).bind fun _ => follows_arguments.bind fun _ => follows_pure _

theorem follows_access (name : Token) :
    Follows tokens least (least + 1) (Parser.access name) (access tokens name) := by
  refine (follows_expect _ _).bind fun _ => follows_next.bind fun field => ?_
  split
  · exact follows_refuse _ _
  · refine (follows_accept _).bind fun called => ?_
    dsimp only
    split
    · exact (follows_arguments.map some).bind fun args => (follows_pure _).reach (Nat.le_succ _)
    · exact (follows_pure none).bind fun args => (follows_pure _).reach (Nat.le_succ _)

theorem follows_value : Follows tokens least (least + 1) Parser.value (value tokens) := by
  refine follows_next?_bind (follows_refuseEnd (by omega) _) fun token => ?_
  dsimp only
  split
  · exact follows_pure (Expr.literal token)
  split
  · refine follows_peekKind?.bind fun kind? => ?_
    rcases kind? with _ | kind
    · exact follows_pure (Expr.reference token)
    cases kind with
    | leftParen => exact ((follows_call token).map Expr.call).reach (Nat.le_succ _)
    | dot => exact ((follows_access token).map Expr.access).reach (Nat.le_succ _)
    | _ => exact follows_pure (Expr.reference token)
  · exact follows_refuse _ _

/-! ## Statements -/

theorem follows_declareStatement :
    Follows tokens least (least + 1) Parser.declareStatement (declareStatement tokens) := by
  refine follows_next.bind fun keyword => (follows_expectName _).bind fun name =>
    (follows_expect _ _).bind fun _ => follows_value.bind fun value => ?_
  exact (follows_pure _).reach (by omega)

theorem follows_returnStatement :
    Follows tokens least (least + 1) Parser.returnStatement (returnStatement tokens) := by
  refine follows_next.bind fun keyword => ?_
  split
  · exact follows_refuse _ _
  · exact follows_value.bind fun value => (follows_pure _).reach (Nat.le_succ _)

theorem follows_callStatement :
    Follows tokens least (least + 1) Parser.callStatement (callStatement tokens) :=
  follows_next.bind fun name => (follows_call name).bind fun _ =>
    (follows_pure _).reach (Nat.le_succ _)

theorem follows_accessStatement :
    Follows tokens least (least + 1) Parser.accessStatement (accessStatement tokens) := by
  refine follows_next.bind fun name => (follows_access name).bind fun access => ?_
  split
  · refine (follows_accept _).bind fun assigned => ?_
    split
    · exact follows_value.bind fun value => (follows_pure _).reach (by omega)
    · exact (follows_pure _).reach (Nat.le_succ _)
  · exact (follows_pure _).reach (Nat.le_succ _)

theorem follows_assignStatement :
    Follows tokens least (least + 1) Parser.assignStatement (assignStatement tokens) :=
  follows_next.bind fun _ => (follows_expect _ _).bind fun _ => follows_value.bind fun _ =>
    (follows_pure _).reach (by omega)

theorem follows_nestedFunction (exported : Bool) :
    Follows tokens least (least + 1) (Parser.nestedFunction exported)
      (nestedFunction tokens exported) :=
  follows_next.bind fun _ => follows_refuse _ _

section Imports

variable {resolve : Program.Resolver} {resolve' : Resolver}
  (hresolve : ∀ target, resolve' target = some (resolve target))
include hresolve

theorem follows_importStatement (exported : Bool) :
    Follows tokens least (least + 1) (Parser.importStatement resolve exported)
      (importStatement tokens resolve' exported) := by
  refine follows_next.bind fun keyword => follows_next.bind fun target => ?_
  split
  · exact follows_refuse _ _
  · exact ((follows_within (hresolve target)).bind fun form => follows_pure _).reach (Nat.le_succ _)

variable {function : Bool → Parser Statement} {function' : Bool → Walk Statement}
  (hfunction : ∀ least exported,
    Follows tokens least (least + 1) (function exported) (function' exported))
include hfunction

theorem follows_exportStatement :
    Follows tokens least (least + 1) (Parser.exportStatement resolve function)
      (exportStatement tokens resolve' function') := by
  refine follows_next.bind fun keyword => follows_peek?.bind fun token? => ?_
  rcases token? with _ | token
  · exact follows_refuse _ _
  dsimp only
  rcases token.keyword? with _ | word
  · exact follows_refuse _ _
  cases word with
  | imports => exact (follows_importStatement hresolve true).reach (Nat.le_succ _)
  | function => exact (hfunction _ true).reach (Nat.le_succ _)
  | _ => exact follows_refuse _ _

theorem follows_statement :
    Follows tokens least (least + 1) (Parser.statement resolve function)
      (statement tokens resolve' function') := by
  refine follows_get_bind ?_
  rintro ⟨previous, rest⟩ number h
  cases htoken : tokens[number]? with
  | none =>
    obtain rfl : rest = [] := h.rest_eq_nil htoken
    exact follows_refuseEnd (by omega) _ _ _ (h.positive htoken)
  | some token =>
    obtain ⟨hrest, hnext⟩ := h.step htoken
    obtain rfl : rest = token :: tokens.drop (number + 1) := hrest
    dsimp only
    rw [List.head?_drop]
    rcases token.keyword? with _ | word
    · dsimp only
      cases token.kind with
      | identifier =>
        rcases tokens[number + 1]?.map Token.kind with _ | kind
        · exact .error _
        cases kind with
        | leftParen => exact follows_callStatement _ _ h
        | dot => exact follows_accessStatement _ _ h
        | equal => exact follows_assignStatement _ _ h
        | _ => exact .error _
      | _ => exact .error _
    cases word with
    | imports => exact follows_importStatement hresolve false _ _ h
    | exports => exact follows_exportStatement hresolve hfunction _ _ h
    | function => exact hfunction _ false _ _ h
    | declares => exact follows_declareStatement _ _ h
    | returns => exact follows_returnStatement _ _ h

end Imports

/-- Each statement goes at least one token ahead, so there are enough of them allowed on both sides.
-/
theorem follows_statements {one : Parser Statement} {one' : Walk Statement}
    (hone : ∀ least, Follows tokens least (least + 1) one one') {count count' : Nat}
    (hcount : tokens.length ≤ count + least) (hcount' : tokens.length < count' + least) :
    Follows tokens least least (Parser.statements one count) (statements tokens one' count') := by
  induction count' generalizing least count with
  | zero => exact follows_of_length_lt (by omega)
  | succ count' ih =>
    rw [statements]
    cases count with
    | zero =>
      -- the parser stops because it may read no more, and the walk because nothing is left
      intro cursor number h
      have hend : tokens.length ≤ number := (Nat.zero_add least ▸ hcount).trans h.least_le
      rw [get_bind_apply, if_pos hend]
      exact .ok h
    | succ count =>
      rw [Parser.statements]
      refine follows_get_bind fun cursor number h => ?_
      by_cases hend : tokens.length ≤ number
      · rw [if_pos hend, if_pos (by rw [h.rest, List.drop_eq_nil_of_le hend]; rfl)]
        exact .ok h
      · have hsome : ¬ cursor.rest.isEmpty = true := by
          rw [h.rest, List.isEmpty_iff, List.drop_eq_nil_iff]
          exact hend
        rw [if_neg hend, if_neg hsome]
        have hrest := ih (show tokens.length ≤ count + (least + 1) by omega) (by omega)
        exact (((hone least).bind fun first => hrest.bind fun rest =>
          follows_pure (first :: rest)).reach (Nat.le_succ _)) _ _ h

end Rules

theorem all_eq {tokens : List Token} {one : Parser Statement} {one' : Walk Statement}
    (hone : ∀ least, Follows tokens least (least + 1) one one') :
    all tokens one' = some (Parser.all one tokens) := by
  cases tokens with
  | nil => rfl
  | cons token rest =>
    have hstart : Cursor.At (token :: rest) 0 ⟨{}, token :: rest⟩ 0 :=
      ⟨Nat.succ_pos _, Nat.le_refl 0, Nat.zero_le _, rfl, fun last h => by cases h⟩
    have hrun : Follows (token :: rest) 0 0 (Parser.statements one (token :: rest).length)
        (statements (token :: rest) one' ((token :: rest).length + 1)) :=
      follows_statements hone (Nat.le_refl _) (Nat.lt_succ_self _)
    have hends := hrun _ _ hstart
    unfold all Parser.all StateT.run'
    generalize Parser.statements one (token :: rest).length ⟨{}, token :: rest⟩ = x at hends ⊢
    generalize statements (token :: rest) one' ((token :: rest).length + 1) 0 = y at hends ⊢
    cases hends <;> rfl

/-! ## Functions -/

section Functions

variable {resolve : Program.Resolver} {resolve' : Resolver}
  (hresolve : ∀ target, resolve' target = some (resolve target))
include hresolve

theorem body_eq (name : String) (tokens : List Token) :
    body resolve' name tokens = some (Parser.body resolve name tokens) := by
  rw [body, all_eq fun _ => follows_statement hresolve fun _ _ => follows_nestedFunction _,
    Parser.body_eq]
  rfl

/-- The first closing brace is where the body ends, so both parts are within the list. -/
theorem follows_functionStatement {tokens : List Token} {least : Nat} (file : Option SourceFile)
    (exported : Bool) :
    Follows tokens least (least + 1) (Parser.functionStatement resolve file exported)
      (functionStatement tokens resolve' file exported) := by
  refine follows_next.bind fun keyword => ?_
  rcases keyword.scope with _ | enclosing
  · refine (follows_expectName _).bind fun name => (follows_expect _ _).bind fun _ =>
      follows_parameters.bind fun params => (follows_expect _ _).bind fun _ => ?_
    refine follows_get_bind fun cursor number h => ?_
    have hbrace : (fun token : Token => !decide (token.kind ≠ .rightBrace)) =
        fun token => decide (token.kind = .rightBrace) := by
      funext token
      simp
    have hrest : partFrom? tokens number = some (tokens.drop number) := if_pos h.le_length
    rw [demand_bind hrest, h.rest, List.takeWhile_eq_take_findIdx_not,
      List.dropWhile_eq_drop_findIdx_not, hbrace]
    cases hfind : (tokens.drop number).findIdx? fun token => decide (token.kind = .rightBrace) with
    | none =>
      rw [List.findIdx?_eq_none_iff_findIdx_eq.mp hfind, List.drop_length]
      exact follows_refuseEnd (by omega) _ _ _ h
    | some length =>
      -- the brace is in the list, so the body before it is, and the walk goes on behind it
      obtain ⟨hlt, hlength⟩ := List.findIdx?_eq_some_iff_findIdx_eq.mp hfind
      rw [List.length_drop] at hlt
      obtain ⟨close, hclose⟩ : ∃ close, tokens[number + length]? = some close :=
        ⟨_, List.getElem?_eq_getElem (by omega)⟩
      have hinside : part? tokens number (number + length) =
          some ((tokens.drop number).take length) := by
        rw [part?, if_pos ⟨Nat.le_add_right _ _, by omega⟩, Nat.add_sub_cancel_left]
      rw [hlength, List.drop_drop, drop_eq_cons hclose]
      dsimp only
      rw [demand_bind hinside, body_eq hresolve]
      cases Parser.body resolve name.lexeme ((tokens.drop number).take length) with
      | error e => exact .error e
      | ok program =>
        have hbehind := Cursor.At.behind hclose (show least + 1 ≤ number + length + 1 by
          have := h.least_le
          omega)
        exact .ok hbehind
  · exact follows_refuse _ _

end Functions

end Walk

theorem walkTokens_eq {resolve : Resolver} {resolve' : Walk.Resolver}
    (hresolve : ∀ target, resolve' target = some (resolve target)) (file : Option SourceFile)
    (tokens : List Token) :
    walkTokens resolve' file tokens = some (ofTokens resolve file tokens) := by
  rw [walkTokens, Walk.all_eq fun _ => Walk.follows_statement hresolve fun _ =>
    Walk.follows_functionStatement hresolve file, ofTokens_eq]
  rfl

end Program

end Scripting
