import Scripting.Program.Basic

/-!
# Reading programs

Statements stand side by side without separators, and each is told by its first one or two tokens:

* `import "Name"`, and `export` in front of an import or a function;
* `function name(a, b: Type) … `, with the statements of its body between braces;
* `var name = value`, `name = value`, `map.field = value`, and `return value` inside a body;
* `name(a, b)`, `Module.field` and `Module.field(a, b)`.

A value is a literal, a name, a call, or a field of a module or map; an argument is a literal or a
name. The reading needs to know two things from outside: what an import stands for, and in which
imported file the tokens are. The first defect ends it with an error at the token that is wrong, or
at the last token read when the tokens run out.
-/

namespace Scripting.Program

/-- The tokens still to be read, and the place of the one read last. -/
structure Cursor where
  previous : Span
  rest : List Token

/-- A step of reading that may consume tokens and may fail. -/
abbrev Parser := StateT Cursor (Except Error)

/-- Where a statement finds what it imports. -/
abbrev Resolver := Token → Except Error Form

namespace Parser

/-! ## Single tokens -/

/-- The word that errors use for the end of the tokens. -/
def endOfInput : String := "end of input"

/-- Fail at a place. -/
def refuse {α : Type} (cause : Cause) (span : Span) : Parser α :=
  throw (.locate cause span)

/-- The next token, if there is one, without consuming it. -/
def peek? : Parser (Option Token) := do
  return (← get).rest.head?

/-- The kind of the next token, if there is one. -/
def peekKind? : Parser (Option TokenKind) := do
  return (← peek?).map Token.kind

/-- Consume the next token, if there is one. -/
def next? : Parser (Option Token) := do
  match (← get).rest with
  | [] => return none
  | token :: rest =>
    set { previous := token.span, rest : Cursor }
    return some token

/-- Fail at the token read last. -/
def refuseEnd {α : Type} (cause : Cause) : Parser α := do
  refuse cause (← get).previous

/-- Consume the next token, of whatever kind. -/
def next : Parser Token := do
  match ← next? with
  | some token => return token
  | none => refuseEnd (.unexpectedToken endOfInput)

/-- Consume the next token if it has the given kind, and say whether it had. -/
def accept (kind : TokenKind) : Parser Bool := do
  if (← peekKind?) = some kind then
    let _ ← next?
    return true
  else
    return false

/-- Consume a token of the given kind. -/
def expect (kind : TokenKind) (expected : String) : Parser Token := do
  match ← next? with
  | some token =>
    if token.kind = kind then return token
    else refuse (.expectedToken expected token.lexeme) token.span
  | none => refuseEnd (.expectedToken expected endOfInput)

/-- Consume a word that is not reserved. -/
def expectName (expected : String) : Parser Token := do
  let token ← expect .identifier expected
  if token.keyword?.isSome then refuse (.reservedWord token.lexeme) token.span
  else return token

/-! ## Lists of arguments and parameters -/

/-- The arguments after an opening parenthesis that is not closed at once. -/
def argumentsFrom (previous : Span) : List Token → Except Error (List Token × Cursor)
  | [] => .error (.locate .unterminatedArguments previous)
  | token :: rest =>
    if !token.kind.isOperand || token.keyword?.isSome then
      .error (.locate (.invalidArgument token.lexeme) token.span)
    else
      match rest with
      | [] => .error (.locate .unterminatedArguments token.span)
      | separator :: rest =>
        match separator.kind with
        | .comma => do
          let (args, cursor) ← argumentsFrom separator.span rest
          return (token :: args, cursor)
        | .rightParen => .ok ([token], { previous := separator.span, rest })
        | _ =>
          .error (.locate (.expectedToken "\",\" or \")\" in argument list" separator.lexeme)
            separator.span)

/-- The arguments after an opening parenthesis. -/
def arguments : Parser (List Token) := do
  if ← accept .rightParen then
    return []
  else
    let cursor ← get
    let (args, cursor) ← argumentsFrom cursor.previous cursor.rest
    set cursor
    return args

/-- The type after the colon of a parameter. -/
def parameterType (token : Token) : Except Error ValueType :=
  match ValueType.ofName? token.lexeme with
  | some type => .ok type
  | none => .error (.locate (.unknownType token.lexeme) token.span)

/-- The parameters after an opening parenthesis that is not closed at once, given the names of those
before. -/
def parametersFrom (taken : List String) (previous : Span) :
    List Token → Except Error (List Param × Cursor)
  | [] => .error (.locate (.unexpectedToken endOfInput) previous)
  | name :: rest =>
    if !name.isName then
      .error (.locate (.invalidParameter name.lexeme) name.span)
    else if name.lexeme ∈ taken then
      .error (.locate (.alreadyDeclared name.lexeme) name.span)
    else
      match rest with
      | [] => .error (.locate (.unexpectedToken endOfInput) name.span)
      | separator :: rest =>
        match separator.kind with
        | .colon =>
          match rest with
          | [] => .error (.locate (.unexpectedToken endOfInput) separator.span)
          | annotation :: rest => do
            let type ← parameterType annotation
            match rest with
            | [] => .error (.locate (.unexpectedToken endOfInput) annotation.span)
            | separator :: rest =>
              match separator.kind with
              | .comma =>
                let (params, cursor) ←
                  parametersFrom (name.lexeme :: taken) separator.span rest
                return ({ name := name.lexeme, type := some type } :: params, cursor)
              | .rightParen =>
                return ([{ name := name.lexeme, type := some type }],
                  { previous := separator.span, rest })
              | _ => .error (badSeparator separator)
        | .comma => do
          let (params, cursor) ← parametersFrom (name.lexeme :: taken) separator.span rest
          return ({ name := name.lexeme } :: params, cursor)
        | .rightParen => .ok ([{ name := name.lexeme }], { previous := separator.span, rest })
        | _ => .error (badSeparator separator)
where
  /-- The error for a token that neither goes on with nor ends a list of parameters. -/
  badSeparator (token : Token) : Error :=
    .locate (.expectedToken "\",\" or \")\" in parameter list" token.lexeme) token.span

/-- The parameters after an opening parenthesis. -/
def parameters : Parser (List Param) := do
  if ← accept .rightParen then
    return []
  else
    let cursor ← get
    let (params, cursor) ← parametersFrom [] cursor.previous cursor.rest
    set cursor
    return params

/-! ## Values -/

/-- A call of the function with the given name. -/
def call (name : Token) : Parser Call := do
  let _ ← expect .leftParen "\"(\" after function name"
  let args ← arguments
  return { name := name.lexeme, args, span := name.span }

/-- A field of the module or map with the given name. -/
def access (name : Token) : Parser Access := do
  let _ ← expect .dot "\".\" after module name"
  let field ← next
  if !field.isName then
    refuse (.expectedToken "identifier after \".\"" field.lexeme) field.span
  else
    let args ← if ← accept .leftParen then some <$> arguments else pure none
    return { module := name.lexeme, field := field.lexeme, args, span := name.span }

/-- A value. -/
def value : Parser Expr := do
  match ← next? with
  | none => refuseEnd (.expectedValue endOfInput)
  | some token =>
    if token.kind.isLiteral then
      return .literal token
    else if token.isName then
      match ← peekKind? with
      | some .leftParen => .call <$> call token
      | some .dot => .access <$> access token
      | _ => return .reference token
    else
      refuse (.expectedValue token.lexeme) token.span

/-! ## Statements -/

/-- The statement of a form that starts with the given token. -/
def statementAt (token : Token) (form : Form) (exported : Bool) : Statement :=
  { form, span := token.span, scope := token.scope, exported }

/-- An import. -/
def importStatement (resolve : Resolver) (exported : Bool) : Parser Statement := do
  let keyword ← next
  let target ← next
  if target.kind ≠ .string then
    refuse (.expectedString target.lexeme) target.span
  else
    let form ← resolve target
    return statementAt keyword form exported

/-- An import or a function behind `export`. -/
def exportStatement (resolve : Resolver) (function : Bool → Parser Statement) :
    Parser Statement := do
  let keyword ← next
  match ← peek? with
  | none => refuse (.invalidExport endOfInput) keyword.span
  | some token =>
    match token.keyword? with
    | some .imports => importStatement resolve true
    | some .function => function true
    | _ => refuse (.invalidExport token.lexeme) token.span

/-- A declaration of a variable. -/
def declareStatement : Parser Statement := do
  let keyword ← next
  let name ← expectName "variable name"
  let _ ← expect .equal "\"=\" after variable name"
  let value ← value
  return statementAt keyword (.declare name.lexeme value) false

/-- A return, which only a function body may hold. -/
def returnStatement : Parser Statement := do
  let keyword ← next
  if keyword.scope.isNone then
    refuse .returnOutsideFunction keyword.span
  else
    let value ← value
    return statementAt keyword (.returns value) false

/-- A call that stands as a statement. -/
def callStatement : Parser Statement := do
  let name ← next
  let call ← call name
  return statementAt name (.call call) false

/-- A field of a module or map that stands as a statement, or an assignment to a field of a map. -/
def accessStatement : Parser Statement := do
  let name ← next
  let access ← access name
  if access.args.isNone then
    if ← accept .equal then
      let value ← value
      return statementAt name (.assign (.field access.module access.field) value) false
    else
      return statementAt name (.access access) false
  else
    return statementAt name (.access access) false

/-- An assignment to a variable. -/
def assignStatement : Parser Statement := do
  let name ← next
  let _ ← expect .equal "\"=\" after variable name"
  let value ← value
  return statementAt name (.assign (.var name.lexeme) value) false

/-- A statement. What `function` introduces depends on where the statement stands. -/
def statement (resolve : Resolver) (function : Bool → Parser Statement) : Parser Statement := do
  match (← get).rest with
  | [] => refuseEnd (.unexpectedToken endOfInput)
  | token :: rest =>
    match token.keyword? with
    | some .imports => importStatement resolve false
    | some .exports => exportStatement resolve function
    | some .function => function false
    | some .declares => declareStatement
    | some .returns => returnStatement
    | none =>
      match token.kind, rest.head?.map Token.kind with
      | .identifier, some .leftParen => callStatement
      | .identifier, some .dot => accessStatement
      | .identifier, some .equal => assignStatement
      | _, _ => refuse (.unexpectedToken token.lexeme) token.span

/-- The statements up to the end of the tokens, at most `count` of them, and the modules that have
been imported by then. A statement that imports a module adds it to those imported before. -/
def programFrom (one : Parser Statement) (imports : ImportTable) : (count : Nat) → Parser Program
  | 0 => return { statements := [], imports }
  | count + 1 => do
    if (← get).rest.isEmpty then
      return { statements := [], imports }
    else
      let first ← one
      let imports := first.form.module?.elim imports imports.insert
      let rest ← programFrom one imports count
      return { rest with statements := first :: rest.statements }

/-- The program of a list of tokens. Each statement takes a token at least, so there are no more of
them than tokens. -/
def program (one : Parser Statement) (tokens : List Token) : Except Error Program :=
  (programFrom one {} tokens.length).run' { previous := {}, rest := tokens }

/-! ## Functions -/

/-- Inside a body there are no functions. -/
def nestedFunction (_exported : Bool) : Parser Statement := do
  let keyword ← next
  refuse (.nestedFunction (keyword.scope.getD "")) keyword.span

/-- The program of a function body, of which all tokens carry the function's name. -/
def body (resolve : Resolver) (name : String) (tokens : List Token) : Except Error Program :=
  let tokens := tokens.map fun token => { token with scope := some name }
  program (statement resolve nestedFunction) tokens

/-- A function. Its body runs to the first closing brace. -/
def functionStatement (resolve : Resolver) (file : Option SourceFile) (exported : Bool) :
    Parser Statement := do
  let keyword ← next
  match keyword.scope with
  | some enclosing => refuse (.nestedFunction enclosing) keyword.span
  | none =>
    let name ← expectName "function name"
    let _ ← expect .leftParen "\"(\" after function name"
    let params ← parameters
    let _ ← expect .leftBrace "\"\x7b\" before function body"
    let cursor ← get
    match cursor.rest.dropWhile (·.kind ≠ .rightBrace) with
    | [] => refuseEnd (.expectedToken "\"\x7d\" after function body" endOfInput)
    | close :: rest =>
      let body ← body resolve name.lexeme (cursor.rest.takeWhile (·.kind ≠ .rightBrace))
      set { previous := close.span, rest : Cursor }
      return statementAt keyword
        (.function { name := name.lexeme, params, body, span := name.span, file }) exported

end Parser

/-- The program that a list of tokens writes, where `resolve` finds what is imported and `file` is the
imported file that the tokens come from, if any. -/
def ofTokens (resolve : Resolver) (file : Option SourceFile) (tokens : List Token) :
    Except Error Program :=
  Parser.program (Parser.statement resolve (Parser.functionStatement resolve file)) tokens

end Scripting.Program
