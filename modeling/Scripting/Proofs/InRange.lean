import Scripting.Proofs.Indices
import Scripting.Proofs.Settled
import Scripting.Proofs.Slices

/-!
# Nothing out of range

From the text of a script to the end of its run there are a few places where something is asked for
by number: a part of the text, a token, a part of the tokens, a line to quote, an argument, the part
of a format before a placeholder. Each of them is written here as it would be with numbers, and has
no result if the number is out of range. Cutting a text by bytes is `Token.scanBytes` and reading
tokens by number is `Program.walkTokens`; here follow the quoting of lines, the files that are
imported, and the library.

Main statement: none of them is ever without a result, for no text, no files and no console, and in
no state that a run comes to (`pipeline_in_range`).
-/

namespace Scripting

/-! ## Quoting a line -/

theorem exists_getElem?_pred {α : Type} {items : List α} {number : Nat} (hpos : 0 < number)
    (hle : number ≤ items.length) : ∃ item, items[number - 1]? = some item :=
  ⟨_, List.getElem?_eq_getElem (by omega)⟩

theorem Text.line?_eq (text : String) (number : Nat) :
    Text.line? text number =
      if 0 < number ∧ number ≤ (Text.lines text).length then (Text.lines text)[number - 1]?
      else none := by
  unfold Text.line?
  rcases Nat.eq_zero_or_pos number with rfl | hpos
  · rfl
  rw [if_neg (Nat.pos_iff_ne_zero.mp hpos)]
  split
  · rfl
  · rw [List.getElem?_eq_none_iff]
    omega

namespace Error

/-- The error, quoting the line that it points at, which is looked up by its number. -/
def quoting? (error : Error) (source : String) : Option Error :=
  match error.file, error.sourceLine, error.span with
  | none, none, some span =>
    let lines := Text.lines source
    if 0 < span.line ∧ span.line ≤ lines.length then do
      let line ← lines[span.line - 1]?
      return { error with sourceLine := some line }
    else
      return error
  | _, _, _ => some error

/-- The error, attributed to a file unless it already belongs to one. -/
def claimed? (error : Error) (path source : String) : Option Error :=
  match error.file with
  | none => do return { ← error.quoting? source with file := some path }
  | some _ => some error

theorem quoting?_eq (error : Error) (source : String) :
    error.quoting? source = some (error.withSource source) := by
  obtain ⟨cause, span, file, sourceLine⟩ := error
  cases file with
  | some file => cases sourceLine <;> rfl
  | none =>
    cases sourceLine with
    | some line => rfl
    | none =>
      cases span with
      | none => rfl
      | some span =>
        unfold quoting? withSource
        dsimp only [Option.bind_some]
        rw [Text.line?_eq]
        split
        · next hline =>
          obtain ⟨line, hfound⟩ := exists_getElem?_pred hline.1 hline.2
          rw [hfound]
          rfl
        · rfl

theorem claimed?_eq (error : Error) (path source : String) :
    error.claimed? path source = some (error.inFile path source) := by
  unfold claimed? inFile
  rw [quoting?_eq]
  cases error.file <;> rfl

end Error

/-! ## Imported files -/

namespace Loader

/-- What the import of a file stands for, given what its reading comes to. -/
def walkedImport (target : Token) (file : SourceFile) (loaded : Option (Except Error Program)) :
    Option (Except Error Form) := do
  match ← loaded with
  | .error error => return .error (← error.claimed? file.path file.source)
  | .ok program => return importOf target file (.ok program)

/-- What an import stands for, where `read` reads the imported file. -/
def walkImport (read : Reading → Option (Except Error Program)) (loader : Loader) (target : Token) :
    Option (Except Error Form) :=
  match loader.registry.resolve? target.lexeme, loader.fileAt? target.lexeme with
  | some module, none => some (.ok (.useModule module))
  | some _, some _ => some (.error (.locate (.ambiguousImport target.lexeme) target.span))
  | none, none => some (.error (.locate (.moduleNotFound target.lexeme) target.span))
  | none, some place =>
    if loader.inProgress.contains place then
      some (.error (.locate (.circularImport target.lexeme) target.span))
    else
      let path := loader.path target.lexeme
      match loader.files.read place with
      | .error fault =>
        some (.error
          (.locate (.io ("cannot read \"" ++ path ++ "\": " ++ fault.message)) target.span))
      | .ok source =>
        walkedImport target { path, source }
          (read ⟨loader.forImport { path, source } place, source⟩)

/-- The program of a text that is cut by bytes and whose tokens are read by number, with imports
nested fewer than `depth` deep. -/
def walkWithin : (depth : Nat) → Reading → Option (Except Error Program)
  | 0, _ => none
  | depth + 1, reading => do
    match ← Token.scanBytes reading.source with
    | .error error => return .error error
    | .ok tokens =>
      Program.walkTokens (walkImport (walkWithin depth) reading.loader) reading.loader.file tokens

/-- The program of a text that is cut by bytes and whose tokens are read by number. Each import puts
one more file in progress. -/
def walk (loader : Loader) (source : String) : Option (Except Error Program) :=
  walkWithin (loader.remaining + 1) ⟨loader, source⟩

theorem walkedImport_some (target : Token) (file : SourceFile) (loaded : Except Error Program) :
    walkedImport target file (some loaded) = some (importOf target file loaded) := by
  cases loaded with
  | ok program => rfl
  | error error =>
    show (do return Except.error (← error.claimed? file.path file.source)) = _
    rw [Error.claimed?_eq]
    rfl

/-- The import asks for the file that it opens, and for nothing else. -/
theorem walkImport_eq {read : Reading → Option (Except Error Program)} {loader : Loader}
    {target : Token} (h : ∀ file place, loader.Opens target.lexeme file place →
      read ⟨loader.forImport file place, file.source⟩ =
        some (load ⟨loader.forImport file place, file.source⟩)) :
    walkImport read loader target = some (loader.resolve target) := by
  rw [resolve_eq]
  unfold walkImport resolveBy
  cases hmodule : loader.registry.resolve? target.lexeme with
  | some module => cases loader.fileAt? target.lexeme <;> rfl
  | none =>
    cases hfound : loader.fileAt? target.lexeme with
    | none => rfl
    | some place =>
      dsimp only
      split
      · rfl
      · next hplace =>
        cases hread : loader.files.read place with
        | error fault => rfl
        | ok source =>
          have hsame := h { path := loader.path target.lexeme, source } place
            ⟨hmodule, hfound, mt List.contains_iff_mem.mpr hplace, rfl, hread⟩
          dsimp only
          rw [hsame, walkedImport_some]

theorem walkWithin_eq {depth : Nat} {reading : Reading} (h : reading.loader.remaining < depth) :
    walkWithin depth reading = some (load reading) := by
  induction depth generalizing reading with
  | zero => exact absurd h (Nat.not_lt_zero _)
  | succ depth ih =>
    -- the files that are read for the imports have one less to go
    have himport : ∀ target, walkImport (walkWithin depth) reading.loader target =
        some (reading.loader.resolve target) := fun target =>
      walkImport_eq fun file place hopens =>
        ih (Nat.lt_of_lt_of_le hopens.remaining_lt (Nat.le_of_lt_succ h))
    rw [walkWithin, Token.scanBytes_eq]
    unfold load ofSource
    cases Token.scan reading.source with
    | error error => rfl
    | ok tokens => exact Program.walkTokens_eq himport reading.loader.file tokens

theorem walk_eq (loader : Loader) (source : String) :
    loader.walk source = some (loader.ofSource source) :=
  walkWithin_eq (Nat.lt_succ_self _)

end Loader

/-! ## Placeholders -/

namespace Text

/-- The byte at which the first placeholder of a format starts. -/
def findHole? : List Char → Option Nat
  | '\x7b' :: '\x7d' :: _ => some 0
  | c :: rest => (findHole? rest).map (· + c.utf8Size)
  | [] => none

/-- The format with its leftmost placeholders exchanged for the pieces in order. What is before a
placeholder and what is behind it are parts of the format between bytes. -/
def fillBytes (format : List Char) : List (List Char) → Option (List Char)
  | [] => some format
  | piece :: pieces =>
    match findHole? format with
    | none => some format
    | some start => do
      let (before, _) ← splitAt? format start
      let (_, after) ← splitAt? format (start + 2)
      return before ++ piece ++ (← fillBytes after pieces)

theorem fill_nil (format : List Char) : fill format [] = format := by
  induction format with
  | nil => rfl
  | cons c rest ih => simp [fill, ih]

/-- A character that starts no placeholder stays. -/
theorem fill_cons {c : Char} {rest : List Char}
    (h : ∀ after, c = '\x7b' → rest = '\x7d' :: after → False) (pieces : List (List Char)) :
    fill (c :: rest) pieces = c :: fill rest pieces := by
  rw [fill]
  exact fun after piece others _ hc hrest => h after hc hrest

theorem fill_of_findHole?_eq_none {format : List Char} (h : findHole? format = none)
    (pieces : List (List Char)) : fill format pieces = format := by
  fun_induction findHole? format with
  | case1 => cases h
  | case2 c rest hc ih => rw [fill_cons hc, ih (Option.map_eq_none_iff.mp h)]
  | case3 => cases pieces <;> rfl

/-- The first placeholder is where the first piece goes. The induction is on the characters before
it. -/
theorem exists_of_findHole? {format : List Char} {start : Nat} (h : findHole? format = some start) :
    ∃ before after, format = before ++ '\x7b' :: '\x7d' :: after ∧ String.utf8Len before = start ∧
      ∀ piece pieces, fill format (piece :: pieces) = before ++ (piece ++ fill after pieces) := by
  fun_induction findHole? format generalizing start with
  | case1 after =>
    cases h
    exact ⟨[], after, rfl, rfl, fun piece pieces => rfl⟩
  | case2 c rest hc ih =>
    obtain ⟨next, hnext, rfl⟩ := Option.map_eq_some_iff.mp h
    obtain ⟨before, after, rfl, rfl, hfill⟩ := ih hnext
    refine ⟨c :: before, after, rfl, String.utf8Len_cons .., fun piece pieces => ?_⟩
    rw [fill_cons hc, hfill, List.cons_append]
  | case3 => cases h

theorem fillBytes_eq (format : List Char) (pieces : List (List Char)) :
    fillBytes format pieces = some (fill format pieces) := by
  induction pieces generalizing format with
  | nil => rw [fillBytes, fill_nil]
  | cons piece pieces ih =>
    rw [fillBytes]
    cases hhole : findHole? format with
    | none => rw [fill_of_findHole?_eq_none hhole]
    | some start =>
      obtain ⟨before, after, rfl, rfl, hfill⟩ := exists_of_findHole? hhole
      have hbefore : splitAt? (before ++ '\x7b' :: '\x7d' :: after) (String.utf8Len before) =
          some (before, '\x7b' :: '\x7d' :: after) :=
        splitAt?_eq_some_iff.mpr ⟨rfl, rfl⟩
      have hafter : splitAt? (before ++ '\x7b' :: '\x7d' :: after) (String.utf8Len before + 2) =
          some (before ++ ['\x7b', '\x7d'], after) :=
        splitAt?_eq_some_iff.mpr ⟨by simp, by rw [String.utf8Len_append]; rfl⟩
      rw [hfill]
      simp [hbefore, hafter, ih]

end Text

/-! ## Arguments of the library -/

namespace Native

variable {α β γ : Type}

theorem bind_bind (work : Native α) (next : α → Native β) (last : β → Native γ) :
    work >>= next >>= last = work >>= fun a => next a >>= last := by
  show (work.bind next).bind last = work.bind fun a => (next a).bind last
  induction work with
  | done result => rfl
  | fail error => rfl
  | argument index k ih => exact congrArg (argument index) (funext ih)
  | callback index k ih => exact congrArg (callback index) (funext ih)
  | invoke function values k ih => exact congrArg (invoke function values) (funext ih)
  | lookup name k ih => exact congrArg (lookup name) (funext ih)
  | assign name value k ih => exact congrArg (assign name value) ih
  | write line k ih => exact congrArg (write line) ih
  | read prompt k ih => exact congrArg (read prompt) (funext ih)
  | inspect k ih => exact congrArg inspect (funext ih)

/-- What is done with a result matters only for results that there can be. -/
theorem Confined.bind_congr {X : Set String} {P : α → Prop} {work : Native α}
    (h : work.Confined X P) {next other : α → Native β} (hsame : ∀ a, P a → next a = other a) :
    work >>= next = work >>= other := by
  show work.bind next = work.bind other
  induction work with
  | done result => exact hsame result h
  | fail error => rfl
  | argument index k ih => exact congrArg (argument index) (funext fun a => ih a (h a))
  | callback index k ih => exact congrArg (callback index) (funext fun a => ih a (h a))
  | invoke function values k ih =>
    exact congrArg (invoke function values) (funext fun a => ih a (h a))
  | lookup name k ih => exact congrArg (lookup name) (funext fun a => ih a (h a))
  | assign name value k ih => exact congrArg (assign name value) (ih h.2)
  | write line k ih => exact congrArg (write line) (ih h)
  | read prompt k ih => exact congrArg (read prompt) (funext fun a => ih a (h a))
  | inspect k ih => exact congrArg inspect (funext fun a => ih a (h a))

theorem confined_length_valuesFrom (known : List Value) (index count : Nat) :
    (valuesFrom known index count).Confined ∅ (·.length = known.length + count) := by
  induction count generalizing known index with
  | zero => exact List.length_reverse
  | succ count ih =>
    refine fun value => (ih (value :: known) (index + 1)).imp fun values h => ?_
    rw [h, List.length_cons]
    omega

end Native

namespace Library

open Native

theorem confined_length_numbersFrom (site : CallSite) (module : String) (known : List Float)
    (index count : Nat) :
    (numbersFrom site module known index count).Confined ∅ (·.length = known.length + count) := by
  induction count generalizing known index with
  | zero => exact List.length_reverse
  | succ count ih =>
    refine (confined_numberArgument module index).bind fun x _ =>
      (ih (x :: known) (index + 1)).imp fun numbers h => ?_
    rw [h, List.length_cons]
    omega

/-- The line that a format and the values after it make. The values are those from number one on. -/
def Terminal.line? (format : Value) (values : List Value) : Option String := do
  let rest ← partFrom? values 1
  let line ← Text.fillBytes format.text.toList (rest.map (·.text.toList))
  return String.ofList line

/-- Write a format, which is the value with number zero. There is no result if a number is out of
range. -/
def Terminal.printfByNumber (site : CallSite) : Native (Option (Option Value)) := do
  let values ← site.values
  match values[0]? with
  | none => return none
  | some format =>
    checkType site name 0 format .string
    match line? format values with
    | none => return none
    | some line =>
      Native.writeLine line
      return some none

/-- The first argument less all others. There is no result if there is no first one. -/
def Arithmetic.subtractByNumber (site : CallSite) : Native (Option (Option Value)) := do
  let numbers ← numberArguments site name
  match numbers[0]?, partFrom? numbers 1 with
  | some first, some rest => return some (some (.number (rest.foldl (· - ·) first)))
  | _, _ => return none

theorem partFrom?_one_cons {α : Type} (first : α) (rest : List α) :
    partFrom? (first :: rest) 1 = some rest :=
  if_pos (Nat.succ_le_succ (Nat.zero_le rest.length))

theorem Terminal.line?_cons (format : Value) (values : List Value) :
    line? format (format :: values) = some (fillPlaceholders format.text values) := by
  rw [line?, partFrom?_one_cons, Option.bind_eq_bind, Option.bind_some, Text.fillBytes_eq]
  rfl

theorem Terminal.printfByNumber_eq {site : CallSite} (h : 0 < site.args.length) :
    printfByNumber site = some <$> printf site := by
  unfold printfByNumber printf
  show _ = (site.values >>= _) >>= _
  rw [bind_bind]
  refine (confined_length_valuesFrom [] 0 site.args.length).bind_congr fun values hvalues => ?_
  cases values with
  | nil =>
    -- there are as many values as arguments
    rw [List.length_nil] at hvalues
    omega
  | cons format values =>
    dsimp only [List.getElem?_cons_zero]
    rw [line?_cons, bind_bind]
    rfl

theorem Arithmetic.subtractByNumber_eq {site : CallSite} (h : 0 < site.args.length) :
    subtractByNumber site = some <$> subtract site := by
  unfold subtractByNumber subtract
  show _ = (numberArguments site name >>= _) >>= _
  rw [bind_bind]
  refine (confined_length_numbersFrom site name [] 0 site.args.length).bind_congr
    fun numbers hnumbers => ?_
  cases numbers with
  | nil =>
    rw [List.length_nil] at hnumbers
    omega
  | cons first rest =>
    rw [partFrom?_one_cons]
    rfl

/-- The work of a function of the library, with numbers where it has some. -/
def byNumber (module : String) (function : NativeFunction) (site : CallSite) :
    Native (Option (Option Value)) :=
  if (module, function.name) = (Terminal.name, "printf") then Terminal.printfByNumber site
  else if (module, function.name) = (Arithmetic.name, "subtract") then
    Arithmetic.subtractByNumber site
  else some <$> function.body site

/-- The function stays in range when it has as many arguments as it takes. -/
def Bounded (module : String) (function : NativeFunction) : Prop :=
  ∀ site : CallSite, function.arity.accepts site.args.length = true →
    byNumber module function site = some <$> function.body site

theorem pos_of_atLeast_two {site : CallSite}
    (h : (Arity.atLeast 2).accepts site.args.length = true) :
    0 < site.args.length :=
  Nat.lt_of_lt_of_le Nat.two_pos (of_decide_eq_true h)

theorem bounded_of_mem {module : Module} (h : module ∈ modules) :
    module.Every (Bounded module.name) := by
  simp only [modules, List.mem_cons, List.not_mem_nil, or_false] at h
  rcases h with rfl | rfl | rfl | rfl | rfl
  · exact (Module.every_empty Terminal.name)
      |>.withFunction "print" _ (fun _ _ => rfl)
      |>.withFunction "printf" _ (fun _ h => Terminal.printfByNumber_eq (pos_of_atLeast_two h))
      |>.withFunction "scan" _ (fun _ _ => rfl)
  · exact (Module.every_empty Conversion.name).withFunction "parse" _ fun _ _ => rfl
  · exact (Module.every_empty Arithmetic.name)
      |>.withFunction "sum" _ (fun _ _ => rfl)
      |>.withFunction "subtract" _ (fun _ h =>
        Arithmetic.subtractByNumber_eq (pos_of_atLeast_two h))
      |>.withField "PI" _
      |>.withField "E" _
      |>.withField "constants" _
  · exact (Module.every_empty Texts.name)
      |>.withFunction "replace" _ (fun _ _ => rfl)
      |>.withFunction "trim" _ (fun _ _ => rfl)
      |>.withFunction "toLowerCase" _ (fun _ _ => rfl)
      |>.withFunction "chars" _ (fun _ _ => rfl)
  · exact (Module.every_empty Arrays.name)
      |>.withFunction "create" _ (fun _ _ => rfl)
      |>.withFunction "map" _ (fun _ _ => rfl)

theorem byNumber_eq {module : Module} (hmodule : module ∈ modules) {field : String}
    {function : NativeFunction} (hexport : module.export? field = some (.function function))
    {site : CallSite} (haccepts : function.arity.accepts site.args.length = true) :
    byNumber module.name function site = some <$> function.body site :=
  bounded_of_mem hmodule field function (Module.mem_exports_of_export? hexport) site haccepts

end Library

/-! ## Calls of the library -/

namespace Exec

/-- A call of a function of a module, with numbers where the function has some. -/
def callByNumber (invoke : Invoke) (module : String) (function : NativeFunction) (args : List Token)
    (span : Span) : Exec (Option (Option Value)) :=
  if function.arity.accepts args.length then
    let site : CallSite := { function := function.name, args, span }
    decorate (·.orAt span) (native invoke site (Library.byNumber module function site))
  else
    refuse
      (.wrongArity (module ++ "." ++ function.name) function.arity.text args.length) span

/-- A field of a module in view or else of a variable. Functions of a module are called by number.
-/
def fieldByNumber (invoke : Invoke) (access : Access) : Exec (Option (Option Value)) := do
  let state ← get
  match state.imports.get? access.module, access.args with
  | some module, some args =>
    match module.export? access.field with
    | some (.function function) => callByNumber invoke module.name function args access.span
    | _ => some <$> field invoke access
  | _, _ => some <$> field invoke access

theorem decorate_map {α β : Type} (change : Error → Error) (step : Exec α) (f : α → β) :
    decorate change (f <$> step) = f <$> decorate change step := by
  funext s
  show s.run (decorate change (f <$> step)) = s.run (f <$> decorate change step)
  rw [run_decorate, map_eq_pure_bind, map_eq_pure_bind, run_bind, run_bind, run_decorate]
  rcases s.run step with ⟨_ | _, t⟩ <;> rfl

theorem callByNumber_eq {module : Module} (hmodule : module ∈ Library.modules) {name : String}
    {function : NativeFunction} (hexport : module.export? name = some (.function function))
    (invoke : Invoke) (args : List Token) (span : Span) :
    callByNumber invoke module.name function args span =
      some <$> callNative invoke module.name function args span := by
  unfold callByNumber callNative
  split
  · next haccepts =>
    dsimp only
    rw [Library.byNumber_eq hmodule hexport haccepts, ← decorate_map]
    refine congrArg (decorate _) (Eq.trans ?_ (map_eq_pure_bind ..).symm)
    exact native_bind invoke _ _ fun value => .done (some value)
  · rfl

theorem run_fieldByNumber {s : State} (hs : s.imports.modules ⊆ Library.modules) (invoke : Invoke)
    (access : Access) :
    s.run (fieldByNumber invoke access) = s.run (some <$> field invoke access) := by
  rw [fieldByNumber, run_get_bind]
  cases hmodule : s.imports.get? access.module with
  | none => rfl
  | some module =>
    cases hargs : access.args with
    | none => rfl
    | some args =>
      dsimp only
      cases hexport : module.export? access.field with
      | none => rfl
      | some item =>
        cases item with
        | field value => rfl
        | function function =>
          -- this is the only way in which a field comes to the work of a native function
          have hmem : module ∈ Library.modules := hs (List.mem_of_find?_eq_some hmodule)
          have hfield : s.run (field invoke access) =
              s.run (callNative invoke module.name function args access.span) := by
            rw [field, run_get_bind, hmodule]
            dsimp only
            unfold moduleField
            rw [hexport, hargs]
          dsimp only
          rw [callByNumber_eq hmem hexport, map_eq_pure_bind, map_eq_pure_bind, run_bind, run_bind,
            hfield]

end Exec

/-! ## Running a script -/

/-- Run a script file that is cut by bytes and whose tokens and lines are looked up by number. -/
def walkFile (files : FileTree) (path : String) (base? : Option String) (console : Console)
    (order : Order) : Option (Except Error Unit × State) :=
  let state : State := { console, scopes := { order } }
  match files.readPath path with
  | .error fault =>
    some (.error { cause := .io ("cannot read file '" ++ path ++ "': " ++ fault.message) }, state)
  | .ok source => do
    let loader := Loader.forScript { registry := Library.standard, files } path
    let loaded ← { loader with base := base?.getD loader.base }.walk source
    let ended := state.executeLoaded loaded
    match ended.1 with
    | .ok _ => return (.ok (), ended.2)
    | .error error => return (.error (← error.quoting? source), ended.2)

theorem walkFile_eq (files : FileTree) (path : String) (base? : Option String) (console : Console)
    (order : Order) :
    walkFile files path base? console order = some (runFile files path base? console order) := by
  unfold walkFile runFile
  cases files.readPath path with
  | error fault => rfl
  | ok source =>
    dsimp only
    rw [Loader.walk_eq, Option.bind_eq_bind, Option.bind_some]
    generalize State.executeLoaded _ _ = ended
    obtain ⟨result, after⟩ := ended
    cases result with
    | ok _ => rfl
    | error error =>
      dsimp only
      rw [Error.quoting?_eq]
      rfl

/-- Nothing is out of range: no part of a text when it is cut, no token and no part of the tokens
when they are read, in a script as in the files that it imports, no line that an error quotes, and
no argument and no part of a format in a call that the library accepts. A run makes no other calls:
in each state that it comes to, and in all with the same modules in view, a field comes to the same
with numbers. -/
theorem pipeline_in_range :
    (∀ source, Token.scanBytes source = some (Token.scan source)) ∧
    (∀ (loader : Loader) source, loader.walk source = some (loader.ofSource source)) ∧
    (∀ (error : Error) source, error.quoting? source = some (error.withSource source)) ∧
    (∀ files path base? console order,
      walkFile files path base? console order = some (runFile files path base? console order)) ∧
    (∀ module ∈ Library.modules, ∀ field function,
      module.export? field = some (.function function) →
        ∀ site : CallSite, function.arity.accepts site.args.length = true →
          Library.byNumber module.name function site = some <$> function.body site) ∧
    ∀ s : State, s.Reachable → ∀ t : State, t.imports = s.imports → ∀ invoke access,
      t.run (Exec.fieldByNumber invoke access) = t.run (some <$> Exec.field invoke access) := by
  refine ⟨Token.scanBytes_eq, Loader.walk_eq, Error.quoting?_eq, walkFile_eq, ?_, ?_⟩
  · intro module hmodule field function hexport site haccepts
    exact Library.byNumber_eq hmodule hexport haccepts
  · intro s hs t himports invoke access
    exact Exec.run_fieldByNumber (himports ▸ hs.sound.imports) invoke access

/-- A format with more placeholders than values. -/
def shortageText : String :=
  "import \"IO\" IO.printf(\"\x7b\x7d-\x7b\x7d\", \"é\")"

/-- The field that a statement uses, if that is what it does. -/
def Form.access? : Form → Option Access
  | .access used => some used
  | _ => none

theorem Form.eq_of_access? {form : Form} {access : Access} (h : form.access? = some access) :
    form = .access access := by
  cases form with
  | access found => exact congrArg Form.access (Option.some.inj h)
  | _ => cases h

theorem pipeline_in_range_at_printf :
    ∃ m access function, Moment.ofText? shortageText {} 1 = some m ∧
      m.statement.form = .access access ∧ m.after.console.output = #["é-\x7b\x7d"] ∧
      m.state.run (Exec.fieldByNumber (callWithin m.levels) access) =
        m.state.run (some <$> Exec.field (callWithin m.levels) access) ∧
      Library.Terminal.module.export? "printf" = some (.function function) ∧
      Library.byNumber "IO" function ⟨"printf", access.args.getD [], {}⟩ =
        some <$> function.body ⟨"printf", access.args.getD [], {}⟩ := by
  have hrun : (Moment.ofText? shortageText {} 1).any (fun m =>
      m.statement.form.access?.any fun access => decide
        (m.after.console.output = #["é-\x7b\x7d"] ∧ (access.args.getD []).length = 2)) = true := by
    decide +kernel
  obtain ⟨m, hm, hrun⟩ := (Option.any_eq_true _ _).mp hrun
  obtain ⟨access, haccess, hfacts⟩ := (Option.any_eq_true _ _).mp hrun
  obtain ⟨hwritten, htwo⟩ := of_decide_eq_true hfacts
  obtain ⟨-, -, -, -, hlibrary, hruns⟩ := pipeline_in_range
  have hexport : Library.Terminal.module.export? "printf" =
      some (.function
        { name := "printf", arity := .atLeast 2, body := Library.Terminal.printf }) := rfl
  have haccepts : (Arity.atLeast 2).accepts (access.args.getD []).length = true := by
    rw [htwo]
    rfl
  exact ⟨m, access, _, hm, Form.eq_of_access? haccess, hwritten,
    hruns m.state (.before (Moment.live_of_ofText? hm)) m.state rfl _ access, hexport,
    hlibrary _ (List.mem_cons_self ..) "printf" _ hexport ⟨"printf", access.args.getD [], {}⟩
      haccepts⟩

end Scripting
