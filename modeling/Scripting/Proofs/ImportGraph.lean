import Mathlib.Data.Set.Finite.Lattice
import Scripting.Proofs.Loading
import Scripting.Proofs.Unwinding

/-!
# The graph of imports

A text imports the files that it names behind the word `import`, wherever this stands in it. Since
the names are looked up next to the importing file, it depends on the way to a file where the names
in it lead. So the graph is given by its walks (`FileTree.Chain`): each step goes from a text,
together with the directory in which its imports are looked up, to a file and the path by which it
was reached.

The loader knows nothing of this graph but the places that are in progress. It is shown that they
tell all there is to know: a text loads only if no walk from it comes to a file twice, and an import
is refused as circular only where such a walk ends.
-/

namespace Scripting

/-! ## Imports of a program that was read -/

namespace Program.Grammar

variable {resolve : Resolver} {token : Token} {tokens more : List Token}

/-- The resolver knows what is written in the token, here or elsewhere. -/
def Known (resolve : Resolver) (target : Token) : Prop :=
  ∃ found form, found.lexeme = target.lexeme ∧ resolve found = .ok form

/-- Behind each word `import` there is something that the resolver knows. -/
def Answered (resolve : Resolver) : List Token → Prop
  | [] => True
  | token :: rest =>
    (token.keyword? = some .imports → ∃ target ∈ rest.head?, Known resolve target) ∧
      Answered resolve rest

/-- None of the tokens is the word `import`. -/
def Importless (tokens : List Token) : Prop :=
  ∀ token ∈ tokens, token.keyword? ≠ some .imports

theorem answered_cons (h : token.keyword? ≠ some .imports) (htokens : Answered resolve tokens) :
    Answered resolve (token :: tokens) :=
  ⟨fun himports => absurd himports h, htokens⟩

theorem Importless.answered (h : Importless tokens) : Answered resolve tokens := by
  induction tokens with
  | nil => trivial
  | cons token tokens ih =>
    obtain ⟨htoken, htokens⟩ := List.forall_mem_cons.mp h
    exact answered_cons htoken (ih htokens)

theorem Answered.append (h : Answered resolve tokens) (hmore : Answered resolve more) :
    Answered resolve (tokens ++ more) := by
  induction tokens with
  | nil => exact hmore
  | cons token tokens ih =>
    refine ⟨fun himports => ?_, ih h.2⟩
    obtain ⟨target, htarget, hknown⟩ := h.1 himports
    exact ⟨target, List.mem_head?_append_of_mem_head? htarget, hknown⟩

theorem Answered.of_inBody {name : String} (h : Answered resolve (tokens.map (Token.inBody name))) :
    Answered resolve tokens := by
  induction tokens with
  | nil => trivial
  | cons token tokens ih =>
    refine ⟨fun himports => ?_, ih h.2⟩
    obtain ⟨target, htarget, hknown⟩ := h.1 himports
    rw [List.head?_map] at htarget
    obtain ⟨target, hhead, rfl⟩ := Option.map_eq_some_iff.mp htarget
    exact ⟨target, hhead, hknown⟩

/-- What the tokens import is known. -/
theorem Answered.known (h : Answered resolve tokens) {target : Token}
    (htarget : Token.Imports tokens target) : Known resolve target := by
  obtain ⟨keyword, string, ⟨before, after, hsplit⟩, hkeyword, -, hlexeme, -⟩ := htarget
  subst hsplit
  induction before with
  | nil =>
    obtain ⟨_, hhead, found, form, hfound, hform⟩ := h.1 hkeyword
    cases hhead
    exact ⟨found, form, hfound.trans hlexeme.symm, hform⟩
  | cons token before ih => exact ih h.2

/-! ## Phrases without imports -/

theorem ne_imports_of_isName (h : token.isName) : token.keyword? ≠ some .imports := by
  simp [(Token.isName_iff.mp h).2]

theorem ne_imports_of_kind {kind : TokenKind} (h : token.kind = kind) (hne : kind ≠ .identifier) :
    token.keyword? ≠ some .imports :=
  fun himports => hne (h ▸ Token.kind_of_keyword? himports)

theorem ne_imports_of_isLiteral (h : token.kind.isLiteral) : token.keyword? ≠ some .imports := by
  refine ne_imports_of_kind rfl fun hkind => ?_
  rw [hkind] at h
  cases h

theorem ne_imports_of_keyword? {keyword : Keyword} (h : token.keyword? = some keyword)
    (hne : keyword ≠ .imports) : token.keyword? ≠ some .imports := by
  rw [h]
  exact fun himports => hne (Option.some.inj himports)

theorem ne_imports_of_ofName? {type : ValueType} (h : ValueType.ofName? token.lexeme = some type) :
    token.keyword? ≠ some .imports := by
  unfold ValueType.ofName? at h
  split at h <;> simp_all [Token.keyword?, Keyword.ofText?]

theorem importless_cons : Importless (token :: tokens) ↔
    token.keyword? ≠ some .imports ∧ Importless tokens :=
  List.forall_mem_cons

theorem importless_listed {α : Type} {Item : List Token → α → Prop} {items : List α}
    (hitem : ∀ tokens item, Item tokens item → Importless tokens) (h : Listed Item tokens items) :
    Importless tokens := by
  cases h with
  | none hclose => simpa [Importless] using ne_imports_of_kind hclose (by decide)
  | some hitems =>
    induction hitems with
    | last h hclose =>
      exact List.forall_mem_append.mpr
        ⟨hitem _ _ h, by simpa using ne_imports_of_kind hclose (by decide)⟩
    | more h hcomma _ ih =>
      exact List.forall_mem_append.mpr
        ⟨hitem _ _ h, importless_cons.mpr ⟨ne_imports_of_kind hcomma (by decide), ih⟩⟩

theorem importless_arguments {args : List Token} (h : Listed Argument tokens args) :
    Importless tokens := by
  refine importless_listed (fun tokens token h => ?_) h
  cases h with
  | literal hkind => simpa [Importless] using ne_imports_of_isLiteral hkind
  | name hname => simpa [Importless] using ne_imports_of_isName hname

theorem importless_parameters {params : List Param} (h : Listed Parameter tokens params) :
    Importless tokens := by
  refine importless_listed (fun tokens param h => ?_) h
  cases h with
  | plain hname => simpa [Importless] using ne_imports_of_isName hname
  | typed hname hcolon htype =>
    simp only [importless_cons]
    exact ⟨ne_imports_of_isName hname, ne_imports_of_kind hcolon (by decide),
      ne_imports_of_ofName? htype, by simp [Importless]⟩

theorem importless_call {call : Call} (h : CallPhrase tokens call) : Importless tokens := by
  cases h with
  | mk hname hopening hargs =>
    simp only [importless_cons]
    exact ⟨ne_imports_of_isName hname, ne_imports_of_kind hopening (by decide),
      importless_arguments hargs⟩

theorem importless_access {access : Access} (h : AccessPhrase tokens access) :
    Importless tokens := by
  cases h with
  | field hname hdot hfield =>
    simp only [importless_cons]
    exact ⟨ne_imports_of_isName hname, ne_imports_of_kind hdot (by decide),
      ne_imports_of_isName hfield, by simp [Importless]⟩
  | call hname hdot hfield hopening hargs =>
    simp only [importless_cons]
    exact ⟨ne_imports_of_isName hname, ne_imports_of_kind hdot (by decide),
      ne_imports_of_isName hfield, ne_imports_of_kind hopening (by decide),
      importless_arguments hargs⟩

theorem importless_value {value : Expr} (h : ValuePhrase tokens value) : Importless tokens := by
  cases h with
  | literal hkind => simpa [Importless] using ne_imports_of_isLiteral hkind
  | reference hname => simpa [Importless] using ne_imports_of_isName hname
  | call h => exact importless_call h
  | access h => exact importless_access h

/-! ## All phrases -/

theorem answered_import {exported : Bool} {st : Statement} (h : Import resolve exported tokens st) :
    Answered resolve tokens := by
  cases h with
  | mk hkeyword htarget hform =>
    exact ⟨fun _ => ⟨_, rfl, _, _, rfl, hform⟩,
      answered_cons (ne_imports_of_kind htarget (by decide)) trivial⟩

theorem Phrase.answered {F : Bool → List Token → Statement → Prop}
    (hfunction : ∀ exported tokens st, F exported tokens st → Answered resolve tokens)
    {st : Statement} (h : Phrase resolve F tokens st) : Answered resolve tokens := by
  cases h with
  | imports h => exact answered_import h
  | exportsImport hexporter h =>
    exact answered_cons (ne_imports_of_keyword? hexporter (by decide)) (answered_import h)
  | function h => exact hfunction _ _ _ h
  | exportsFunction hexporter h =>
    exact answered_cons (ne_imports_of_keyword? hexporter (by decide)) (hfunction _ _ _ h)
  | declare hkeyword hname hequal hvalue =>
    exact answered_cons (ne_imports_of_keyword? hkeyword (by decide))
      (answered_cons (ne_imports_of_isName hname)
      (answered_cons (ne_imports_of_kind hequal (by decide)) (importless_value hvalue).answered))
  | returns hkeyword _ hvalue =>
    exact answered_cons (ne_imports_of_keyword? hkeyword (by decide))
      (importless_value hvalue).answered
  | call h => exact (importless_call h).answered
  | access h => exact (importless_access h).answered
  | assign hname hequal hvalue =>
    exact answered_cons (ne_imports_of_isName hname)
      (answered_cons (ne_imports_of_kind hequal (by decide)) (importless_value hvalue).answered)
  | assignField hname hdot hfield hequal hvalue =>
    exact answered_cons (ne_imports_of_isName hname)
      (answered_cons (ne_imports_of_kind hdot (by decide))
      (answered_cons (ne_imports_of_isName hfield)
      (answered_cons (ne_imports_of_kind hequal (by decide)) (importless_value hvalue).answered)))

theorem Sequence.answered {One : List Token → Statement → Prop}
    (hone : ∀ tokens st, One tokens st → Answered resolve tokens) {statements : List Statement}
    (h : Sequence One tokens statements) : Answered resolve tokens := by
  induction h with
  | nil => trivial
  | cons hfirst _ ih => exact (hone _ _ hfirst).append ih

theorem Function.answered {file : Option SourceFile} {exported : Bool} {st : Statement}
    (h : Function resolve file exported tokens st) : Answered resolve tokens := by
  cases h with
  | mk hkeyword _ hname hopening hparams _ hbrace hbody hclose =>
    have hinner := (hbody.answered fun _ _ h => h.answered fun _ _ _ h => h.elim).of_inBody
    exact answered_cons (ne_imports_of_keyword? hkeyword (by decide))
      (answered_cons (ne_imports_of_isName hname)
      (answered_cons (ne_imports_of_kind hopening (by decide))
      ((importless_parameters hparams).answered.append
      (answered_cons (ne_imports_of_kind hbrace (by decide))
      (hinner.append (answered_cons (ne_imports_of_kind hclose (by decide)) trivial))))))

theorem answered_of_sentences {file : Option SourceFile} {statements : List Statement}
    (h : Sentences resolve file tokens statements) : Answered resolve tokens :=
  h.answered fun _ _ h => h.answered fun _ _ _ h => h.answered

end Program.Grammar

/-! ## Nested readings -/

namespace Reading

/-- Reading a text leads to another reading by way of the files at the places, the last one first.
-/
inductive Within (outer : Reading) : List Place → Reading → Prop
  | here : Within outer [] outer
  | deeper {places : List Place} {place : Place} {middle inner : Reading}
      (hmiddle : Within outer places middle) (hopens : middle.Opens place inner) :
      Within outer (place :: places) inner

variable {outer inner : Reading} {places : List Place}

theorem Within.inProgress_eq (h : outer.Within places inner) :
    inner.loader.inProgress = places ++ outer.loader.inProgress := by
  induction h with
  | here => rfl
  | @deeper _ place _ _ _ hopens ih =>
    cases hopens with
    | mk => exact congrArg (place :: ·) ih

/-- The places in progress are pairwise distinct. -/
theorem Within.nodup (h : outer.Within places inner) (hstart : outer.loader.inProgress.Nodup) :
    inner.loader.inProgress.Nodup := by
  induction h with
  | here => exact hstart
  | deeper _ hopens ih =>
    cases hopens with
    | mk _ _ hopens => exact hopens.nodup ih

theorem Within.length_add_remaining_le (h : outer.Within places inner) :
    places.length + inner.loader.remaining ≤ outer.loader.remaining := by
  induction h with
  | here => exact (Nat.zero_add _).le
  | deeper _ hopens ih =>
    have hlt := hopens.remaining_lt
    rw [List.length_cons]
    omega

theorem Within.length_le (h : outer.Within places inner) :
    places.length ≤ outer.loader.files.entries.length := by
  have hremaining : outer.loader.remaining ≤ outer.loader.files.entries.length :=
    List.countP_le_length.trans_eq (List.length_map _)
  exact (Nat.le_of_add_right_le h.length_add_remaining_le).trans hremaining

theorem Within.first {middle : Reading} {place : Place} (h : middle.Within places inner)
    (hopens : outer.Opens place middle) : outer.Within (places ++ [place]) inner := by
  induction h with
  | here => exact .deeper .here hopens
  | deeper _ hinner ih => exact ih.deeper hinner

/-- The first step of the way to a reading, if there is one. -/
theorem Within.cases_first (h : outer.Within places inner) :
    inner = outer ∨ ∃ place middle rest, outer.Opens place middle ∧ middle.Within rest inner := by
  induction h with
  | here => exact .inl rfl
  | deeper _ hopens ih =>
    rcases ih with rfl | ⟨first, middle, rest, hfirst, hrest⟩
    · exact .inr ⟨_, _, [], hopens, .here⟩
    · exact .inr ⟨first, middle, _, hfirst, hrest.deeper hopens⟩

/-- The reading that the import of a name leads to, if it leads to one. -/
def opened (outer : Reading) (name : String) : Reading :=
  let place := (outer.loader.fileAt? name).getD []
  let source := (outer.loader.files.read place).toOption.getD ""
  ⟨outer.loader.forImport { path := outer.loader.path name, source } place, source⟩

theorem finite_opens (outer : Reading) : {inner | ∃ place, outer.Opens place inner}.Finite := by
  cases hscan : Token.scan outer.source with
  | error e =>
    refine Set.finite_empty.subset ?_
    rintro inner ⟨place, ⟨htokens, -, -⟩⟩
    rw [hscan] at htokens
    cases htokens
  | ok tokens =>
    refine ((tokens.map Token.lexeme).finite_toSet.image outer.opened).subset ?_
    rintro inner ⟨place, hopens⟩
    cases hopens with
    | @mk _ target file htokens htarget hopens =>
      cases hscan.symm.trans htokens
      obtain ⟨keyword, found, hpair, -, -, hlexeme, -⟩ := htarget
      have hmem : found ∈ tokens := hpair.subset (by simp)
      refine ⟨target.lexeme, List.mem_map.mpr ⟨found, hmem, hlexeme.symm⟩, ?_⟩
      obtain ⟨path, source⟩ := file
      have hpath : path = outer.loader.path target.lexeme := hopens.path
      simp [opened, hopens.found, hopens.read, hpath, Except.toOption]

theorem finite_within (outer : Reading) : {inner | ∃ places, outer.Within places inner}.Finite := by
  induction outer using wellFounded_opens.induction with
  | _ outer ih =>
    have hbelow := outer.finite_opens.biUnion fun middle hmiddle => ih middle hmiddle
    refine ((Set.finite_singleton outer).union hbelow).subset ?_
    rintro inner ⟨places, h⟩
    rcases h.cases_first with rfl | ⟨place, middle, rest, hopens, hrest⟩
    · exact .inl rfl
    · exact .inr (Set.mem_biUnion (show middle ∈ {inner | _} from ⟨place, hopens⟩) ⟨rest, hrest⟩)

end Reading

/-! ## Walks through the graph -/

/-- A file as an import comes to it: the name that is written, the path by which the file is looked
up, and its place. -/
structure Visit where
  name : String
  path : String
  place : Place

namespace FileTree

/-- The text imports the file, where `base` is the directory in which its imports are looked up. -/
structure Imports (tree : FileTree) (base source : String) (visit : Visit) : Prop where
  written : ∃ tokens target, Token.scan source = .ok tokens ∧ Token.Imports tokens target ∧
    target.lexeme = visit.name
  named : visit.name.endsWith fileSuffix
  path : visit.path = Path.join base visit.name
  found : tree.fileAt? visit.path = some visit.place

/-- The files follow one another: the first one is imported by the text, and each of the others by
the one before. -/
inductive Chain (tree : FileTree) : String → String → List Visit → Prop
  | single {base source : String} {visit : Visit} (himports : tree.Imports base source visit) :
      Chain tree base source [visit]
  | cons {base source text : String} {visit : Visit} {rest : List Visit}
      (himports : tree.Imports base source visit) (hread : tree.read visit.place = .ok text)
      (hrest : Chain tree (Path.directory visit.path) text rest) :
      Chain tree base source (visit :: rest)

end FileTree

namespace Loader

variable {loader : Loader} {source : String}

theorem fileAt?_of_imports {visit : Visit} (h : loader.files.Imports loader.base source visit) :
    loader.fileAt? visit.name = some visit.place := by
  rw [fileAt?, if_pos h.named, path, ← h.path]
  exact h.found

theorem imports_of_fileAt? {tokens : List Token} {target : Token} {place : Place}
    (hscan : Token.scan source = .ok tokens) (htarget : Token.Imports tokens target)
    (hfound : loader.fileAt? target.lexeme = some place) :
    loader.files.Imports loader.base source
      { name := target.lexeme, path := loader.path target.lexeme, place } := by
  unfold fileAt? at hfound
  split at hfound
  · next hnamed => exact ⟨⟨tokens, target, hscan, htarget, rfl⟩, hnamed, rfl, hfound⟩
  · cases hfound

/-- A text loads only if all files that it imports are opened and load themselves. -/
theorem opens_of_imports {program : Program} (hload : loader.ofSource source = .ok program)
    {visit : Visit} (h : loader.files.Imports loader.base source visit) :
    ∃ file inner, loader.Opens visit.name file visit.place ∧ file.path = visit.path ∧
      (loader.forImport file visit.place).ofSource file.source = .ok inner := by
  obtain ⟨tokens, target, hscan, htarget, hname⟩ := h.written
  obtain ⟨_, hscan', hprogram⟩ := exists_of_bind_eq_ok hload
  cases hscan.symm.trans hscan'
  obtain ⟨statements, -, hsentences⟩ := Program.ofTokens_eq_ok_iff.mp hprogram
  obtain ⟨found, form, hfound, hform⟩ :=
    (Program.Grammar.answered_of_sentences hsentences).known htarget
  have hplace := fileAt?_of_imports h
  have hresolved := loader.resolved_resolve found
  rw [hform] at hresolved
  rw [← hname, ← hfound] at hplace
  cases hresolved with
  | module _ hnone =>
    rw [hnone] at hplace
    cases hplace
  | @file file _ inner hopens hinner _ =>
    cases hplace.symm.trans hopens.found
    rw [hfound, hname] at hopens
    exact ⟨file, inner, hopens, by rw [hopens.path, path, h.path], hinner⟩

/-- If a text loads, then no walk comes to a file that is in progress, nor to any file twice. The
induction is along the walk, with one more place in progress at each step. -/
theorem nodup_of_chain (hstart : loader.inProgress.Nodup) {program : Program}
    (hload : loader.ofSource source = .ok program) {visits : List Visit}
    (h : loader.files.Chain loader.base source visits) :
    (loader.inProgress.reverse ++ visits.map Visit.place).Nodup := by
  generalize htree : loader.files = tree, hbase : loader.base = base at h
  induction h generalizing loader program with
  | @single _ _ visit himports =>
    subst htree hbase
    obtain ⟨file, inner, hopens, -, -⟩ := opens_of_imports hload himports
    simpa [forImport] using List.nodup_reverse.mpr (hopens.nodup hstart)
  | @cons _ _ _ visit rest himports hread _ ih =>
    subst htree hbase
    obtain ⟨file, inner, hopens, hpath, hinner⟩ := opens_of_imports hload himports
    cases hread.symm.trans hopens.read
    simpa [forImport] using
      ih (hopens.nodup hstart) hinner rfl (congrArg Path.directory hpath)

/-- The walk ends at a file that is in progress already, or that the walk has come to before. Up to
there, the walk is one of nested imports. -/
structure Closes (loader : Loader) (source : String) (visits : List Visit) (last : Visit) :
    Prop where
  chain : loader.files.Chain loader.base source (visits ++ [last])
  again : last.place ∈ loader.inProgress.reverse ++ visits.map Visit.place
  nodup : (loader.inProgress.reverse ++ visits.map Visit.place).Nodup

/-- A walk from a file that the text opens is a walk from the text. -/
theorem Closes.of_forImport {tokens : List Token} {target : Token} {file : SourceFile}
    {place : Place} {visits : List Visit} {last : Visit} (hscan : Token.scan source = .ok tokens)
    (htarget : Token.Imports tokens target) (hopens : loader.Opens target.lexeme file place)
    (h : (loader.forImport file place).Closes file.source visits last) :
    loader.Closes source ({ name := target.lexeme, path := file.path, place } :: visits) last where
  chain := by
    refine .cons ?_ hopens.read h.chain
    rw [hopens.path]
    exact imports_of_fileAt? hscan htarget hopens.found
  again := by simpa [forImport, or_assoc] using h.again
  nodup := by simpa [forImport] using h.nodup

/-- An import is refused as circular only where a walk closes, and the error belongs to the file in
which the import is written. The induction is on the files that are not in progress. -/
theorem closes_of_circular (hstart : loader.inProgress.Nodup) {e : Error} {name : String}
    (hload : loader.ofSource source = .error e) (hcause : e.cause = .circularImport name) :
    ∃ visits last, loader.Closes source visits last ∧ last.name = name ∧
      e.file = visits.getLast?.map Visit.path := by
  induction hn : loader.remaining using Nat.strongRecOn generalizing loader source e with
  | ind n ih =>
    unfold ofSource at hload
    cases hscan : Token.scan source with
    | error lexical =>
      rw [hscan] at hload
      cases hload
      have hlexical := Token.isLexical_of_scanFrom hscan
      rw [hcause] at hlexical
      exact hlexical.elim
    | ok tokens =>
      rw [hscan] at hload
      cases Program.refusal_of_ofTokens hload with
      | syntactic _ hsyntactic =>
        cases hcause
        exact hsyntactic.elim
      | @unresolved target _ htarget herror =>
        have hresolved := loader.resolved_resolve target
        rw [herror] at hresolved
        cases hresolved with
        | ambiguous | missing | unreadable | empty => cases hcause
        | @circular place hfound hplace =>
          cases hcause
          refine ⟨[], { name := target.lexeme, path := loader.path target.lexeme, place }, ?_, rfl,
            rfl⟩
          exact ⟨.single (imports_of_fileAt? hscan htarget hfound), by simpa using hplace,
            by simpa using hstart⟩
        | @refused file place inner hopens hinner =>
          have hcause' : inner.cause = .circularImport name :=
            (inner.claimedBy_cause (some file)).1.symm.trans hcause
          obtain ⟨visits, last, hcloses, hname, hfile⟩ :=
            ih _ (hn ▸ hopens.remaining_lt) (hopens.nodup hstart) hinner hcause' rfl
          refine ⟨_, last, hcloses.of_forImport hscan htarget hopens, hname, ?_⟩
          rw [Error.file_inFile, hfile, List.getLast?_cons]
          cases visits.getLast? <;> rfl

/-! ## Cycles are refused -/

/-- Circular imports are detected exactly. The text that is read may have a place of its own,
`entry`, or none.

* Reading ends: the recursion through the imported files has one solution. It asks for nothing but
  what the imports of a text open, and this does not go on forever. Reading a text leads to finitely
  many other readings.
* At each of them, the places in progress are those on the way to it. They are pairwise distinct,
  and so there are no more of them than files.
* If a text loads, then no walk through the graph of imports that starts at it comes to a place
  twice.
* If an import is refused as circular, then there is a walk that comes to a place twice just there.
  Its steps up to the import are pairwise distinct, and the last of them is the file of the error.
  -/
theorem cycles_refused {entry : Option Place} (hentry : loader.inProgress = entry.toList)
    (source : String) :
    (∀ read : Reading → Except Error Program,
      (∀ reading, read reading = readBy read reading) ↔ ∀ reading, read reading = load reading) ∧
    (∀ (read other : Reading → Except Error Program) (outer : Reading),
      (∀ place inner, outer.Opens place inner → read inner = other inner) →
        readBy read outer = readBy other outer) ∧
    WellFounded (fun inner outer : Reading => ∃ place, outer.Opens place inner) ∧
    {inner | ∃ places, Reading.Within ⟨loader, source⟩ places inner}.Finite ∧
    (∀ places inner, Reading.Within ⟨loader, source⟩ places inner →
      inner.loader.inProgress = places ++ entry.toList ∧ (places ++ entry.toList).Nodup ∧
        places.length ≤ loader.files.entries.length) ∧
    (∀ program, loader.ofSource source = .ok program →
      ∀ visits, loader.files.Chain loader.base source visits →
        (entry.toList ++ visits.map Visit.place).Nodup) ∧
    ∀ e name, loader.ofSource source = .error e → e.cause = .circularImport name →
      ∃ visits last, loader.files.Chain loader.base source (visits ++ [last]) ∧ last.name = name ∧
        last.place ∈ entry.toList ++ visits.map Visit.place ∧
        (entry.toList ++ visits.map Visit.place).Nodup ∧
        e.file = visits.getLast?.map Visit.path := by
  have hstart : loader.inProgress.Nodup := by
    rw [hentry]
    cases entry <;> simp
  have hreverse : loader.inProgress.reverse = entry.toList := by
    rw [hentry]
    cases entry <;> rfl
  refine ⟨fun _ => Reading.eq_load_iff, fun _ _ _ => Reading.readBy_congr,
    Reading.wellFounded_opens, Reading.finite_within _, fun places inner h => ?_,
    fun program hload visits h => ?_, fun e name hload hcause => ?_⟩
  · have hplaces := h.inProgress_eq
    rw [hentry] at hplaces
    exact ⟨hplaces, hplaces ▸ h.nodup hstart, h.length_le⟩
  · exact hreverse ▸ nodup_of_chain hstart hload h
  · obtain ⟨visits, last, hcloses, hname, hfile⟩ := closes_of_circular hstart hload hcause
    exact ⟨visits, last, hcloses.chain, hname, hreverse ▸ hcloses.again, hreverse ▸ hcloses.nodup,
      hfile⟩

/-- A script with two imports. -/
def diamondText : String := "import 'lib/a.mrk' import 'lib/b.mrk'"

/-- The two files that the script imports both import a third one. -/
def diamondTree : FileTree where
  entries :=
    [(["main.mrk"], .text diamondText),
      (["lib", "a.mrk"], .text "export import 'c.mrk'"),
      (["lib", "b.mrk"], .text "export import '../lib/c.mrk'"),
      (["lib", "c.mrk"], .text "export function f() \x7b \x7d")]

/-- A script with one import. -/
def loopText : String := "import 'lib/a.mrk'"

/-- The file that the script imports has a function that imports the script. -/
def loopTree : FileTree where
  entries :=
    [(["main.mrk"], .text loopText),
      (["lib", "a.mrk"], .text "export function f() \x7b import '../main.mrk' \x7d")]

/-- The loader for the script of a tree. -/
def ofTree (tree : FileTree) : Loader :=
  forScript { registry := Library.standard, files := tree } "main.mrk"

/-- A diamond loads, and so it has no cycle. A loop is refused in the file that closes it. -/
theorem cycles_refused_diamond :
    (∀ visits, diamondTree.Chain "" diamondText visits →
      (["main.mrk"] :: visits.map Visit.place).Nodup) ∧
    ∃ e visits last, (ofTree loopTree).ofSource loopText = .error e ∧
      loopTree.Chain "" loopText (visits ++ [last]) ∧ last.name = "../main.mrk" ∧
      last.place ∈ ["main.mrk"] :: visits.map Visit.place ∧
      visits.getLast?.map Visit.path = some "lib/a.mrk" := by
  have hdiamond : (ofTree diamondTree).inProgress = (some ["main.mrk"]).toList := by decide +kernel
  have hloop : (ofTree loopTree).inProgress = (some ["main.mrk"]).toList := by decide +kernel
  have hloads : ((ofTree diamondTree).ofSource diamondText).isOk := by decide +kernel
  have hfails : (((ofTree loopTree).ofSource loopText >>= fun _ => pure ()).mapError
      fun e => (e.cause, e.file)) = .error (.circularImport "../main.mrk", some "lib/a.mrk") := by
    decide +kernel
  obtain ⟨program, hprogram⟩ := exists_of_isOk hloads
  obtain ⟨-, -, -, -, -, hchains, -⟩ := cycles_refused hdiamond diamondText
  obtain ⟨e, hbind, hfacts⟩ := exists_of_mapError_eq_error hfails
  obtain ⟨hcause, hfile⟩ := Prod.mk.inj hfacts
  have herror := eq_error_of_bind_pure hbind
  obtain ⟨-, -, -, -, -, -, hcircular⟩ := cycles_refused hloop loopText
  obtain ⟨visits, last, hchain, hname, hagain, -, hlast⟩ := hcircular e _ herror hcause
  exact ⟨fun visits hvisits => hchains program hprogram visits hvisits,
    e, visits, last, herror, hchain, hname, hagain, hlast.symm.trans hfile⟩

end Loader

end Scripting
