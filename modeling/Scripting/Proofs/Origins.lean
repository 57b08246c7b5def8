import Mathlib.Data.Nat.Pairing
import Scripting.Proofs.Chunks

/-!
# Where places come from

Each place that a session of chunks leaves behind, in a record or in an error, comes from one of the
chunks or from a file that they import. Two chunks may well have tokens at the same place, so that a
place does not tell which chunk it comes from. What tells it is how the place moves when the chunks are
moved: if each chunk is put behind some other text, then a place moves by what stands before the chunk
that it comes from, and by nothing else.

That there is such an origin for each place is seen from a session in which the tokens of each chunk
are tagged with its index. Since nothing in a run depends on places, the tagged session does what the
session does, for whatever text the chunks are put behind.
-/

namespace Scripting

open Program.Grammar (Consistent)

/-- Where a place comes from: from the chunk with the index, or from an imported file. -/
inductive Origin where
  | chunk (index : Nat)
  | file

namespace Origin

/-- The text that a place comes from has a token there. -/
def Has (files : FileTree) (texts : List String) : Origin → Span → Prop
  | .chunk index, span => ∃ text, texts[index]? = some text ∧ span.PlaceIn text
  | .file, span => ∃ path source, files.readPath path = .ok source ∧ span.PlaceIn source

/-- The same place when each chunk stands behind other text. Files stay where they are. -/
def move (parts : List (Displacement × String)) : Origin → Span → Span
  | .chunk index, span => span.move ((parts[index]?.map Prod.fst).getD {})
  | .file, span => span

/-! ## Tags -/

/-- The place with a tag from which its origin can be told. No token of a text is in line zero. -/
def tag : Origin → Span → Span
  | .chunk index, span =>
    { start := Nat.pair index span.start
      stop := Nat.pair span.stop span.line
      line := 0
      column := span.column }
  | .file, span => span

/-- The origin of a tagged place. -/
def ofTag (span : Span) : Origin :=
  if span.line = 0 then .chunk span.start.unpair.1 else .file

/-- A tagged place without its tag. -/
def untag (span : Span) : Span :=
  if span.line = 0 then
    { start := span.start.unpair.2
      stop := span.stop.unpair.1
      line := span.stop.unpair.2
      column := span.column }
  else span

end Origin

/-- The tokens of a text stand in lines from one on. -/
theorem Span.PlaceIn.line_ne_zero {text : String} {span : Span} (h : span.PlaceIn text) :
    span.line ≠ 0 := by
  obtain ⟨tokens, hscan, token, htoken, rfl⟩ := h
  -- the text is scanned as if it stood one line below a line zero
  have hmoved := Token.scanFrom_move { line := 0 } { lines := 1 } text.toList
  rw [show ({ line := 0 } : Position).move { lines := 1 } = {} from rfl,
    show Token.scanFrom {} text.toList = .ok tokens from hscan] at hmoved
  cases hzero : Token.scanFrom { line := 0 } text.toList with
  | error e =>
    rw [hzero] at hmoved
    cases hmoved
  | ok others =>
    rw [hzero] at hmoved
    cases hmoved
    obtain ⟨other, -, rfl⟩ := List.mem_map.mp htoken
    exact Nat.succ_ne_zero _

namespace Origin

variable {files : FileTree} {texts : List String} {origin : Origin} {span : Span}

theorem ofTag_tag (h : origin.Has files texts span) : ofTag (origin.tag span) = origin := by
  cases origin with
  | chunk index => simp only [ofTag, tag, if_true, Nat.unpair_pair]
  | file =>
    obtain ⟨_, _, -, hplace⟩ := h
    exact if_neg hplace.line_ne_zero

theorem untag_tag (h : origin.Has files texts span) : untag (origin.tag span) = span := by
  cases origin with
  | chunk index => simp only [untag, tag, if_true, Nat.unpair_pair]
  | file =>
    obtain ⟨_, _, -, hplace⟩ := h
    exact if_neg hplace.line_ne_zero

end Origin

/-! ## Moved sessions -/

/-- A place of the given origin corresponds to the same place when the chunks stand behind other text.
All modules may be imported. -/
def Correspondence.movedFrom (files : FileTree) (parts : List (Displacement × String))
    (origin : Origin) : Correspondence where
  span span moved := origin.Has files (parts.map Prod.snd) span ∧ moved = origin.move parts span
  module _ := True

/-- Where the places come from that a session leaves behind: those of its records, the latest first,
and that of its error. -/
structure Origins where
  records : List Origin
  error : Origin

/-- How a session ends in which the chunks stand behind other text, compared with the session `x` of
the chunks on their own: both fail for the same reason or none does, the states are the same but for
places, and the place of each record and of the error has moved by what stands before the chunk that it
comes from. -/
structure Moved (files : FileTree) (parts : List (Displacement × String)) (origins : Origins)
    (x y : Except Error Unit × State) : Prop where
  outcome : Outcome.Alike (.movedFrom files parts origins.error) Eq x.1 y.1
  vars : x.2.vars = y.2.vars
  imports : x.2.imports = y.2.imports
  cells : x.2.cells = y.2.cells
  functions : List.Forall₂ (Declaration.Alike .anywhere) x.2.functions y.2.functions
  console : x.2.console = y.2.console
  length : origins.records.length = x.2.log.latestFirst.length
  log : List.Forall₂ (fun old new => Record.Alike (.movedFrom files parts old.1) old.2 new)
    (origins.records.zip x.2.log.latestFirst) y.2.log.latestFirst

/-! ## Sessions with tags -/

/-- Tagged places correspond to those without a tag, of chunks that stand behind other text, and
modules are blind. -/
def Correspondence.tagged (files : FileTree) (parts : List (Displacement × String)) :
    Correspondence where
  span tagged span := ∃ origin place, tagged = origin.tag place ∧
    (Correspondence.movedFrom files parts origin).span place span
  module := Module.Blind

theorem Loader.consistent_tagged {loader : Loader} (hblind : loader.registry.Blind)
    (parts : List (Displacement × String)) :
    Consistent (.tagged loader.files parts) loader.resolve :=
  loader.consistent_resolve hblind fun path source span hread hplace =>
    ⟨.file, span, rfl, ⟨path, source, hread, hplace⟩, rfl⟩

/-- The origins that the tags of a session tell. -/
def Origins.ofTags (run : Except Error Unit × State) : Origins where
  records := run.2.log.latestFirst.map fun record => .ofTag record.span
  error :=
    match run.1 with
    | .error e => (e.span.map Origin.ofTag).getD .file
    | .ok _ => .file

section Tags

variable {files : FileTree} {texts : List String} {parts : List (Displacement × String)}

theorem Origin.move_zero (texts : List String) (origin : Origin) (span : Span) :
    origin.move (texts.map ({}, ·)) span = span := by
  cases origin with
  | file => rfl
  | chunk index =>
    rw [move, List.getElem?_map]
    cases texts[index]? <;> rfl

/-- A tagged place tells how the place without the tag moves. -/
theorem Correspondence.movedFrom_of_tagged {tagged span moved : Span}
    (h : (Correspondence.tagged files (texts.map ({}, ·))).span tagged span)
    (hmoved : (Correspondence.tagged files parts).span tagged moved) :
    (Correspondence.movedFrom files parts (.ofTag tagged)).span span moved := by
  obtain ⟨origin, place, rfl, hhas, rfl⟩ := h
  obtain ⟨origin', place', htag, hhas', rfl⟩ := hmoved
  have horigin : origin = origin' := by
    rw [← Origin.ofTag_tag hhas, htag, Origin.ofTag_tag hhas']
  have hplace : place = place' := by
    rw [← Origin.untag_tag hhas, htag, Origin.untag_tag hhas']
  subst horigin hplace
  rw [Origin.move_zero, Origin.ofTag_tag hhas]
  exact ⟨hhas', rfl⟩

theorem Origins.log_of_tagged {tagged records moved : List Record}
    (h : List.Forall₂ (Record.Alike (.tagged files (texts.map ({}, ·)))) tagged records)
    (hmoved : List.Forall₂ (Record.Alike (.tagged files parts)) tagged moved) :
    List.Forall₂ (fun old new => Record.Alike (.movedFrom files parts old.1) old.2 new)
      ((tagged.map fun record => Origin.ofTag record.span).zip records) moved := by
  induction h generalizing moved with
  | nil =>
    cases hmoved
    exact .nil
  | cons hfirst _ ih =>
    obtain _ | ⟨hfirst', hrest⟩ := hmoved
    refine .cons ⟨?_, ?_, ?_, ?_, Correspondence.movedFrom_of_tagged hfirst.span hfirst'.span⟩
      (ih hrest)
    · rw [← hfirst.name, hfirst'.name]
    · rw [← hfirst.cell, hfirst'.cell]
    · rw [← hfirst.owner, hfirst'.owner]
    · rw [← hfirst.aliases, hfirst'.aliases]

theorem Origins.outcome_of_tagged {run x y : Except Error Unit × State}
    (h : Outcome.Alike (.tagged files (texts.map ({}, ·))) Eq run.1 x.1)
    (hmoved : Outcome.Alike (.tagged files parts) Eq run.1 y.1) :
    Outcome.Alike (.movedFrom files parts (Origins.ofTags run).error) Eq x.1 y.1 := by
  obtain ⟨outcome, t⟩ := run
  obtain ⟨outcome', t'⟩ := x
  obtain ⟨outcome'', t''⟩ := y
  cases h with
  | ok h =>
    cases hmoved with
    | ok hmoved => exact .ok rfl
  | @error e other h =>
    cases hmoved with
    | @error _ moved hmoved =>
      refine .error ⟨h.cause.symm.trans hmoved.cause, h.file.symm.trans hmoved.file, ?_⟩
      have hspan := h.span
      have hspan' := hmoved.span
      show Option.Rel (Correspondence.movedFrom files parts
        ((e.span.map Origin.ofTag).getD .file)).span _ _
      generalize e.span = span, other.span = span', moved.span = span'' at hspan hspan' ⊢
      cases hspan with
      | none =>
        cases hspan'
        exact .none
      | some hspan =>
        cases hspan' with
        | some hspan' => exact .some (Correspondence.movedFrom_of_tagged hspan hspan')

end Tags

/-! ## Reading the chunks with tags -/

namespace Loader

variable {loader : Loader}

/-- Texts are read alike wherever they stand, if their places correspond. -/
theorem exists_programs_alike {c : Correspondence} (hresolve : Consistent c loader.resolve)
    {items others : List ((Span → Span) × String)} {programs : List Program}
    (hloads : List.Forall₂ (fun item program => loader.ofSourceBy item.1 item.2 = .ok program) items
      programs)
    (hplaces : List.Forall₂ (fun item other => item.2 = other.2 ∧
      ∀ span, span.PlaceIn item.2 → c.span (item.1 span) (other.1 span)) items others) :
    ∃ programs', List.Forall₂ (fun item program => loader.ofSourceBy item.1 item.2 = .ok program)
      others programs' ∧ List.Forall₂ (Program.Alike c) programs programs' := by
  induction hloads generalizing others with
  | nil =>
    cases hplaces
    exact ⟨[], .nil, .nil⟩
  | cons hload _ ih =>
    obtain _ | ⟨⟨htext, hplace⟩, hplaces⟩ := hplaces
    obtain ⟨program', hload', hlike⟩ := exists_alike_ofSourceBy hresolve hplace hload
    obtain ⟨programs', hloads', hlikes⟩ := ih hplaces
    exact ⟨program' :: programs', .cons (htext ▸ hload') hloads', .cons hlike hlikes⟩

/-- Texts that are read on their own are read anywhere. -/
theorem exists_programs_anywhere (hblind : loader.registry.Blind) {texts : List String}
    {programs : List Program}
    (hloads : List.Forall₂ (fun text program => loader.ofSource text = .ok program) texts programs)
    (items : List ((Span → Span) × String)) (hitems : items.map Prod.snd = texts) :
    ∃ placed, List.Forall₂ (fun item program => loader.ofSourceBy item.1 item.2 = .ok program) items
      placed ∧ List.Forall₂ (Program.Alike .anywhere) programs placed := by
  subst hitems
  have hown : List.Forall₂ (fun item program => loader.ofSourceBy item.1 item.2 = .ok program)
      (items.map fun item => ((·.move {}), item.2)) programs := by
    rw [List.forall₂_map_left_iff] at hloads ⊢
    exact hloads.imp fun item _ h => (loader.ofSourceBehind_zero item.2).trans h
  refine exists_programs_alike (consistent_anywhere hblind) hown ?_
  rw [List.forall₂_map_left_iff, List.forall₂_same]
  exact fun item _ => ⟨rfl, fun _ _ => trivial⟩

/-- The texts of some parts, with the tags of their origins. -/
def taggedItems (texts : List String) : List ((Span → Span) × String) :=
  texts.mapIdx fun index text => ((Origin.chunk index).tag, text)

/-- The texts of some parts, with their displacements. -/
def movedItems (parts : List (Displacement × String)) : List ((Span → Span) × String) :=
  parts.map fun part => ((·.move part.1), part.2)

theorem map_snd_taggedItems (texts : List String) : (taggedItems texts).map Prod.snd = texts :=
  List.ext_getElem (by simp [taggedItems]) (by simp [taggedItems])

theorem map_snd_movedItems (parts : List (Displacement × String)) :
    (movedItems parts).map Prod.snd = parts.map Prod.snd := by
  rw [movedItems, List.map_map]
  rfl

theorem forall₂_taggedItems (files : FileTree) (parts : List (Displacement × String)) :
    List.Forall₂ (fun item other : (Span → Span) × String => item.2 = other.2 ∧
      ∀ span, span.PlaceIn item.2 →
        (Correspondence.tagged files parts).span (item.1 span) (other.1 span))
      (taggedItems (parts.map Prod.snd)) (movedItems parts) := by
  rw [List.forall₂_iff_get]
  refine ⟨by simp [taggedItems, movedItems], fun index h h' => ?_⟩
  have hindex : index < parts.length := by simpa [movedItems] using h'
  simp only [taggedItems, movedItems, List.get_eq_getElem, List.getElem_mapIdx, List.getElem_map,
    true_and]
  refine fun span hplace => ⟨.chunk index, span, rfl, ⟨parts[index].2, ?_, hplace⟩, ?_⟩
  · rw [List.getElem?_map, List.getElem?_eq_getElem hindex]
    rfl
  · rw [Origin.move, List.getElem?_eq_getElem hindex]
    rfl

end Loader

/-! ## Chunks in turn -/

theorem Loader.forall₂_movedItems {loader : Loader} {parts : List (Displacement × String)}
    {programs : List Program} :
    List.Forall₂ (fun item program => loader.ofSourceBy item.1 item.2 = .ok program)
        (movedItems parts) programs ↔
      List.Forall₂ (fun part program => loader.ofSourceBehind part.1 part.2 = .ok program) parts
        programs := by
  rw [movedItems, List.forall₂_map_left_iff]
  rfl

theorem Loader.forall₂_zero {loader : Loader} {texts : List String} {programs : List Program}
    (hloads : List.Forall₂ (fun text program => loader.ofSource text = .ok program) texts programs) :
    List.Forall₂ (fun part program => loader.ofSourceBehind part.1 part.2 = .ok program)
      (texts.map ({}, ·)) programs := by
  rw [List.forall₂_map_left_iff]
  exact hloads.imp fun text _ h => (loader.ofSourceBehind_zero text).trans h

theorem eq_of_forall₂_ok {α β ε : Type} {f : α → Except ε β} {xs : List α} {ys zs : List β}
    (hys : List.Forall₂ (fun a b => f a = .ok b) xs ys)
    (hzs : List.Forall₂ (fun a b => f a = .ok b) xs zs) : ys = zs := by
  induction hys generalizing zs with
  | nil =>
    cases hzs
    rfl
  | cons hfirst _ ih =>
    obtain _ | ⟨hfirst', hrest⟩ := hzs
    rw [Except.ok.inj (hfirst.symm.trans hfirst'), ih hrest]

/-- The places that a session of chunks leaves behind have origins: whatever text the chunks are put
behind, each place moves by what stands before the chunk that it comes from. -/
theorem exists_origins {loader : Loader} (hblind : loader.registry.Blind) {chunks : List String}
    {programs : List Program}
    (hloads : List.Forall₂ (fun chunk program => loader.ofSource chunk = .ok program) chunks
      programs) (console : Console) (scopes : Scopes) :
    ∃ origins, ∀ parts, parts.map Prod.snd = chunks → ∃ placed,
      List.Forall₂ (fun part program => loader.ofSourceBehind part.1 part.2 = .ok program) parts
        placed ∧
      List.Forall₂ (Program.Alike .anywhere) programs placed ∧
      Moved loader.files parts origins
        (({ console, scopes } : State).executeInTurn loader chunks)
        (({ console, scopes } : State).executePrograms placed) := by
  let s : State := { console, scopes }
  have hraw := Loader.forall₂_zero hloads
  obtain ⟨tagged, htagged, -⟩ := Loader.exists_programs_anywhere hblind hloads
    (Loader.taggedItems chunks) (Loader.map_snd_taggedItems chunks)
  -- the tagged session is compared with the session of the chunks wherever they stand
  have hmoved : ∀ parts, parts.map Prod.snd = chunks → ∃ placed,
      List.Forall₂ (fun part program => loader.ofSourceBehind part.1 part.2 = .ok program) parts
        placed ∧
      Outcome.Alike (.tagged loader.files parts) Eq (s.executePrograms tagged).1
        (s.executePrograms placed).1 ∧
      (s.executePrograms tagged).2.Alike (.tagged loader.files parts)
        (s.executePrograms placed).2 := by
    rintro parts rfl
    obtain ⟨placed, hplaced, hlike⟩ := Loader.exists_programs_alike
      (Loader.consistent_tagged hblind parts) htagged (Loader.forall₂_taggedItems loader.files parts)
    exact ⟨placed, Loader.forall₂_movedItems.mp hplaced,
      (State.alike_start _ console scopes).executePrograms (fun _ h => h) hlike⟩
  obtain ⟨own, hown, houtcome, hstate⟩ := hmoved (chunks.map ({}, ·)) (by simp)
  cases eq_of_forall₂_ok hown hraw
  have hturn : s.executeInTurn loader chunks = s.executePrograms programs := by
    rw [State.executeInTurn_eq, State.executeParts_eq hraw]
  refine ⟨.ofTags (s.executePrograms tagged), fun parts hparts => ?_⟩
  obtain ⟨placed, hplaced, houtcome', hstate'⟩ := hmoved parts hparts
  obtain ⟨others, hothers, hlike⟩ := Loader.exists_programs_anywhere hblind hloads
    (Loader.movedItems parts) ((Loader.map_snd_movedItems parts).trans hparts)
  cases eq_of_forall₂_ok (Loader.forall₂_movedItems.mp hothers) hplaced
  obtain ⟨-, hafter⟩ :=
    (State.alike_start .anywhere console scopes).executePrograms (fun _ h => h) hlike
  refine ⟨placed, hplaced, hlike, ?_⟩
  rw [hturn]
  exact
    { outcome := Origins.outcome_of_tagged houtcome houtcome'
      vars := hafter.vars
      imports := hafter.imports
      cells := hafter.cells
      functions := hafter.functions
      console := hafter.console
      length := by
        rw [Origins.ofTags, List.length_map]
        exact hstate.log.length_eq
      log := Origins.log_of_tagged hstate.log hstate'.log }

/-- The chunks load, and only the first one imports modules of the host. -/
structure Loader.Chunks (loader : Loader) (chunks : List String) (programs : List Program) :
    Prop where
  loads : List.Forall₂ (fun chunk program => loader.ofSource chunk = .ok program) chunks programs
  modules : ∀ program ∈ programs.tail, ∀ st ∈ program.statements, st.form.module? = none

/-- **Chunks in turn do what the whole text does.** The modules of the host are blind, all chunks
load, and only the first one imports such modules. Then the chunks joined by line feeds load too,
and the statements of the whole program are those of the chunks, read where the chunks stand in the
text. Running the chunks in turn, up to one that fails, ends as the whole program ends: with the
same error or none, and in the same state, but for places. Each place that is left behind comes from
one of the chunks or from an imported file, as is seen when the chunks are put behind other text, and
in the whole text it has moved by what stands before the chunk that it comes from.

The tables of the scopes are gone through in the same order in both runs, or all names that the whole
program looks up are definite. -/
theorem executeInTurn_agrees_with_execute {loader : Loader} (hblind : loader.registry.Blind)
    {chunks : List String} {programs : List Program} (hchunks : loader.Chunks chunks programs)
    (console : Console) (order : Order) :
    ∃ (whole : Program) (origins : Origins),
      loader.ofSource ("\n".intercalate chunks) = .ok whole ∧
      (∃ placed, List.Forall₂ (fun part program =>
          loader.ofSourceBehind part.1 part.2 = .ok program) (layout {} chunks) placed ∧
        whole.statements = placed.flatMap (·.statements)) ∧
      (∀ parts, parts.map Prod.snd = chunks → Moved loader.files parts origins
        (({ console, scopes := { order } } : State).executeInTurn loader chunks)
        (({ console, scopes := { order } } : State).executeParts loader parts)) ∧
      ∀ order', (order' = order ∨ whole.DefiniteFrom { console, scopes := { order } }) →
        Moved loader.files (layout {} chunks) origins
          (({ console, scopes := { order } } : State).executeInTurn loader chunks)
          (({ console, scopes := { order := order' } } : State).execute whole) := by
  obtain ⟨origins, hmoved⟩ := exists_origins hblind hchunks.loads console { order }
  obtain ⟨placed, hplaced, hlike, hsame⟩ := hmoved (layout {} chunks) (map_snd_layout {} chunks)
  have hwhole := Loader.ofSource_joined hplaced
  have hrun : ({ console, scopes := { order } } : State).execute
      (.ofStatements (placed.flatMap (·.statements))) =
        ({ console, scopes := { order } } : State).executePrograms placed := by
    refine State.execute_joined ?_ ?_ ?_ _
    · refine forall_mem_of_forall₂ hplaced (fun _ _ hload _ => ?_) fun _ _ => trivial
      obtain ⟨_, statements, -, rfl, -⟩ := Loader.ofSourceBy_eq_ok_iff.mp hload
      rfl
    · have hown : ∀ program ∈ programs, ∀ st ∈ program.statements, ∀ value,
          st.form ≠ .returns value :=
        forall_mem_of_forall₂ hchunks.loads (fun _ _ hload _ => Loader.ne_returns_of_ofSource hload)
          fun _ _ => trivial
      exact forall_mem_of_forall₂ hlike (fun _ _ halike =>
        forall_mem_of_forall₂ halike.statements fun _ _ h => h.ne_returns) hown
    · have htail : List.Forall₂ (Program.Alike .anywhere) programs.tail placed.tail := by
        cases hlike with
        | nil => exact .nil
        | cons _ hrest => exact hrest
      exact forall_mem_of_forall₂ htail (fun _ _ halike =>
        forall_mem_of_forall₂ halike.statements fun _ _ h hst => h.module?_eq ▸ hst) hchunks.modules
  refine ⟨_, origins, hwhole, ⟨placed, hplaced, rfl⟩, fun parts hparts => ?_,
    fun order' horder => ?_⟩
  · obtain ⟨others, hothers, -, h⟩ := hmoved parts hparts
    rwa [State.executeParts_eq hothers]
  · rw [← hrun] at hsame
    rcases horder with rfl | hdefinite
    · exact hsame
    · have hother := State.execute_inOrder hdefinite order'
      rw [show ({ console, scopes := { order := order' } } : State) =
        State.inOrder { console, scopes := { order } } order' from rfl, hother]
      exact { hsame with }

/-- Goes through the chunks and checks that they load, and that no chunk but the first imports
modules. -/
def Loader.chunks? (loader : Loader) : List String → Bool
  | [] => true
  | first :: rest => (loader.ofSource first).isOk && rest.all fun chunk =>
      (loader.ofSource chunk).toOption.any fun program =>
        program.statements.all (·.form.module?.isNone)

theorem Loader.exists_chunks {loader : Loader} {chunks : List String}
    (h : loader.chunks? chunks = true) : ∃ programs, loader.Chunks chunks programs := by
  have hrest : ∀ rest : List String, (∀ chunk ∈ rest, ((loader.ofSource chunk).toOption.any
      fun program => program.statements.all (·.form.module?.isNone)) = true) →
      ∃ programs, List.Forall₂ (fun chunk program => loader.ofSource chunk = .ok program) rest
        programs ∧ ∀ program ∈ programs, ∀ st ∈ program.statements, st.form.module? = none := by
    intro rest hrest
    induction rest with
    | nil => exact ⟨[], .nil, nofun⟩
    | cons chunk rest ih =>
      obtain ⟨hchunk, hrest⟩ := List.forall_mem_cons.mp hrest
      obtain ⟨program, hload, hnone⟩ := (Option.any_eq_true _ _).mp hchunk
      obtain ⟨programs, hloads, hall⟩ := ih hrest
      refine ⟨program :: programs, .cons (eq_ok_of_toOption hload) hloads,
        List.forall_mem_cons.mpr ⟨fun st hst => ?_, hall⟩⟩
      exact Option.isNone_iff_eq_none.mp (List.all_eq_true.mp hnone st hst)
  cases chunks with
  | nil => exact ⟨[], .nil, nofun⟩
  | cons first rest =>
    obtain ⟨hfirst, hlater⟩ := (Bool.and_eq_true _ _).mp h
    obtain ⟨program, hprogram⟩ := exists_of_isOk hfirst
    obtain ⟨programs, hloads, hnone⟩ := hrest rest (List.all_eq_true.mp hlater)
    exact ⟨program :: programs, .cons hprogram hloads, hnone⟩

/-- A loader that finds a file with a function. -/
def chunkLoader : Loader where
  registry := Library.standard
  files := { entries := [(["lib.mrk"], .text "export function g(a: Number) \x7b return a \x7d")] }

/-- A chunk that imports a module and a file and declares a function, and two chunks that call
functions at the same place. -/
def callingChunks : List String :=
  ["import \"IO\"\nimport \"lib.mrk\"\nfunction f(a) \x7b return a \x7d", "var x = f(1) // one",
    "var y = g(2)\nvar x = y"]

/-- The session of the chunks fails in the last one. Two of its records have the same place, but they
come from different chunks, and so their places differ in the whole text. -/
theorem executeInTurn_agrees_with_execute_calling :
    ∃ (programs : List Program) (whole : Program) (origins : Origins),
      chunkLoader.Chunks callingChunks programs ∧
      chunkLoader.ofSource ("\n".intercalate callingChunks) = .ok whole ∧
      whole.DefiniteFrom {} ∧
      (∃ e, (({} : State).executeInTurn chunkLoader callingChunks).1 = .error e ∧
        e.cause = .alreadyDeclared "x") ∧
      ((({} : State).executeInTurn chunkLoader callingChunks).2.log.latestFirst.map
        (·.span.start)) = [8, 31, 8, 45] ∧
      ((({} : State).execute whole).2.log.latestFirst.map (·.span.start)) = [84, 31, 64, 45] ∧
      ∀ order, Moved chunkLoader.files (layout {} callingChunks) origins
        (({} : State).executeInTurn chunkLoader callingChunks)
        (({ scopes := { order } } : State).execute whole) := by
  have hchunks : chunkLoader.chunks? callingChunks = true := by decide +kernel
  have hsession : (({} : State).executeInTurn chunkLoader callingChunks).1.mapError Error.cause =
        .error (.alreadyDeclared "x") ∧
      ((({} : State).executeInTurn chunkLoader callingChunks).2.log.latestFirst.map
        (·.span.start)) = [8, 31, 8, 45] := by
    decide +kernel
  have hchecked : (chunkLoader.ofSource ("\n".intercalate callingChunks)).toOption.any (fun whole =>
      Moment.allDefinite callLimit whole.statements (State.prepare {} whole) &&
      decide (((({} : State).execute whole).2.log.latestFirst.map (·.span.start)) =
        [84, 31, 64, 45])) = true := by
    decide +kernel
  obtain ⟨programs, hchunks⟩ := Loader.exists_chunks hchunks
  have hblind : chunkLoader.registry.Blind := Library.blind_standard
  obtain ⟨whole, origins, hwhole, -, -, hmoved⟩ :=
    executeInTurn_agrees_with_execute hblind hchunks {} .rotating
  rw [hwhole] at hchecked
  obtain ⟨hdefinite, hspans⟩ := (Bool.and_eq_true _ _).mp hchecked
  have hdefinite : whole.DefiniteFrom {} := Program.definiteFrom_of_allDefinite hdefinite
  exact ⟨programs, whole, origins, hchunks, hwhole, hdefinite,
    exists_of_mapError_eq_error hsession.1, hsession.2, of_decide_eq_true hspans,
    fun order => hmoved order (.inr hdefinite)⟩

/-! ## Chunks that differ from the whole text -/

/-- A module that writes the places of its arguments to the console. -/
def sightedModule : Module :=
  Module.withFunction { name := "Place" } "print" (.exactly 1) fun site => do
    Native.writeLine (site.argumentSpan 0).text
    return none

/-- A loader that offers the module next to the standard library. -/
def sightedLoader : Loader where
  registry := Library.standard.register sightedModule
  files := {}

/-- A chunk that imports the module, and one that calls it. -/
def sightedChunks : List String :=
  ["import \"Place\"", "Place.print(1)"]

/-- Chunks that read a field that two maps share. -/
def ambiguousChunks : List String :=
  ["import 'IO' import 'Math' var a = Math.constants a.X = 'one'",
    "var b = a b.X = 'two' IO.print(X)"]

/-- A module that is not blind can tell the chunks from the whole text. And with modules that are
blind, the tables may be gone through in different orders. -/
theorem executeInTurn_disagrees_with_execute :
    (∃ programs whole, sightedLoader.Chunks sightedChunks programs ∧
      sightedLoader.ofSource ("\n".intercalate sightedChunks) = .ok whole ∧
      (({} : State).executeInTurn sightedLoader sightedChunks).2.console.output = #["1:13"] ∧
      (({} : State).execute whole).2.console.output = #["2:13"]) ∧
    ∃ programs whole, chunkLoader.Chunks ambiguousChunks programs ∧
      chunkLoader.ofSource ("\n".intercalate ambiguousChunks) = .ok whole ∧
      ((({} : State).inOrder (.foremost "a")).executeInTurn chunkLoader
        ambiguousChunks).2.console.output = #["one"] ∧
      ((({} : State).inOrder (.foremost "b")).execute whole).2.console.output = #["two"] := by
  constructor
  · have hchunks : sightedLoader.chunks? sightedChunks = true := by decide +kernel
    have hwhole : (sightedLoader.ofSource ("\n".intercalate sightedChunks)).toOption.any
        (fun whole => decide ((({} : State).execute whole).2.console.output = #["2:13"])) = true := by
      decide +kernel
    obtain ⟨programs, hchunks⟩ := Loader.exists_chunks hchunks
    obtain ⟨whole, hload, houtput⟩ := (Option.any_eq_true _ _).mp hwhole
    exact ⟨programs, whole, hchunks, eq_ok_of_toOption hload, by decide +kernel,
      of_decide_eq_true houtput⟩
  · have hchunks : chunkLoader.chunks? ambiguousChunks = true := by decide +kernel
    have hwhole : (chunkLoader.ofSource ("\n".intercalate ambiguousChunks)).toOption.any
        (fun whole => decide (((({} : State).inOrder (.foremost "b")).execute
          whole).2.console.output = #["two"])) = true := by
      decide +kernel
    obtain ⟨programs, hchunks⟩ := Loader.exists_chunks hchunks
    obtain ⟨whole, hload, houtput⟩ := (Option.any_eq_true _ _).mp hwhole
    exact ⟨programs, whole, hchunks, eq_ok_of_toOption hload, by decide +kernel,
      of_decide_eq_true houtput⟩

end Scripting
