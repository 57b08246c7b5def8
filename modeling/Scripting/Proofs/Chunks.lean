import Scripting.Proofs.Displacement
import Scripting.Proofs.LikeRuns
import Scripting.Proofs.Order

/-!
# Programs in chunks

A program may be given to a session at once or in chunks, one text after another on one state. The
chunks joined by line feeds are one text, in which each chunk has its place (`layout`). The statements
of the whole text are those of the chunks, read where the chunks stand in it
(`Loader.ofSource_joined`). Only the first chunk may import modules of the host, since the modules
that a program imports come into view before its first statement. Then running the whole program is
the same as running the chunks in turn, each of them read where it stands (`State.execute_joined`).
-/

namespace Scripting

open Program.Grammar (Sentences Consistent)

/-! ## Places in the joined text -/

/-- Texts that are joined by line feeds, with what stands before each of them. -/
def layout (d : Displacement) : List String → List (Displacement × String)
  | [] => []
  | text :: texts => (d, text) :: layout (d.past text) texts

theorem map_snd_layout (d : Displacement) (texts : List String) :
    (layout d texts).map Prod.snd = texts := by
  induction texts generalizing d with
  | nil => rfl
  | cons text texts ih => rw [layout, List.map_cons, ih]

theorem Span.move_zero (span : Span) : span.move {} = span := rfl

/-- The token at another place. -/
def Token.relocate (place : Span → Span) (token : Token) : Token :=
  { token with span := place token.span }

namespace Loader

/-- The program that a text writes whose tokens stand at other places than on their own. -/
def ofSourceBy (loader : Loader) (place : Span → Span) (source : String) : Except Error Program := do
  loader.ofTokens ((← Token.scan source).map (Token.relocate place))

/-- The program that a text writes behind other text. -/
def ofSourceBehind (loader : Loader) (d : Displacement) (source : String) : Except Error Program :=
  loader.ofSourceBy (·.move d) source

variable {loader : Loader} {c : Correspondence}

theorem ofSourceBehind_zero (loader : Loader) (source : String) :
    loader.ofSourceBehind {} source = loader.ofSource source := by
  have hplaced : ∀ tokens : List Token, tokens.map (Token.relocate (·.move {})) = tokens :=
    List.map_id
  unfold ofSourceBehind ofSourceBy
  simp only [hplaced]
  rfl

theorem ofSourceBy_eq_ok_iff {place : Span → Span} {source : String} {program : Program} :
    loader.ofSourceBy place source = .ok program ↔ ∃ tokens statements,
      Token.scan source = .ok tokens ∧ program = .ofStatements statements ∧
        Sentences loader.resolve loader.file (tokens.map (Token.relocate place)) statements := by
  constructor
  · intro h
    obtain ⟨tokens, hscan, h⟩ := exists_of_bind_eq_ok h
    obtain ⟨statements, hprogram, hsentences⟩ := Program.ofTokens_eq_ok_iff.mp h
    exact ⟨tokens, statements, hscan, hprogram, hsentences⟩
  · rintro ⟨tokens, statements, hscan, hprogram, hsentences⟩
    unfold ofSourceBy
    rw [hscan]
    exact Program.ofTokens_eq_ok_iff.mpr ⟨statements, hprogram, hsentences⟩

/-- A text is read alike at like places. -/
theorem exists_alike_ofSourceBy (hresolve : Consistent c loader.resolve) {place place' : Span → Span}
    {source : String} {program : Program}
    (hplaces : ∀ span, span.PlaceIn source → c.span (place span) (place' span))
    (h : loader.ofSourceBy place source = .ok program) :
    ∃ other, loader.ofSourceBy place' source = .ok other ∧ program.Alike c other := by
  obtain ⟨tokens, statements, hscan, rfl, hsentences⟩ := ofSourceBy_eq_ok_iff.mp h
  have htokens : List.Forall₂ (Token.Alike c) (tokens.map (Token.relocate place))
      (tokens.map (Token.relocate place')) := by
    rw [List.forall₂_map_left_iff, List.forall₂_map_right_iff, List.forall₂_same]
    exact fun token htoken => ⟨rfl, rfl, rfl, hplaces _ ⟨tokens, hscan, token, htoken, rfl⟩⟩
  obtain ⟨others, hothers, hlike⟩ :=
    Program.Grammar.placeless_sentences hresolve loader.file _ _ _ hsentences htokens
  exact ⟨.ofStatements others, ofSourceBy_eq_ok_iff.mpr ⟨tokens, others, hscan, rfl, hothers⟩,
    Program.alike_ofStatements hlike⟩

/-- What an import stands for does not depend on where it is written. -/
theorem resolve_congr {target other : Token} {form : Form} (hlexeme : target.lexeme = other.lexeme)
    (h : loader.resolve target = .ok form) : loader.resolve other = .ok form := by
  rw [resolve] at h ⊢
  rw [hlexeme] at h
  split at h
  · exact h
  · cases h
  · cases h
  · split at h
    · cases h
    · next hnew =>
      rw [dif_neg hnew]
      simp only at h ⊢
      split at h
      · cases h
      · next source hread =>
        obtain ⟨tokens, hscan, h⟩ := exists_of_bind_eq_ok h
        obtain ⟨program, hprogram, h⟩ := exists_of_bind_eq_ok h
        split at h
        · cases h
        · next hsome =>
          rw [hscan]
          change (Except.mapError _ _ >>= _) = _
          rw [hprogram]
          exact (if_neg hsome).trans h

/-- A program that is read from a text is like itself, if the places of the text correspond to
themselves. -/
theorem alike_self_of_ofSource (hresolve : Consistent c loader.resolve) {source : String}
    {program : Program} (hplaces : ∀ span, span.PlaceIn source → c.span span span)
    (h : loader.ofSource source = .ok program) : program.Alike c program := by
  rw [← ofSourceBehind_zero] at h
  obtain ⟨other, hother, hlike⟩ := exists_alike_ofSourceBy hresolve hplaces h
  rwa [← Except.ok.inj (h.symm.trans hother)] at hlike

/-- The induction is on the files that are not in progress, as in the definition of `resolve`. -/
theorem consistent_resolve (loader : Loader)
    (hmodules : ∀ name module, loader.registry.resolve? name = some module → c.module module)
    (hfiles : ∀ path source span, loader.files.readPath path = .ok source → span.PlaceIn source →
      c.span span span) : Consistent c loader.resolve := by
  induction hn : loader.remaining using Nat.strongRecOn generalizing loader with
  | ind n ih =>
    intro target other form halike hform
    refine ⟨resolve_congr halike.lexeme hform, ?_⟩
    rcases resolve_cases hform with
      ⟨module, hmodule, rfl⟩ | ⟨file, place, program, rfl, hread, hlt, hload⟩
    · exact .useModule (hmodules _ module hmodule)
    · have hinner := ih _ (hn ▸ hlt) (loader.forImport file place) hmodules hfiles rfl
      cases alike_self_of_ofSource hinner (fun span => hfiles _ _ span hread) hload with
      | mk hstatements _ himports =>
        rw [List.forall₂_same] at hstatements
        refine .useFile (.mk ?_ rfl himports)
        exact List.forall₂_same.mpr fun st hst => hstatements st (List.mem_filter.mp hst).1

theorem consistent_anywhere (hblind : loader.registry.Blind) : Consistent .anywhere loader.resolve :=
  loader.consistent_resolve hblind fun _ _ _ _ _ => trivial

/-! ## Loading the joined text -/

/-- The induction is on the texts: what a text writes stands before what the texts behind it
write. -/
theorem exists_sentences_joined {d : Displacement} {texts : List String} {programs : List Program}
    (hloads : List.Forall₂ (fun part program => loader.ofSourceBehind part.1 part.2 = .ok program)
      (layout d texts) programs) :
    ∃ tokens, Token.scanFrom (({} : Position).move d) ("\n".intercalate texts).toList = .ok tokens ∧
      Sentences loader.resolve loader.file tokens (programs.flatMap (·.statements)) := by
  induction texts generalizing d programs with
  | nil =>
    cases hloads
    refine ⟨[], ?_, .nil⟩
    rw [String.intercalate_nil, String.toList_empty, Token.scanFrom]
  | cons text texts ih =>
    rw [layout] at hloads
    obtain _ | ⟨hload, hloads⟩ := hloads
    obtain ⟨tokens, statements, hscan, rfl, hfirst⟩ := ofSourceBy_eq_ok_iff.mp hload
    obtain ⟨others, hothers, hrest⟩ := ih hloads
    rw [List.flatMap_cons]
    cases texts with
    | nil =>
      cases hloads
      refine ⟨tokens.map (·.move d), ?_, ?_⟩
      · rw [String.intercalate_singleton, Token.scanFrom_move,
          show Token.scanFrom {} text.toList = .ok tokens from hscan]
        rfl
      · rw [List.flatMap_nil, List.append_nil]
        exact hfirst
    | cons next texts =>
      refine ⟨_, ?_, hfirst.append hrest⟩
      rw [String.intercalate_cons_cons, String.append_assoc, String.toList_append,
        String.toList_append]
      exact (Token.scanFrom_line hscan d _).trans (congrArg (Except.map _) hothers)

/-- The whole text has the statements of its parts, read where they stand. -/
theorem ofSource_joined {texts : List String} {programs : List Program}
    (hloads : List.Forall₂ (fun part program => loader.ofSourceBehind part.1 part.2 = .ok program)
      (layout {} texts) programs) :
    loader.ofSource ("\n".intercalate texts) =
      .ok (.ofStatements (programs.flatMap (·.statements))) := by
  obtain ⟨tokens, hscan, hsentences⟩ := exists_sentences_joined hloads
  unfold ofSource
  rw [show Token.scan ("\n".intercalate texts) = .ok tokens from hscan]
  exact Program.ofTokens_eq_ok_iff.mpr ⟨_, rfl, hsentences⟩

end Loader

/-! ## Running the statements of the joined text -/

theorem Program.statements_ofStatements (statements : List Statement) :
    (Program.ofStatements statements).statements = statements := rfl

namespace Exec

/-- A statement that is no return goes on to the next one. -/
theorem flow_of_statement {invoke : Invoke} {st : Statement} {s t : State} {flow : Flow}
    (hform : ∀ value, st.form ≠ .returns value) (h : s.run (statement invoke st) = (.ok flow, t)) :
    flow = .goOn := by
  have hgoOn : ∃ (α : Type) (step : Exec α),
      formOf invoke st.span st.scope st.form = step >>= fun _ => pure Flow.goOn := by
    cases hst : st.form with
    | returns value => exact absurd hst (hform value)
    | assign target value =>
      cases target <;> rw [formOf] <;> exact ⟨_, _, rfl⟩
    | useFile file program =>
      rw [formOf, ← bind_assoc]
      exact ⟨_, _, rfl⟩
    | _ =>
      rw [formOf]
      exact ⟨_, _, rfl⟩
  obtain ⟨α, step, hstep⟩ := hgoOn
  rw [statement_eq, hstep, run_decorate, run_bind] at h
  split at h
  · next heq =>
    split at heq
    · cases heq
      cases h
      rfl
    · cases heq
  · cases h

/-- Statements before others: the others run if the first ones succeed. -/
theorem run_statementsOf_append {invoke : Invoke} {statements : List Statement}
    (hforms : ∀ st ∈ statements, ∀ value, st.form ≠ .returns value) (rest : List Statement)
    (s : State) :
    s.run (statementsOf invoke (statements ++ rest)) =
      match s.run (statementsOf invoke statements) with
      | (.ok _, t) => t.run (statementsOf invoke rest)
      | (.error e, t) => (.error e, t) := by
  induction statements generalizing s with
  | nil =>
    rw [List.nil_append, statementsOf]
    rfl
  | cons first statements ih =>
    obtain ⟨hfirst, hforms⟩ := List.forall_mem_cons.mp hforms
    rw [List.cons_append, statementsOf, statementsOf, run_bind, run_bind]
    cases hrun : s.run (statement invoke first) with
    | mk outcome t =>
      cases outcome with
      | error e => rfl
      | ok flow =>
        cases flow_of_statement hfirst hrun
        exact ih hforms t

end Exec

namespace State

/-- Load texts and run them one after another, up to one that fails. -/
def executeInTurn (loader : Loader) (s : State) : List String → Except Error Unit × State
  | [] => (.ok (), s)
  | text :: texts =>
    match s.executeLoaded (loader.ofSource text) with
    | (.ok _, t) => t.executeInTurn loader texts
    | (.error e, t) => (.error e, t)

/-- Load texts that stand behind other text and run them one after another, up to one that fails. -/
def executeParts (loader : Loader) (s : State) :
    List (Displacement × String) → Except Error Unit × State
  | [] => (.ok (), s)
  | (d, text) :: parts =>
    match s.executeLoaded (loader.ofSourceBehind d text) with
    | (.ok _, t) => t.executeParts loader parts
    | (.error e, t) => (.error e, t)

theorem executeInTurn_eq (loader : Loader) (s : State) (texts : List String) :
    s.executeInTurn loader texts = s.executeParts loader (texts.map ({}, ·)) := by
  induction texts generalizing s with
  | nil => rfl
  | cons text texts ih =>
    rw [List.map_cons, executeInTurn, executeParts, loader.ofSourceBehind_zero]
    split
    · exact ih _
    · rfl

/-- Run programs one after another, up to one that fails. -/
def executePrograms (s : State) : List Program → Except Error Unit × State
  | [] => (.ok (), s)
  | program :: programs =>
    match s.execute program with
    | (.ok _, t) => t.executePrograms programs
    | (.error e, t) => (.error e, t)

theorem executeParts_eq {loader : Loader} {parts : List (Displacement × String)}
    {programs : List Program}
    (hloads : List.Forall₂ (fun part program => loader.ofSourceBehind part.1 part.2 = .ok program)
      parts programs) (s : State) : s.executeParts loader parts = s.executePrograms programs := by
  induction hloads generalizing s with
  | nil => rfl
  | cons hload _ ih =>
    rw [executeParts, executePrograms, hload]
    show (match s.execute _ with | (.ok _, t) => _ | (.error e, t) => _) = _
    split
    · exact ih _
    · rfl

theorem prepare_of_imports {program : Program} (h : program.imports.modules = []) (s : State) :
    s.prepare program = s := by
  unfold prepare ImportTable.merge
  rw [h]
  rfl

/-- Statements before others that import no modules: the others run as a program of their own if the
first ones succeed. -/
theorem execute_append {statements rest : List Statement}
    (hforms : ∀ st ∈ statements, ∀ value, st.form ≠ .returns value)
    (hrest : ∀ st ∈ rest, st.form.module? = none) (s : State) :
    s.execute (.ofStatements (statements ++ rest)) =
      match s.execute (.ofStatements statements) with
      | (.ok _, t) => t.execute (.ofStatements rest)
      | (.error e, t) => (.error e, t) := by
  have hnone : rest.filterMap (·.form.module?) = [] := List.filterMap_eq_nil_iff.mpr hrest
  have hprepare : s.prepare (.ofStatements (statements ++ rest)) =
      s.prepare (.ofStatements statements) := by
    unfold prepare Program.ofStatements
    rw [List.filterMap_append, hnone, List.append_nil]
  have himports : (Program.ofStatements rest).imports.modules = [] := by
    unfold Program.ofStatements
    rw [hnone]
    rfl
  rw [execute_eq, execute_eq s, hprepare, Program.statements_ofStatements,
    Program.statements_ofStatements, Exec.run_statementsOf_append hforms]
  cases State.run _ (Exec.statementsOf _ statements) with
  | mk outcome t =>
    cases outcome with
    | error e => rfl
    | ok flow =>
      simp only
      rw [execute_eq, prepare_of_imports himports, Program.statements_ofStatements]

/-- The statements of programs in a row run as the programs do in turn, if only the first one imports
modules and none returns. -/
theorem execute_joined {programs : List Program}
    (hprograms : ∀ program ∈ programs, program = .ofStatements program.statements)
    (hforms : ∀ program ∈ programs, ∀ st ∈ program.statements, ∀ value, st.form ≠ .returns value)
    (hmodules : ∀ program ∈ programs.tail, ∀ st ∈ program.statements, st.form.module? = none)
    (s : State) :
    s.execute (.ofStatements (programs.flatMap (·.statements))) = s.executePrograms programs := by
  induction programs generalizing s with
  | nil => rfl
  | cons program programs ih =>
    obtain ⟨hprogram, hprograms⟩ := List.forall_mem_cons.mp hprograms
    obtain ⟨hfirst, hforms⟩ := List.forall_mem_cons.mp hforms
    have hrest : ∀ st ∈ programs.flatMap (·.statements), st.form.module? = none := by
      intro st hst
      obtain ⟨other, hother, hst⟩ := List.mem_flatMap.mp hst
      exact hmodules other hother st hst
    rw [List.flatMap_cons, execute_append hfirst hrest, executePrograms, ← hprogram]
    split
    · next t _ =>
      exact ih hprograms hforms (fun other hother => hmodules other (List.mem_of_mem_tail hother)) t
    · rfl

end State

/-! ## Like chunks in turn -/

theorem forall_mem_of_forall₂ {α β : Type} {R : α → β → Prop} {P : α → Prop} {Q : β → Prop}
    {xs : List α} {ys : List β} (h : List.Forall₂ R xs ys) (hR : ∀ a b, R a b → P a → Q b)
    (hxs : ∀ a ∈ xs, P a) : ∀ b ∈ ys, Q b := by
  induction h with
  | nil => nofun
  | cons hab _ ih =>
    obtain ⟨ha, hxs⟩ := List.forall_mem_cons.mp hxs
    exact List.forall_mem_cons.mpr ⟨hR _ _ hab ha, ih hxs⟩

theorem Statement.Alike.module?_eq {c : Correspondence} {st other : Statement}
    (h : st.Alike c other) : st.form.module? = other.form.module? := by
  cases h with
  | mk hform => exact hform.module?_eq.1

theorem Statement.Alike.ne_returns {c : Correspondence} {st other : Statement}
    (h : st.Alike c other) (hform : ∀ value, st.form ≠ .returns value) :
    ∀ value, other.form ≠ .returns value := by
  cases h with
  | mk halike =>
    intro value hother
    rw [hother] at halike
    generalize st.form = form at halike hform
    cases halike with
    | returns _ => exact hform _ rfl

theorem Program.Alike.statements {c : Correspondence} {program other : Program}
    (h : program.Alike c other) :
    List.Forall₂ (Statement.Alike c) program.statements other.statements := by
  cases h with
  | mk hstatements => exact hstatements

/-- Outside of functions there are no returns. -/
theorem Loader.ne_returns_of_ofSource {loader : Loader} {source : String} {program : Program}
    (h : loader.ofSource source = .ok program) :
    ∀ st ∈ program.statements, ∀ value, st.form ≠ .returns value := by
  obtain ⟨tokens, hscan, htokens⟩ := exists_of_bind_eq_ok h
  cases wellFormed_of_provides (loader.provides_resolve tokens) (Token.scope_of_mem_scan hscan)
    htokens with
  | mk hstatements _ =>
    intro st hst value hform
    cases hstatements st hst with
    | mk _ _ hwell =>
      rw [hform] at hwell
      cases hwell

/-- Like programs run alike in turn, from like states. -/
theorem State.Alike.executePrograms {c : Correspondence}
    (hblind : ∀ module, c.module module → module.Blind) {s t : State} (hst : s.Alike c t)
    {programs others : List Program} (h : List.Forall₂ (Program.Alike c) programs others) :
    Outcome.Alike c Eq (s.executePrograms programs).1 (t.executePrograms others).1 ∧
      (s.executePrograms programs).2.Alike c (t.executePrograms others).2 := by
  induction h generalizing s t with
  | nil => exact ⟨.ok rfl, hst⟩
  | @cons program other programs others hfirst _ ih =>
    have hrun := hst.execute hblind hfirst
    rw [State.executePrograms, State.executePrograms]
    generalize s.execute program = run at hrun ⊢
    generalize t.execute other = run' at hrun ⊢
    obtain ⟨outcome, u⟩ := run
    obtain ⟨outcome', v⟩ := run'
    obtain ⟨houtcome, hafter⟩ := hrun
    cases houtcome with
    | error h => exact ⟨.error h, hafter⟩
    | ok _ => exact ih hafter

theorem State.alike_start (c : Correspondence) (console : Console) (scopes : Scopes) :
    ({ console, scopes } : State).Alike c { console, scopes } where
  vars := rfl
  imports := rfl
  modules := nofun
  cells := rfl
  functions := .nil
  log := .nil
  console := rfl
  scopes := rfl

end Scripting
