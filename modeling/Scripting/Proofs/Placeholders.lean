import Scripting.Proofs.InRange

/-!
# Filling placeholders

A format is cut at its leftmost placeholders into pieces, a first one and one behind each placeholder
(`Text.Splits`). There is one way to do so (`Text.splits_iff`). Filling puts the texts between the
pieces, all at once: a text that is put in is never looked at, whether it holds a placeholder or makes
one together with what stands next to it. Where the texts run out, the placeholders stay.
-/

namespace Scripting

namespace Text

/-! ## Pieces of a format -/

/-- What stands for a value in a format. -/
def placeholder : List Char := ['\x7b', '\x7d']

/-- The format is cut at its leftmost placeholders, which do not overlap, into a first piece and the
pieces behind the placeholders. -/
inductive Splits : List Char → List Char → List (List Char) → Prop
  | last {text : List Char} (hnone : ¬ placeholder <:+: text) : Splits text text []
  | next {before rest first : List Char} {others : List (List Char)}
      (hleftmost : ∀ n < before.length, ¬ placeholder <+: (before ++ (placeholder ++ rest)).drop n)
      (hrest : Splits rest first others) :
      Splits (before ++ (placeholder ++ rest)) before (first :: others)

/-- The pieces of a format. -/
def pieces : List Char → List Char × List (List Char)
  | '\x7b' :: '\x7d' :: rest => ([], (pieces rest).1 :: (pieces rest).2)
  | c :: rest => (c :: (pieces rest).1, (pieces rest).2)
  | [] => ([], [])

theorem placeholder_isPrefix_iff {c : Char} {rest : List Char} :
    placeholder <+: c :: rest ↔ ∃ after, c = '\x7b' ∧ rest = '\x7d' :: after := by
  constructor
  · rintro ⟨after, h⟩
    obtain ⟨rfl, rfl⟩ := List.cons.inj h
    exact ⟨after, rfl, rfl⟩
  · rintro ⟨after, rfl, rfl⟩
    exact ⟨after, rfl⟩

/-- A character that starts no placeholder belongs to the first piece. -/
theorem pieces_cons {c : Char} {rest : List Char} (h : ¬ placeholder <+: c :: rest) :
    pieces (c :: rest) = (c :: (pieces rest).1, (pieces rest).2) := by
  rw [pieces]
  rintro after rfl rfl
  exact h (placeholder_isPrefix_iff.mpr ⟨after, rfl, rfl⟩)

theorem pieces_of_not_isInfix {text : List Char} (h : ¬ placeholder <:+: text) :
    pieces text = (text, []) := by
  induction text with
  | nil => rfl
  | cons c rest ih =>
    rw [List.infix_cons_iff, not_or] at h
    rw [pieces_cons h.1, ih h.2]

/-- What stands before the leftmost placeholder is the first piece. The induction is on that. -/
theorem pieces_append {before rest : List Char}
    (h : ∀ n < before.length, ¬ placeholder <+: (before ++ (placeholder ++ rest)).drop n) :
    pieces (before ++ (placeholder ++ rest)) = (before, (pieces rest).1 :: (pieces rest).2) := by
  induction before with
  | nil => rfl
  | cons c before ih =>
    have hfirst := h 0 (Nat.zero_lt_succ _)
    rw [List.drop_zero, List.cons_append] at hfirst
    rw [List.cons_append, pieces_cons hfirst,
      ih fun n hn => by simpa using h (n + 1) (Nat.succ_lt_succ hn)]

theorem Splits.cons {c : Char} {rest first : List Char} {others : List (List Char)}
    (h : Splits rest first others) (hc : ¬ placeholder <+: c :: rest) :
    Splits (c :: rest) (c :: first) others := by
  cases h with
  | last hnone => exact .last (by rw [List.infix_cons_iff, not_or]; exact ⟨hc, hnone⟩)
  | next hleftmost hrest =>
    rw [← List.cons_append]
    refine .next (fun n hn => ?_) hrest
    cases n with
    | zero => exact hc
    | succ n => exact hleftmost n (Nat.lt_of_succ_lt_succ hn)

/-- There is one way to cut a format into pieces. -/
theorem splits_iff {format first : List Char} {others : List (List Char)} :
    Splits format first others ↔ pieces format = (first, others) := by
  constructor
  · intro h
    induction h with
    | last hnone => exact pieces_of_not_isInfix hnone
    | next hleftmost _ ih => rw [pieces_append hleftmost, ih]
  · intro h
    obtain ⟨rfl, rfl⟩ := Prod.mk.inj h
    clear h
    fun_induction pieces format with
    | case1 rest ih => exact @Splits.next [] rest _ _ (fun n hn => absurd hn (Nat.not_lt_zero n)) ih
    | case2 c rest hc ih =>
      refine ih.cons fun hprefix => ?_
      obtain ⟨after, rfl, rfl⟩ := placeholder_isPrefix_iff.mp hprefix
      exact hc after rfl rfl
    | case3 => exact .last (by decide)

/-! ## Filling -/

/-- The pieces of a format with texts between them, as far as there are both, and then the other
pieces with their placeholders. -/
def weave (first : List Char) (others texts : List (List Char)) : List Char :=
  let count := min others.length texts.length
  first ++ (List.zipWith (· ++ ·) (texts.take count) (others.take count)).flatten ++
    ((others.drop count).map (placeholder ++ ·)).flatten

theorem weave_cons (first text next : List Char) (others texts : List (List Char)) :
    weave first (next :: others) (text :: texts) = first ++ (text ++ weave next others texts) := by
  simp [weave, Nat.succ_min_succ]

theorem weave_nil (first next : List Char) (others : List (List Char)) :
    weave first (next :: others) [] = first ++ (placeholder ++ weave next others []) := by
  simp [weave]

/-- Filling puts the texts between the pieces. The induction is on the cut. -/
theorem fill_eq_weave (format : List Char) (texts : List (List Char)) :
    fill format texts = weave (pieces format).1 (pieces format).2 texts := by
  fun_induction pieces format generalizing texts with
  | case1 rest ih =>
    cases texts with
    | nil => rw [fill_nil, weave_nil, ← ih [], fill_nil]; rfl
    | cons text texts => rw [weave_cons, ← ih texts]; rfl
  | case2 c rest hc ih =>
    rw [fill_cons hc, ih texts]
    rfl
  | case3 =>
    cases texts <;> rfl

end Text

/-! ## Writing a format -/

namespace Exec

open Native

/-- A library function that asks for all arguments behind some gets their values. -/
theorem native_valuesFrom (invoke : Invoke) {site : CallSite} {before args : List Token}
    (hargs : site.args = before ++ args) (known : List Value) :
    native invoke site (valuesFrom known before.length args.length) =
      operands args >>= fun values => pure (known.reverse ++ values) := by
  induction args generalizing before known with
  | nil =>
    rw [operands, pure_bind, List.append_nil]
    rfl
  | cons token args ih =>
    have htoken : argumentToken site before.length = pure token := by
      rw [argumentToken, hargs, List.getElem?_append_right (Nat.le_refl _), Nat.sub_self]
      rfl
    have hnext : ∀ value, native invoke site
        (valuesFrom (value :: known) (before.length + 1) args.length) =
          operands args >>= fun values => pure (known.reverse ++ value :: values) := by
      intro value
      have hrest := @ih (before ++ [token]) (by rw [hargs]; simp) (value :: known)
      rw [List.length_append, List.length_singleton] at hrest
      rw [hrest]
      simp
    show native invoke site (Native.value before.length >>= fun value =>
      valuesFrom (value :: known) (before.length + 1) args.length) = _
    rw [native_bind, Native.value, native, htoken, pure_bind, operands]
    simp only [bind_assoc, pure_bind, native, hnext]

theorem native_values (invoke : Invoke) (site : CallSite) :
    native invoke site site.values = operands site.args := by
  rw [CallSite.values]
  have hall := @native_valuesFrom invoke site [] site.args rfl []
  simpa using hall

/-- When its arguments come to a text and some values, the function writes one line and does nothing
else. -/
theorem run_printf {site : CallSite} {format : String} {values : List Value} {s t : State}
    (h : s.run (operands site.args) = (.ok (.string format :: values), t)) (invoke : Invoke) :
    s.run (native invoke site (Library.Terminal.printf site)) =
      (.ok none,
        { t with
          console := t.console.write (Library.Terminal.fillPlaceholders format values) }) := by
  unfold Library.Terminal.printf
  rw [native_bind, native_values, run_bind, h]
  rfl

end Exec

namespace Library.Terminal

/-- Placeholders are filled in order and all at once.

A format is cut in one way into pieces at its leftmost placeholders. Filling it gives the pieces with
the texts of the values between them, as far as there are both, and behind them the other pieces with
their placeholders. So what is put in is not read again, placeholders left over stay, and values left
over are ignored. This is the line that `printf` writes when its arguments come to the format and the
values. -/
theorem fillPlaceholders_in_order (format : String) (values : List Value) :
    ∃ (first : List Char) (others : List (List Char)),
      (∀ first' others', Text.Splits format.toList first' others' ↔
        first' = first ∧ others' = others) ∧
      (fillPlaceholders format values).toList =
        Text.weave first others (values.map (·.text.toList)) ∧
      ∀ (invoke : Invoke) (site : CallSite) (s t : State),
        s.run (Exec.operands site.args) = (.ok (.string format :: values), t) →
        ∃ line : String, line.toList = Text.weave first others (values.map (·.text.toList)) ∧
          s.run (Exec.native invoke site (printf site)) =
            (.ok none, { t with console := t.console.write line }) := by
  have hfilled : (fillPlaceholders format values).toList =
      Text.weave (Text.pieces format.toList).1 (Text.pieces format.toList).2
        (values.map (·.text.toList)) := by
    rw [fillPlaceholders, String.toList_ofList, Text.fill_eq_weave]
  refine ⟨_, _, fun first' others' => ?_, hfilled, fun invoke site s t hargs =>
    ⟨_, hfilled, Exec.run_printf hargs invoke⟩⟩
  rw [Text.splits_iff, Prod.ext_iff]
  exact ⟨fun h => ⟨h.1.symm, h.2.symm⟩, fun h => ⟨h.1.symm, h.2.symm⟩⟩

/-- A value that makes a placeholder with its neighbours is not read again, and of three placeholders
one is left over. -/
example : fillPlaceholders "\x7b\x7b\x7d\x7d é\x7b\x7d \x7b\x7d" [.string "\x7b\x7d", .boolean true] =
    "\x7b\x7b\x7d\x7d étrue \x7b\x7d" := by
  decide +kernel

end Library.Terminal

end Scripting
