import Scripting.Proofs.Moments

/-!
# The integrity of the return log

The log is the only place where a scope can find the results of other scopes, so it has to be in order
at all times: no record without a result, no two records for one cell, no name twice in a record, and
no variable with a result that the log does not know (`LogFits`). The log never forgets: later records
are added behind the earlier ones, which keep their results (`LogGrows`). Both hold at every moment of
every session, in the bodies of functions as well, and after failures.
-/

namespace Scripting

/-- The log, the cells and the variables of some scopes fit together. -/
structure LogFits (s : State) (scopes : List Variables) : Prop where
  /-- Every record has a result. -/
  filled : ∀ r ∈ s.log.toList, ∃ value, s.cells.get? r.cell = some value
  /-- Different records have different cells. -/
  distinct : (s.log.toList.map Record.cell).Nodup
  /-- A record answers to a name in one way only. -/
  names : ∀ r ∈ s.log.toList, r.aliases.Nodup ∧ ∀ owner, r.owner = some owner → owner ∉ r.aliases
  /-- A variable that is bound to a result finds it in the log, and has read nothing else. -/
  bound : ∀ vars ∈ scopes, ∀ v ∈ vars.entries, ∀ cell value, v.cell = some cell →
    s.cells.get? cell = some value →
      (∃ r ∈ s.log.toList, r.cell = cell) ∧ ∀ stored, v.slot = .ready stored → stored = value

/-- Every record of the earlier state is in its place in the later one, for the same call and with the
same result. At most it has lost its owner, or answers to other aliases. -/
def LogGrows (s t : State) : Prop :=
  ∀ (i : Nat) (r : Record), s.log.toList[i]? = some r →
    ∃ r', t.log.toList[i]? = some r' ∧ r.Becomes r' ∧ t.cells.get? r'.cell = s.cells.get? r.cell

namespace State

variable {D : Discipline} {X : Set String} {I : Prop} {s t : State}

theorem Sound.logFits (h : s.Sound D) {scopes : List Variables} (hscopes : s.Supports scopes) :
    LogFits s scopes where
  filled r hr := Option.isSome_iff_exists.mp (h.log.filled r (List.mem_reverse.mp hr))
  distinct := by
    rw [ReturnLog.toList, List.map_reverse]
    exact List.nodup_reverse.mpr h.log.distinct
  names r hr := by
    have htidy := h.log.tidy r (List.mem_reverse.mp hr)
    exact ⟨htidy.nodup, htidy.owner⟩
  bound := by
    intro vars hvars v hv cell value hcell hvalue
    have hsound := hscopes vars hvars v hv
    constructor
    · obtain ⟨r, hr, hrcell⟩ := hsound.recorded cell value hcell hvalue
      exact ⟨r, List.mem_reverse.mpr hr, hrcell⟩
    · intro stored hslot
      exact Option.some.inj ((hsound.settled cell stored hcell hslot).symm.trans hvalue)

theorem Advances.logGrows (h : Advances D X I s t) (hs : s.Sound D) : LogGrows s t := by
  intro i r hr
  obtain ⟨r', hr', hbecomes⟩ := h.log i r hr
  refine ⟨r', hr', hbecomes, ?_⟩
  rw [hbecomes.cell]
  exact h.cells.get?_eq (hs.has_of_mem (List.mem_reverse.mp (List.mem_of_getElem? hr)))

end State

/-- The log is in order whenever a session is between two programs, and before and after each statement
that it runs, at any depth and with any outcome, for the scope that runs and for those that wait; and
from each of these states to the next it only grows. -/
theorem log_integrity :
    (∀ s, Session s → LogFits s [s.vars] ∧
      ∀ program : Program, program.Loaded → LogGrows s (s.execute program).2) ∧
    ∀ m : Moment, m.Live → LogFits m.state (m.state.vars :: m.suspended) ∧
      LogFits m.after (m.after.vars :: m.suspended) ∧ LogGrows m.state m.after := by
  constructor
  · intro s hsession
    have hs := hsession.sound
    refine ⟨hs.logFits (List.forall_mem_singleton.mpr hs.vars), fun program hprogram => ?_⟩
    obtain ⟨himports, hforms⟩ := hprogram.standard
    exact (hs.advances_execute himports hforms).logGrows hs
  · intro m hlive
    have hs := hlive.sound.state
    have hstep := hlive.advances
    refine ⟨hs.logFits (List.forall_mem_cons.mpr ⟨hs.vars, hlive.sound.suspended⟩), ?_,
      hstep.logGrows hs⟩
    exact hstep.sound.logFits
      (List.forall_mem_cons.mpr ⟨hstep.sound.vars, hstep.supports hlive.sound.suspended⟩)

/-- The last statement fails in the middle of a capture, after a call within the call gave a value. -/
def failingText : String :=
  "function id(n) \x7b return n \x7d " ++
  "function fail(n) \x7b var y = id(n) y = missing return y \x7d " ++
  "var x = fail(\"lost\")"

/-- The capture that failed leaves a log behind that is in order, with the record of the inner call. -/
theorem log_integrity_failing :
    ∃ m, Moment.ofText? failingText {} 2 = some m ∧ ¬ m.Succeeds ∧ m.after.log.size = 2 ∧
      LogFits m.after (m.after.vars :: m.suspended) ∧ LogGrows m.state m.after := by
  have hrun : (Moment.ofText? failingText {} 2).any
      (fun m => decide (¬ m.Succeeds ∧ m.after.log.size = 2)) = true := by decide +kernel
  obtain ⟨m, hm, hfacts⟩ := (Option.any_eq_true _ _).mp hrun
  obtain ⟨hfails, hsize⟩ := of_decide_eq_true hfacts
  obtain ⟨-, hafter, hgrows⟩ := log_integrity.2 m (Moment.live_of_ofText? hm)
  exact ⟨m, hm, hfails, hsize, hafter, hgrows⟩

end Scripting
