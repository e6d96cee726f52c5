import Microkernel.Machine.IrqMask

/-!
# Nested critical sections

A critical section writes the mask register three times: every line is held back to learn which
lines were, then those and the section's own lines are, and in the end those alone.  Sections follow
one another and stand inside one another.  `Brackets` is any such arrangement, and `moments` lists
what its run writes, each mask with the lines that the caller and the sections open at that time
rely on.
-/

namespace Microkernel

namespace IrqMask

/-- A mask that holds these lines back, and possibly others. -/
def Holds (mask lines : UInt32) : Prop :=
  mask ||| lines = mask

theorem holds_self (mask : UInt32) : Holds mask mask :=
  UInt32.or_self

theorem holds_allLines (lines : UInt32) : Holds allLines lines :=
  UInt32.or_comm allLines lines |>.trans UInt32.or_neg_one

theorem Holds.or {mask lines : UInt32} (holds : Holds mask lines) (more : UInt32) :
    Holds (mask ||| more) lines := by
  rw [Holds, UInt32.or_assoc, UInt32.or_comm more lines, ← UInt32.or_assoc, holds]

private theorem holds_or_right (mask lines : UInt32) : Holds (mask ||| lines) lines := by
  rw [Holds, UInt32.or_assoc, UInt32.or_self]

theorem Holds.eq_allLines {mask : UInt32} (holds : Holds mask allLines) : mask = allLines :=
  holds.symm.trans UInt32.or_neg_one

end IrqMask

open IrqMask (Holds)

/-- Critical sections that follow one another, each with those inside it. -/
inductive Brackets where
  | done
  | bracket (lines : UInt32) (inner rest : Brackets)

namespace Brackets

/-- A mask that is written, and what has to stay held back while it is in force. -/
structure Moment where
  mask : UInt32
  /-- The lines of the open sections, the innermost first, and those of the caller. -/
  held : List UInt32

def run : Brackets → IrqMask → IrqMask
  | .done, register => register
  | .bracket lines inner rest, register =>
    let (previous, opened) := register.maskLines lines
    rest.run ((inner.run opened).restore previous)

/-- Every mask that a run writes, the first one first.  The second one that a section writes is in
force when the section has begun. -/
def moments : Brackets → List UInt32 → IrqMask → List Moment
  | .done, _, _ => []
  | .bracket lines inner rest, held, register =>
    let opened := (register.maskLines lines).2
    let closed := (inner.run opened).restore register.current
    ⟨(register.swap IrqMask.allLines).2.current, held⟩ :: ⟨opened.current, lines :: held⟩ ::
      inner.moments (lines :: held) opened ++ ⟨closed.current, held⟩ :: rest.moments held closed

theorem run_current (brackets : Brackets) (register : IrqMask) :
    (brackets.run register).current = register.current := by
  induction brackets generalizing register with
  | done =>
      rfl
  | bracket lines inner rest innerHypothesis restHypothesis =>
      exact restHypothesis _

private theorem run_history (brackets : Brackets) (held : List UInt32) (register : IrqMask) :
    (brackets.run register).history =
      register.history ++ (brackets.moments held register).map Moment.mask := by
  induction brackets generalizing held register with
  | done =>
      exact (List.append_nil _).symm
  | bracket lines inner rest innerHypothesis restHypothesis =>
      let opened := (register.maskLines lines).2
      let closed := (inner.run opened).restore register.current
      have opening : opened.history =
          register.history ++ [IrqMask.allLines, register.current ||| lines] := by
        simp [opened, IrqMask.history, IrqMask.maskLines, IrqMask.swap]
      have closing : closed.history = (inner.run opened).history ++ [register.current] := by
        simp [closed, IrqMask.history, IrqMask.restore, IrqMask.swap]
      have whole := restHypothesis held closed
      rw [closing, innerHypothesis (lines :: held) opened, opening] at whole
      rw [run, moments]
      refine whole.trans ?_
      simp [opened, closed, IrqMask.maskLines, IrqMask.restore, IrqMask.swap]

private theorem holds_of_mem_moments {brackets : Brackets} {held : List UInt32} {register : IrqMask}
    (holds : ∀ lines ∈ held, Holds register.current lines) :
    ∀ moment ∈ brackets.moments held register, ∀ lines ∈ moment.held, Holds moment.mask lines := by
  induction brackets generalizing held register with
  | done =>
      intro moment member
      cases member
  | bracket own inner rest innerHypothesis restHypothesis =>
      have opened : ∀ lines ∈ own :: held, Holds (register.maskLines own).2.current lines := by
        intro lines member
        rcases List.mem_cons.mp member with rfl | outer
        · exact IrqMask.holds_or_right register.current lines
        · exact (holds lines outer).or own
      intro moment member
      simp only [moments, List.cons_append, List.mem_cons, List.mem_append] at member
      rcases member with rfl | rfl | inside | rfl | after
      · exact fun lines _ => IrqMask.holds_allLines lines
      · exact opened
      · exact innerHypothesis opened moment inside
      · exact holds
      · let closed := (inner.run (register.maskLines own).2).restore register.current
        have callers : ∀ lines ∈ held, Holds closed.current lines := holds
        exact restHypothesis callers moment after

private theorem held_subset_of_mem_moments {brackets : Brackets} {held : List UInt32}
    {register : IrqMask} :
    ∀ moment ∈ brackets.moments held register, held ⊆ moment.held := by
  induction brackets generalizing held register with
  | done =>
      intro moment member
      cases member
  | bracket own inner rest innerHypothesis restHypothesis =>
      intro moment member
      simp only [moments, List.cons_append, List.mem_cons, List.mem_append] at member
      rcases member with rfl | rfl | inside | rfl | after
      · exact List.Subset.refl held
      · exact List.subset_cons_self own held
      · exact List.Subset.trans (List.subset_cons_self own held) (innerHypothesis moment inside)
      · exact List.Subset.refl held
      · exact restHypothesis moment after

private theorem holds_of_mem_own_moments {brackets : Brackets} {register : IrqMask} :
    ∀ moment ∈ brackets.moments [register.current] register,
      ∀ lines ∈ moment.held, Holds moment.mask lines := by
  refine holds_of_mem_moments ?_
  intro lines only
  rw [List.mem_singleton.mp only]
  exact IrqMask.holds_self register.current

/-- What a run does with the mask register, if the caller relies on all that the register holds. -/
structure HoldsBack (brackets : Brackets) (register : IrqMask) : Prop where
  /-- The moments are the masks that are written. -/
  writes : (brackets.run register).history =
    register.history ++ (brackets.moments [register.current] register).map Moment.mask
  /-- The caller's lines are among those that a moment lists. -/
  lists : ∀ moment ∈ brackets.moments [register.current] register,
    register.current ∈ moment.held
  /-- No mask lets a line through that the caller or an open section holds. -/
  covers : ∀ moment ∈ brackets.moments [register.current] register,
    ∀ lines ∈ moment.held, Holds moment.mask lines
  restores : (brackets.run register).current = register.current

theorem run_holdsBack (brackets : Brackets) (register : IrqMask) :
    brackets.HoldsBack register where
  writes := brackets.run_history [register.current] register
  lists := fun moment member => held_subset_of_mem_moments moment member List.mem_cons_self
  covers := holds_of_mem_own_moments
  restores := brackets.run_current register

end Brackets

end Microkernel
