import Microkernel.Proofs.Process.Slots

/-!
# Context switches

A process that loses the processor to another one gets it back with the registers that it had.
The slot that the cursor left is followed through any further operations: `Parked` says that it
still holds the interrupted frame, or has been reclaimed and is empty.  `schedule_resumes` is what
this means for the frame that is resumed when the cursor comes back.
-/

namespace Microkernel

open Memory (Allocator)

/-- An operation on a process table. -/
inductive Operation where
  | create (size : UInt32)
  | start (pid : Nat)
  | stop (pid : Nat)
  | kill (pid : Nat)
  | schedule (frame : TrapFrame)

namespace Operation

/-- The table and its allocator after an operation, whether it was refused or not. -/
def perform : Operation → ProcessTable × Allocator → ProcessTable × Allocator
  | .create size, (table, memory) => (table.create memory size).state
  | .start pid, (table, memory) => ((table.start pid).state, memory)
  | .stop pid, (table, memory) => ((table.stop pid).state, memory)
  | .kill pid, (table, memory) => ((table.kill pid).state, memory)
  | .schedule frame, (table, memory) => (table.schedule memory frame).2

/-- The slot in which an operation creates a process. -/
def created? : Operation → ProcessTable × Allocator → Option Pid
  | .create size, (table, memory) => (table.create memory size).result?
  | _, _ => none

def performAll (operations : List Operation) (state : ProcessTable × Allocator) :
    ProcessTable × Allocator :=
  operations.foldl (fun state operation => operation.perform state) state

/-- Operations during which the cursor stays away from a slot, and none of which creates a process
there. -/
def Away (pid : Pid) : List Operation → ProcessTable × Allocator → Prop
  | [], state => state.1.current ≠ pid
  | operation :: rest, state =>
      state.1.current ≠ pid ∧ operation.created? state ≠ some pid ∧
        Away pid rest (operation.perform state)

instance decidableAway (pid : Pid) :
    (operations : List Operation) → (state : ProcessTable × Allocator) →
      Decidable (Away pid operations state)
  | [], state => inferInstanceAs (Decidable (state.1.current ≠ pid))
  | operation :: rest, state =>
      have := decidableAway pid rest (operation.perform state)
      inferInstanceAs (Decidable (_ ∧ _ ∧ _))

/-- How an operation leaves a table and its allocator. -/
inductive Outcome (operation : Operation) (table : ProcessTable) (memory : Allocator) : Prop where
  | refused (performed : operation.perform (table, memory) = (table, memory))
  | created (size : UInt32) (pid : Pid) (table' : ProcessTable) (memory' : Allocator)
      (done : table.create memory size = .ok pid (table', memory'))
      (inSlot : operation.created? (table, memory) = some pid)
      (performed : operation.perform (table, memory) = (table', memory'))
  | updated (number : Nat) (change : Process → Process) (table' : ProcessTable)
      (flagsOnly : ProcessTable.OnlyFlags change)
      (staysDying : ∀ process : Process, process.isDying = true → (change process).isDying = true)
      (done : table.update number change = .ok () table')
      (performed : operation.perform (table, memory) = (table', memory))
  | scheduled (frame : TrapFrame)
      (performed : operation.perform (table, memory) = (table.schedule memory frame).2)

private theorem outcome_of_update {operation : Operation} {table : ProcessTable}
    {memory : Allocator}
    {number : Nat} {change : Process → Process} (flagsOnly : ProcessTable.OnlyFlags change)
    (staysDying : ∀ process : Process, process.isDying = true → (change process).isDying = true)
    (performed : operation.perform (table, memory) =
      ((table.update number change).state, memory)) :
    operation.Outcome table memory := by
  cases done : table.update number change with
  | error cause after =>
      obtain rfl := ProcessTable.update_eq_error done
      rw [done] at performed
      exact .refused performed
  | ok _ table' =>
      rw [done] at performed
      exact .updated number change table' flagsOnly staysDying done performed

theorem outcome (operation : Operation) (table : ProcessTable) (memory : Allocator) :
    operation.Outcome table memory := by
  cases operation with
  | create size =>
      cases done : table.create memory size with
      | error cause after =>
          obtain rfl := ProcessTable.create_eq_error done
          exact .refused (congrArg Attempt.state done)
      | ok pid after =>
          obtain ⟨table', memory'⟩ := after
          exact .created size pid table' memory' done (congrArg Attempt.result? done)
            (congrArg Attempt.state done)
  | start number =>
      exact outcome_of_update ProcessTable.onlyFlags_activate (fun _ dying => dying) rfl
  | stop number =>
      exact outcome_of_update ProcessTable.onlyFlags_park (fun _ dying => dying) rfl
  | kill number =>
      exact outcome_of_update ProcessTable.onlyFlags_condemn (fun _ _ => rfl) rfl
  | schedule frame =>
      exact .scheduled frame rfl

end Operation

namespace ProcessTable

/-- A slot that waits with a frame, or is empty because it was reclaimed while it waited. -/
def Parked (frame : TrapFrame) (process : Process) : Prop :=
  process.regs = frame ∨ process = .empty

namespace Parked

variable {frame : TrapFrame} {table table' : ProcessTable} {memory memory' : Allocator} {pid : Pid}

theorem create {size : UInt32} {created : Pid} (parked : Parked frame table.slots[pid])
    (elsewhere : created ≠ pid)
    (done : table.create memory size = .ok created (table', memory')) :
    Parked frame table'.slots[pid] := by
  rw [create_slot_of_ne elsewhere done]
  exact parked

theorem update {number : Nat} {change : Process → Process} (parked : Parked frame table.slots[pid])
    (flagsOnly : OnlyFlags change) (done : table.update number change = .ok () table') :
    Parked frame table'.slots[pid] := by
  rcases update_slot flagsOnly done pid with unchanged | ⟨occupied, flags, changed⟩
  · rw [unchanged]
    exact parked
  · rw [changed]
    rcases parked with regsEq | emptied
    · exact Or.inl regsEq
    · rw [emptied] at occupied
      exact absurd occupied (by decide)

theorem schedule (parked : Parked frame table.slots[pid]) (away : table.current ≠ pid)
    (interrupted : TrapFrame) :
    Parked frame (table.schedule memory interrupted).2.1.slots[pid] := by
  rcases schedule_slot_of_ne memory interrupted away with unchanged | ⟨_, emptied⟩
  · rw [unchanged]
    exact parked
  · exact Or.inr emptied

theorem perform {operation : Operation} (parked : Parked frame table.slots[pid])
    (away : table.current ≠ pid) (notCreated : operation.created? (table, memory) ≠ some pid) :
    Parked frame (operation.perform (table, memory)).1.slots[pid] := by
  cases operation.outcome table memory with
  | refused performed =>
      rw [performed]
      exact parked
  | created size slot table' memory' done inSlot performed =>
      rw [performed]
      refine parked.create ?_ done
      rintro rfl
      exact notCreated inSlot
  | updated number change table' flagsOnly staysDying done performed =>
      rw [performed]
      exact parked.update flagsOnly done
  | scheduled interrupted performed =>
      rw [performed]
      exact parked.schedule away interrupted

theorem performAll {operations : List Operation} {state : ProcessTable × Allocator}
    (parked : Parked frame state.1.slots[pid]) (away : Operation.Away pid operations state) :
    Parked frame (Operation.performAll operations state).1.slots[pid] ∧
      (Operation.performAll operations state).1.current ≠ pid := by
  induction operations generalizing state with
  | nil =>
      exact ⟨parked, away⟩
  | cons operation rest inductionHypothesis =>
      obtain ⟨elsewhere, notCreated, later⟩ := away
      exact inductionHypothesis (parked.perform elsewhere notCreated) later

/-- A slot that is resumed is not empty, so it still holds its frame. -/
theorem resumed {interrupted : TrapFrame} (parked : Parked frame table.slots[pid])
    (away : table.current ≠ pid)
    (onto : (table.schedule memory interrupted).2.1.current = pid) :
    (table.schedule memory interrupted).1 = frame := by
  obtain ⟨runnable, frameEq⟩ := schedule_frame_of_moves away onto
  rcases parked with regsEq | emptied
  · rw [frameEq, regsEq]
  · rw [emptied, isRunnable_empty] at runnable
    exact absurd runnable Bool.false_ne_true

end Parked

/-- Where the cursor does not move, the interrupted frame is resumed.  A slot that the cursor
leaves is resumed, when the cursor comes back to it, with the frame that it was interrupted with,
whatever happened to the table meanwhile, unless a new process was created in the slot. -/
theorem schedule_resumes (table : ProcessTable) (memory : Allocator) (frame : TrapFrame) :
    ((table.schedule memory frame).2.1.current = table.current →
      (table.schedule memory frame).1 = frame) ∧
    ∀ (operations : List Operation) (later : TrapFrame),
      let left := (table.schedule memory frame).2
      let reached := Operation.performAll operations left
      Operation.Away table.current operations left →
      (reached.1.schedule reached.2 later).2.1.current = table.current →
        (reached.1.schedule reached.2 later).1 = frame := by
  refine ⟨schedule_frame_of_stays, ?_⟩
  intro operations later left reached away back
  have leaves : left.1.current ≠ table.current := by
    cases operations with
    | nil => exact away
    | cons operation rest => exact away.1
  have parked : Parked frame left.1.slots[table.current] := by
    rcases schedule_slot_of_leaves leaves with saved | emptied
    · exact Or.inl (congrArg Process.regs saved)
    · exact Or.inr emptied
  obtain ⟨parkedLater, awayLater⟩ := parked.performAll away
  exact parkedLater.resumed awayLater back

def threeStarted : ProcessTable × Allocator :=
  Operation.performAll [.create 8192, .create 1, .create 70000, .start 0, .start 1, .start 2]
    (.new .default, (Allocator.new .default).init)

/-- While the second of three processes runs, the third one is killed and reclaimed and the first
one is stopped and started again. -/
def whileSecondRuns : List Operation :=
  [.kill 2, .stop 0, .schedule (TrapFrame.zero.setPc 8), .create 5, .start 0]

theorem schedule_resumes_threeStarted :
    let table := threeStarted.1
    let left := (table.schedule threeStarted.2 (TrapFrame.zero.setPc 12)).2
    let reached := Operation.performAll whileSecondRuns left
    Operation.Away table.current whileSecondRuns left ∧
      (reached.1.schedule reached.2 .zero).2.1.current = table.current ∧
      (reached.1.schedule reached.2 .zero).1 = TrapFrame.zero.setPc 12 := by
  have away : Operation.Away threeStarted.1.current whileSecondRuns
      (threeStarted.1.schedule threeStarted.2 (TrapFrame.zero.setPc 12)).2 := by
    decide +kernel
  refine ⟨away, ?_, ?_⟩
  · decide +kernel
  · refine (schedule_resumes threeStarted.1 threeStarted.2 _).2 whileSecondRuns .zero away ?_
    decide +kernel

end ProcessTable

end Microkernel
