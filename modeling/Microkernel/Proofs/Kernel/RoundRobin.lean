import Microkernel.Proofs.Kernel.Reclaims

/-!
# Every runnable process gets its turn

While nobody operates on a process, as many interrupts of the timer as there are runnable slots
resume each of them once, in the order of the table.  `Covers` says what a run does to the slots
that the cursor still has in front of it, and is proved by following the run; `rotation_complete` is
the case of a whole round.
-/

namespace Microkernel

open ProcessTable (ahead lap runnableOf dyingOf Advance GivesBack)

namespace Kernel

open Event (processOperations memoryOperations)

variable {C : Type} [PolledController C]

/-- The slot under the cursor after each interrupt of the timer in a run, with its number. -/
def stops : Kernel C → List Event → List (Pid × Process)
  | _, [] => []
  | kernel, event :: rest =>
    let table := (kernel.after event).processes
    let later := stops (kernel.after event) rest
    if event.isTimer then (table.current, table.slots[table.current]) :: later else later

private theorem interrupt_advances {kernel : Kernel C} (frame : TrapFrame) {lines : IrqLines}
    {steps : Nat}
    {pid : Pid} {passed later : List Pid} (timer : lines.timer = true)
    (enough : 2 ≤ kernel.processes.runnableCount) (within : steps ≤ maxProcesses)
    (split : ahead steps kernel.processes.current = passed ++ pid :: later)
    (idle : ∀ other ∈ passed, kernel.processes.slots[other].isRunnable ≠ true)
    (runnable : kernel.processes.slots[pid].isRunnable = true) :
    Advance kernel.processes (kernel.after (.interrupt frame lines)).processes passed pid later ∧
      kernel.reclaims (.interrupt frame lines) = dyingOf kernel.processes.slots passed := by
  have scheduled : (kernel.after (.interrupt frame lines)).processes =
      (kernel.processes.schedule kernel.memory frame).2.1 :=
    (interrupt_of_timer kernel frame lines timer).2.1
  have enoughActive : 2 ≤ kernel.processes.activeCount :=
    enough.trans (ProcessTable.runnableCount_le_activeCount kernel.processes)
  rw [scheduled, reclaims, if_pos timer]
  exact ProcessTable.schedule_of_ahead kernel.memory frame enoughActive within split idle runnable

theorem tidy_after {kernel : Kernel C} (tidy : kernel.processes.Tidy) (event : Event) :
    (kernel.after event).processes.Tidy := by
  cases event with
  | interrupt frame lines =>
      by_cases timer : lines.timer = true
      · have scheduled := (interrupt_of_timer kernel frame lines timer).2.1
        rw [after, scheduled]
        exact tidy.schedule kernel.memory frame
      · have same := (interrupt_of_no_timer kernel frame lines timer).1
        rw [after, same]
        exact tidy
  | call id arg =>
      change (kernel.dispatch id arg).state.processes.Tidy
      cases dispatch_effect kernel arg id with
      | created size pid processes memory called argument done succeeded answer stateEq =>
          rw [stateEq]
          exact tidy.create done
      | updated call number change processes called listed done succeeded stateEq =>
          rw [stateEq]
          exact tidy.update (onlyFlags_of_mem_flagCalls listed) done
      | granted size address memory called argument done succeeded answer stateEq =>
          rw [stateEq]
          exact tidy
      | released address memory called argument done succeeded stateEq =>
          rw [stateEq]
          exact tidy
      | apart processesKept =>
          rw [processesKept]
          exact tidy

theorem tidy_afterAll {kernel : Kernel C} (tidy : kernel.processes.Tidy) (events : List Event) :
    (kernel.afterAll events).processes.Tidy := by
  induction events generalizing kernel with
  | nil =>
      exact tidy
  | cons event rest inductionHypothesis =>
      exact inductionHypothesis (tidy_after tidy event)

theorem tidy_boot {kernel : Kernel C} {imageSize : UInt32} {pid : Pid}
    (booted : (kernel.boot imageSize).1 = .ok pid) : (kernel.boot imageSize).2.processes.Tidy := by
  obtain ⟨created, memory, started, creation, start, processesEq, _⟩ := boot_eq_ok booted
  rw [processesEq]
  have cleared := ProcessTable.Tidy.clear kernel.processes
  exact (cleared.create creation).update ProcessTable.onlyFlags_activate start

/-- What a run does that stops once on each runnable slot of those ahead. -/
structure Covers (kernel : Kernel C) (events : List Event) (upcoming : List Pid) : Prop where
  order : (kernel.stops events).map Prod.fst = runnableOf kernel.processes.slots upcoming
  running : ∀ stop ∈ kernel.stops events, stop.2.isRunnable = true
  reclaimed : kernel.reclaimed events = dyingOf kernel.processes.slots upcoming
  emptied : ∀ pid ∈ upcoming, kernel.processes.slots[pid].isDying = true →
    (kernel.afterAll events).processes.slots[pid] = .empty
  /-- An empty slot that is not under the cursor stays empty. -/
  empty : ∀ pid, kernel.processes.current ≠ pid → kernel.processes.slots[pid] = .empty →
    (kernel.afterAll events).processes.slots[pid] = .empty
  current : (kernel.afterAll events).processes.current =
    upcoming.getLast?.getD kernel.processes.current

namespace Covers

variable {kernel : Kernel C} {event : Event} {rest : List Event} {upcoming : List Pid}

theorem nothing (kernel : Kernel C) : Covers kernel [] [] := by
  refine ⟨rfl, ?_, rfl, ?_, fun _ _ empty => empty, rfl⟩
  · intro stop member
    cases member
  · intro pid member
    cases member

/-- An event that leaves the table alone may come before. -/
theorem before (covers : Covers (kernel.after event) rest upcoming)
    (spared : event.Avoids processOperations) (noTimer : event.isTimer ≠ true) :
    Covers kernel (event :: rest) upcoming := by
  have same := after_processes kernel spared noTimer
  have noStop : kernel.stops (event :: rest) = (kernel.after event).stops rest := by
    rw [stops, if_neg noTimer]
  have noReclaim : kernel.reclaimed (event :: rest) = (kernel.after event).reclaimed rest := by
    have nothingHere : kernel.reclaims event = [] := by
      cases event with
      | interrupt frame lines =>
          exact if_neg noTimer
      | call id arg =>
          rfl
    rw [Kernel.reclaimed, nothingHere, List.nil_append]
  obtain ⟨order, running, reclaimed, emptied, empty, current⟩ := covers
  rw [same] at order reclaimed emptied empty current
  refine ⟨?_, ?_, ?_, emptied, empty, current⟩
  · rw [noStop]
    exact order
  · rw [noStop]
    exact running
  · rw [noReclaim]
    exact reclaimed

/-- An interrupt of the timer that stops on the first runnable slot ahead may come before, if the
rest of the run covers the slots behind that one. -/
theorem beforeTimer {frame : TrapFrame} {lines : IrqLines} {pid : Pid} {passed later : List Pid}
    (timer : lines.timer = true)
    (idle : ∀ other ∈ passed, kernel.processes.slots[other].isRunnable ≠ true)
    (runnable : kernel.processes.slots[pid].isRunnable = true)
    (advance : Advance kernel.processes (kernel.after (.interrupt frame lines)).processes passed
      pid later)
    (reclaimsEq : kernel.reclaims (.interrupt frame lines) =
      dyingOf kernel.processes.slots passed)
    (covers : Covers (kernel.after (.interrupt frame lines)) rest later) :
    Covers kernel (.interrupt frame lines :: rest) (passed ++ pid :: later) := by
  let table := (kernel.after (.interrupt frame lines)).processes
  have stopsEq : kernel.stops (.interrupt frame lines :: rest) =
      (table.current, table.slots[table.current]) ::
        (kernel.after (.interrupt frame lines)).stops rest :=
    if_pos timer
  refine ⟨?_, ?_, ?_, ?_, ?_, ?_⟩
  · rw [stopsEq, List.map_cons, covers.order, ProcessTable.runnableOf_split idle runnable]
    exact congrArg₂ List.cons advance.current
      (ProcessTable.runnableOf_congr fun other _ => advance.isRunnable other)
  · rw [stopsEq]
    intro stop member
    rcases List.mem_cons.mp member with rfl | later
    · change table.slots[table.current].isRunnable = true
      rw [advance.isRunnable, advance.current]
      exact runnable
    · exact covers.running stop later
  · rw [Kernel.reclaimed, reclaimsEq, covers.reclaimed, ProcessTable.dyingOf_split runnable]
    exact congrArg (_ ++ ·) (ProcessTable.dyingOf_congr advance.later_isDying)
  · intro other member dying
    have different : pid ≠ other := by
      rintro rfl
      exact ProcessTable.not_isDying_of_isRunnable runnable dying
    rcases List.mem_append.mp member with inPassed | behind
    · exact covers.empty other (advance.current ▸ different)
        (advance.passed_empty other inPassed dying)
    · have inLater := (List.mem_cons.mp behind).resolve_left (Ne.symm different)
      exact covers.emptied other inLater ((advance.later_isDying other inLater).trans dying)
  · intro other away empty
    have different : pid ≠ other := by
      rintro rfl
      rw [empty, ProcessTable.isRunnable_empty] at runnable
      exact Bool.false_ne_true runnable
    exact covers.empty other (advance.current ▸ different) (advance.still_empty other away empty)
  · refine covers.current.trans ?_
    rw [List.getLast?_append, List.getLast?_cons]
    exact congrArg later.getLast?.getD advance.current

/-- A run that has an interrupt of the timer for each runnable slot among those ahead covers them,
if the last of them is runnable. -/
theorem run {events : List Event} {steps : Nat}
    (spared : ∀ event ∈ events, event.Avoids processOperations)
    (enough : 2 ≤ kernel.processes.runnableCount) (within : steps ≤ maxProcesses)
    (aheadEq : ahead steps kernel.processes.current = upcoming)
    (ends : ∀ last, upcoming.getLast? = some last →
      kernel.processes.slots[last].isRunnable = true)
    (counted : events.countP Event.isTimer =
      (runnableOf kernel.processes.slots upcoming).length) :
    Covers kernel events upcoming := by
  induction events generalizing kernel steps upcoming with
  | nil =>
      have noneRunnable := List.eq_nil_of_length_eq_zero counted.symm
      cases last : upcoming.getLast? with
      | none =>
          rw [List.getLast?_eq_none_iff.mp last]
          exact nothing kernel
      | some pid =>
          have member := List.mem_of_getLast? last
          exact absurd (ends pid last) (List.filter_eq_nil_iff.mp noneRunnable pid member)
  | cons event rest inductionHypothesis =>
      have sparedHere := spared event List.mem_cons_self
      have sparedRest : ∀ other ∈ rest, other.Avoids processOperations :=
        fun other member => spared other (List.mem_cons_of_mem event member)
      by_cases timer : event.isTimer = true
      · cases event with
        | call id arg =>
            cases timer
        | interrupt frame lines =>
            rw [List.countP_cons_of_pos timer] at counted
            have some : 0 < (runnableOf kernel.processes.slots upcoming).length := by
              omega
            obtain ⟨passed, pid, later, rfl, idle, runnable⟩ :=
              ProcessTable.exists_first_runnable some
            obtain ⟨advance, reclaimsEq⟩ :=
              interrupt_advances frame timer enough within aheadEq idle runnable
            have laterWithin : later.length ≤ maxProcesses := by
              have lengths := congrArg List.length aheadEq
              rw [ProcessTable.length_ahead, List.length_append, List.length_cons] at lengths
              omega
            have aheadLater : ahead later.length
                (kernel.after (.interrupt frame lines)).processes.current = later := by
              rw [advance.current]
              exact (ProcessTable.ahead_after aheadEq).symm
            refine beforeTimer timer idle runnable advance reclaimsEq
              (inductionHypothesis sparedRest ?_ laterWithin aheadLater ?_ ?_)
            · rw [advance.runnableCount]
              exact enough
            · intro last isLast
              rw [advance.isRunnable]
              refine ends last ?_
              rw [List.getLast?_append, List.getLast?_cons, isLast]
              rfl
            · rw [ProcessTable.runnableOf_split idle runnable, List.length_cons,
                Nat.add_right_cancel_iff] at counted
              rw [counted, ProcessTable.runnableOf_congr fun other _ => advance.isRunnable other]
      · have same := after_processes kernel sparedHere timer
        rw [List.countP_cons_of_neg timer] at counted
        rw [← same] at enough aheadEq ends counted
        exact (inductionHypothesis sparedRest enough within aheadEq ends counted).before sparedHere
          timer

end Covers

/-- A run in which every runnable slot gets its turn. -/
structure FullRound (kernel : Kernel C) (events : List Event) : Prop where
  /-- The slots that are selected, in the order of the table from the cursor on. -/
  order : (kernel.stops events).map Prod.fst =
    runnableOf kernel.processes.slots (lap kernel.processes.current)
  each : ∀ pid, pid ∈ (kernel.stops events).map Prod.fst ↔
    kernel.processes.slots[pid].isRunnable = true
  once : ((kernel.stops events).map Prod.fst).Nodup
  /-- The cursor is on a runnable slot after each interrupt. -/
  running : ∀ stop ∈ kernel.stops events, stop.2.isRunnable = true
  /-- No free slot is selected, since free slots have no flags in any table that is ever reached. -/
  occupied : kernel.processes.Tidy → ∀ pid ∈ (kernel.stops events).map Prod.fst,
    kernel.processes.slots[pid].isFree = false
  /-- An interrupt gives back the blocks that the slots it reclaims had when the run began, and no
  others, whatever clients do with the memory in between. -/
  givesBack : ∀ earlier frame lines later, events = earlier ++ .interrupt frame lines :: later →
    let now := kernel.afterAll earlier
    now.memory.Sound →
      GivesBack kernel.processes.slots (now.reclaims (.interrupt frame lines)) now.memory
        (now.after (.interrupt frame lines)).memory
  /-- From a runnable slot the cursor goes all the way round. -/
  round : kernel.processes.slots[kernel.processes.current].isRunnable = true →
    let dead := dyingOf kernel.processes.slots (lap kernel.processes.current)
    (kernel.afterAll events).processes.current = kernel.processes.current ∧
      kernel.reclaimed events = dead ∧
      (∀ pid : Pid, kernel.processes.slots[pid].isDying = true →
        pid ∈ dead ∧ (kernel.afterAll events).processes.slots[pid] = .empty) ∧
      (kernel.memory.Sound → (∀ event ∈ events, event.Avoids memoryOperations) →
        GivesBack kernel.processes.slots dead kernel.memory (kernel.afterAll events).memory)

/-- With two runnable slots or more, as many interrupts of the timer as there are runnable slots
select each of them once, in the order of the table, whatever else happens in between that operates
on no process.  If the cursor comes back to where it started, every dying slot has been emptied and
its memory has been given back. -/
theorem rotation_complete (kernel : Kernel C) (events : List Event)
    (spared : ∀ event ∈ events, event.Avoids processOperations)
    (enough : 2 ≤ kernel.processes.runnableCount)
    (counted : events.countP Event.isTimer = kernel.processes.runnableCount) :
    kernel.FullRound events := by
  have within : kernel.processes.round.length ≤ maxProcesses := by
    rw [← ProcessTable.length_ahead maxProcesses kernel.processes.current]
    exact (ProcessTable.round_extends kernel.processes).length_le
  have selected := ProcessTable.runnableOf_round kernel.processes
  -- The run ends on the last runnable slot of the lap, so it covers the lap up to that slot.
  have covers : Covers kernel events kernel.processes.round := by
    refine Covers.run spared enough within (ProcessTable.ahead_round kernel.processes)
      (fun _ => ProcessTable.round_ends) ?_
    rw [counted, selected, ProcessTable.length_runnableOf_lap]
  have order := covers.order.trans selected
  have each : ∀ pid, pid ∈ (kernel.stops events).map Prod.fst ↔
      kernel.processes.slots[pid].isRunnable = true := by
    intro pid
    rw [order, runnableOf, List.mem_filter]
    exact and_iff_right (ProcessTable.mem_lap kernel.processes.current pid)
  refine ⟨order, each, ?_, covers.running, ?_, ?_, ?_⟩
  · rw [order]
    exact (ProcessTable.lap_nodup kernel.processes.current).filter _
  · intro tidy pid member
    have runnable := (each pid).mp member
    cases free : kernel.processes.slots[pid].isFree with
    | false =>
        rfl
    | true =>
        rw [Process.isRunnable, Process.isActive, tidy pid free] at runnable
        exact absurd runnable Bool.false_ne_true
  · intro earlier frame lines later split now sound
    have sparedEarlier : ∀ event ∈ earlier, event.Avoids processOperations := by
      intro event member
      rw [split] at spared
      exact spared event (List.mem_append_left _ member)
    exact interrupt_givesBack sparedEarlier frame lines sound
  · intro runnable dead
    have whole := ProcessTable.round_eq_lap runnable
    rw [whole] at covers
    refine ⟨?_, covers.reclaimed, ?_, ?_⟩
    · rw [covers.current, ProcessTable.lap_getLast?]
      rfl
    · intro pid dying
      have inLap := ProcessTable.mem_lap kernel.processes.current pid
      exact ⟨List.mem_filter.mpr ⟨inLap, dying⟩, covers.emptied pid inLap dying⟩
    · intro sound quiet
      rw [afterAll_memory spared quiet, covers.reclaimed]
      exact ProcessTable.releaseAll_givesBack sound dead

/-- Four processes of which the third was killed and the last one stopped, with the cursor on the
first. -/
def fourCreated : Kernel ReplayedUart :=
  (quiet.boot 8192).2.afterAll
    [.call 6 (.uint32 1), .call 6 (.uint32 1), .call 6 (.uint32 1), .call 7 (.uint32 1),
      .call 7 (.uint32 2), .call 7 (.uint32 3), .call 9 (.uint32 2), .call 8 (.uint32 3)]

/-- Once round with a client that takes memory meanwhile, and once without; the block of the killed
process is given back. -/
theorem rotation_complete_fourCreated :
    let first : Event := .interrupt (TrapFrame.zero.setPc 8) .all
    let second : Event := .interrupt .zero .all
    let busy := [first, .call 13 (.uint32 1), second]
    let start := fourCreated.processes
    let after := fourCreated.afterAll [first, second]
    (∀ event ∈ busy, event.Avoids processOperations) ∧ 2 ≤ start.runnableCount ∧
      busy.countP Event.isTimer = start.runnableCount ∧ fourCreated.FullRound busy ∧
      fourCreated.FullRound [first, second] ∧ start.Tidy ∧ fourCreated.memory.Sound ∧
      runnableOf start.slots (lap start.current) = [1, 0] ∧
      dyingOf start.slots (lap start.current) = [2] ∧
      GivesBack start.slots [2] fourCreated.memory after.memory ∧
      (Memory.usedExtents fourCreated.memory.extents).length = 4 ∧
      (Memory.usedExtents after.memory.extents).length = 3 := by
  intro first second busy start after
  have spared : ∀ event ∈ busy, event.Avoids processOperations := by
    decide +kernel
  have enough : 2 ≤ start.runnableCount := by
    decide +kernel
  have counted : busy.countP Event.isTimer = start.runnableCount := by
    decide +kernel
  have booted : (quiet.boot 8192).1 = .ok 0 := by
    decide +kernel
  have suited : quiet.memory.region.Suited :=
    ⟨⟨12, rfl⟩, by decide, by decide, by decide⟩
  have sound : fourCreated.memory.Sound :=
    (afterAll_sound (Kept.boot suited booted).owned.sound (by decide +kernel) _).1
  have calm := rotation_complete fourCreated [first, second] (by decide +kernel) enough counted
  have dead : dyingOf start.slots (lap start.current) = [2] := by
    decide +kernel
  have given := (calm.round (by decide +kernel)).2.2.2 sound (by decide +kernel)
  rw [dead] at given
  refine ⟨spared, enough, counted, rotation_complete fourCreated busy spared enough counted, calm,
    tidy_afterAll (tidy_boot booted) _, sound, ?_, dead, given, ?_, ?_⟩
  · decide +kernel
  · decide +kernel
  · decide +kernel

end Kernel

end Microkernel
