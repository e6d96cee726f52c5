import Microkernel.Proofs.Kernel.Events

/-!
# The first frame of a new process

A process is created with a frame that starts it at its base.  What the process is first resumed
with is the frame that its slot holds when the cursor comes to it from another slot.  That need not
be the first frame: the cursor may rest on the slot while the process is created there, after a
round that found no runnable process and reclaimed the slot, and it then saves the frame that was
running in the slot as it moves on.  `first_resume_iff` says that nothing else comes between, and
`resumed_with_another_frame` is a run in which this happens.
-/

namespace Microkernel

open Memory (Allocator)

/-- The frame in which a process starts at its base, with the configured return address and stack
pointer and with zero in every other register. -/
structure ProcessConfig.Starts (config : ProcessConfig) (base : UInt32) (frame : TrapFrame) :
    Prop where
  pc : frame.pc = base
  ra : frame.ra = config.exitStub
  sp : frame.sp = config.initialSp
  rest : ∀ index : Fin 32, 3 ≤ index.val → frame.words[index] = 0

private theorem firstFrame_starts (table : ProcessTable) (base : UInt32) :
    table.config.Starts base (table.firstFrame base) := by
  refine ⟨rfl, rfl, rfl, ?_⟩
  intro index high
  have indexNe : index.val ≠ 0 ∧ index.val ≠ 1 ∧ index.val ≠ 2 := by
    omega
  simp [getElem_fin, ProcessTable.firstFrame, TrapFrame.setPc, TrapFrame.setRa, TrapFrame.setSp,
    TrapFrame.zero, indexNe, Ne.symm]

namespace Kernel

variable {C : Type} [PolledController C]

/-- A call that answers with a new process in a slot. -/
def Creates (kernel : Kernel C) (pid : Pid) : Event → Prop
  | .call id arg =>
      SyscallId.ofCode? id = some .procCreate ∧ (kernel.dispatch id arg).ret.isOk = true ∧
        (kernel.dispatch id arg).arg.asUInt32? = some (UInt32.ofNat pid.val)
  | .interrupt _ _ => False

instance (kernel : Kernel C) (pid : Pid) : DecidablePred (kernel.Creates pid)
  | .call _ _ => inferInstanceAs (Decidable (_ ∧ _ ∧ _))
  | .interrupt _ _ => inferInstanceAs (Decidable False)

/-- An event that moves the cursor from another slot onto a slot. -/
def MovesOnto (kernel : Kernel C) (pid : Pid) (event : Event) : Prop :=
  kernel.processes.current ≠ pid ∧ (kernel.after event).processes.current = pid

instance (kernel : Kernel C) (pid : Pid) : DecidablePred (kernel.MovesOnto pid) :=
  fun _ => inferInstanceAs (Decidable (_ ∧ _))

/-- Events none of which moves the cursor from another slot onto a slot. -/
def NeverOnto (pid : Pid) : Kernel C → List Event → Prop
  | _, [] => True
  | kernel, event :: rest => ¬ kernel.MovesOnto pid event ∧ NeverOnto pid (kernel.after event) rest

instance decidableNeverOnto (pid : Pid) :
    (kernel : Kernel C) → (events : List Event) → Decidable (NeverOnto pid kernel events)
  | _, [] => inferInstanceAs (Decidable True)
  | kernel, event :: rest =>
      have := decidableNeverOnto pid (kernel.after event) rest
      inferInstanceAs (Decidable (_ ∧ _))

/-- The frame with which the cursor last left a slot, forgotten when a process is created there. -/
def noteLeft (kernel : Kernel C) (pid : Pid) (left : Option TrapFrame) (event : Event) :
    Option TrapFrame :=
  if kernel.Creates pid event then none
  else
    match event with
    | .call _ _ => left
    | .interrupt frame _ =>
        if kernel.processes.current = pid ∧ (kernel.after event).processes.current ≠ pid then
          some frame
        else left

/-- The frame with which the cursor left a slot in a run, since a process was last created there. -/
def leftWith (pid : Pid) : Kernel C → Option TrapFrame → List Event → Option TrapFrame
  | _, left, [] => left
  | kernel, left, event :: rest =>
      leftWith pid (kernel.after event) (kernel.noteLeft pid left event) rest

/-- The answer of a creating call names the slot in which the process was created. -/
theorem creates_eq_ok {kernel : Kernel C} {pid : Pid} {id : UInt32} {arg : Value}
    (creates : kernel.Creates pid (.call id arg)) :
    ∃ size processes memory,
      kernel.processes.create kernel.memory size = .ok pid (processes, memory) ∧
      (kernel.dispatch id arg).state.processes = processes := by
  obtain ⟨called, isOk, answered⟩ := creates
  have effect := dispatch_effect kernel arg id
  rw [called] at effect
  cases effect with
  | created size slot processes memory _ _ done _ answer stateEq =>
      rw [answer] at answered
      have wordEq : UInt32.ofNat slot.val = UInt32.ofNat pid.val := Option.some.inj answered
      have slotEq : slot = pid := by
        have numberEq := congrArg UInt32.toNat wordEq
        rw [toNat_ofNat_pid, toNat_ofNat_pid] at numberEq
        exact Fin.ext numberEq
      subst slotEq
      exact ⟨size, processes, memory, done, by rw [stateEq]⟩
  | updated id number change processes other listed =>
      obtain rfl := Option.some.inj other
      exact absurd listed procCreate_notMem_flagCalls
  | granted _ _ _ other =>
      cases other
  | released _ _ other =>
      cases other
  | apart _ _ silent =>
      exact absurd List.mem_cons_self (silent isOk)

private theorem noteLeft_of_creates {kernel : Kernel C} {pid : Pid} {event : Event}
    (creates : kernel.Creates pid event) (left : Option TrapFrame) :
    kernel.noteLeft pid left event = none :=
  if_pos creates

/-- A slot that the cursor is not on holds the frame with which the cursor left it, or the first
frame of its process if it was not left since, or nothing at all. -/
structure Awaits (config : ProcessConfig) (pid : Pid) (left : Option TrapFrame)
    (table : ProcessTable) : Prop where
  config_eq : table.config = config
  waits : table.current ≠ pid → table.slots[pid] = .empty ∨
    table.slots[pid].regs = left.getD (table.firstFrame table.slots[pid].base)

namespace Awaits

variable {config : ProcessConfig} {pid : Pid} {left : Option TrapFrame} {kernel : Kernel C}

/-- The slot of a process that was just created awaits the cursor with the first frame. -/
theorem creation {id : UInt32} {arg : Value} (configEq : kernel.processes.config = config)
    (creates : kernel.Creates pid (.call id arg)) :
    Awaits config pid none (kernel.dispatch id arg).state.processes := by
  obtain ⟨size, processes, memory, done, stateEq⟩ := creates_eq_ok creates
  obtain ⟨base, total, _, _, _, tableEq⟩ := ProcessTable.create_eq_ok done
  rw [stateEq, tableEq]
  refine ⟨configEq, fun _ => Or.inr ?_⟩
  have slotEq := getElem_put_self kernel.processes.slots pid
    ⟨base, total, .none, kernel.processes.firstFrame base⟩
  change ((kernel.processes.slots.put pid _)[pid]).regs =
    kernel.processes.firstFrame ((kernel.processes.slots.put pid _)[pid]).base
  rw [slotEq]

/-- A slot awaits the same as before if it was left alone, reclaimed, or had its flags changed. -/
theorem of_slot {table table' : ProcessTable} (awaits : Awaits config pid left table)
    (configEq : table'.config = table.config) (away : table'.current ≠ pid → table.current ≠ pid)
    (slotEq : table'.slots[pid] = .empty ∨ table'.slots[pid] = table.slots[pid] ∨
      table.slots[pid].isFree = false ∧
        ∃ flags, table'.slots[pid] = { table.slots[pid] with flags }) :
    Awaits config pid left table' := by
  refine ⟨configEq.trans awaits.config_eq, ?_⟩
  intro away'
  have waits := awaits.waits (away away')
  have firstEq : ∀ base, table'.firstFrame base = table.firstFrame base := by
    intro base
    rw [ProcessTable.firstFrame, configEq]
    rfl
  rcases slotEq with emptied | unchanged | ⟨occupied, flags, changed⟩
  · exact Or.inl emptied
  · rw [unchanged, firstEq]
    exact waits
  · rw [changed, firstEq]
    rcases waits with empty | regsEq
    · rw [empty] at occupied
      exact absurd occupied (by decide)
    · exact Or.inr regsEq

theorem dispatch (awaits : Awaits config pid left kernel.processes) (id : UInt32) (arg : Value) :
    Awaits config pid (kernel.noteLeft pid left (.call id arg))
      (kernel.dispatch id arg).state.processes := by
  by_cases creates : kernel.Creates pid (.call id arg)
  · rw [noteLeft_of_creates creates]
    exact creation awaits.config_eq creates
  · have unchangedLeft : kernel.noteLeft pid left (.call id arg) = left := if_neg creates
    rw [unchangedLeft]
    cases dispatch_effect kernel arg id with
    | created size slot processes memory called _ done succeeded answer stateEq =>
        have slotNe : slot ≠ pid := by
          intro equal
          subst slot
          refine creates ⟨called, ?_, ?_⟩
          · rw [succeeded]
            exact Value.isOk_ok
          · rw [answer]
            rfl
        obtain ⟨configEq, currentEq⟩ := ProcessTable.create_rest done
        rw [stateEq]
        refine awaits.of_slot configEq (fun away => currentEq ▸ away) (Or.inr (Or.inl ?_))
        exact ProcessTable.create_slot_of_ne slotNe done
    | updated _ number change processes _ listed done _ stateEq =>
        obtain ⟨configEq, currentEq⟩ := ProcessTable.update_rest done
        rw [stateEq]
        refine awaits.of_slot configEq (fun away => currentEq ▸ away) (Or.inr ?_)
        exact ProcessTable.update_slot (onlyFlags_of_mem_flagCalls listed) done pid
    | granted _ _ _ _ _ _ _ _ stateEq =>
        rw [stateEq]
        exact awaits
    | released _ _ _ _ _ _ stateEq =>
        rw [stateEq]
        exact awaits
    | apart processesKept =>
        rw [processesKept]
        exact awaits

theorem interrupt (awaits : Awaits config pid left kernel.processes) (frame : TrapFrame)
    (lines : IrqLines) (notOnto : ¬ kernel.MovesOnto pid (.interrupt frame lines)) :
    Awaits config pid (kernel.noteLeft pid left (.interrupt frame lines))
      (kernel.interrupt frame lines).state.processes := by
  have noted : kernel.noteLeft pid left (.interrupt frame lines) =
      if kernel.processes.current = pid ∧
        (kernel.interrupt frame lines).state.processes.current ≠ pid then some frame else left :=
    if_neg fun creates => creates
  rw [noted]
  by_cases timer : lines.timer = true
  · obtain ⟨_, processesEq, _⟩ := interrupt_of_timer kernel frame lines timer
    have configEq := ProcessTable.schedule_config kernel.processes kernel.memory frame
    simp only [MovesOnto, Kernel.after] at notOnto
    rw [processesEq] at notOnto ⊢
    by_cases here : kernel.processes.current = pid
    · subst pid
      by_cases leaves : (kernel.processes.schedule kernel.memory frame).2.1.current ≠
          kernel.processes.current
      · rw [if_pos ⟨rfl, leaves⟩]
        refine ⟨configEq.trans awaits.config_eq, fun _ => ?_⟩
        rcases ProcessTable.schedule_slot_of_leaves leaves with saved | emptied
        · exact Or.inr (congrArg Process.regs saved)
        · exact Or.inl emptied
      · rw [if_neg fun moved => leaves moved.2]
        exact ⟨configEq.trans awaits.config_eq, fun moved => absurd moved leaves⟩
    · rw [if_neg fun moved => here moved.1]
      refine awaits.of_slot configEq (fun _ => here) ?_
      rcases ProcessTable.schedule_slot_of_ne kernel.memory frame here with
        unchanged | ⟨_, emptied⟩
      · exact Or.inr (Or.inl unchanged)
      · exact Or.inl emptied
  · obtain ⟨processesEq, _⟩ := interrupt_of_no_timer kernel frame lines timer
    rw [processesEq, if_neg fun moved => moved.2 moved.1]
    exact awaits

theorem after (awaits : Awaits config pid left kernel.processes) {event : Event}
    (notOnto : ¬ kernel.MovesOnto pid event) :
    Awaits config pid (kernel.noteLeft pid left event) (kernel.after event).processes := by
  cases event with
  | call id arg =>
      exact awaits.dispatch id arg
  | interrupt frame lines =>
      exact awaits.interrupt frame lines notOnto

theorem afterAll (awaits : Awaits config pid left kernel.processes) {events : List Event}
    (neverOnto : NeverOnto pid kernel events) :
    Awaits config pid (leftWith pid kernel left events) (kernel.afterAll events).processes := by
  induction events generalizing kernel left with
  | nil =>
      exact awaits
  | cons event rest inductionHypothesis =>
      obtain ⟨notOnto, later⟩ := neverOnto
      exact inductionHypothesis (awaits.after notOnto) later

/-- A slot that the cursor moves onto is resumed with the frame that it awaited the cursor
with. -/
theorem resumed (awaits : Awaits config pid left kernel.processes) {frame : TrapFrame}
    {lines : IrqLines} (onto : kernel.MovesOnto pid (.interrupt frame lines)) :
    (kernel.interrupt frame lines).frame =
      left.getD (kernel.processes.firstFrame kernel.processes.slots[pid].base) := by
  obtain ⟨away, moved⟩ := onto
  simp only [Kernel.after] at moved
  by_cases timer : lines.timer = true
  · obtain ⟨frameEq, processesEq, _⟩ := interrupt_of_timer kernel frame lines timer
    rw [processesEq] at moved
    obtain ⟨runnable, resumedEq⟩ := ProcessTable.schedule_frame_of_moves away moved
    rw [frameEq, resumedEq]
    rcases awaits.waits away with empty | regsEq
    · rw [empty, ProcessTable.isRunnable_empty] at runnable
      exact absurd runnable Bool.false_ne_true
    · exact regsEq
  · obtain ⟨processesEq, _⟩ := interrupt_of_no_timer kernel frame lines timer
    rw [processesEq] at moved
    exact absurd moved away

end Awaits

/-- A call does not move the cursor. -/
theorem dispatch_current (kernel : Kernel C) (id : UInt32) (arg : Value) :
    (kernel.dispatch id arg).state.processes.current = kernel.processes.current := by
  cases dispatch_effect kernel arg id with
  | created _ _ _ _ _ _ done _ _ stateEq =>
      rw [stateEq]
      exact (ProcessTable.create_rest done).2
  | updated _ _ _ _ _ _ done _ stateEq =>
      rw [stateEq]
      exact (ProcessTable.update_rest done).2
  | granted _ _ _ _ _ _ _ _ stateEq =>
      rw [stateEq]
  | released _ _ _ _ _ _ stateEq =>
      rw [stateEq]
  | apart processesKept =>
      rw [processesKept]

/-- A slot that the cursor is never on is never left. -/
theorem leftWith_of_away {kernel : Kernel C} {pid : Pid} {events : List Event}
    (away : kernel.processes.current ≠ pid) (neverOnto : NeverOnto pid kernel events) :
    leftWith pid kernel none events = none := by
  induction events generalizing kernel with
  | nil =>
      rfl
  | cons event rest inductionHypothesis =>
      obtain ⟨notOnto, later⟩ := neverOnto
      have awayNext : (kernel.after event).processes.current ≠ pid :=
        fun onto => notOnto ⟨away, onto⟩
      have notLeft : kernel.noteLeft pid none event = none := by
        unfold noteLeft
        split
        · rfl
        · split
          · rfl
          · exact if_neg fun moved => away moved.1
      rw [leftWith, notLeft]
      exact inductionHypothesis awayNext later

/-- The first interrupt that moves the cursor from another slot onto a new process resumes the
process at its base exactly if the cursor has not left its slot since it was created, or left it
with such a frame.  The cursor cannot have left the slot if it was elsewhere at the creation. -/
theorem first_resume_iff (kernel : Kernel C) (pid : Pid) (id : UInt32) (arg : Value)
    (creates : kernel.Creates pid (.call id arg)) (events : List Event)
    (neverOnto : NeverOnto pid (kernel.after (.call id arg)) events)
    (frame : TrapFrame) (lines : IrqLines)
    (onto : ((kernel.after (.call id arg)).afterAll events).MovesOnto pid
      (.interrupt frame lines)) :
    let reached := (kernel.after (.call id arg)).afterAll events
    let base := reached.processes.slots[pid].base
    let left := leftWith pid (kernel.after (.call id arg)) none events
    (kernel.processes.config.Starts base (reached.interrupt frame lines).frame ↔
        ∀ last ∈ left, kernel.processes.config.Starts base last) ∧
      (kernel.processes.current ≠ pid → left = none) := by
  intro reached base left
  have awaits : Awaits kernel.processes.config pid left reached.processes :=
    (Awaits.creation rfl creates).afterAll neverOnto
  have resumed := awaits.resumed onto
  refine ⟨?_, ?_⟩
  · rw [resumed]
    cases lastLeft : left with
    | none =>
        have starts := firstFrame_starts reached.processes base
        rw [awaits.config_eq] at starts
        refine iff_of_true starts ?_
        intro last member
        cases member
    | some last =>
        simp
  · intro away
    rw [← dispatch_current kernel id arg] at away
    exact leftWith_of_away away neverOnto

/-- A kernel whose second process was killed and reclaimed while the first one ran. -/
def secondReclaimed : Kernel ReplayedUart :=
  (quiet.boot 8192).2.afterAll
    [.call 6 (.uint32 1), .call 7 (.uint32 1), .call 9 (.uint32 1), .interrupt .zero .all]

/-- The kernel after the second process was created anew and started. -/
def secondRecreated : Kernel ReplayedUart :=
  (secondReclaimed.after (.call 6 (.uint32 70000))).afterAll [.call 7 (.uint32 1)]

theorem first_resume_recreated :
    secondReclaimed.Creates 1 (.call 6 (.uint32 70000)) ∧
      NeverOnto 1 (secondReclaimed.after (.call 6 (.uint32 70000))) [.call 7 (.uint32 1)] ∧
      secondRecreated.MovesOnto 1 (.interrupt .zero .all) ∧
      secondReclaimed.processes.config.Starts secondRecreated.processes.slots[1].base
        (secondRecreated.interrupt .zero .all).frame := by
  have creates : secondReclaimed.Creates 1 (.call 6 (.uint32 70000)) := by
    decide +kernel
  have neverOnto : NeverOnto 1 (secondReclaimed.after (.call 6 (.uint32 70000)))
      [.call 7 (.uint32 1)] := by
    decide +kernel
  have onto : secondRecreated.MovesOnto 1 (.interrupt .zero .all) := by
    decide +kernel
  have away : secondReclaimed.processes.current ≠ 1 := by
    decide +kernel
  obtain ⟨starts, notLeft⟩ := first_resume_iff secondReclaimed 1 6 (.uint32 70000) creates
    [.call 7 (.uint32 1)] neverOnto .zero .all onto
  refine ⟨creates, neverOnto, onto, starts.mpr ?_⟩
  rw [notLeft away]
  intro last member
  cases member

/-- A kernel whose only two processes were killed and reclaimed, with the cursor left on the first
slot. -/
def bothReclaimed : Kernel ReplayedUart :=
  (quiet.boot 8192).2.afterAll
    [.call 6 (.uint32 8192), .call 7 (.uint32 1), .call 9 (.uint32 0), .call 9 (.uint32 1),
      .interrupt (TrapFrame.zero.setPc 100) .all]

/-- Two new processes are created and started there, and the timer interrupts what runs. -/
def bothRecreated : List Event :=
  [.call 7 (.uint32 0), .call 6 (.uint32 8192), .call 7 (.uint32 1),
    .interrupt (TrapFrame.zero.setPc 200) .all]

/-- The process that is created under the cursor is first resumed with the frame of what was
running when it was created, and not at its base. -/
theorem resumed_with_another_frame :
    let reached := (bothReclaimed.after (.call 6 (.uint32 8192))).afterAll bothRecreated
    let resumed := reached.interrupt (TrapFrame.zero.setPc 300) .all
    bothReclaimed.Creates 0 (.call 6 (.uint32 8192)) ∧
      NeverOnto 0 (bothReclaimed.after (.call 6 (.uint32 8192))) bothRecreated ∧
      reached.MovesOnto 0 (.interrupt (TrapFrame.zero.setPc 300) .all) ∧
      resumed.frame = TrapFrame.zero.setPc 200 ∧
      ¬ bothReclaimed.processes.config.Starts reached.processes.slots[0].base resumed.frame := by
  refine ⟨?_, ?_, ?_, ?_, ?_⟩
  · decide +kernel
  · decide +kernel
  · decide +kernel
  · decide +kernel
  · refine fun starts => absurd starts.pc ?_
    decide +kernel

end Kernel

end Microkernel
