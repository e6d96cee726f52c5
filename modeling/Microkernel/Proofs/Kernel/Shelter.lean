import Microkernel.Proofs.Kernel.Ledger
import Microkernel.Proofs.Kernel.Reclaims
import Microkernel.Proofs.Process.Killed

/-!
# The memory under a process

The allocator releases a block for whoever names its address, and knows nothing of the processes.
A process therefore keeps a block of its own exactly as long as no client names the address of a
process; then only the scheduler takes the block back, once the process was killed.
-/

namespace Microkernel

open Memory (Allocator)
open ProcessTable (Condemned Vacated)

namespace Kernel

variable {C : Type}

/-- Every process has its memory in a used block, and no two share a byte. -/
structure Sheltered (kernel : Kernel C) : Prop where
  backed : ∀ pid : Pid, kernel.processes.slots[pid].isFree = false →
    kernel.memory.Backs kernel.processes.slots[pid].base kernel.processes.slots[pid].size
  apart : ∀ pid other : Pid, pid ≠ other →
    let process := kernel.processes.slots[pid]
    let stranger := kernel.processes.slots[other]
    process.isFree = false → stranger.isFree = false →
      process.base.toNat + process.size.toNat ≤ stranger.base.toNat ∨
        stranger.base.toNat + stranger.size.toNat ≤ process.base.toNat

instance (kernel : Kernel C) : Decidable kernel.Sheltered :=
  decidable_of_iff (_ ∧ _)
    ⟨fun both => ⟨both.1, both.2⟩, fun sheltered => ⟨sheltered.backed, sheltered.apart⟩⟩

namespace Kept

variable {kernel : Kernel C} {region : Memory.Region} {config : ProcessConfig} {ledger : Ledger}

private theorem sheltered (kept : Kept region config kernel ledger) : kernel.Sheltered := by
  refine ⟨fun _ => kept.backed, ?_⟩
  intro pid other different process stranger occupied otherOccupied
  have basesDiffer := kept.owned.base_ne different occupied otherOccupied
  exact (kept.backed occupied).apart (kept.backed otherOccupied) kept.owned.sound
    (Ne.symm basesDiffer)

end Kept

variable [PolledController C]

/-- A process is still there after an event, with the same memory behind it. -/
def Retains (kernel : Kernel C) (event : Event) (pid : Pid) : Prop :=
  let process := kernel.processes.slots[pid]
  let kept := (kernel.after event).processes.slots[pid]
  kept.base = process.base ∧ kept.size = process.size ∧
    (kernel.after event).memory.Backs process.base process.size

/-- A client names an address for release, or a killed process at that address is reclaimed. -/
def TakesBack (kernel : Kernel C) (event : Event) (address : UInt32) : Prop :=
  (∃ id, SyscallId.ofCode? id = some .memFree ∧ event = .call id (.uint32 address)) ∨
    ∃ pid ∈ kernel.reclaims event, kernel.processes.slots[pid].isDying = true ∧
      kernel.processes.slots[pid].base = address

variable {kernel : Kernel C}

/-- A process that is not reclaimed keeps its memory in the table. -/
theorem after_slot {event : Event} {pid : Pid}
    (occupied : kernel.processes.slots[pid].isFree = false)
    (spared : pid ∉ kernel.reclaims event) :
    (kernel.after event).processes.slots[pid].base = kernel.processes.slots[pid].base ∧
      (kernel.after event).processes.slots[pid].size = kernel.processes.slots[pid].size := by
  cases event with
  | interrupt frame lines =>
      rw [after]
      by_cases timer : lines.timer = true
      · rw [reclaims, if_pos timer] at spared
        obtain ⟨regs, slotEq⟩ := ProcessTable.schedule_slot_of_notMem spared
        rw [(interrupt_of_timer kernel frame lines timer).2.1, slotEq]
        exact ⟨rfl, rfl⟩
      · rw [(interrupt_of_no_timer kernel frame lines timer).1]
        exact ⟨rfl, rfl⟩
  | call id arg =>
      rw [after]
      cases dispatch_effect kernel arg id with
      | created size slot processes memory called argument done succeeded answer stateEq =>
          obtain ⟨_, _, found, _⟩ := ProcessTable.create_eq_ok done
          have elsewhere : slot ≠ pid := by
            rintro rfl
            rw [ProcessTable.freeSlot?_eq_some found] at occupied
            exact Bool.false_ne_true occupied.symm
          rw [stateEq, ProcessTable.create_slot_of_ne elsewhere done]
          exact ⟨rfl, rfl⟩
      | updated call number change processes called listed done succeeded stateEq =>
          have flagsOnly := onlyFlags_of_mem_flagCalls listed
          rw [stateEq]
          rcases ProcessTable.update_slot flagsOnly done pid with unchanged | ⟨_, flags, changed⟩
          · rw [unchanged]
            exact ⟨rfl, rfl⟩
          · rw [changed]
            exact ⟨rfl, rfl⟩
      | granted size address memory called argument done succeeded answer stateEq =>
          rw [stateEq]
          exact ⟨rfl, rfl⟩
      | released address memory called argument done succeeded stateEq =>
          rw [stateEq]
          exact ⟨rfl, rfl⟩
      | apart processesKept =>
          rw [processesKept]
          exact ⟨rfl, rfl⟩

/-- A block outlasts every event that does not take it back. -/
theorem after_backs {event : Event} {base size : UInt32} (sound : kernel.memory.Sound)
    (minBlock_pos : 0 < kernel.memory.region.minBlock.toNat)
    (backed : kernel.memory.Backs base size) (untouched : ¬ kernel.TakesBack event base) :
    (kernel.after event).memory.Backs base size := by
  obtain ⟨notNamed, notReclaimed⟩ := not_or.mp untouched
  cases event with
  | interrupt frame lines =>
      rw [after, interrupt_memory]
      apply (ProcessTable.releaseAll_backs_iff sound _ backed).mpr
      intro pid member sameBase
      exact notReclaimed ⟨pid, member, isDying_of_mem_reclaims member, sameBase⟩
  | call id arg =>
      rw [after]
      cases dispatch_effect kernel arg id with
      | created size slot processes memory called argument done succeeded answer stateEq =>
          obtain ⟨_, _, _, _, allocated, _⟩ := ProcessTable.create_eq_ok done
          rw [stateEq]
          exact backed.alloc sound minBlock_pos allocated
      | updated call number change processes called listed done succeeded stateEq =>
          rw [stateEq]
          exact backed
      | granted size address memory called argument done succeeded answer stateEq =>
          rw [stateEq]
          exact backed.alloc sound minBlock_pos done
      | released address memory called argument done succeeded stateEq =>
          have elsewhere : base ≠ address := by
            rintro rfl
            exact notNamed ⟨id, called, congrArg (Event.call id) argument⟩
          rw [stateEq]
          exact backed.free sound done elsewhere
      | apart processesKept memoryKept =>
          rw [memoryKept]
          exact backed

theorem retains_or_takesBack (sound : kernel.memory.Sound)
    (minBlock_pos : 0 < kernel.memory.region.minBlock.toNat) (event : Event) {pid : Pid}
    (occupied : kernel.processes.slots[pid].isFree = false)
    (backed : kernel.memory.Backs kernel.processes.slots[pid].base
      kernel.processes.slots[pid].size) :
    kernel.Retains event pid ∨ kernel.TakesBack event kernel.processes.slots[pid].base := by
  by_cases taken : kernel.TakesBack event kernel.processes.slots[pid].base
  · exact Or.inr taken
  · have spared : pid ∉ kernel.reclaims event := by
      intro member
      exact taken (Or.inr ⟨pid, member, isDying_of_mem_reclaims member, rfl⟩)
    obtain ⟨baseEq, sizeEq⟩ := after_slot occupied spared
    exact Or.inl ⟨baseEq, sizeEq, after_backs sound minBlock_pos backed taken⟩

/-- A client that names the address of a process takes the block from under it. -/
theorem not_sheltered_of_named {id : UInt32} {address : UInt32} {pid : Pid}
    (sheltered : kernel.Sheltered) (sound : kernel.memory.Sound)
    (called : SyscallId.ofCode? id = some .memFree)
    (occupied : kernel.processes.slots[pid].isFree = false)
    (named : kernel.processes.slots[pid].base = address) :
    ¬ (kernel.after (.call id (.uint32 address))).Sheltered := by
  intro shelteredAfter
  have backed := sheltered.backed pid occupied
  obtain ⟨memory, done⟩ := Allocator.free_of_mem_usedStarts (backed.mem_usedStarts sound)
  rw [named] at done
  have stateEq : kernel.after (.call id (.uint32 address)) = { kernel with memory } := by
    have served := perform_memFree kernel (.uint32 address)
    simp only [Value.asUInt32?, done] at served
    rw [after, dispatch_eq, called]
    exact congrArg Served.state served
  rw [stateEq] at shelteredAfter
  have backedAfter := shelteredAfter.backed pid occupied
  rw [← named] at done
  exact Allocator.not_backs_of_free sound done backedAfter

private theorem sparesAll_append {earlier later : List Event} :
    kernel.SparesAll (earlier ++ later) ↔
      kernel.SparesAll earlier ∧ (kernel.afterAll earlier).SparesAll later := by
  induction earlier generalizing kernel with
  | nil =>
      exact (and_iff_right trivial).symm
  | cons event rest inductionHypothesis =>
      exact (and_congr_right' inductionHypothesis).trans and_assoc.symm

/-- Processes that are sheltered all along were never named by a client. -/
theorem sparesAll_of_sheltered {events : List Event} (sound : kernel.memory.Sound)
    (minBlock_pos : 0 < kernel.memory.region.minBlock.toNat)
    (sheltered : ∀ earlier later, events = earlier ++ later →
      (kernel.afterAll earlier).Sheltered) : kernel.SparesAll events := by
  induction events generalizing kernel with
  | nil =>
      trivial
  | cons event rest inductionHypothesis =>
      have shelteredNow : kernel.Sheltered := sheltered [] _ rfl
      have shelteredNext : (kernel.after event).Sheltered := sheltered [event] rest rfl
      refine ⟨?_, ?_⟩
      · unfold Spares
        split
        · intro called pid occupied named
          exact not_sheltered_of_named shelteredNow sound called occupied named shelteredNext
        · trivial
      · obtain ⟨soundNow, regionNow⟩ := after_sound sound minBlock_pos event
        rw [← regionNow] at minBlock_pos
        apply inductionHypothesis soundNow minBlock_pos
        intro earlier later split
        exact sheltered (event :: earlier) later (congrArg (event :: ·) split)

/-- Of a process that no client names only a reclaim takes the memory, and only its own. -/
theorem Kept.retains_or_reclaimed {region : Memory.Region} {config : ProcessConfig}
    {ledger : Ledger} {event : Event} {pid : Pid} (kept : Kept region config kernel ledger)
    (minBlock_pos : 0 < region.minBlock.toNat) (spared : kernel.Spares event)
    (occupied : kernel.processes.slots[pid].isFree = false) :
    kernel.Retains event pid ∨
      pid ∈ kernel.reclaims event ∧ kernel.processes.slots[pid].isDying = true := by
  rw [← kept.owned.region_eq] at minBlock_pos
  rcases retains_or_takesBack kept.owned.sound minBlock_pos event occupied (kept.backed occupied)
    with retained | ⟨id, called, rfl⟩ | ⟨other, member, dying, sameBase⟩
  · exact Or.inl retained
  · exact absurd rfl (spared called pid occupied)
  · have otherOccupied := kept.owned.not_isFree_of_isDying dying
    have same : pid = other := by
      by_contra different
      exact kept.owned.base_ne different occupied otherOccupied sameBase
    subst other
    exact Or.inr ⟨member, dying⟩

/-- On every table that is reached while clients spare the processes, a killed process keeps its
memory until its slot is emptied, whatever operations on processes follow. -/
theorem killed_waits (suited : kernel.memory.region.Suited) {imageSize : UInt32} {pid : Pid}
    (booted : (kernel.boot imageSize).1 = .ok pid) {events : List Event}
    (spared : (kernel.boot imageSize).2.SparesAll events) :
    let now := (kernel.boot imageSize).2.afterAll events
    ∀ pid : Pid, now.processes.slots[pid].isDying = true →
      ∀ operations, Operation.Uncreated pid operations (now.processes, now.memory) →
        let killed := now.processes.slots[pid]
        let reached := Operation.performAll operations (now.processes, now.memory)
        Vacated reached.1.slots[pid] ∨
          Condemned killed reached.1.slots[pid] ∧ reached.2.Backs killed.base killed.size := by
  intro now pid dying operations uncreated
  have owned := ((Kept.boot suited booted).afterAll suited spared).owned
  have tenant := owned.soleTenant (UInt32.le_iff_toNat_le.mp suited.minBlock_pos)
    (owned.not_isFree_of_isDying dying)
  refine (ProcessTable.condemned_performAll dying uncreated).imp_right ?_
  rintro ⟨condemned, backed⟩
  exact ⟨condemned, backed tenant⟩

/-- After a successful boot every process keeps a block of its own exactly in those runs in which
no client names the address of a process for release.  In these only the reclaim of a killed
process takes its memory; in all others a client may. -/
theorem sheltered_iff_spared (kernel : Kernel C) (suited : kernel.memory.region.Suited)
    (imageSize : UInt32) (pid : Pid) (booted : (kernel.boot imageSize).1 = .ok pid)
    (events : List Event) :
    let start := (kernel.boot imageSize).2
    ((∀ earlier later, events = earlier ++ later → (start.afterAll earlier).Sheltered) ↔
        start.SparesAll events) ∧
      ∀ earlier event later, events = earlier ++ event :: later →
        let now := start.afterAll earlier
        ∀ pid : Pid,
          let process := now.processes.slots[pid]
          process.isFree = false →
            (start.SparesAll events → now.Retains event pid ∨
              pid ∈ now.reclaims event ∧ process.isDying = true) ∧
            (now.memory.Backs process.base process.size →
              now.Retains event pid ∨ now.TakesBack event process.base) := by
  intro start
  have kept := Kept.boot suited booted
  have minBlock_pos : 0 < kernel.memory.region.minBlock.toNat :=
    UInt32.le_iff_toNat_le.mp suited.minBlock_pos
  have startMinBlock_pos : 0 < start.memory.region.minBlock.toNat := by
    rw [kept.owned.region_eq]
    exact minBlock_pos
  refine ⟨⟨sparesAll_of_sheltered kept.owned.sound startMinBlock_pos, ?_⟩, ?_⟩
  · intro spared earlier later split
    rw [split] at spared
    exact (kept.afterAll suited (sparesAll_append.mp spared).1).sheltered
  · intro earlier event later split now pid process occupied
    refine ⟨?_, ?_⟩
    · intro spared
      rw [split] at spared
      obtain ⟨sparedBefore, sparedNow, _⟩ := sparesAll_append.mp spared
      exact (kept.afterAll suited sparedBefore).retains_or_reclaimed minBlock_pos sparedNow occupied
    · intro backed
      obtain ⟨sound, regionEq⟩ := afterAll_sound kept.owned.sound startMinBlock_pos earlier
      rw [← regionEq] at startMinBlock_pos
      exact retains_or_takesBack sound startMinBlock_pos event occupied backed

/-- The kernel's own process is killed and reclaimed while a client holds memory, and the block
goes to a new process. -/
theorem sheltered_iff_spared_reclaimed :
    let start := (quiet.boot 8192).2
    let events : List Event :=
      [.call 6 (.uint32 40000), .call 13 (.uint32 70000), .call 7 (.uint32 1), .call 9 (.uint32 0),
        .interrupt .zero .all, .interrupt .zero .all, .call 6 (.uint32 3)]
    quiet.memory.region.Suited ∧ (quiet.boot 8192).1 = .ok 0 ∧ start.SparesAll events ∧
      ∀ earlier later, events = earlier ++ later → (start.afterAll earlier).Sheltered := by
  intro start events
  have suited : quiet.memory.region.Suited :=
    ⟨⟨12, rfl⟩, by decide, by decide, by decide⟩
  have booted : (quiet.boot 8192).1 = .ok 0 := by
    decide +kernel
  have spared : start.SparesAll events := by
    decide +kernel
  refine ⟨suited, booted, spared, ?_⟩
  exact (sheltered_iff_spared quiet suited 8192 0 booted events).1.mpr spared

/-- A client gives back the memory of the kernel's own process, which is alive, and a process that
is created afterwards gets the same memory. -/
theorem memory_taken_from_process :
    let start := (quiet.boot 8192).2
    let freed := start.afterAll [.call 14 (.uint32 0x40000000)]
    let shared := freed.afterAll [.call 6 (.uint32 8192)]
    (quiet.boot 8192).1 = .ok 0 ∧ start.Sheltered ∧ ¬ freed.Sheltered ∧ ¬ shared.Sheltered ∧
      freed.processes.slots[(0 : Pid)].isFree = false ∧
      freed.processes.slots[(0 : Pid)].isDying = false ∧
      ¬ freed.memory.Backs 0x40000000 1 ∧
      ∀ pid ∈ [(0 : Pid), 1], shared.processes.slots[pid].base = 0x40000000 := by
  decide +kernel

end Kernel

end Microkernel
