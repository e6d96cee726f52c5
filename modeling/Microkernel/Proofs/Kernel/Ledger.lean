import Microkernel.Proofs.Kernel.Events
import Microkernel.Proofs.Memory.Backing
import Microkernel.Proofs.Process.Ownership

/-!
# The ledger of a kernel's memory

A ledger is what the answers to calls say about memory: the addresses that clients hold, and the
image size for which each slot was last created.  `run_accounted` says that after a successful
boot the ledger and the process table always account for the used blocks, as long as no client
gives back the memory of a process.
-/

namespace Microkernel

open Memory (Allocator Region)

/-- What the answers to calls tell about memory. -/
structure Ledger where
  /-- The addresses that were handed out to clients and not taken back. -/
  held : List UInt32
  /-- The image size for which the slot with a number was last created. -/
  asked : Nat → UInt32

namespace Ledger

/-- The ledger after a boot: no client holds memory. -/
def opened (imageSize : UInt32) : Ledger :=
  ⟨[], fun _ => imageSize⟩

/-- Enter a call that succeeded. -/
def enter (ledger : Ledger) (call : Option SyscallId) (arg answer : Value) : Ledger :=
  match call, arg, answer with
  | some .procCreate, .uint32 size, .uint32 pid =>
      { ledger with asked := Function.update ledger.asked pid.toNat size }
  | some .memAlloc, _, .uint32 address => { ledger with held := address :: ledger.held }
  | some .memFree, .uint32 address, _ => { ledger with held := ledger.held.erase address }
  | _, _, _ => ledger

/-- Other calls say nothing about memory. -/
theorem enter_other {ledger : Ledger} {call : Option SyscallId}
    (other : call ∉ [some SyscallId.procCreate, some .memAlloc, some .memFree])
    (arg answer : Value) : ledger.enter call arg answer = ledger := by
  unfold enter
  split
  · exact absurd (by simp) other
  · exact absurd (by simp) other
  · exact absurd (by simp) other
  · rfl

private theorem enter_flagCall {ledger : Ledger} {id : SyscallId} {change : Process → Process}
    (listed : (id, change) ∈ Kernel.flagCalls) (arg answer : Value) :
    ledger.enter (some id) arg answer = ledger := by
  refine enter_other ?_ arg answer
  simp only [Kernel.flagCalls, List.mem_cons, Prod.mk.injEq, List.not_mem_nil, or_false] at listed
  rcases listed with ⟨rfl, _⟩ | ⟨rfl, _⟩ | ⟨rfl, _⟩
  · decide
  · decide
  · decide

/-- Enter an event that reaches a kernel. -/
def note {C : Type} [PolledController C] (ledger : Ledger) (kernel : Kernel C) : Event → Ledger
  | .call id arg =>
      let served := kernel.dispatch id arg
      if served.ret.isOk then ledger.enter (SyscallId.ofCode? id) arg served.arg else ledger
  | .interrupt _ _ => ledger

def noteAll {C : Type} [PolledController C] (ledger : Ledger) (kernel : Kernel C) :
    List Event → Ledger
  | [] => ledger
  | event :: rest => (ledger.note kernel event).noteAll (kernel.after event) rest

end Ledger

namespace Kernel

variable {C : Type}

/-- An event that does not give back the memory of a process. -/
def Spares (kernel : Kernel C) : Event → Prop
  | .call id (.uint32 address) =>
      SyscallId.ofCode? id = some .memFree →
        ∀ pid : Pid, kernel.processes.slots[pid].isFree = false →
          kernel.processes.slots[pid].base ≠ address
  | _ => True

instance (kernel : Kernel C) (event : Event) : Decidable (kernel.Spares event) := by
  unfold Spares
  split
  · exact inferInstance
  · exact inferInstance

/-- Events none of which gives back the memory of a process. -/
def SparesAll [PolledController C] (kernel : Kernel C) : List Event → Prop
  | [] => True
  | event :: rest => kernel.Spares event ∧ (kernel.after event).SparesAll rest

instance decidableSparesAll [PolledController C] (kernel : Kernel C) :
    (events : List Event) → Decidable (kernel.SparesAll events)
  | [] => inferInstanceAs (Decidable True)
  | event :: rest =>
      have := decidableSparesAll (kernel.after event) rest
      inferInstanceAs (Decidable (kernel.Spares event ∧ (kernel.after event).SparesAll rest))

/-- The process table and a ledger account for the memory of a kernel. -/
structure Accounted (kernel : Kernel C) (ledger : Ledger) (stackReserve : UInt32) : Prop where
  /-- Every used block belongs to an occupied slot or to a client. -/
  starts : kernel.memory.usedStarts.Perm
    (ProcessTable.bases kernel.processes.slots.toList ++ ledger.held)
  /-- No block belongs to two of them. -/
  distinct : (ProcessTable.bases kernel.processes.slots.toList ++ ledger.held).Nodup
  room : ∀ pid : Pid, kernel.processes.slots[pid].isFree = false →
    ∃ block, kernel.memory.blockAt? kernel.processes.slots[pid].base = some block ∧
      block.used = true ∧ kernel.processes.slots[pid].size ≤ block.size
  reserved : ∀ pid : Pid, kernel.processes.slots[pid].isFree = false →
    (ledger.asked pid.val).toNat + stackReserve.toNat ≤
      kernel.processes.slots[pid].size.toNat
  idle : ∀ pid : Pid, kernel.processes.slots[pid].isFree = true →
    kernel.processes.slots[pid].isActive = false ∧ kernel.processes.slots[pid].isDying = false
  /-- Whatever a timer interrupt reclaims next is found and given back. -/
  reclaims : ∀ frame,
    let walk := kernel.processes.turn kernel.memory frame
    walk.reclaimed.foldlM
        (fun memory pid => (memory.free kernel.processes.slots[pid].base).served)
      kernel.memory = .ok walk.memory

/-- What every event keeps. -/
structure Kept (region : Region) (config : ProcessConfig) (kernel : Kernel C)
    (ledger : Ledger) : Prop where
  owned : ProcessTable.Owned region kernel.processes.slots kernel.memory ledger.held
  config_eq : kernel.processes.config = config
  reserved : ∀ pid : Pid, kernel.processes.slots[pid].isFree = false →
    (ledger.asked pid.val).toNat + config.stackReserve.toNat ≤
      kernel.processes.slots[pid].size.toNat

namespace Kept

variable {region : Region} {config : ProcessConfig} {kernel : Kernel C} {ledger : Ledger}

/-- A call that succeeds is entered in the ledger, and the two still agree. -/
theorem dispatch [PolledController C] (kept : Kept region config kernel ledger)
    (suited : region.Suited) (id : UInt32) (arg : Value)
    (spared : kernel.Spares (.call id arg)) :
    Kept region config (kernel.dispatch id arg).state (ledger.note kernel (.call id arg)) := by
  have effect := dispatch_effect kernel arg id
  have sparedBases : ∀ address, SyscallId.ofCode? id = some .memFree → arg = .uint32 address →
      ∀ pid : Pid, kernel.processes.slots[pid].isFree = false →
        kernel.processes.slots[pid].base ≠ address := by
    intro address called argument
    subst argument
    exact spared called
  simp only [Ledger.note]
  generalize SyscallId.ofCode? id = call at effect sparedBases ⊢
  generalize kernel.dispatch id arg = served at effect ⊢
  have minBlock_pos : 0 < region.minBlock.toNat := UInt32.le_iff_toNat_le.mp suited.minBlock_pos
  cases effect with
  | created size pid processes memory called argument done succeeded answer stateEq =>
      have entered : ledger.enter call arg served.arg =
          { ledger with asked := Function.update ledger.asked pid.val size } := by
        have entry : ledger.enter call arg served.arg = { ledger with
            asked := Function.update ledger.asked (UInt32.ofNat pid.val).toNat size } := by
          rw [called, argument, answer]
          rfl
        rw [entry, toNat_ofNat_pid]
      obtain ⟨owned, reserve⟩ := kept.owned.create suited done
      rw [succeeded, if_pos Value.isOk_ok, entered, stateEq]
      refine ⟨owned, (ProcessTable.create_rest done).1.trans kept.config_eq, ?_⟩
      intro other occupied
      by_cases here : other = pid
      · subst other
        rw [← kept.config_eq]
        simp only [Function.update_self]
        exact reserve
      · have unchanged := ProcessTable.create_slot_of_ne (Ne.symm here) done
        have numberNe : other.val ≠ pid.val := fun equal => here (Fin.ext equal)
        simp only [Function.update_of_ne numberNe]
        rw [unchanged] at occupied ⊢
        exact kept.reserved other occupied
  | updated id number change processes called listed done succeeded stateEq =>
      have flagsOnly := onlyFlags_of_mem_flagCalls listed
      have entered : ledger.enter call arg served.arg = ledger := by
        rw [called]
        exact Ledger.enter_flagCall listed arg served.arg
      rw [succeeded, if_pos Value.isOk_ok, entered, stateEq]
      refine ⟨kept.owned.update flagsOnly done,
        (ProcessTable.update_rest done).1.trans kept.config_eq, ?_⟩
      intro pid occupied
      rcases ProcessTable.update_slot flagsOnly done pid with unchanged | ⟨was, flags, changed⟩
      · rw [unchanged] at occupied ⊢
        exact kept.reserved pid occupied
      · rw [changed]
        exact kept.reserved pid was
  | granted size address memory called argument done succeeded answer stateEq =>
      have entered : ledger.enter call arg served.arg =
          { ledger with held := address :: ledger.held } := by
        rw [called, answer]
        rfl
      rw [succeeded, if_pos Value.isOk_ok, entered, stateEq]
      exact ⟨kept.owned.grant minBlock_pos done, kept.config_eq, kept.reserved⟩
  | released address memory called argument done succeeded stateEq =>
      have entered : ledger.enter call arg served.arg =
          { ledger with held := ledger.held.erase address } := by
        rw [called, argument]
        rfl
      rw [succeeded, if_pos Value.isOk_ok, entered, stateEq]
      have basesSpared := sparedBases address called argument
      exact ⟨kept.owned.giveBack done basesSpared, kept.config_eq, kept.reserved⟩
  | apart processesKept memoryKept silent =>
      have unentered : (if served.ret.isOk then ledger.enter call arg served.arg else ledger) =
          ledger := by
        by_cases succeeded : served.ret.isOk = true
        · rw [if_pos succeeded]
          exact Ledger.enter_other (silent succeeded) arg served.arg
        · exact if_neg succeeded
      rw [unentered]
      refine ⟨?_, ?_, ?_⟩
      · rw [processesKept, memoryKept]
        exact kept.owned
      · rw [processesKept]
        exact kept.config_eq
      · rw [processesKept]
        exact kept.reserved

theorem interrupt [PolledController C] (kept : Kept region config kernel ledger)
    (frame : TrapFrame) (lines : IrqLines) :
    Kept region config (kernel.interrupt frame lines).state ledger := by
  by_cases timer : lines.timer = true
  · obtain ⟨_, processesEq, memoryEq⟩ := interrupt_of_timer kernel frame lines timer
    refine ⟨?_, ?_, ?_⟩
    · rw [processesEq, memoryEq]
      exact kept.owned.schedule frame
    · rw [processesEq, ProcessTable.schedule_config]
      exact kept.config_eq
    · rw [processesEq]
      intro pid occupied
      rcases ProcessTable.schedule_slot kernel.processes kernel.memory frame pid with
        slotEq | slotEq | ⟨_, slotEq⟩
      · rw [slotEq] at occupied ⊢
        exact kept.reserved pid occupied
      · obtain ⟨regs, savedEq⟩ := ProcessTable.savedSlots_slot kernel.processes frame pid
        rw [slotEq, savedEq] at occupied ⊢
        exact kept.reserved pid occupied
      · rw [slotEq] at occupied
        exact absurd occupied (by decide)
  · obtain ⟨processesEq, memoryEq⟩ := interrupt_of_no_timer kernel frame lines timer
    refine ⟨?_, ?_, ?_⟩
    · rw [processesEq, memoryEq]
      exact kept.owned
    · rw [processesEq]
      exact kept.config_eq
    · rw [processesEq]
      exact kept.reserved

theorem after [PolledController C] (kept : Kept region config kernel ledger)
    (suited : region.Suited) {event : Event} (spared : kernel.Spares event) :
    Kept region config (kernel.after event) (ledger.note kernel event) := by
  cases event with
  | call id arg =>
      exact kept.dispatch suited id arg spared
  | interrupt frame lines =>
      exact kept.interrupt frame lines

theorem afterAll [PolledController C] (kept : Kept region config kernel ledger)
    (suited : region.Suited) {events : List Event} (spared : kernel.SparesAll events) :
    Kept region config (kernel.afterAll events) (ledger.noteAll kernel events) := by
  induction events generalizing kernel ledger with
  | nil =>
      exact kept
  | cons event rest inductionHypothesis =>
      obtain ⟨sparedNow, sparedLater⟩ := spared
      exact inductionHypothesis (kept.after suited sparedNow) sparedLater

/-- A boot that succeeds leaves the image's process as the only owner of memory. -/
theorem boot [Controller C] {imageSize : UInt32} {pid : Pid}
    (suited : kernel.memory.region.Suited)
    (booted : (kernel.boot imageSize).1 = .ok pid) :
    Kept kernel.memory.region kernel.processes.config (kernel.boot imageSize).2
      (.opened imageSize) := by
  obtain ⟨created, memory, started, creation, start, processesEq, memoryEq⟩ := boot_eq_ok booted
  have cleared := ProcessTable.Owned.cleared suited creation
  obtain ⟨ownedCreated, reserve⟩ := cleared.create suited creation
  have flagsOnly := ProcessTable.onlyFlags_activate
  have createdOnly : ∀ other : Pid, created.slots[other].isFree = false → other = pid := by
    intro other occupied
    by_contra different
    rw [ProcessTable.create_slot_of_ne (Ne.symm different) creation,
      ProcessTable.clear_slot] at occupied
    exact absurd occupied (by decide)
  refine ⟨?_, ?_, ?_⟩
  · rw [processesEq, memoryEq]
    exact ownedCreated.update flagsOnly start
  · rw [processesEq, (ProcessTable.update_rest start).1]
    exact (ProcessTable.create_rest creation).1
  · rw [processesEq]
    intro other occupied
    rcases ProcessTable.update_slot flagsOnly start other with unchanged | ⟨was, flags, changed⟩
    · rw [unchanged] at occupied ⊢
      rw [createdOnly other occupied]
      exact reserve
    · rw [changed, createdOnly other was]
      exact reserve

theorem backed (kept : Kept region config kernel ledger) {pid : Pid}
    (occupied : kernel.processes.slots[pid].isFree = false) :
    kernel.memory.Backs kernel.processes.slots[pid].base kernel.processes.slots[pid].size :=
  (Allocator.backs_iff kept.owned.sound).mpr ((kept.owned.housed pid).1 occupied)

/-- The invariant in terms of blocks. -/
theorem accounted (kept : Kept region config kernel ledger) :
    kernel.Accounted ledger config.stackReserve := by
  refine ⟨kept.owned.starts, kept.owned.nodup, fun _ => kept.backed, kept.reserved, ?_, ?_⟩
  · intro pid free
    have noFlags := (kept.owned.housed pid).2 free
    rw [Process.isActive, Process.isDying, noFlags]
    exact ⟨rfl, rfl⟩
  · intro frame
    have given := ((kept.owned.saved frame).walk maxProcesses kernel.processes.current).2
    -- The walk starts from the slots with the frame saved, which have the same bases.
    refine Eq.trans (ProcessTable.foldlM_congr_of_mem ?_ kernel.memory) given
    intro pid _ memory
    obtain ⟨regs, savedEq⟩ := ProcessTable.savedSlots_slot kernel.processes frame pid
    rw [savedEq]

end Kept

/-- After a successful boot the process table and the ledger of what clients hold always account
for the memory, as long as no client gives back the memory of a process. -/
theorem run_accounted [PolledController C] (kernel : Kernel C)
    (suited : kernel.memory.region.Suited) (imageSize : UInt32) (pid : Pid)
    (booted : (kernel.boot imageSize).1 = .ok pid) (events : List Event)
    (spared : (kernel.boot imageSize).2.SparesAll events) :
    ((kernel.boot imageSize).2.afterAll events).Accounted
      ((Ledger.opened imageSize).noteAll (kernel.boot imageSize).2 events)
      kernel.processes.config.stackReserve := by
  have kept := Kept.boot suited booted
  have keptLater := kept.afterAll suited spared
  exact keptLater.accounted

/-- Two processes and two clients' blocks; one block is given back, the kernel's own process is
killed and reclaimed, and its memory goes to a new process. -/
theorem run_accounted_reclaimed :
    let events : List Event :=
      [.call 6 (.uint32 40000), .call 13 (.uint32 1), .call 13 (.uint32 70000), .call 7 (.uint32 1),
        .call 9 (.uint32 0), .call 14 (.uint32 0x4001C000), .interrupt .zero .all,
        .interrupt .zero .all, .call 6 (.uint32 3)]
    quiet.memory.region.Suited ∧ (quiet.boot 8192).1 = .ok 0 ∧
      (quiet.boot 8192).2.SparesAll events ∧
      ((quiet.boot 8192).2.afterAll events).Accounted
        ((Ledger.opened 8192).noteAll (quiet.boot 8192).2 events)
        quiet.processes.config.stackReserve := by
  have suited : quiet.memory.region.Suited :=
    ⟨⟨12, rfl⟩, by decide, by decide, by decide⟩
  have booted : (quiet.boot 8192).1 = .ok 0 := by
    decide +kernel
  intro events
  have spared : (quiet.boot 8192).2.SparesAll events := by
    decide +kernel
  exact ⟨suited, booted, spared, run_accounted quiet suited 8192 0 booted events spared⟩

end Kernel

end Microkernel
