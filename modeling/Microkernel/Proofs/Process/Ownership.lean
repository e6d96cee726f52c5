import Microkernel.Proofs.Memory.Partition
import Microkernel.Proofs.Memory.Starts
import Microkernel.Proofs.Process.Slots

/-!
# Who owns the used blocks

Every used block belongs either to an occupied slot or to a client that asked for memory.  `Owned`
relates the slots and the allocator through the list of what clients hold; each operation on one
of the two keeps it, and so does a walk, which then never fails to give back a block.
-/

namespace Microkernel

/-- The state that an attempt leaves, or the cause if it is refused. -/
def Attempt.served {ε S α : Type} : Attempt ε S α → Except ε S
  | .ok _ state => .ok state
  | .error cause _ => .error cause

namespace ProcessTable

open Memory (Allocator Extent Region usedExtents)

/-- The bases of the occupied slots among some processes. -/
def bases (processes : List Process) : List UInt32 :=
  (processes.filter fun process => !process.isFree).map Process.base

/-- A slot's block is as large as the slot says, and a free slot has no flag set. -/
def Housed (memory : Allocator) (process : Process) : Prop :=
  (process.isFree = false →
    ∃ extent ∈ usedExtents memory.extents,
      extent.start = process.base.toNat ∧ process.size.toNat ≤ extent.size) ∧
    (process.isFree = true → process.flags = .none)

/-- The slots and what clients hold account for the used blocks of an allocator. -/
structure Owned (region : Region) (slots : Vector Process maxProcesses) (memory : Allocator)
    (held : List UInt32) : Prop where
  region_eq : memory.region = region
  sound : memory.Sound
  starts : memory.usedStarts.Perm (bases slots.toList ++ held)
  housed : ∀ pid : Pid, Housed memory slots[pid]

private theorem bases_append (left right : List Process) :
    bases (left ++ right) = bases left ++ bases right := by
  rw [bases, List.filter_append, List.map_append]
  rfl

private theorem bases_occupied {process : Process} (occupied : process.isFree = false) :
    bases [process] = [process.base] := by
  simp [bases, occupied]

private theorem bases_free {process : Process} (free : process.isFree = true) :
    bases [process] = [] := by
  simp [bases, free]

section Slots

variable {slots : Vector Process maxProcesses} {pid : Pid}

private theorem toList_put_eq_append (slots : Vector Process maxProcesses) (pid : Pid)
    (process : Process) :
    (slots.put pid process).toList =
      slots.toList.take pid.val ++ ([process] ++ slots.toList.drop (pid.val + 1)) := by
  have inList : pid.val < slots.toList.length := by
    rw [Vector.length_toList]
    exact pid.isLt
  rw [toList_put, List.set_eq_take_append_cons_drop, if_pos inList]
  rfl

/-- Writing a slot leaves the bases of the other slots as they are. -/
theorem exists_otherBases (slots : Vector Process maxProcesses) (pid : Pid) :
    ∃ others, (bases slots.toList).Perm (bases [slots[pid]] ++ others) ∧
      ∀ process, (bases (slots.put pid process).toList).Perm (bases [process] ++ others) := by
  have written : ∀ process, (bases (slots.put pid process).toList).Perm (bases [process] ++
      (bases (slots.toList.take pid.val) ++ bases (slots.toList.drop (pid.val + 1)))) := by
    intro process
    rw [toList_put_eq_append, bases_append, bases_append]
    exact List.perm_append_comm_assoc _ _ _
  refine ⟨_, ?_, written⟩
  have same := written slots[pid]
  rwa [put_getElem_self] at same

private theorem base_mem_bases (occupied : slots[pid].isFree = false) :
    slots[pid].base ∈ bases slots.toList := by
  obtain ⟨others, here, _⟩ := exists_otherBases slots pid
  rw [bases_occupied occupied] at here
  exact here.mem_iff.mpr List.mem_cons_self

private theorem mem_bases_iff {address : UInt32} :
    address ∈ bases slots.toList ↔
      ∃ pid : Pid, slots[pid].isFree = false ∧ slots[pid].base = address := by
  constructor
  · intro member
    obtain ⟨process, processMember, baseEq⟩ := List.mem_map.mp member
    obtain ⟨inSlots, occupied⟩ := List.mem_filter.mp processMember
    rw [toList_eq_map] at inSlots
    obtain ⟨pid, _, slotEq⟩ := List.mem_map.mp inSlots
    refine ⟨pid, ?_, ?_⟩
    · simpa [slotEq] using occupied
    · simpa [slotEq] using baseEq
  · rintro ⟨pid, occupied, baseEq⟩
    rw [← baseEq]
    exact base_mem_bases occupied

end Slots

theorem foldlM_congr_of_mem {items : List Pid}
    {first second : Allocator → Pid → Except Memory.MemoryError Allocator}
    (agree : ∀ item ∈ items, ∀ memory, first memory item = second memory item)
    (memory : Allocator) : items.foldlM first memory = items.foldlM second memory := by
  induction items generalizing memory with
  | nil =>
      rfl
  | cons head tail inductionHypothesis =>
      rw [List.foldlM_cons, List.foldlM_cons, agree head List.mem_cons_self]
      refine congrArg _ (funext ?_)
      exact inductionHypothesis fun item member => agree item (List.mem_cons_of_mem head member)

namespace Owned

variable {region : Region} {slots : Vector Process maxProcesses} {memory memory' : Allocator}
  {held : List UInt32} {pid : Pid}

theorem nodup (owned : Owned region slots memory held) : (bases slots.toList ++ held).Nodup :=
  owned.starts.nodup_iff.mp (Allocator.usedStarts_nodup owned.sound)

private theorem base_mem_usedStarts (owned : Owned region slots memory held)
    (occupied : slots[pid].isFree = false) : slots[pid].base ∈ memory.usedStarts :=
  owned.starts.mem_iff.mpr (List.mem_append_left held (base_mem_bases occupied))

/-- The base of an occupied slot is the base of no other. -/
theorem base_ne (owned : Owned region slots memory held) {other : Pid} (different : pid ≠ other)
    (occupied : slots[pid].isFree = false) (otherOccupied : slots[other].isFree = false) :
    slots[other].base ≠ slots[pid].base := by
  intro sameBase
  obtain ⟨others, here, written⟩ := exists_otherBases slots pid
  have distinct := (List.nodup_append.mp owned.nodup).1
  rw [here.nodup_iff, bases_occupied occupied, List.singleton_append] at distinct
  have emptied := written .empty
  rw [bases_free rfl, List.nil_append] at emptied
  refine (List.nodup_cons.mp distinct).1 (emptied.mem_iff.mp (mem_bases_iff.mpr ⟨other, ?_, ?_⟩))
  · rwa [getElem_put_of_ne _ different]
  · rwa [getElem_put_of_ne _ different]

theorem not_isFree_of_isDying (owned : Owned region slots memory held)
    (dying : slots[pid].isDying = true) : slots[pid].isFree = false := by
  cases free : slots[pid].isFree with
  | false => rfl
  | true =>
      rw [Process.isDying, (owned.housed pid).2 free] at dying
      exact absurd dying Bool.false_ne_true

/-- A process may change anything but its memory. -/
theorem write (owned : Owned region slots memory held) {process : Process}
    (baseKept : process.base = slots[pid].base) (sizeKept : process.size = slots[pid].size)
    (idle : process.isFree = true → process.flags = .none) :
    Owned region (slots.put pid process) memory held := by
  have freeEq : process.isFree = slots[pid].isFree := by
    rw [Process.isFree, Process.isFree, baseKept]
  have basesKept : bases [process] = bases [slots[pid]] := by
    cases free : slots[pid].isFree with
    | true =>
        rw [bases_free free, bases_free (freeEq.trans free)]
    | false =>
        rw [bases_occupied free, bases_occupied (freeEq.trans free), baseKept]
  refine ⟨owned.region_eq, owned.sound, ?_, ?_⟩
  · obtain ⟨others, here, written⟩ := exists_otherBases slots pid
    have now := written process
    rw [basesKept] at now
    exact owned.starts.trans ((here.trans now.symm).append_right held)
  · apply forall_getElem_put (P := fun _ => Housed memory)
    · refine ⟨?_, idle⟩
      rw [freeEq, baseKept, sizeKept]
      exact (owned.housed pid).1
    · intro other _
      exact owned.housed other

/-- A slot that is emptied leaves its block to be held. -/
theorem surrender (owned : Owned region slots memory held)
    (occupied : slots[pid].isFree = false) :
    Owned region (slots.put pid .empty) memory (slots[pid].base :: held) := by
  refine ⟨owned.region_eq, owned.sound, ?_, ?_⟩
  · obtain ⟨others, here, written⟩ := exists_otherBases slots pid
    have emptied := written .empty
    rw [bases_free rfl, List.nil_append] at emptied
    rw [bases_occupied occupied, List.singleton_append] at here
    have moved := here.trans (emptied.symm.cons slots[pid].base)
    exact (owned.starts.trans (moved.append_right held)).trans List.perm_middle.symm
  · apply forall_getElem_put (P := fun _ => Housed memory)
    · refine ⟨?_, fun _ => rfl⟩
      intro emptyOccupied
      exact absurd emptyOccupied (by decide)
    · intro other _
      exact owned.housed other

/-- A block that is held becomes the memory of a process in a free slot. -/
theorem adopt {process : Process} (owned : Owned region slots memory (process.base :: held))
    (free : slots[pid].isFree = true) (occupied : process.isFree = false)
    (room : ∃ extent ∈ usedExtents memory.extents,
      extent.start = process.base.toNat ∧ process.size.toNat ≤ extent.size) :
    Owned region (slots.put pid process) memory held := by
  refine ⟨owned.region_eq, owned.sound, ?_, ?_⟩
  · obtain ⟨others, here, written⟩ := exists_otherBases slots pid
    have filled := written process
    rw [bases_occupied occupied, List.singleton_append] at filled
    rw [bases_free free, List.nil_append] at here
    have moved := filled.trans (here.symm.cons process.base)
    exact (owned.starts.trans List.perm_middle).trans (moved.symm.append_right held)
  · apply forall_getElem_put (P := fun _ => Housed memory)
    · refine ⟨fun _ => room, ?_⟩
      intro processFree
      exact absurd (occupied.symm.trans processFree) Bool.false_ne_true
    · intro other _
      exact owned.housed other

theorem grant (owned : Owned region slots memory held) (minBlock_pos : 0 < region.minBlock.toNat)
    {size address : UInt32} (done : memory.alloc size = .ok address memory') :
    Owned region slots memory' (address :: held) := by
  rw [← owned.region_eq] at minBlock_pos
  obtain ⟨sound', regionKept⟩ := Allocator.alloc_sound owned.sound minBlock_pos done
  refine ⟨regionKept.trans owned.region_eq, sound', ?_, ?_⟩
  · have added := Allocator.alloc_usedStarts owned.sound minBlock_pos done
    exact (added.trans (owned.starts.cons address)).trans List.perm_middle.symm
  · intro pid
    refine ⟨?_, (owned.housed pid).2⟩
    intro occupied
    obtain ⟨extent, member, bounds⟩ := (owned.housed pid).1 occupied
    exact ⟨extent, Allocator.alloc_keeps owned.sound minBlock_pos done member, bounds⟩

/-- What is given back, and is not the memory of a process, was held. -/
theorem giveBack (owned : Owned region slots memory held) {address : UInt32}
    (done : memory.free address = .ok () memory')
    (spared : ∀ pid : Pid, slots[pid].isFree = false → slots[pid].base ≠ address) :
    Owned region slots memory' (held.erase address) := by
  obtain ⟨sound', regionKept⟩ := Allocator.free_sound owned.sound done
  have taken := Allocator.free_usedStarts owned.sound done
  have notBase : address ∉ bases slots.toList := by
    intro member
    obtain ⟨pid, occupied, baseEq⟩ := mem_bases_iff.mp member
    exact spared pid occupied baseEq
  refine ⟨regionKept.trans owned.region_eq, sound', ?_, ?_⟩
  · have erased := (taken.symm.trans owned.starts).erase address
    rwa [List.erase_cons_head, List.erase_append_right _ notBase] at erased
  · intro pid
    refine ⟨?_, (owned.housed pid).2⟩
    intro occupied
    obtain ⟨extent, member, startEq, fits⟩ := (owned.housed pid).1 occupied
    refine ⟨extent, Allocator.free_keeps owned.sound done member ?_, startEq, fits⟩
    rw [startEq]
    intro sameStart
    exact spared pid occupied (UInt32.toNat_inj.mp sameStart)

/-- A dying slot finds its block, and without the two the rest is still accounted for. -/
theorem reclaim (owned : Owned region slots memory held) (dying : slots[pid].isDying = true) :
    ∃ memory', memory.free slots[pid].base = .ok () memory' ∧
      Owned region (slots.put pid .empty) memory' held := by
  have occupied := owned.not_isFree_of_isDying dying
  obtain ⟨memory', done⟩ := Allocator.free_of_mem_usedStarts (owned.base_mem_usedStarts occupied)
  have spared : ∀ other : Pid, (slots.put pid .empty)[other].isFree = false →
      (slots.put pid .empty)[other].base ≠ slots[pid].base := by
    refine forall_getElem_put
      (P := fun _ (process : Process) =>
        process.isFree = false → process.base ≠ slots[pid].base) ?_ ?_
    · intro emptyOccupied
      exact absurd emptyOccupied (by decide)
    · intro other different otherOccupied
      exact owned.base_ne different occupied otherOccupied
  have given := (owned.surrender occupied).giveBack done spared
  rw [List.erase_cons_head] at given
  exact ⟨memory', done, given⟩

private theorem releaseBlock_eq {base : UInt32} (done : memory.free base = .ok () memory') :
    releaseBlock memory base = memory' := by
  simp only [releaseBlock, done, Attempt.state]

/-- The blocks of all slots that a walk reclaims are found and given back, one after the other. -/
theorem walk (owned : Owned region slots memory held) (steps : Nat) (cursor : Pid) :
    let walk := ProcessTable.walk steps cursor slots memory
    Owned region walk.slots walk.memory held ∧
      walk.reclaimed.foldlM (fun memory pid => (memory.free slots[pid].base).served) memory =
        .ok walk.memory := by
  induction steps generalizing cursor slots memory with
  | zero =>
      exact ⟨owned, rfl⟩
  | succ steps inductionHypothesis =>
      by_cases dying : slots[nextSlot cursor].isDying = true
      · obtain ⟨memory', done, owned'⟩ := owned.reclaim dying
        obtain ⟨owned'', given⟩ := inductionHypothesis owned' (nextSlot cursor)
        rw [walk_of_dying dying, releaseBlock_eq done]
        refine ⟨owned'', ?_⟩
        rw [List.foldlM_cons, done]
        refine Eq.trans ?_ given
        refine foldlM_congr_of_mem ?_ memory'
        intro pid member current
        have notHere : nextSlot cursor ≠ pid := by
          intro equal
          have dyingLater := isDying_of_mem_reclaimed member
          subst pid
          rw [getElem_put_self] at dyingLater
          exact Bool.false_ne_true dyingLater
        rw [getElem_put_of_ne _ notHere]
      · by_cases runnable : slots[nextSlot cursor].isRunnable = true
        · rw [walk_of_runnable runnable]
          exact ⟨owned, rfl⟩
        · rw [walk_of_idle dying runnable]
          exact inductionHypothesis owned (nextSlot cursor)

end Owned

section Table

variable {region : Region} {table table' : ProcessTable} {memory memory' : Allocator}
  {held : List UInt32} {pid : Pid}

theorem Owned.saved (owned : Owned region table.slots memory held) (frame : TrapFrame) :
    Owned region (table.savedSlots frame) memory held :=
  owned.write rfl rfl (owned.housed table.current).2

theorem Owned.schedule (owned : Owned region table.slots memory held) (frame : TrapFrame) :
    Owned region (table.schedule memory frame).2.1.slots (table.schedule memory frame).2.2
      held := by
  have walked := ((owned.saved frame).walk maxProcesses table.current).1
  rcases schedule_cases table memory frame with
    ⟨_, scheduled⟩ | ⟨_, pid, _, scheduled⟩ | ⟨_, _, scheduled⟩
  · rw [scheduled]
    exact owned
  · rw [scheduled]
    exact walked
  · rw [scheduled]
    exact walked

/-- The bytes that are reserved hold the image and the stack, and are not rounded any further. -/
theorem reservation?_eq_some {alignment size total : UInt32}
    (power : alignment.toNat.isPowerOfTwo)
    (reserved : table.reservation? alignment size = some total) :
    size.toNat + table.config.stackReserve.toNat ≤ total.toNat ∧
      Memory.alignUp total alignment = total := by
  unfold reservation? at reserved
  by_cases fits : size.toNat + table.config.stackReserve.toNat + alignment.toNat < UInt32.size
  · rw [if_pos fits, Option.some.injEq] at reserved
    have sum : (size + table.config.stackReserve).toNat =
        size.toNat + table.config.stackReserve.toNat := by
      rw [UInt32.toNat_add, Nat.mod_eq_of_lt (Nat.lt_of_add_right_lt fits)]
    have sumFits : (size + table.config.stackReserve).toNat + alignment.toNat ≤ 2 ^ 32 := by
      rw [sum]
      exact Nat.le_of_lt fits
    rw [← reserved, ← sum]
    exact ⟨Memory.le_alignUp power sumFits, Memory.alignUp_idem power sumFits⟩
  · rw [if_neg fits] at reserved
    cases reserved

private theorem clear_bases (table : ProcessTable) : bases table.clear.slots.toList = [] := by
  have allFree : ∀ process ∈ table.clear.slots.toList, (!process.isFree) ≠ true := by
    intro process member
    have processEq : process = .empty := by
      simp only [clear, new, Vector.toList_replicate] at member
      exact List.eq_of_mem_replicate member
    rw [processEq]
    decide
  rw [bases, List.filter_eq_nil_iff.mpr allFree, List.map_nil]

/-- In a cleared table no memory is owned.  That a process could be created shows that the region
has bytes to own. -/
theorem Owned.cleared {size : UInt32} (suited : memory.region.Suited)
    (done : table.clear.create memory.init size = .ok pid (table', memory')) :
    Owned memory.region table.clear.slots memory.init [] := by
  obtain ⟨base, total, _, _, allocated, _⟩ := create_eq_ok done
  have size_pos := Allocator.size_pos_of_init_alloc suited.minBlock_pos allocated
  have alignment_pos : 1 ≤ memory.region.alignment := by
    obtain ⟨exponent, power⟩ := suited.alignment_power
    rw [UInt32.le_iff_toNat_le, power]
    exact Nat.two_pow_pos exponent
  have usable : memory.region.Usable :=
    ⟨alignment_pos, suited.minBlock_pos, size_pos, suited.stop_lt⟩
  refine ⟨rfl, (Allocator.init_represents usable).sound, ?_, ?_⟩
  · have noStarts : memory.init.usedStarts = [] := by
      have starts := Allocator.usedStarts_toNat memory.init
      rw [Allocator.init_usedExtents, List.map_nil, List.map_eq_nil_iff] at starts
      exact starts
    rw [noStarts, clear_bases]
    exact List.Perm.refl []
  · intro pid
    rw [clear_slot]
    refine ⟨?_, fun _ => rfl⟩
    intro occupied
    exact absurd occupied (by decide)

/-- A new process gets a block that holds its image and its stack. -/
theorem Owned.create (owned : Owned region table.slots memory held) (suited : region.Suited)
    {size : UInt32} (done : table.create memory size = .ok pid (table', memory')) :
    Owned region table'.slots memory' held ∧
      size.toNat + table.config.stackReserve.toNat ≤ table'.slots[pid].size.toNat := by
  obtain ⟨base, total, found, reserved, allocated, tableEq⟩ := create_eq_ok done
  rw [owned.region_eq] at reserved
  obtain ⟨reserve, rounded⟩ := reservation?_eq_some suited.alignment_power reserved
  have minBlock_pos : 0 < region.minBlock.toNat := UInt32.le_iff_toNat_le.mp suited.minBlock_pos
  have granted := owned.grant minBlock_pos allocated
  rw [← owned.region_eq] at minBlock_pos
  obtain ⟨request, requested, recorded⟩ :=
    Allocator.alloc_usedExtents owned.sound minBlock_pos allocated
  have large := (Region.le_of_roundRequest requested).1
  rw [owned.region_eq, rounded] at large
  have baseUsed : base ∈ memory'.usedStarts :=
    granted.starts.mem_iff.mpr (List.mem_append_right _ List.mem_cons_self)
  have baseLarge := Allocator.base_le_of_mem_usedStarts granted.sound baseUsed
  rw [granted.region_eq] at baseLarge
  let process : Process := ⟨base, total, .none, table.firstFrame base⟩
  have occupied : process.isFree = false := by
    refine beq_eq_false_iff_ne.mpr ?_
    intro baseZero
    have regionBase : 1 ≤ region.base.toNat := UInt32.le_iff_toNat_le.mp suited.base_pos
    have baseEq : base.toNat = 0 := congrArg UInt32.toNat baseZero
    omega
  have room : ∃ extent ∈ usedExtents memory'.extents,
      extent.start = process.base.toNat ∧ process.size.toNat ≤ extent.size :=
    ⟨⟨base.toNat, request.toNat, true⟩, recorded.mem_iff.mpr List.mem_cons_self, rfl, large⟩
  have adopted : Owned region (table.slots.put pid process) memory' held :=
    Owned.adopt granted (freeSlot?_eq_some found) occupied room
  have slotEq : table'.slots[pid] = process := by
    rw [tableEq]
    exact getElem_put_self table.slots pid process
  rw [slotEq, tableEq]
  exact ⟨adopted, reserve⟩

/-- Starting, stopping and killing a process leave its memory alone. -/
theorem Owned.update (owned : Owned region table.slots memory held) {number : Nat}
    {change : Process → Process} (flagsOnly : OnlyFlags change)
    (done : table.update number change = .ok () table') :
    Owned region table'.slots memory held := by
  obtain ⟨pid, _, occupied, tableEq⟩ := update_eq_ok done
  obtain ⟨flags, changed⟩ := flagsOnly table.slots[pid]
  rw [tableEq, changed]
  refine owned.write rfl rfl ?_
  intro free
  exact absurd (occupied.symm.trans free) Bool.false_ne_true

end Table

end ProcessTable

end Microkernel
