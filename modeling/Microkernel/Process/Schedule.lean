import Microkernel.Process.Table

/-! # Round-robin scheduling

A timer interrupt saves the interrupted frame in the slot under the cursor and moves the cursor
on to the next runnable slot, whose frame is resumed. Dying slots that the cursor passes are
reclaimed. With fewer than two active slots nothing moves.
-/

namespace Microkernel

open Memory (Allocator)

namespace ProcessTable

/-- The slot after a slot, going round the table. -/
def nextSlot (pid : Pid) : Pid :=
  pid + 1

/-- Take back the block at an address, if there is one. -/
def releaseBlock (memory : Allocator) (base : UInt32) : Allocator :=
  (memory.free base).state

/-- Where the cursor's walk ended. -/
structure Walk where
  slots : Vector Process maxProcesses
  memory : Allocator
  /-- The runnable slot that the cursor stopped on, if it found one. -/
  landed : Option Pid
  /-- The slots that were reclaimed on the way, in the order of the walk. -/
  reclaimed : List Pid

/-- Move the cursor on by at most `steps` slots, to the first runnable one, freeing the memory of
every dying slot on the way and emptying it. -/
def walk : (steps : Nat) → Pid → Vector Process maxProcesses → Allocator → Walk
  | 0, _, slots, memory => ⟨slots, memory, none, []⟩
  | steps + 1, cursor, slots, memory =>
    let here := nextSlot cursor
    if slots[here].isDying then
      let rest := walk steps here (slots.put here .empty) (releaseBlock memory slots[here].base)
      { rest with reclaimed := here :: rest.reclaimed }
    else if slots[here].isRunnable then ⟨slots, memory, some here, []⟩
    else walk steps here slots memory

/-- The slots with the interrupted frame saved under the cursor. -/
def savedSlots (table : ProcessTable) (frame : TrapFrame) : Vector Process maxProcesses :=
  table.slots.put table.current { table.slots[table.current] with regs := frame }

/-- The walk that a timer interrupt starts: once round the table, the interrupted slot last. -/
def turn (table : ProcessTable) (memory : Allocator) (frame : TrapFrame) : Walk :=
  walk maxProcesses table.current (table.savedSlots frame) memory

/-- Choose the frame to resume after a timer interrupt. A walk that finds no runnable slot
resumes the interrupted frame and leaves the cursor where it was. -/
def schedule (table : ProcessTable) (memory : Allocator) (frame : TrapFrame) :
    TrapFrame × ProcessTable × Allocator :=
  if table.activeCount < 2 then (frame, table, memory)
  else
    let walk := table.turn memory frame
    match walk.landed with
    | some pid =>
      (walk.slots[pid].regs, { table with slots := walk.slots, current := pid }, walk.memory)
    | none => (frame, { table with slots := walk.slots }, walk.memory)

end ProcessTable

end Microkernel
