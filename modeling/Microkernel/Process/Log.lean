import Microkernel.Memory.Log
import Microkernel.Process.Schedule

/-! # What the process table tells

The log entries of an operation follow from the table and the allocator as they were before.
-/

namespace Microkernel.ProcessTable

open Memory (Allocator)

/-- The memory and the slot of a new process. -/
def createLog (table : ProcessTable) (memory : Allocator) (size : UInt32) : List Log.Entry :=
  match table.freeSlot?, table.reservation? memory.region.alignment size with
  | some pid, some total =>
    let created := match memory.alloc total with
      | .ok base _ =>
        [Log.debug ("[sched] created pid " ++ toString pid.val ++ " at " ++
          Text.hexAddress base ++ " (" ++ Text.hexSize total.toNat ++ " bytes)")]
      | .error _ _ => []
    memory.allocLog total ++ created
  | _, _ => []

/-- An operation on an occupied slot, and nothing for a refused one. -/
def updateLog (table : ProcessTable) (pid : Nat) (verb suffix : String) : List Log.Entry :=
  match table.occupied? pid with
  | some _ => [Log.debug ("[sched] " ++ verb ++ " pid " ++ toString pid ++ suffix)]
  | none => []

def startLog (table : ProcessTable) (pid : Nat) : List Log.Entry :=
  table.updateLog pid "start" ""

def stopLog (table : ProcessTable) (pid : Nat) : List Log.Entry :=
  table.updateLog pid "stop" ""

def killLog (table : ProcessTable) (pid : Nat) : List Log.Entry :=
  table.updateLog pid "kill" " (deferred)"

/-- The reclaiming of slots one after the other, each with what the allocator tells. -/
def reclaimLog (slots : Vector Process maxProcesses) : Allocator → List Pid → List Log.Entry
  | _, [] => []
  | memory, pid :: rest =>
    let base := slots[pid].base
    let refused := match memory.free base with
      | .ok _ _ => []
      | .error cause _ =>
        [Log.warn ("[sched] reclaim pid " ++ toString pid.val ++ ": " ++ cause.message)]
    memory.freeLog base ++ refused ++
      [Log.debug ("[sched] reclaimed pid " ++ toString pid.val ++ " (" ++
        Text.hexAddress base ++ ")")] ++
      reclaimLog slots (releaseBlock memory base) rest

/-- The slots that a timer interrupt reclaims, and the switch or the lack of one. -/
def scheduleLog (table : ProcessTable) (memory : Allocator) (frame : TrapFrame) :
    List Log.Entry :=
  if table.activeCount < 2 then []
  else
    let walk := table.turn memory frame
    let switched := match walk.landed with
      | some pid =>
        if pid = table.current then []
        else [Log.trace ("[sched] switch " ++ toString table.current.val ++ " -> " ++
          toString pid.val)]
      | none =>
        [Log.warn ("[sched] no runnable process, resuming pid " ++ toString table.current.val)]
    reclaimLog table.slots memory walk.reclaimed ++ switched

end Microkernel.ProcessTable
