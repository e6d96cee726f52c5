import Microkernel.Client.ProcessDump
import Microkernel.Proofs.Entry.Routes

/-!
# A process dump tells the process table

The client lays out a list of maps with zeros, the kernel writes the numbers of the occupied slots
into the first of them, and the client reads as many back by name.  Map by map the two sides agree
on the keys; along the list an item is written and read without touching the others.
-/

namespace Microkernel

open Client (ProcessEntry readEntries readDump dumpBuffer)

/-- A map with a word under each of some keys. -/
def Value.ofWords (fields : List (String × UInt32)) : Value :=
  .map (fields.map fun field => (some field.1, .uint32 field.2))

/-- An item of the client's buffer before the kernel writes to it. -/
def blankEntry : Value :=
  .ofWords (dumpKeys.map fun key => (key, 0))

namespace ProcessInfo

/-- An item of the client's buffer with the numbers of a slot. -/
def filled (info : ProcessInfo) : Value :=
  .ofWords info.fields

def entry (info : ProcessInfo) : ProcessEntry :=
  ⟨UInt32.ofNat info.pid.val, info.base, info.size, info.pc, info.sp, info.flags.toBits⟩

end ProcessInfo

private theorem isPreparedEntry_blankEntry : Kernel.isPreparedEntry blankEntry = true :=
  rfl

/-- The kernel finds each key and replaces the zero under it. -/
theorem writeFields_blankEntry (info : ProcessInfo) :
    Kernel.writeFields info.fields blankEntry = (true, info.filled) :=
  rfl

private theorem bufferHolds_blank {count length : Nat} (enough : count ≤ length) :
    Kernel.bufferHolds (.list (List.replicate length blankEntry)) count = true := by
  apply List.all_eq_true.mpr
  intro index member
  have inList : index < length := (List.mem_range.mp member).trans_le enough
  have item : (Value.list (List.replicate length blankEntry)).listGet? index = some blankEntry := by
    rw [Value.listGet?, List.getElem?_replicate, if_pos inList]
  rw [item]
  exact isPreparedEntry_blankEntry

/-- Behind the items that are written already, one blank item is written for each slot. -/
theorem fillFrom_blank (infos : List ProcessInfo) (written : List Value) (spare : Nat) :
    Kernel.fillFrom written.length infos
        (.list (written ++ List.replicate (infos.length + spare) blankEntry)) =
      (true, .list (written ++ infos.map ProcessInfo.filled ++
        List.replicate spare blankEntry)) := by
  induction infos generalizing written with
  | nil =>
      rw [List.length_nil, Nat.zero_add, List.map_nil, List.append_nil]
      rfl
  | cons info rest inductionHypothesis =>
      rw [List.length_cons, Nat.add_right_comm, List.replicate_succ]
      have item : (Value.list (written ++ blankEntry ::
          List.replicate (rest.length + spare) blankEntry)).listGet? written.length =
            some blankEntry := by
        rw [Value.listGet?, List.getElem?_append_right (Nat.le_refl _), Nat.sub_self]
        rfl
      have put : (Value.list (written ++ blankEntry ::
          List.replicate (rest.length + spare) blankEntry)).listPut written.length info.filled =
            .list ((written ++ [info.filled]) ++
              List.replicate (rest.length + spare) blankEntry) := by
        rw [Value.listPut, List.set_append_right _ _ (Nat.le_refl _), Nat.sub_self,
          List.append_assoc]
        rfl
      have next := inductionHypothesis (written ++ [info.filled])
      rw [List.length_append, List.length_singleton] at next
      rw [Kernel.fillFrom, item]
      simp only [writeFields_blankEntry, put, if_true]
      rw [next, List.append_assoc written, List.singleton_append, List.map_cons]

private theorem length_dump_le (table : ProcessTable) : table.dump.length ≤ maxProcesses := by
  rw [ProcessTable.dump, List.length_map]
  exact (List.length_filter_le _ _).trans (Nat.le_of_eq List.length_finRange)

/-- The client's buffer after the kernel has told it some slots. -/
def toldBuffer (infos : List ProcessInfo) : Value :=
  .list (infos.map ProcessInfo.filled ++
    List.replicate (maxProcesses - infos.length) blankEntry)

/-- A way into the kernel answers the client's buffer with the number of some slots, of which every
one is in the buffer then. -/
def Tells {S : Type} [Boundary S] (state : S) (infos : List ProcessInfo) (after : S) : Prop :=
  ∃ log, Boundary.dispatch SyscallId.procDump.code
      (.list (List.replicate maxProcesses blankEntry)) state =
    ⟨.uint32 (UInt32.ofNat infos.length), toldBuffer infos, after, log⟩

section Ways

variable {C : Type} [PolledController C] (kernel : Kernel C)

/-- The kernel writes every occupied slot into the client's buffer and answers with their number. -/
theorem Kernel.tells : Tells kernel kernel.processes.dump kernel := by
  have few := length_dump_le kernel.processes
  have filling := fillFrom_blank kernel.processes.dump []
    (maxProcesses - kernel.processes.dump.length)
  rw [Nat.add_sub_cancel' few] at filling
  have holds := bufferHolds_blank few
  have named : SyscallId.ofCode? SyscallId.procDump.code = some .procDump := rfl
  refine ⟨kernel.processes.dump.map ProcessInfo.log, ?_⟩
  change kernel.dispatch SyscallId.procDump.code _ = _
  rw [dispatch_eq, named]
  simp only [serve, Work.call, perform_procDump, holds, if_true]
  simp only [List.nil_append, List.length_nil] at filling
  simp only [filling, if_true, toldBuffer]

/-- Through the gate the answer is the same, and the mask is what it was. -/
theorem System.tells : ∃ installed, Tells (System.new kernel) kernel.processes.dump
    (.new (kernel.withMask ⟨kernel.uart.mask.current, installed⟩)) := by
  let sections := Brackets.bracket IrqMask.allLines
    (Kernel.bracketsOf SyscallId.procDump.code
      (.list (List.replicate maxProcesses blankEntry))) .done
  obtain ⟨log, served⟩ := kernel.tells
  have gated := System.syscall_new kernel.uart.mask kernel SyscallId.procDump.code
    (.list (List.replicate maxProcesses blankEntry))
  have maskEq : sections.run kernel.uart.mask =
      ⟨kernel.uart.mask.current, (sections.run kernel.uart.mask).installed⟩ := by
    rw [← sections.run_current kernel.uart.mask]
  change kernel.dispatch _ _ = _ at served
  rw [served] at gated
  refine ⟨(sections.run kernel.uart.mask).installed, log, ?_⟩
  rw [← maskEq]
  exact gated

theorem Celled.tells {system after : System C} {infos : List ProcessInfo}
    (tells : Tells system infos after) : Tells (published system) infos (published after) := by
  obtain ⟨log, served⟩ := tells
  have numbered : SyscallId.procDump.code ≠ 0 := by
    decide
  have celled := dispatch_published numbered
    (.list (List.replicate maxProcesses blankEntry)) system
  change system.syscall _ _ = _ at served
  rw [served] at celled
  exact ⟨log, celled⟩

end Ways

end Microkernel
