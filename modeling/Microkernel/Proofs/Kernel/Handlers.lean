import Microkernel.Kernel.Dispatch
import Microkernel.Proofs.Memory.Release
import Microkernel.Proofs.Process.Slots
import Microkernel.Proofs.Uart.Queueing

/-!
# What each call does

Each call as one function of the kernel and its argument.  An operation that is refused has left the
kernel as it was, so a call that is refused after it has still changed nothing.
-/

namespace Microkernel.Kernel

open Memory (Allocator)

/-- What a call may ask of the kernel. -/
def MayAsk : SyscallId → Request → Prop
  | .uartRxEmpty, .driver request => request = .rxIsEmpty
  | .uartTxFull, .driver request => request = .txIsFull
  | .uartGetc, .driver request => request = .take
  | .uartPutc, .driver request => request ≠ .take
  | .procCreate, .create _ | .procStart, .start _ | .procStop, .stop _ | .procKill, .kill _ => True
  | .procBase, .baseOf _ | .procDump, .dump | .kernelDump, .ticks => True
  | .memAlloc, .alloc _ | .memFree, .free _ => True
  | _, _ => False

private theorem withPid_asks {kind : Request → Prop}
    {operation : Nat → Work (Told (Except ProcessError Unit))} (arg : Value)
    (asks : ∀ pid, (operation pid).Asks kind) : (Work.withPid operation arg).Asks kind := by
  unfold Work.withPid
  cases arg.asUInt32? with
  | none => trivial
  | some pid =>
      refine (asks pid.toNat).bind fun done => ?_
      cases done.answer with
      | ok _ => trivial
      | error cause => trivial

theorem call_asks (call : SyscallId) (arg : Value) : (Work.call call arg).Asks (MayAsk call) := by
  cases call with
  | none => trivial
  | hello => trivial
  | uartRxEmpty => exact ⟨rfl, fun _ => trivial⟩
  | uartTxFull => exact ⟨rfl, fun _ => trivial⟩
  | uartGetc =>
      change (Work.uartGetc arg).Asks _
      unfold Work.uartGetc
      split
      · trivial
      · exact ⟨rfl, fun _ => trivial⟩
  | uartPutc =>
      change (Work.uartPutc arg).Asks _
      unfold Work.uartPutc
      split
      · next byte _ => exact (Routine.Asks.embed (Uart.put_spares byte)).bind fun _ => trivial
      · trivial
  | procCreate =>
      change (Work.procCreate arg).Asks _
      unfold Work.procCreate
      split
      · trivial
      · refine Routine.Asks.bind ⟨trivial, fun _ => trivial⟩ fun created => ?_
        cases created.answer with
        | ok _ => trivial
        | error _ => trivial
  | procStart => exact withPid_asks arg fun _ => ⟨trivial, fun _ => trivial⟩
  | procStop => exact withPid_asks arg fun _ => ⟨trivial, fun _ => trivial⟩
  | procKill => exact withPid_asks arg fun _ => ⟨trivial, fun _ => trivial⟩
  | procBase =>
      change (Work.procBase arg).Asks _
      unfold Work.procBase
      split
      · trivial
      · refine Routine.Asks.bind ⟨trivial, fun _ => trivial⟩ fun found => ?_
        cases found with
        | ok _ => trivial
        | error _ => trivial
  | procDump =>
      refine Routine.Asks.bind ⟨trivial, fun _ => trivial⟩ fun infos => ?_
      dsimp only
      split
      · trivial
      · trivial
  | kernelDump => exact ⟨trivial, fun _ => trivial⟩
  | memAlloc =>
      change (Work.memAlloc arg).Asks _
      unfold Work.memAlloc
      split
      · trivial
      · refine Routine.Asks.bind ⟨trivial, fun _ => trivial⟩ fun granted => ?_
        cases granted.answer with
        | ok _ => trivial
        | error _ => trivial
  | memFree =>
      change (Work.memFree arg).Asks _
      unfold Work.memFree
      split
      · trivial
      · refine Routine.Asks.bind ⟨trivial, fun _ => trivial⟩ fun released => ?_
        cases released.answer with
        | ok _ => trivial
        | error _ => trivial

variable {C : Type} [Controller C] (kernel : Kernel C) (arg : Value)

theorem perform_eq (work : Work Reply) :
    kernel.perform work = (work.run answer kernel).1.upon (work.run answer kernel).2 :=
  rfl

theorem run_onDriver {α : Type} (work : Uart.Work α) :
    (Work.onDriver work).run answer kernel =
      ((work.run Uart.answer kernel.uart).1,
        { kernel with uart := (work.run Uart.answer kernel.uart).2 }) :=
  @Routine.run_embed _ _ _ _ _ Answer .driver (fun uart => { kernel with uart }) Uart.answer answer
    (fun _ _ => rfl) work kernel.uart

theorem steps_onDriver {α : Type} (work : Uart.Work α) :
    (Work.onDriver work).steps answer kernel =
      (work.steps Uart.answer kernel.uart).map fun step =>
        ⟨{ kernel with uart := step.state }, .driver step.request⟩ :=
  @Routine.steps_embed _ _ _ _ _ Answer .driver (fun uart => { kernel with uart }) Uart.answer
    answer (fun _ _ => rfl) work kernel.uart

theorem ownsHeap_of_asUInt32? {arg : Value} {word : UInt32} (isWord : arg.asUInt32? = some word) :
    arg.ownsHeap = false := by
  cases arg with
  | uint32 => rfl
  | _ => simp [Value.asUInt32?] at isWord

private theorem answered_of_scalar {arg : Value} (scalar : arg.ownsHeap = false) (answer : Value)
    (log : List Log.Entry) : Reply.answered arg answer log = ⟨.ok, answer, log⟩ := by
  simp [Reply.answered, scalar]

/-- What comes of a call for the process that its argument names. -/
def flagged (change : Process → Process) (log : Nat → List Log.Entry) : Served (Kernel C) :=
  match arg.asUInt32? with
  | none => .refused arg kernel []
  | some pid =>
    match kernel.processes.update pid.toNat change with
    | .ok _ processes => ⟨.ok, arg, { kernel with processes }, log pid.toNat⟩
    | .error _ _ => .refused arg kernel (log pid.toNat)

private theorem perform_withPid {operation : Nat → Work (Told (Except ProcessError Unit))}
    {change : Process → Process} {log : Nat → List Log.Entry}
    (changes : ∀ pid, (operation pid).run answer kernel =
      kernel.changed (kernel.processes.update pid change) (log pid)) :
    kernel.perform (.withPid operation arg) = kernel.flagged arg change log := by
  unfold flagged perform Work.withPid
  cases arg.asUInt32? with
  | none => rfl
  | some pid =>
      simp only [Routine.run_bind, changes, changed]
      cases updated : kernel.processes.update pid.toNat change with
      | ok _ processes => rfl
      | error cause processes =>
          obtain rfl := ProcessTable.update_eq_error updated
          rfl

theorem perform_procStart :
    kernel.perform (.procStart arg) = kernel.flagged arg Process.activate
      kernel.processes.startLog :=
  perform_withPid kernel arg fun _ => rfl

theorem perform_procStop :
    kernel.perform (.procStop arg) = kernel.flagged arg Process.park kernel.processes.stopLog :=
  perform_withPid kernel arg fun _ => rfl

theorem perform_procKill :
    kernel.perform (.procKill arg) = kernel.flagged arg Process.condemn kernel.processes.killLog :=
  perform_withPid kernel arg fun _ => rfl

theorem perform_uartRxEmpty :
    kernel.perform (.uartRxEmpty arg) =
      (Reply.answered arg (truthValue kernel.uart.rx.isEmpty) []).upon kernel :=
  rfl

theorem perform_uartTxFull :
    kernel.perform (.uartTxFull arg) =
      (Reply.answered arg (truthValue kernel.uart.tx.isFull) []).upon kernel :=
  rfl

theorem perform_uartGetc :
    kernel.perform (.uartGetc arg) =
      if arg.ownsHeap then .refused arg kernel []
      else ⟨.ok, encodeByte kernel.uart.get.1, { kernel with uart := kernel.uart.get.2 }, []⟩ := by
  unfold perform Work.uartGetc
  cases owner : arg.ownsHeap with
  | true => rfl
  | false =>
      simp only [Bool.false_eq_true, if_false, Routine.run_bind, run_onDriver, Routine.run_pure,
        answered_of_scalar owner]
      rfl

theorem perform_uartPutc :
    kernel.perform (.uartPutc arg) =
      match byteOf? arg with
      | some byte => ⟨.ok, arg, { kernel with uart := kernel.uart.put byte }, []⟩
      | none => .refused arg kernel [] := by
  unfold perform Work.uartPutc
  cases byteOf? arg with
  | none => rfl
  | some byte =>
      simp only [Routine.run_bind, run_onDriver]
      rfl

theorem perform_procCreate :
    kernel.perform (.procCreate arg) =
      match arg.asUInt32? with
      | none => .refused arg kernel []
      | some size =>
        let log := kernel.processes.createLog kernel.memory size
        match kernel.processes.create kernel.memory size with
        | .ok pid (processes, memory) =>
          ⟨.ok, .uint32 (UInt32.ofNat pid.val), { kernel with processes, memory }, log⟩
        | .error error _ =>
          .refused arg kernel (log ++ [Log.warn ("[syscall] proc_create(" ++
            Text.hexSize size.toNat ++ "): " ++ error.message)]) := by
  unfold perform Work.procCreate
  cases isWord : arg.asUInt32? with
  | none => rfl
  | some size =>
      simp only [Routine.run_bind, Work.create, Routine.run, answer]
      cases created : kernel.processes.create kernel.memory size with
      | ok pid after =>
          simp only [Attempt.outcome, Attempt.state, Routine.run_pure,
            answered_of_scalar (ownsHeap_of_asUInt32? isWord)]
          rfl
      | error cause after =>
          obtain rfl := ProcessTable.create_eq_error created
          rfl

theorem perform_procBase :
    kernel.perform (.procBase arg) =
      match arg.asUInt32? with
      | none => .refused arg kernel []
      | some pid =>
        match kernel.processes.baseOf pid.toNat with
        | .ok base => ⟨.ok, .uint32 base, kernel, []⟩
        | .error _ => .refused arg kernel [] := by
  unfold perform Work.procBase
  cases isWord : arg.asUInt32? with
  | none => rfl
  | some pid =>
      simp only [Routine.run_bind, Work.baseOf, Routine.run, answer]
      cases kernel.processes.baseOf pid.toNat with
      | ok base =>
          simp only [Routine.run_pure, answered_of_scalar (ownsHeap_of_asUInt32? isWord)]
          rfl
      | error cause => rfl

theorem perform_kernelDump :
    kernel.perform (.kernelDump arg) =
      (Reply.answered arg (.uint32 kernel.ticks) kernel.dumpLog).upon kernel :=
  rfl

theorem perform_procDump :
    kernel.perform (.procDump arg) =
      let infos := kernel.processes.dump
      let log := infos.map ProcessInfo.log
      if bufferHolds arg infos.length then
        let (filled, buffer) := fillFrom 0 infos arg
        ⟨if filled then .uint32 (UInt32.ofNat infos.length) else .fail, buffer, kernel, log⟩
      else
        .refused arg kernel (log ++ [Log.warn ("[syscall] proc_dump: buffer cannot hold " ++
          toString infos.length ++ " entries")]) := by
  have dumped : Work.dump.run answer kernel = (kernel.processes.dump, kernel) := rfl
  rw [perform, Work.procDump, Routine.run_bind, dumped]
  dsimp only
  split
  · rfl
  · rfl

theorem perform_memAlloc :
    kernel.perform (.memAlloc arg) =
      match arg.asUInt32? with
      | none => .refused arg kernel []
      | some size =>
        let log := kernel.memory.allocLog size
        match kernel.memory.alloc size with
        | .ok address memory => ⟨.ok, .uint32 address, { kernel with memory }, log⟩
        | .error _ _ => .refused arg kernel log := by
  unfold perform Work.memAlloc
  cases isWord : arg.asUInt32? with
  | none => rfl
  | some size =>
      simp only [Routine.run_bind, Work.alloc, Routine.run, answer]
      cases granted : kernel.memory.alloc size with
      | ok address memory =>
          simp only [Attempt.outcome, Attempt.state, Routine.run_pure,
            answered_of_scalar (ownsHeap_of_asUInt32? isWord)]
          rfl
      | error cause memory =>
          obtain rfl := Allocator.alloc_eq_error granted
          rfl

theorem perform_memFree :
    kernel.perform (.memFree arg) =
      match arg.asUInt32? with
      | none => .refused arg kernel []
      | some address =>
        let log := kernel.memory.freeLog address
        match kernel.memory.free address with
        | .ok _ memory => ⟨.ok, arg, { kernel with memory }, log⟩
        | .error _ _ => .refused arg kernel log := by
  unfold perform Work.memFree
  cases arg.asUInt32? with
  | none => rfl
  | some address =>
      simp only [Routine.run_bind, Work.free, Routine.run, answer]
      cases released : kernel.memory.free address with
      | ok _ memory => rfl
      | error cause memory =>
          obtain ⟨-, rfl⟩ := Allocator.free_eq_error released
          rfl

theorem dispatch_eq (id : UInt32) :
    kernel.dispatch id arg =
      match SyscallId.ofCode? id with
      | some call => kernel.serve call arg
      | none => .refused arg kernel
          [Log.warn ("[syscall] unknown syscall id " ++ toString id.toNat)] := by
  unfold dispatch serve Work.callNumber
  cases SyscallId.ofCode? id with
  | some call => rfl
  | none => rfl

end Microkernel.Kernel
