import Microkernel.Client.Serial
import Microkernel.Proofs.Kernel.Refusal
import Microkernel.Proofs.Kernel.Sides
import Microkernel.Proofs.Uart.Delivery
import Microkernel.Proofs.Uart.Receive
import Microkernel.Proofs.Uart.Simulated

/-!
# What clients get to read

Clients take received bytes one by one, and each answer is a byte or says that none waits.  Over a
run the answers and what is left in the receive ring make up the bytes that the receive loop read
while the ring had room: `reception_lossless` follows `Receives` from event to event.
-/

namespace Microkernel

open Uart

namespace Kernel

variable {C : Type}

/-- The byte that an answer to a reader stands for. -/
def byteAnswered? : Value → Option UInt8
  | .int32 answer => Client.byteOf? answer
  | _ => none

/-- The answer to a reader, if the call succeeds. -/
def handedOut? [PolledController C] (kernel : Kernel C) : Event → Option Value
  | .call id arg =>
    let served := kernel.dispatch id arg
    if SyscallId.ofCode? id = some .uartGetc ∧ served.ret.isOk = true then some served.arg
    else none
  | .interrupt _ _ => none

/-- The answers to readers in a run, in the order of the calls. -/
def handedOut [PolledController C] : Kernel C → List Event → List Value
  | _, [] => []
  | kernel, event :: rest =>
    (kernel.handedOut? event).toList ++ handedOut (kernel.after event) rest

section Traced

variable [PolledController C]

/-- The accesses with which an interrupt was served. -/
def lineAccesses (kernel : Kernel (TracedUart C)) : Event → List Access
  | .call _ _ => []
  | .interrupt frame lines =>
    kernel.uart.accessesUntil (kernel.interrupt frame lines).state.uart

/-- The bytes that were received in an event while the ring had room. -/
def admittedIn (kernel : Kernel (TracedUart C)) (event : Event) : List UInt8 :=
  admitInto kernel.uart.rx.toList.length (receivedIn (kernel.lineAccesses event))

/-- The bytes that were received in a run while the ring had room. -/
def admitted : Kernel (TracedUart C) → List Event → List UInt8
  | _, [] => []
  | kernel, event :: rest => kernel.admittedIn event ++ admitted (kernel.after event) rest

end Traced

/-- The three ways in which a reader's call ends. -/
inductive Reads (kernel : Kernel C) (arg : Value) : Served (Kernel C) → Prop
  | refused (owner : arg.ownsHeap = true) : Reads kernel arg (.refused arg kernel [])
  | empty (nothing : kernel.uart.rx.pop? = none) :
      Reads kernel arg ⟨.ok, .int32 (-1), kernel, []⟩
  | taken (byte : UInt8) (rx : Ring ringSize) (popped : kernel.uart.rx.pop? = some (byte, rx)) :
      Reads kernel arg
        ⟨.ok, .int32 byte.toUInt32.toInt32, { kernel with uart := { kernel.uart with rx } }, []⟩

private theorem uartGetc_reads [Controller C] (kernel : Kernel C) (arg : Value) :
    Reads kernel arg (kernel.perform (.uartGetc arg)) := by
  cases owner : arg.ownsHeap with
  | true =>
      simp only [perform_uartGetc, owner, if_true]
      exact .refused owner
  | false =>
      simp only [perform_uartGetc, owner, Bool.false_eq_true, if_false]
      cases popped : kernel.uart.rx.pop? with
      | none =>
          simp only [Uart.get, popped]
          exact .empty popped
      | some result =>
          simp only [Uart.get, popped]
          exact .taken result.1 result.2 popped

private theorem dispatch_of_reader [Controller C] {id : UInt32}
    (reader : SyscallId.ofCode? id = some .uartGetc) (kernel : Kernel C) (arg : Value) :
    kernel.dispatch id arg = kernel.perform (.uartGetc arg) := by
  rw [dispatch_eq, reader]
  rfl

private theorem handedOut_of_reader [PolledController C] {id : UInt32}
    (reader : SyscallId.ofCode? id = some .uartGetc) (kernel : Kernel C) (arg : Value) :
    kernel.handedOut? (.call id arg) =
      let served := kernel.perform (.uartGetc arg)
      if served.ret.isOk = true then some served.arg else none := by
  simp only [handedOut?, dispatch_of_reader reader, reader, true_and]

/-- A reader is answered, unless there is storage behind its argument. -/
theorem exists_handedOut [PolledController C] {id : UInt32} {arg : Value}
    (reader : SyscallId.ofCode? id = some .uartGetc) (scalar : arg.ownsHeap = false)
    (kernel : Kernel C) : ∃ answer, kernel.handedOut? (.call id arg) = some answer := by
  have reads := uartGetc_reads kernel arg
  rw [handedOut_of_reader reader]
  generalize kernel.perform (.uartGetc arg) = served at reads ⊢
  cases reads with
  | refused owner =>
      rw [owner] at scalar
      cases scalar
  | empty => exact ⟨_, rfl⟩
  | taken => exact ⟨_, rfl⟩

/-- Only a reader takes bytes out of the receive ring. -/
theorem serve_rx [Controller C] (kernel : Kernel C) {call : SyscallId} (arg : Value)
    (other : call ≠ .uartGetc) : (kernel.serve call arg).state.uart.rx = kernel.uart.rx := by
  refine (call_asks call arg).run_eq (fun kernel => kernel.uart.rx) ?_ kernel
  intro request state asked
  cases request with
  | driver access =>
      have spares : access ≠ .take := by
        rintro rfl
        cases call with
        | uartGetc => exact other rfl
        | uartRxEmpty => cases asked
        | uartTxFull => cases asked
        | uartPutc => exact asked rfl
        | _ => exact asked
      exact Uart.answer_rx spares state.uart
  | _ => rfl

private theorem toInt_byte (byte : UInt8) : byte.toUInt32.toInt32.toInt = byte.toNat := by
  have small : byte.toNat < 256 := byte.toNat_lt
  have bits : byte.toUInt32.toInt32.toInt = byte.toUInt32.toBitVec.toInt := rfl
  rw [bits, BitVec.toInt_eq_toNat_of_lt]
  · simp
  · simp
    omega

theorem byteAnswered_byte (byte : UInt8) :
    byteAnswered? (.int32 byte.toUInt32.toInt32) = some byte := by
  have small : byte.toNat < 256 := byte.toNat_lt
  have inRange : 0 ≤ (byte.toNat : Int) ∧ (byte.toNat : Int) ≤ 255 := by
    omega
  rw [byteAnswered?, Client.byteOf?, toInt_byte, if_pos inRange, Int.toNat_natCast,
    UInt8.ofNat_toNat]

section Traced

variable [PolledController C]

/-- What an event means for the receive ring: what it hands out was in front, and what it admits
goes behind. -/
structure Receives (kernel : Kernel (TracedUart C)) (event : Event) : Prop where
  valid : (kernel.after event).uart.rx.Valid
  order : (kernel.handedOut? event).toList.filterMap byteAnswered? ++
      (kernel.after event).uart.rx.toList =
    kernel.uart.rx.toList ++ kernel.admittedIn event
  /-- An answer is a byte, or says that none waits. -/
  answered : ∀ answer, kernel.handedOut? event = some answer →
    ∃ number : Int32, answer = .int32 number ∧
      (number = -1 ↔ kernel.uart.rx.toList = []) ∧
      (number ≠ -1 → 0 ≤ number.toInt ∧ number.toInt ≤ 255)
  /-- A byte that is read because of a line error is read alone, and dropped. -/
  damaged : ∀ identification status rest,
    kernel.lineAccesses event =
        .read .interruptId identification :: .read .lineStatus status :: rest →
      hasBit status lineError = true →
        ∃ byte, rest = [.read .data byte] ∧ (kernel.after event).uart.rx = kernel.uart.rx

variable {kernel : Kernel (TracedUart C)}

/-- An event that hands out nothing, receives nothing and leaves the ring alone. -/
theorem receives_of_rx {event : Event} (valid : kernel.uart.rx.Valid)
    (silent : kernel.handedOut? event = none) (noAccess : kernel.lineAccesses event = [])
    (rx : (kernel.after event).uart.rx = kernel.uart.rx) : Receives kernel event := by
  refine ⟨rx ▸ valid, ?_, ?_, ?_⟩
  · rw [silent, admittedIn, noAccess, rx]
    exact (List.append_nil _).symm
  · intro answer answered
    rw [silent] at answered
    cases answered
  · intro identification status rest split
    rw [noAccess] at split
    cases split

/-- A reader's call hands out the byte in front, or says that there is none. -/
theorem reader_receives {id : UInt32} {arg : Value} (valid : kernel.uart.rx.Valid)
    (reader : SyscallId.ofCode? id = some .uartGetc) : Receives kernel (.call id arg) := by
  have reads := uartGetc_reads kernel arg
  have handedEq := handedOut_of_reader reader kernel arg
  have stateEq : kernel.after (.call id arg) = (kernel.perform (.uartGetc arg)).state :=
    congrArg Served.state (dispatch_of_reader reader kernel arg)
  generalize kernel.perform (.uartGetc arg) = served at reads handedEq stateEq
  cases reads with
  | refused =>
      exact receives_of_rx valid handedEq rfl (congrArg (fun state => state.uart.rx) stateEq)
  | empty nothing =>
      have handed : kernel.handedOut? (.call id arg) = some (.int32 (-1)) := handedEq
      have noBytes : kernel.uart.rx.toList = [] :=
        valid.isEmpty_iff.mp (Ring.pop?_eq_none_iff.mp nothing)
      refine ⟨?_, ?_, ?_, ?_⟩
      · rw [stateEq]
        exact valid
      · rw [stateEq, handed]
        exact (List.append_nil _).symm
      · intro answer answered
        obtain rfl := Option.some.inj (handed.symm.trans answered)
        exact ⟨-1, rfl, iff_of_true rfl noBytes, fun other => absurd rfl other⟩
      · intro identification status rest split
        cases split
  | taken byte rx popped =>
      have handed : kernel.handedOut? (.call id arg) =
          some (.int32 byte.toUInt32.toInt32) := handedEq
      have front := valid.toList_pop? popped
      refine ⟨?_, ?_, ?_, ?_⟩
      · rw [stateEq]
        exact valid.pop? popped
      · rw [stateEq, handed, front, Option.toList_some, List.filterMap_cons_some
          (byteAnswered_byte byte)]
        exact (List.append_nil _).symm
      · intro answer answered
        obtain rfl := Option.some.inj (handed.symm.trans answered)
        have small : byte.toNat < 256 := byte.toNat_lt
        have isByte := toInt_byte byte
        refine ⟨_, rfl, iff_of_false ?_ ?_, fun _ => by omega⟩
        · intro negative
          rw [negative] at isByte
          exact absurd isByte (by simp)
        · rw [front]
          exact List.cons_ne_nil byte _
      · intro identification status rest split
        cases split

private theorem call_receives (valid : kernel.uart.rx.Valid) (id : UInt32) (arg : Value) :
    Receives kernel (.call id arg) := by
  by_cases reader : SyscallId.ofCode? id = some .uartGetc
  · exact reader_receives valid reader
  · have silent : kernel.handedOut? (.call id arg) = none := by
      simp only [handedOut?, reader, false_and, if_false]
    refine receives_of_rx valid silent rfl ?_
    rw [after, dispatch_eq]
    split
    · next call named =>
      refine serve_rx kernel arg ?_
      rintro rfl
      exact reader named
    · rfl

private theorem interrupt_receives (valid : kernel.uart.rx.Valid) (frame : TrapFrame)
    (lines : IrqLines) : Receives kernel (.interrupt frame lines) := by
  have uartEq := interrupt_uart kernel frame lines
  have unserved : (kernel.interrupt frame lines).state.uart = kernel.uart →
      Receives kernel (.interrupt frame lines) := by
    intro same
    refine receives_of_rx valid rfl ?_ (congrArg Uart.rx same)
    rw [lineAccesses, same]
    exact accessesUntil_eq (List.append_nil _).symm
  by_cases line : lines.uart = true
  · rw [if_pos line, Uart.service] at uartEq
    cases served : kernel.uart.service? (PolledController.pollLimit kernel.uart.controller) with
    | none =>
        rw [served] at uartEq
        exact unserved uartEq
    | some result =>
        obtain ⟨receptions, uart⟩ := result
        rw [served] at uartEq
        obtain ⟨accesses, collects⟩ := service_collects valid served
        have accessesEq : kernel.lineAccesses (.interrupt frame lines) = accesses := by
          rw [lineAccesses, uartEq]
          exact accessesUntil_eq collects.trace
        have afterUart : (kernel.after (.interrupt frame lines)).uart = uart := uartEq
        refine ⟨?_, ?_, ?_, ?_⟩
        · rw [afterUart]
          exact collects.valid
        · rw [admittedIn, accessesEq, afterUart]
          exact collects.order
        · intro answer answered
          cases answered
        · rw [accessesEq, afterUart]
          exact collects.damaged
  · rw [if_neg line] at uartEq
    exact unserved uartEq

private theorem after_receives (valid : kernel.uart.rx.Valid) (event : Event) :
    Receives kernel event := by
  cases event with
  | call id arg =>
      exact call_receives valid id arg
  | interrupt frame lines =>
      exact interrupt_receives valid frame lines

/-- A run hands out and keeps in the ring what was there before and what it admits. -/
theorem run_receives (valid : kernel.uart.rx.Valid) (events : List Event) :
    (kernel.afterAll events).uart.rx.Valid ∧
      (kernel.handedOut events).filterMap byteAnswered? ++
          (kernel.afterAll events).uart.rx.toList =
        kernel.uart.rx.toList ++ kernel.admitted events := by
  induction events generalizing kernel with
  | nil =>
      exact ⟨valid, (List.append_nil _).symm⟩
  | cons event rest inductionHypothesis =>
      have receives := after_receives valid event
      obtain ⟨validLater, orderLater⟩ := inductionHypothesis receives.valid
      refine ⟨validLater, ?_⟩
      have whole : kernel.afterAll (event :: rest) = (kernel.after event).afterAll rest := rfl
      rw [handedOut, admitted, List.filterMap_append, whole, List.append_assoc, orderLater,
        ← List.append_assoc, receives.order, List.append_assoc]

/-- After a driver with an empty receive ring was initialised, the bytes that readers were given in
any run, followed by those that still wait, are the bytes that the receive loop read while the
ring had room.  A byte that a line error damaged is not among them.  On the simulated line an
interrupt reads every byte that waits. -/
theorem reception_lossless (kernel : Kernel (TracedUart C)) (valid : kernel.uart.rx.Valid)
    (nothing : kernel.uart.rx.isEmpty = true) (events : List Event) :
    let start := { kernel with uart := kernel.uart.init }
    (start.handedOut events).filterMap byteAnswered? ++ (start.afterAll events).uart.rx.toList =
        start.admitted events ∧
      (∀ earlier event later, events = earlier ++ event :: later →
        let now := start.afterAll earlier
        (∀ id arg, event = .call id arg → SyscallId.ofCode? id = some .uartGetc →
          arg.ownsHeap = false → ∃ answer, now.handedOut? event = some answer) ∧
        (∀ answer, now.handedOut? event = some answer →
          ∃ number : Int32, answer = .int32 number ∧
            (number = -1 ↔ now.uart.rx.toList = []) ∧
            (number ≠ -1 → 0 ≤ number.toInt ∧ number.toInt ≤ 255)) ∧
        ∀ identification status rest,
          now.lineAccesses event =
              .read .interruptId identification :: .read .lineStatus status :: rest →
            hasBit status lineError = true →
              ∃ byte, rest = [.read .data byte] ∧ (now.after event).uart.rx = now.uart.rx) ∧
      ∀ uart : Uart SimulatedUart, uart.controller.latchOpen = false →
        hasBit uart.controller.interruptEnable receiveInterrupt = true →
          uart.controller.incoming ≠ [] → uart.controller.damaged = false →
            ∃ receptions after,
              (∀ polls, uart.controller.incoming.length < polls →
                uart.service? polls = some (receptions, after)) ∧
              receptions.map Reception.byte = uart.controller.incoming ∧
              after.controller.incoming = [] := by
  intro start
  have startValid : start.uart.rx.Valid := valid
  have startEmpty : start.uart.rx.toList = [] := valid.isEmpty_iff.mp nothing
  refine ⟨?_, ?_, ?_⟩
  · have order := (run_receives startValid events).2
    rwa [startEmpty, List.nil_append] at order
  · intro earlier event later _ now
    have receives := after_receives (run_receives startValid earlier).1 event
    refine ⟨?_, receives.answered, receives.damaged⟩
    rintro id arg rfl reader scalar
    exact exists_handedOut reader scalar now
  · intro uart closed enabled waits clean
    have waiting : uart.controller.incoming.isEmpty = false := by
      simpa using waits
    have identified := SimulatedUart.interruptId_of_incoming enabled waiting
    obtain ⟨receptions, rx, served, bytesEq⟩ :=
      service_of_received identified closed clean (Nat.lt_succ_self _)
    let after : Uart SimulatedUart := { uart with rx, controller := uart.controller.emptied }
    refine ⟨receptions, after, ?_, bytesEq, rfl⟩
    intro polls enough
    obtain ⟨more, rfl⟩ := Nat.exists_eq_add_of_le (Nat.succ_le_of_lt enough)
    exact service_more served more

end Traced

/-- The line reports two bytes at the first interrupt and a damaged one at the second. -/
def damagedLine : Kernel (TracedUart ReplayedUart) :=
  .new .default ⟨⟨fun
    | .interruptId => [0x04, 0x04]
    | .lineStatus => [0x01, 0x01, 0x01, 0x00, 0x81]
    | .data => [65, 66, 67]
    | _ => []⟩, []⟩ .clear

/-- Three readers, of whom the first comes too early. -/
theorem reception_lossless_damagedLine :
    let events : List Event :=
      [.call 4 .none, .interrupt .zero .all, .call 4 .none, .call 4 (.list []),
        .interrupt .zero .all, .call 4 .none]
    let start := { damagedLine with uart := damagedLine.uart.init }
    damagedLine.uart.rx.Valid ∧ damagedLine.uart.rx.isEmpty = true ∧
      (start.handedOut events).length = 3 ∧ start.admitted events = [65, 66] ∧
      (start.handedOut events).filterMap byteAnswered? ++ (start.afterAll events).uart.rx.toList =
        start.admitted events := by
  have valid : damagedLine.uart.rx.Valid := Ring.valid_empty (by decide)
  have nothing : damagedLine.uart.rx.isEmpty = true := rfl
  refine ⟨valid, nothing, ?_, ?_, (reception_lossless damagedLine valid nothing _).1⟩
  · decide +kernel
  · decide +kernel

end Kernel

end Microkernel
