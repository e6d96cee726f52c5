import Microkernel.Proofs.Uart.Transmit
import Microkernel.Uart.Replayed

/-!
# Runs of the driver

A driver is initialised and then asked to put, get, serve an interrupt or set its divisor, in any
order.  `transmission_lossless` says what all its accesses in such a run amount to.  The accesses
that set the divisor are left aside, since they write to the same registers and mean something else.
-/

namespace Microkernel.Uart

/-- What can be asked of a driver that was initialised. -/
inductive Operation where
  | put (byte : UInt8)
  | get
  /-- Serve an interrupt, with at most so many polls for received bytes. -/
  | service (polls : Nat)
  | setDivisor (divisor : UInt16)

/-- The driver after an operation, if the operation completes. -/
def perform? {C : Type} [Controller C] (uart : Uart C) : Operation → Option (Uart C)
  | .put byte => some (uart.put byte)
  | .get => some uart.get.2
  | .service polls => (uart.service? polls).map Prod.snd
  | .setDivisor divisor =>
    match uart.setDivisor divisor with
    | .ok uart => some uart
    | .error _ => some uart

/-- A completed operation and the accesses that it made. -/
structure Episode where
  operation : Operation
  /-- How many bytes waited for the transmitter before it. -/
  waiting : Nat
  accesses : List Access

namespace Episode

/-- The data and interrupt-enable registers stand for the divisor while it is set. -/
def transfers (episode : Episode) : Bool :=
  match episode.operation with
  | .setDivisor _ => false
  | _ => true

/-- The byte that an episode was asked to transmit, if its ring had room. -/
def accepted? (episode : Episode) : Option UInt8 :=
  match episode.operation with
  | .put byte => if episode.waiting < ringSize - 1 then some byte else none
  | _ => none

end Episode

def transferAccesses (episodes : List Episode) : List Access :=
  (episodes.filter Episode.transfers).flatMap Episode.accesses

section Runs

variable {C : Type}

def accessesUntil (before after : Uart (TracedUart C)) : List Access :=
  after.controller.accessesSince before.controller.accesses.length

theorem accessesUntil_eq {before after : Uart (TracedUart C)} {accesses : List Access}
    (trace : after.controller.trace = before.controller.trace ++ accesses) :
    before.accessesUntil after = accesses := by
  have length : before.controller.trace.length = before.controller.accesses.length :=
    List.length_reverse
  rw [accessesUntil, TracedUart.accessesSince, trace, ← length, List.drop_left]

/-- What a run of operations keeps: the order of the bytes, the pace, and the interrupts that ought
to be enabled. -/
structure Delivers (uart final : Uart (TracedUart C)) (episodes : List Episode) : Prop where
  valid : final.tx.Valid
  order : writesTo .data (transferAccesses episodes) ++ final.tx.toList =
    uart.tx.toList ++ episodes.filterMap Episode.accepted?
  paced : ∀ episode ∈ episodes, episode.transfers = true → Paced episode.accesses
  rearms : Rearms uart final (transferAccesses episodes)

private theorem transferAccesses_append (episodes later : List Episode) :
    transferAccesses (episodes ++ later) = transferAccesses episodes ++ transferAccesses later := by
  rw [transferAccesses, List.filter_append, List.flatMap_append]
  rfl

theorem Delivers.trans {first second third : Uart (TracedUart C)} {episodes later : List Episode}
    (delivers : Delivers first second episodes) (onward : Delivers second third later) :
    Delivers first third (episodes ++ later) where
  valid := onward.valid
  order := by
    rw [transferAccesses_append, writesTo_append, List.append_assoc, onward.order,
      ← List.append_assoc, delivers.order, List.filterMap_append, List.append_assoc]
  paced := by
    intro episode member
    rcases List.mem_append.1 member with earlier | further
    · exact delivers.paced episode earlier
    · exact onward.paced episode further
  rearms := by
    rw [transferAccesses_append]
    exact delivers.rearms.trans onward.rearms

/-- An operation other than to set the divisor delivers what its accesses convey. -/
theorem Conveys.delivers {before after : Uart (TracedUart C)} {operation : Operation}
    {waiting : Nat} {queued : List UInt8} {accesses : List Access}
    (conveys : Conveys before after queued accesses)
    (rearms : Rearms before after accesses)
    (accepted : [Episode.mk operation waiting accesses].filterMap Episode.accepted? = queued)
    (transfers : (Episode.mk operation waiting accesses).transfers = true) :
    Delivers before after [⟨operation, waiting, before.accessesUntil after⟩] := by
  have alone : transferAccesses [⟨operation, waiting, accesses⟩] = accesses := by
    simp [transferAccesses, transfers]
  rw [accessesUntil_eq conveys.trace]
  refine ⟨conveys.valid, ?_, ?_, ?_⟩
  · rw [alone, accepted]
    exact conveys.order
  · intro episode member _
    rw [List.mem_singleton.1 member]
    exact conveys.paced
  · rw [alone]
    exact rearms

private theorem accepted_put {uart : Uart (TracedUart C)} (valid : uart.tx.Valid) (byte : UInt8)
    (accesses : List Access) :
    [Episode.mk (.put byte) uart.tx.length accesses].filterMap Episode.accepted? =
      if uart.tx.isFull then [] else [byte] := by
  have roomIff := valid.isFull_eq_false_iff
  rw [valid.length_toList] at roomIff
  cases full : uart.tx.isFull with
  | true =>
      have noRoom : ¬ uart.tx.length < ringSize - 1 :=
        fun room => Bool.false_ne_true ((roomIff.2 room).symm.trans full)
      simp [Episode.accepted?, noRoom]
  | false =>
      simp [Episode.accepted?, roomIff.1 full]

variable [Controller C]

private theorem perform_delivers {uart after : Uart (TracedUart C)} {operation : Operation}
    (valid : uart.tx.Valid) (performed : uart.perform? operation = some after) :
    Delivers uart after [⟨operation, uart.tx.length, uart.accessesUntil after⟩] := by
  cases operation with
  | put byte =>
      cases performed
      obtain ⟨accesses, conveys, rearms⟩ := put_operates valid byte
      exact conveys.delivers rearms (accepted_put valid byte accesses) rfl
  | get =>
      cases performed
      have looks := looks_get uart
      exact (looks.conveys valid).delivers looks.rearms rfl rfl
  | service polls =>
      obtain ⟨⟨receptions, served⟩, completed, rfl⟩ := Option.map_eq_some_iff.1 performed
      obtain ⟨accesses, conveys, rearms⟩ := service_operates valid completed
      exact conveys.delivers rearms rfl rfl
  | setDivisor divisor =>
      have tx : after.tx = uart.tx := by
        by_cases zero : divisor = 0
        · simp only [perform?, setDivisor, zero, if_true, Option.some.injEq] at performed
          rw [performed]
        · simp only [perform?, setDivisor, zero, if_false, Option.some.injEq] at performed
          rw [← performed]
          rfl
      refine ⟨tx ▸ valid, ?_, ?_, ?_⟩
      · rw [tx]
        exact (List.append_nil _).symm
      · intro episode member transfers
        rw [List.mem_singleton.1 member] at transfers
        exact absurd transfers Bool.false_ne_true
      · rw [Rearms, tx]
        rfl

/-- Perform operations one after the other; nothing if one of them does not complete. -/
def performAll? : List Operation → Uart (TracedUart C) → Option (List Episode × Uart (TracedUart C))
  | [], uart => some ([], uart)
  | operation :: rest, uart => do
    let after ← uart.perform? operation
    let (later, final) ← performAll? rest after
    some (⟨operation, uart.tx.length, uart.accessesUntil after⟩ :: later, final)

/-- A run keeps what each of its operations keeps. -/
theorem performAll_delivers {operations : List Operation} {uart final : Uart (TracedUart C)}
    {episodes : List Episode} (valid : uart.tx.Valid)
    (completed : performAll? operations uart = some (episodes, final)) :
    Delivers uart final episodes := by
  induction operations generalizing uart episodes with
  | nil =>
      cases completed
      exact ⟨valid, (List.append_nil _).symm, nofun, rfl⟩
  | cons operation rest inductionHypothesis =>
      simp only [performAll?, Option.bind_eq_bind, Option.bind_eq_some_iff] at completed
      obtain ⟨after, performed, ⟨later, reached⟩, observed, eq⟩ := completed
      cases eq
      have delivers := perform_delivers valid performed
      exact delivers.trans (inductionHypothesis delivers.valid observed)

private theorem init_rearms {uart : Uart (TracedUart C)} (nothingQueued : uart.tx.isEmpty = true) :
    (writesTo .interruptEnable (uart.accessesUntil uart.init)).getLast? =
      some (enableFor uart.init.tx) := by
  have trace : uart.init.controller.trace = uart.controller.trace ++
      [.write .interruptId flushQueues, .write .interruptEnable receiveInterrupt] := by
    rw [init, trace_write, trace_write, List.append_assoc]
    rfl
  have enabled : enableFor uart.init.tx = receiveInterrupt := enableFor_of_isEmpty nothingQueued
  rw [accessesUntil_eq trace, enabled]
  rfl

/-- After a driver with nothing queued was initialised, any run of operations delivers in order and
without loss the bytes that found room.  What is still queued keeps the transmitter's interrupt
enabled, and nothing else does. -/
theorem transmission_lossless {uart final : Uart (TracedUart C)} {operations : List Operation}
    {episodes : List Episode} (valid : uart.tx.Valid) (nothingQueued : uart.tx.isEmpty = true)
    (completed : performAll? operations uart.init = some (episodes, final)) :
    writesTo .data (transferAccesses episodes) ++ final.tx.toList =
        episodes.filterMap Episode.accepted? ∧
      (∀ episode ∈ episodes, episode.transfers = true → Paced episode.accesses) ∧
      (writesTo .interruptEnable
          (uart.accessesUntil uart.init ++ transferAccesses episodes)).getLast? =
        some (if final.tx.toList = [] then receiveInterrupt
          else receiveInterrupt ||| transmitInterrupt) := by
  have initValid : uart.init.tx.Valid := valid
  have delivers := performAll_delivers initValid completed
  have nothing : uart.init.tx.toList = [] := valid.isEmpty_iff.1 nothingQueued
  refine ⟨?_, delivers.paced, ?_⟩
  · rw [delivers.order, nothing, List.nil_append]
  · rw [writesTo_append, List.getLast?_append, init_rearms nothingQueued, Option.or_some,
      delivers.rearms, enableFor]
    simp only [delivers.valid.isEmpty_iff]

/-- The line status reports the transmitter ready for the first byte, not for the second, and again
when the transmitter interrupts. -/
def haltingLine : Uart (TracedUart ReplayedUart) :=
  .new ⟨⟨fun
    | .lineStatus => [0x20, 0x00, 0x00, 0x20, 0x00, 0x00, 0x20, 0x20]
    | .interruptId => [0x02, 0x02]
    | _ => []⟩, []⟩ .clear

theorem transmission_lossless_haltingLine :
    let operations : List Operation :=
      [.put 65, .put 66, .put 67, .setDivisor 27, .get, .service 1, .service 1]
    haltingLine.tx.Valid ∧ haltingLine.tx.isEmpty = true ∧
      ∃ episodes final, performAll? operations haltingLine.init = some (episodes, final) ∧
        writesTo .data (transferAccesses episodes) ++ final.tx.toList = [65, 66, 67] ∧
        (writesTo .interruptEnable (haltingLine.accessesUntil haltingLine.init ++
          transferAccesses episodes)).getLast? = some receiveInterrupt := by
  intro operations
  have valid : haltingLine.tx.Valid := Ring.valid_empty (by decide)
  have nothingQueued : haltingLine.tx.isEmpty = true := rfl
  have observed : (performAll? operations haltingLine.init).map (fun run =>
      (run.1.filterMap Episode.accepted?, run.2.tx.toList)) = some ([65, 66, 67], []) := by
    decide +kernel
  obtain ⟨⟨episodes, final⟩, completed, results⟩ := Option.map_eq_some_iff.1 observed
  obtain ⟨accepted, drained⟩ := Prod.mk.inj results
  obtain ⟨order, _, enabled⟩ := transmission_lossless valid nothingQueued completed
  rw [if_pos drained] at enabled
  exact ⟨valid, nothingQueued, episodes, final, completed, order.trans accepted, enabled⟩

end Runs

end Microkernel.Uart
