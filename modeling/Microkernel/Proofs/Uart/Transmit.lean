import Microkernel.Proofs.Uart.Queueing
import Microkernel.Proofs.Uart.Ring
import Microkernel.Uart.Traced

/-!
# The way of a transmitted byte

A byte that the transmit ring takes is written to the controller once, after the bytes before it,
and only when the controller has just said that it is ready.  `Conveys` says this of one stretch of
accesses, and holds of two stretches in a row when it holds of each.  The interrupt-enable register
is written at the end of an operation at most, so it is followed from operation to operation.
-/

namespace Microkernel.Uart

def Access.written? (register : Register) : Access → Option UInt8
  | .write written byte => if written = register then some byte else none
  | .read _ _ => none

def writesTo (register : Register) (accesses : List Access) : List UInt8 :=
  accesses.filterMap (Access.written? register)

/-- Right before each byte is written to the data register, the line status is read and reports a
ready transmitter. -/
def Paced (accesses : List Access) : Prop :=
  ∀ initial byte rest, accesses = initial ++ .write .data byte :: rest →
    ∃ earlier status, initial = earlier ++ [.read .lineStatus status] ∧
      hasBit status transmitterReady = true

theorem writesTo_append (register : Register) (first second : List Access) :
    writesTo register (first ++ second) = writesTo register first ++ writesTo register second :=
  List.filterMap_append

private theorem paced_of_no_data {accesses : List Access} (noData : writesTo .data accesses = []) :
    Paced accesses := by
  rintro initial byte rest rfl
  simp [writesTo, Access.written?] at noData

theorem Paced.append {first second : List Access} (firstPaced : Paced first)
    (secondPaced : Paced second) : Paced (first ++ second) := by
  intro initial byte rest split
  rcases List.append_eq_append_iff.1 split with
    ⟨middle, initialEq, secondEq⟩ | ⟨middle, firstEq, restEq⟩
  · obtain ⟨earlier, status, middleEq, ready⟩ := secondPaced middle byte rest secondEq
    exact ⟨first ++ earlier, status, by rw [initialEq, middleEq, List.append_assoc], ready⟩
  · cases middle with
    | nil =>
        have secondEq : second = [] ++ .write .data byte :: rest := restEq.symm
        obtain ⟨earlier, status, initialEq, _⟩ := secondPaced [] byte rest secondEq
        simp at initialEq
    | cons access middle =>
        obtain ⟨rfl, _⟩ := List.cons.inj restEq
        exact firstPaced initial byte middle firstEq

private theorem paced_send {status : UInt8} (ready : hasBit status transmitterReady = true)
    (byte : UInt8) : Paced [.read .lineStatus status, .write .data byte] := by
  intro initial sent rest split
  cases initial with
  | nil => simp at split
  | cons access initial =>
      cases initial with
      | nil => exact ⟨[], status, by simp_all, ready⟩
      | cons other initial => simp at split

section Traced

variable {C : Type}

/-- Between two states the driver made these accesses.  What it wrote to the data register came out
of the transmit ring in order, and it queued these bytes behind the others. -/
structure Conveys (before after : Uart (TracedUart C)) (queued : List UInt8)
    (accesses : List Access) : Prop where
  trace : after.controller.trace = before.controller.trace ++ accesses
  order : writesTo .data accesses ++ after.tx.toList = before.tx.toList ++ queued
  valid : after.tx.Valid
  paced : Paced accesses

/-- Between two states the driver made these accesses, which only read, and the transmit ring is
as it was. -/
structure Looks (before after : Uart (TracedUart C)) (accesses : List Access) : Prop where
  trace : after.controller.trace = before.controller.trace ++ accesses
  tx : after.tx = before.tx
  noWrites : ∀ register, writesTo register accesses = []

variable {first second third uart : Uart (TracedUart C)}

theorem Conveys.trans {queued later : List UInt8} {accesses further : List Access}
    (conveys : Conveys first second queued accesses)
    (onward : Conveys second third later further) :
    Conveys first third (queued ++ later) (accesses ++ further) where
  trace := by
    rw [onward.trace, conveys.trace, List.append_assoc]
  order := by
    rw [writesTo_append, List.append_assoc, onward.order, ← List.append_assoc, conveys.order,
      List.append_assoc]
  valid := onward.valid
  paced := conveys.paced.append onward.paced

theorem Looks.conveys {accesses : List Access} (looks : Looks first second accesses)
    (valid : first.tx.Valid) : Conveys first second [] accesses where
  trace := looks.trace
  order := by
    rw [looks.noWrites, looks.tx, List.nil_append, List.append_nil]
  valid := looks.tx ▸ valid
  paced := paced_of_no_data (looks.noWrites .data)

private theorem looks_of_eq (controller : second.controller = first.controller)
    (tx : second.tx = first.tx) : Looks first second [] :=
  ⟨by rw [controller, List.append_nil], tx, fun _ => rfl⟩

theorem Looks.refl (uart : Uart (TracedUart C)) : Looks uart uart [] :=
  looks_of_eq rfl rfl

theorem Looks.trans {accesses further : List Access} (looks : Looks first second accesses)
    (onward : Looks second third further) : Looks first third (accesses ++ further) where
  trace := by
    rw [onward.trace, looks.trace, List.append_assoc]
  tx := onward.tx.trans looks.tx
  noWrites register := by
    rw [writesTo_append, looks.noWrites, onward.noWrites, List.append_nil]

theorem looks_get (uart : Uart (TracedUart C)) : Looks uart uart.get.2 [] := by
  unfold get
  split
  · exact looks_of_eq rfl rfl
  · exact .refl uart

private theorem looks_keep (uart : Uart (TracedUart C)) (byte : UInt8) :
    Looks uart (uart.keep byte).2 [] := by
  unfold keep
  split
  · exact looks_of_eq rfl rfl
  · exact .refl uart

private theorem conveys_push {byte : UInt8} {tx : Ring ringSize} (valid : uart.tx.Valid)
    (taken : uart.tx.push? byte = some tx) : Conveys uart { uart with tx } [byte] [] where
  trace := (List.append_nil _).symm
  order := valid.toList_push? taken
  valid := valid.push? taken
  paced := paced_of_no_data rfl

variable [Controller C]

theorem trace_read (register : Register) (uart : Uart (TracedUart C)) :
    (uart.readRegister register).2.controller.trace =
      uart.controller.trace ++ [.read register (uart.readRegister register).1] :=
  List.reverse_cons

theorem trace_write (register : Register) (byte : UInt8) (uart : Uart (TracedUart C)) :
    (uart.writeRegister register byte).controller.trace =
      uart.controller.trace ++ [.write register byte] :=
  List.reverse_cons

private theorem looks_read (register : Register) (uart : Uart (TracedUart C)) :
    Looks uart (uart.readRegister register).2
      [.read register (uart.readRegister register).1] :=
  ⟨trace_read register uart, rfl, fun _ => rfl⟩

private theorem conveys_enable (valid : uart.tx.Valid) (byte : UInt8) :
    Conveys uart (uart.writeRegister .interruptEnable byte) [] [.write .interruptEnable byte] where
  trace := trace_write .interruptEnable byte uart
  order := (List.append_nil _).symm
  valid := valid
  paced := paced_of_no_data rfl

/-- A poll that finds the transmitter ready, and the byte that is sent on the strength of it. -/
theorem conveys_send {byte : UInt8} {tx : Ring ringSize} (valid : uart.tx.Valid)
    (ready : hasBit (uart.readRegister .lineStatus).1 transmitterReady = true)
    (popped : uart.tx.pop? = some (byte, tx)) :
    Conveys uart ({ (uart.readRegister .lineStatus).2 with tx }.writeRegister .data byte) []
      [.read .lineStatus (uart.readRegister .lineStatus).1, .write .data byte] where
  trace := by
    rw [trace_write]
    dsimp only
    rw [trace_read, List.append_assoc]
    rfl
  order := by
    rw [List.append_nil, valid.toList_pop? popped]
    rfl
  valid := valid.pop? popped
  paced := paced_send ready byte

private theorem conveys_transmitLoop (polls : Nat) (valid : uart.tx.Valid) :
    ∃ accesses, Conveys uart (transmitLoop polls uart) [] accesses ∧
      writesTo .interruptEnable accesses = [] := by
  induction polls generalizing uart with
  | zero =>
      exact ⟨[], (Looks.refl uart).conveys valid, rfl⟩
  | succ polls inductionHypothesis =>
      have looks := looks_read .lineStatus uart
      simp only [transmitLoop]
      split
      · next ready =>
        split
        · next byte tx popped =>
          have sends := conveys_send valid ready popped
          obtain ⟨accesses, conveys, noEnable⟩ := inductionHypothesis sends.valid
          refine ⟨_, sends.trans conveys, ?_⟩
          rw [writesTo_append, noEnable]
          rfl
        · exact ⟨_, looks.conveys valid, looks.noWrites _⟩
      · exact ⟨_, looks.conveys valid, looks.noWrites _⟩

/-- The loop ends by itself: polls beyond one more than bytes are queued are never made. -/
theorem transmitLoop_enough {polls : Nat} (valid : uart.tx.Valid)
    (enough : uart.tx.length < polls) (more : Nat) :
    transmitLoop (polls + more) uart = transmitLoop polls uart := by
  induction polls generalizing uart with
  | zero =>
      exact absurd enough (Nat.not_lt_zero _)
  | succ polls inductionHypothesis =>
      rw [Nat.succ_add]
      simp only [transmitLoop]
      split
      · split
        · next byte tx popped =>
          have left : tx.length < polls := by
            have shorter := valid.length_pop? popped
            omega
          exact inductionHypothesis (valid.pop? popped) left
        · rfl
      · rfl

private theorem looks_receive {polls : Nat} {receptions : List Reception}
    {after : Uart (TracedUart C)}
    (completed : uart.receive? polls = some (receptions, after)) :
    ∃ accesses, Looks uart after accesses := by
  induction polls generalizing uart receptions with
  | zero =>
      simp [receive?] at completed
  | succ polls inductionHypothesis =>
      have polled := looks_read .lineStatus uart
      simp only [receive?] at completed
      split at completed
      · split at completed
        · next later final rest =>
          obtain ⟨_, rfl⟩ := Prod.mk.inj (Option.some.inj completed)
          obtain ⟨accesses, looks⟩ := inductionHypothesis rest
          exact ⟨_, ((polled.trans (looks_read .data _)).trans (looks_keep _ _)).trans looks⟩
        · simp at completed
      · obtain ⟨_, rfl⟩ := Prod.mk.inj (Option.some.inj completed)
        exact ⟨_, polled⟩

private theorem conveys_sendIfReady (valid : uart.tx.Valid) :
    ∃ accesses, Conveys uart (uart.perform .sendIfReady) [] accesses ∧
      writesTo .interruptEnable accesses = [] := by
  have looks := looks_read .lineStatus uart
  simp only [perform_sendIfReady, perform_sendOldest]
  split
  · next ready =>
    split
    · next byte tx popped => exact ⟨_, conveys_send valid ready popped, rfl⟩
    · exact ⟨_, looks.conveys valid, looks.noWrites _⟩
  · exact ⟨_, looks.conveys valid, looks.noWrites _⟩

/-- The interrupts that ought to be enabled: that of the transmitter exactly while bytes wait. -/
def enableFor (tx : Ring ringSize) : UInt8 :=
  if tx.isEmpty then receiveInterrupt else receiveInterrupt ||| transmitInterrupt

/-- If the interrupts that ought to be were enabled before these accesses, they are after them. -/
def Rearms (before after : Uart (TracedUart C)) (accesses : List Access) : Prop :=
  (writesTo .interruptEnable accesses).getLast?.getD (enableFor before.tx) = enableFor after.tx

omit [Controller C] in
theorem Rearms.trans {accesses further : List Access} (rearms : Rearms first second accesses)
    (onward : Rearms second third further) : Rearms first third (accesses ++ further) := by
  rw [Rearms, writesTo_append, List.getLast?_append]
  cases written : (writesTo .interruptEnable further).getLast? with
  | none =>
      rw [Rearms, written] at onward
      exact Eq.trans rearms onward
  | some byte =>
      rw [Rearms, written] at onward
      exact onward

omit [Controller C] in
theorem Looks.rearms {accesses : List Access} (looks : Looks first second accesses) :
    Rearms first second accesses := by
  rw [Rearms, looks.noWrites, looks.tx]
  rfl

theorem enableFor_of_queued {tx : Ring ringSize} (queued : tx.isEmpty = false) :
    enableFor tx = receiveInterrupt ||| transmitInterrupt := by
  simp [enableFor, queued]

theorem enableFor_of_isEmpty {tx : Ring ringSize} (nothingQueued : tx.isEmpty = true) :
    enableFor tx = receiveInterrupt := by
  simp [enableFor, nothingQueued]

/-- What an operation of the driver amounts to: it queues these bytes, and leaves those interrupts
enabled that ought to be. -/
def Operates (before after : Uart (TracedUart C)) (queued : List UInt8) : Prop :=
  ∃ accesses, Conveys before after queued accesses ∧ Rearms before after accesses

omit [Controller C] in
theorem Looks.operates {accesses : List Access} (looks : Looks first second accesses)
    (valid : first.tx.Valid) : Operates first second [] :=
  ⟨accesses, looks.conveys valid, looks.rearms⟩

omit [Controller C] in
private theorem Looks.operates_before {accesses : List Access} (looks : Looks first second accesses)
    (valid : first.tx.Valid) (onward : Operates second third []) : Operates first third [] := by
  obtain ⟨further, conveys, rearms⟩ := onward
  exact ⟨accesses ++ further, (looks.conveys valid).trans conveys, looks.rearms.trans rearms⟩

/-- A byte that finds room is queued, and sent at once only if nothing waited before it. -/
theorem conveys_queue {byte : UInt8} {tx : Ring ringSize} (valid : uart.tx.Valid)
    (pushed : uart.tx.push? byte = some tx) :
    let queued : Uart (TracedUart C) := { uart with tx }
    let sent := if uart.tx.isEmpty then queued.perform .sendIfReady else queued
    ∃ accesses, Conveys uart sent [byte] accesses ∧ writesTo .interruptEnable accesses = [] ∧
      (sent.tx.isEmpty = true → uart.tx.isEmpty = true) := by
  intro queued sent
  have queues := conveys_push valid pushed
  cases idle : uart.tx.isEmpty with
  | true =>
      have sentEq : sent = queued.perform .sendIfReady := if_pos idle
      obtain ⟨accesses, sends, noEnable⟩ := conveys_sendIfReady queues.valid
      rw [sentEq]
      exact ⟨accesses, queues.trans sends, noEnable, fun _ => rfl⟩
  | false =>
      have sentEq : sent = queued := if_neg (Bool.eq_false_iff.1 idle)
      rw [sentEq]
      refine ⟨[], queues, rfl, ?_⟩
      intro emptied
      exact absurd ((valid.isEmpty_push? pushed).symm.trans emptied) Bool.false_ne_true

private theorem enqueue_operates (valid : uart.tx.Valid) (byte : UInt8) :
    Operates uart (uart.perform (.enqueue byte)) (if uart.tx.isFull then [] else [byte]) := by
  cases pushed : uart.tx.push? byte with
  | none =>
      have full := Ring.push?_eq_none_iff.1 pushed
      simp only [perform_enqueue, pushed, full, if_true]
      exact (Looks.refl uart).operates valid
  | some tx =>
      have notFull := (Ring.push?_eq_some_iff.1 pushed).1
      have queueing := conveys_queue valid pushed
      simp only [perform_enqueue, pushed, notFull, Bool.false_eq_true, if_false] at queueing ⊢
      generalize (if uart.tx.isEmpty then perform { uart with tx } .sendIfReady else
        { uart with tx }) = sent at queueing ⊢
      obtain ⟨accesses, queues, noEnable, waited⟩ := queueing
      split
      · next emptied =>
        refine ⟨accesses, queues, ?_⟩
        rw [Rearms, enableFor_of_isEmpty emptied, enableFor_of_isEmpty (waited emptied), noEnable]
        rfl
      · next waits =>
        refine ⟨_, queues.trans (conveys_enable queues.valid _), ?_⟩
        rw [Rearms, writesTo_append, noEnable]
        exact (enableFor_of_queued (Bool.eq_false_iff.2 waits)).symm

theorem put_operates (valid : uart.tx.Valid) (byte : UInt8) :
    Operates uart (uart.put byte) (if uart.tx.isFull then [] else [byte]) := by
  let masked := uart.withMask uart.opened
  have maskedValid : masked.tx.Valid := valid
  obtain ⟨accesses, conveys, rearms⟩ := enqueue_operates maskedValid byte
  rw [put_eq]
  exact ⟨accesses, ⟨conveys.trace, conveys.order, conveys.valid, conveys.paced⟩, rearms⟩

private theorem transmit_operates (valid : uart.tx.Valid) : Operates uart uart.transmit [] := by
  obtain ⟨accesses, conveys, noEnable⟩ := conveys_transmitLoop (uart.tx.length + 1) valid
  simp only [transmit]
  split
  · next emptied =>
    refine ⟨_, conveys.trans (conveys_enable conveys.valid _), ?_⟩
    rw [Rearms, writesTo_append, noEnable]
    exact (enableFor_of_isEmpty emptied).symm
  · next waits =>
    refine ⟨_, conveys, ?_⟩
    have waited : uart.tx.isEmpty = false := by
      rw [Bool.eq_false_iff, ne_eq, valid.isEmpty_iff]
      rw [conveys.valid.isEmpty_iff] at waits
      intro nothing
      have order := conveys.order
      rw [nothing] at order
      exact waits (List.append_eq_nil_iff.1 order).2
    rw [Rearms, enableFor_of_queued (Bool.eq_false_iff.2 waits), enableFor_of_queued waited,
      noEnable]
    rfl

theorem service_operates {polls : Nat} {receptions : List Reception} {after : Uart (TracedUart C)}
    (valid : uart.tx.Valid) (completed : uart.service? polls = some (receptions, after)) :
    Operates uart after [] := by
  have identified := looks_read .interruptId uart
  have polled := identified.trans (looks_read .lineStatus _)
  simp only [service?] at completed
  split at completed
  · obtain ⟨_, rfl⟩ := Prod.mk.inj (Option.some.inj completed)
    exact identified.operates valid
  · split at completed
    · obtain ⟨_, rfl⟩ := Prod.mk.inj (Option.some.inj completed)
      exact (polled.trans (looks_read .data _)).operates valid
    · split at completed
      · obtain ⟨_, rfl⟩ := Prod.mk.inj (Option.some.inj completed)
        exact polled.operates_before valid (transmit_operates valid)
      · split at completed
        · obtain ⟨accesses, looks⟩ := looks_receive completed
          exact (polled.trans looks).operates valid
        · obtain ⟨_, rfl⟩ := Prod.mk.inj (Option.some.inj completed)
          exact polled.operates valid

end Traced

end Microkernel.Uart
