import Microkernel.Proofs.Uart.Simulated
import Microkernel.Proofs.Uart.Transmit

/-!
# Queued bytes leave

An interrupt serves a single cause, and two of the causes come before the transmitter: a line error
and received bytes.  Queued bytes keep the transmitter's interrupt enabled, so an interrupt of a
line that has moved on sends some of them or clears one of the two.  `backlog` counts what is left,
and `transmission_completes` follows it from round to round.
-/

namespace Microkernel.Uart

/-- What a driver can be asked, and what the line can do by itself. -/
inductive Activity where
  | put (byte : UInt8)
  | get
  | serve
  | setDivisor (divisor : UInt16)
  | drain (room : Nat)
  | receive (bytes : List UInt8)
  | damage

/-- The driver and the line after an activity, if serving the interrupt comes to an end. -/
def undergo? (uart : Uart SimulatedUart) : Activity → Option (Uart SimulatedUart)
  | .put byte => some (uart.put byte)
  | .get => some uart.get.2
  | .serve => (uart.service? (PolledController.pollLimit uart.controller)).map Prod.snd
  | .setDivisor divisor =>
    match uart.setDivisor divisor with
    | .ok uart => some uart
    | .error _ => some uart
  | .drain room => some { uart with controller := uart.controller.drain room }
  | .receive bytes => some { uart with controller := uart.controller.receive bytes }
  | .damage => some { uart with controller := uart.controller.setDamaged true }

def undergoAll? (uart : Uart SimulatedUart) (activities : List Activity) :
    Option (Uart SimulatedUart) :=
  activities.foldlM undergo? uart

/-- The transmitter gets room, and one interrupt is served. -/
def round (room : Nat) : List Activity :=
  [.drain room, .serve]

/-- The bytes that wait for the transmitter, and what an interrupt serves before them. -/
def backlog (uart : Uart SimulatedUart) : Nat :=
  uart.tx.toList.length + uart.controller.damaged.toNat + (!uart.controller.incoming.isEmpty).toNat

/-- The latch is closed, the transmitter's interrupt is enabled exactly while bytes wait, and no
byte was written to a busy transmitter. -/
structure Armed (uart : Uart SimulatedUart) : Prop where
  valid : uart.tx.Valid
  closed : uart.controller.latchOpen = false
  enabled : uart.controller.interruptEnable = enableFor uart.tx
  overruns : uart.controller.overruns = 0

/-- Between two states these bytes went from the transmit ring to the line, and otherwise only the
transmitter's room changed. -/
structure Sends (before after : Uart SimulatedUart) (sent : List UInt8) : Prop where
  valid : after.tx.Valid
  queue : before.tx.toList = sent ++ after.tx.toList
  line : ∃ room transmitted,
    after.controller = { before.controller with room, transmitted } ∧
      transmitted.toList = before.controller.transmitted.toList ++ sent

/-- Between two states some bytes went from the transmit ring to the line, in order. -/
def Emits (before after : Uart SimulatedUart) : Prop :=
  ∃ sent, before.tx.toList = sent ++ after.tx.toList ∧
    after.controller.transmitted.toList = before.controller.transmitted.toList ++ sent

variable {uart before after final : Uart SimulatedUart} {sent more : List UInt8}

theorem Sends.refl (valid : uart.tx.Valid) : Sends uart uart [] :=
  ⟨valid, rfl, uart.controller.room, uart.controller.transmitted, rfl, (List.append_nil _).symm⟩

theorem Sends.trans (sends : Sends before after sent) (onward : Sends after final more) :
    Sends before final (sent ++ more) := by
  obtain ⟨room, transmitted, controllerEq, transmittedEq⟩ := sends.line
  obtain ⟨finalRoom, finalTransmitted, finalEq, finalTransmittedEq⟩ := onward.line
  rw [controllerEq] at finalEq finalTransmittedEq
  refine ⟨onward.valid, ?_, finalRoom, finalTransmitted, finalEq, ?_⟩
  · rw [sends.queue, onward.queue, List.append_assoc]
  · rw [finalTransmittedEq, transmittedEq, List.append_assoc]

theorem Sends.closed (sends : Sends before after sent)
    (closed : before.controller.latchOpen = false) : after.controller.latchOpen = false := by
  obtain ⟨room, transmitted, controllerEq, _⟩ := sends.line
  rw [controllerEq]
  exact closed

/-- The oldest byte leaves, if the transmitter has room. -/
theorem sends_oldest {byte : UInt8} {tx : Ring ringSize} (valid : uart.tx.Valid)
    (closed : uart.controller.latchOpen = false) (ready : uart.controller.room ≠ 0)
    (popped : uart.tx.pop? = some (byte, tx)) :
    Sends uart ({ uart with tx }.writeRegister .data byte) [byte] := by
  refine ⟨valid.pop? popped, valid.toList_pop? popped, uart.controller.room - 1,
    uart.controller.transmitted.push byte, ?_, Array.toList_push⟩
  simp only [writeRegister, Controller.write, SimulatedUart.write, closed, Bool.false_eq_true,
    if_false, SimulatedUart.giveByte, ready]

private theorem sends_sendIfReady (valid : uart.tx.Valid)
    (closed : uart.controller.latchOpen = false) :
    ∃ sent, Sends uart (uart.perform .sendIfReady) sent := by
  have status := (SimulatedUart.lineStatus_bits uart.controller).2.1
  simp only [perform_sendIfReady, perform_sendOldest, readRegister_lineStatus, status]
  split
  · next ready =>
    split
    · next byte tx popped => exact ⟨_, sends_oldest valid closed (bne_iff_ne.mp ready) popped⟩
    · exact ⟨[], .refl valid⟩
  · exact ⟨[], .refl valid⟩

/-- A loop that finds room and a queued byte sends it. -/
theorem sends_transmitLoop (polls : Nat) (valid : uart.tx.Valid)
    (closed : uart.controller.latchOpen = false) :
    ∃ sent, Sends uart (transmitLoop polls uart) sent ∧
      (0 < polls → uart.controller.room ≠ 0 → uart.tx.toList ≠ [] → sent ≠ []) := by
  induction polls generalizing uart with
  | zero =>
      exact ⟨[], .refl valid, fun some => absurd some (Nat.lt_irrefl 0)⟩
  | succ polls inductionHypothesis =>
      have status := (SimulatedUart.lineStatus_bits uart.controller).2.1
      simp only [transmitLoop, readRegister_lineStatus, status]
      split
      · next ready =>
        split
        · next byte tx popped =>
          have sends := sends_oldest valid closed (bne_iff_ne.mp ready) popped
          obtain ⟨later, sendsLater, _⟩ := inductionHypothesis sends.valid (sends.closed closed)
          exact ⟨_, sends.trans sendsLater, fun _ _ _ => List.cons_ne_nil byte later⟩
        · next nothing =>
          refine ⟨[], .refl valid, ?_⟩
          intro _ _ waits
          exact absurd (valid.isEmpty_iff.mp (Ring.pop?_eq_none_iff.mp nothing)) waits
      · next busy =>
        refine ⟨[], .refl valid, ?_⟩
        intro _ ready
        exact absurd (bne_iff_ne.mpr ready) busy

private theorem emits_of_same (tx : after.tx = before.tx)
    (transmitted : after.controller.transmitted = before.controller.transmitted) :
    Emits before after := by
  refine ⟨[], ?_, ?_⟩
  · rw [tx, List.nil_append]
  · rw [transmitted, List.append_nil]

theorem Emits.trans (emits : Emits before after) (onward : Emits after final) :
    Emits before final := by
  obtain ⟨sent, queueEq, transmittedEq⟩ := emits
  obtain ⟨later, laterQueueEq, laterTransmittedEq⟩ := onward
  refine ⟨sent ++ later, ?_, ?_⟩
  · rw [queueEq, laterQueueEq, List.append_assoc]
  · rw [laterTransmittedEq, transmittedEq, List.append_assoc]

/-- An empty queue stays empty. -/
theorem Emits.empty (emits : Emits before after) (emptied : before.tx.toList = []) :
    after.tx.toList = [] := by
  obtain ⟨sent, queueEq, _⟩ := emits
  rw [emptied] at queueEq
  exact (List.append_eq_nil_iff.mp queueEq.symm).2

/-- What keeps the queue and the registers of the controller keeps the driver armed. -/
theorem Armed.of_same (armed : Armed before) (tx : after.tx = before.tx)
    (control : after.controller.lineControl = before.controller.lineControl)
    (enable : after.controller.interruptEnable = before.controller.interruptEnable)
    (overruns : after.controller.overruns = before.controller.overruns) : Armed after := by
  refine ⟨tx ▸ armed.valid, ?_, ?_, overruns.trans armed.overruns⟩
  · rw [SimulatedUart.latchOpen, control]
    exact armed.closed
  · rw [enable, tx]
    exact armed.enabled

/-- The driver with those interrupts enabled that ought to be. -/
def rearmed (uart : Uart SimulatedUart) : Uart SimulatedUart :=
  { uart with controller := { uart.controller with interruptEnable := enableFor uart.tx } }

private theorem armed_rearmed (valid : uart.tx.Valid) (closed : uart.controller.latchOpen = false)
    (overruns : uart.controller.overruns = 0) : Armed uart.rearmed :=
  ⟨valid, closed, rfl, overruns⟩

private theorem rearmed_of_enabled (enabled : uart.controller.interruptEnable = enableFor uart.tx) :
    uart.rearmed = uart := by
  rw [rearmed, ← enabled]

private theorem writeRegister_interruptEnable {byte : UInt8}
    (closed : uart.controller.latchOpen = false)
    (wanted : byte = enableFor uart.tx) :
    uart.writeRegister .interruptEnable byte = uart.rearmed := by
  simp only [writeRegister, Controller.write, SimulatedUart.write, closed, Bool.false_eq_true,
    if_false, wanted, rearmed]

/-- What serving an interrupt does.  If the transmitter has room and bytes wait, the backlog gets
smaller. -/
structure Serves (before after : Uart SimulatedUart) : Prop where
  armed : Armed after
  emits : Emits before after
  progress : before.controller.room ≠ 0 → before.tx.toList ≠ [] → after.backlog < before.backlog

theorem Sends.length_le (sends : Sends before after sent) :
    after.tx.toList.length + sent.length = before.tx.toList.length := by
  rw [sends.queue, List.length_append, Nat.add_comm]

private theorem serves_transmit (armed : Armed uart) : Serves uart uart.transmit := by
  obtain ⟨sent, sends, progress⟩ :=
    sends_transmitLoop (uart.tx.length + 1) armed.valid armed.closed
  have closed := sends.closed armed.closed
  have lengthEq := sends.length_le
  obtain ⟨room, transmitted, controllerEq, transmittedEq⟩ := sends.line
  -- Whatever is left was there before, so its interrupt is enabled already.
  have rearms : uart.transmit = (transmitLoop (uart.tx.length + 1) uart).rearmed := by
    simp only [transmit]
    split
    · next emptied =>
      exact writeRegister_interruptEnable closed (enableFor_of_isEmpty emptied).symm
    · next waits =>
      refine (rearmed_of_enabled ?_).symm
      have waited : uart.tx.isEmpty ≠ true := by
        rw [ne_eq, armed.valid.isEmpty_iff, sends.queue]
        rw [sends.valid.isEmpty_iff] at waits
        exact List.append_ne_nil_of_right_ne_nil sent waits
      rw [controllerEq, enableFor_of_queued (Bool.eq_false_iff.mpr waits)]
      exact armed.enabled.trans (enableFor_of_queued (Bool.eq_false_iff.mpr waited))
  rw [rearms]
  refine ⟨armed_rearmed sends.valid closed ?_, ⟨sent, sends.queue, ?_⟩, ?_⟩
  · rw [controllerEq]
    exact armed.overruns
  · rw [rearmed, controllerEq]
    exact transmittedEq
  · intro ready waits
    have some := List.length_pos_iff.mpr (progress (Nat.succ_pos _) ready waits)
    simp only [backlog, rearmed, controllerEq]
    omega

/-- What only touches the receiving side of the controller sends nothing. -/
theorem serves_of_same (armed : Armed before) (tx : after.tx = before.tx)
    (control : after.controller.lineControl = before.controller.lineControl)
    (enable : after.controller.interruptEnable = before.controller.interruptEnable)
    (overruns : after.controller.overruns = before.controller.overruns)
    (transmitted : after.controller.transmitted = before.controller.transmitted)
    (progress : before.controller.room ≠ 0 → before.tx.toList ≠ [] →
      after.backlog < before.backlog) : Serves before after :=
  ⟨armed.of_same tx control enable overruns, emits_of_same tx transmitted, progress⟩

theorem Armed.receives (armed : Armed uart) :
    hasBit uart.controller.interruptEnable receiveInterrupt = true := by
  rw [armed.enabled, enableFor]
  split
  · rfl
  · rfl

theorem Armed.transmits (armed : Armed uart) :
    hasBit uart.controller.interruptEnable transmitInterrupt = !uart.tx.isEmpty := by
  rw [armed.enabled]
  cases waits : uart.tx.isEmpty with
  | true => rw [enableFor_of_isEmpty waits]; rfl
  | false => rw [enableFor_of_queued waits]; rfl

/-- Reading a damaged byte leaves fewer obstacles, whether or not more bytes wait behind it. -/
theorem serves_discard (armed : Armed uart) (damaged : uart.controller.damaged = true) :
    Serves uart { uart with controller := uart.controller.takeByte.2 } := by
  refine serves_of_same armed rfl rfl rfl rfl rfl ?_
  intro _ _
  have noMore : (!uart.controller.incoming.tail.isEmpty).toNat ≤
      (!uart.controller.incoming.isEmpty).toNat := by
    cases uart.controller.incoming with
    | nil => exact Nat.le_refl 0
    | cons byte rest => exact Bool.toNat_le _
  simp only [backlog, SimulatedUart.takeByte, damaged, Bool.toNat_true, Bool.toNat_false]
  omega

/-- With the transmitter ready, a line without an error and without received bytes sends. -/
theorem service_without_incoming (armed : Armed uart)
    (nothing : uart.controller.incoming.isEmpty = true) (polls : Nat) :
    ∃ after, uart.service? polls = some ([], after) ∧ Serves uart after := by
  by_cases idle : uart.tx.isEmpty = true ∨ uart.controller.room = 0
  · have unidentified := SimulatedUart.interruptId_of_idle nothing
      (idle.imp_left fun emptied => armed.transmits.trans (congrArg not emptied))
    refine ⟨uart, service_of_idle unidentified polls, ?_⟩
    refine serves_of_same armed rfl rfl rfl rfl rfl ?_
    intro ready waits
    rcases idle with emptied | busy
    · exact absurd (armed.valid.isEmpty_iff.mp emptied) waits
    · exact absurd busy ready
  · obtain ⟨waits, ready⟩ := not_or.mp idle
    have enabled := armed.transmits.trans (congrArg not (Bool.eq_false_iff.mpr waits))
    have identified := SimulatedUart.interruptId_of_ready enabled nothing ready
    have pending : hasBit uart.controller.interruptId nothingPending = false := by
      rw [identified]
      rfl
    cases damaged : uart.controller.damaged with
    | true =>
        exact ⟨_, service_of_damaged pending armed.closed damaged polls,
          serves_discard armed damaged⟩
    | false =>
        exact ⟨_, service_of_ready identified damaged polls, serves_transmit armed⟩

/-- Serving an interrupt of an armed driver comes to an end. -/
theorem service_serves (armed : Armed uart) :
    ∃ receptions after,
      uart.service? (PolledController.pollLimit uart.controller) = some (receptions, after) ∧
        Serves uart after := by
  cases nothing : uart.controller.incoming.isEmpty with
  | true =>
      obtain ⟨after, served, serves⟩ := service_without_incoming armed nothing _
      exact ⟨[], after, served, serves⟩
  | false =>
      have identified := SimulatedUart.interruptId_of_incoming armed.receives nothing
      have pending : hasBit uart.controller.interruptId nothingPending = false := by
        rw [identified]
        rfl
      cases damaged : uart.controller.damaged with
      | true =>
          exact ⟨[], _, service_of_damaged pending armed.closed damaged _,
            serves_discard armed damaged⟩
      | false =>
          obtain ⟨receptions, rx, served, _⟩ :=
            service_of_received identified armed.closed damaged (Nat.lt_succ_self _)
          refine ⟨receptions, _, served, serves_of_same armed rfl rfl rfl rfl rfl ?_⟩
          intro _ _
          simp only [backlog, SimulatedUart.emptied, damaged, nothing, Bool.false_and,
            List.isEmpty_nil, Bool.not_true, Bool.not_false, Bool.toNat_true, Bool.toNat_false]
          omega

/-- A byte that finds room is sent at once only if nothing waited before it. -/
theorem sends_queued {byte : UInt8} {tx : Ring ringSize} (valid : uart.tx.Valid)
    (closed : uart.controller.latchOpen = false) (pushed : uart.tx.push? byte = some tx) :
    let queued : Uart SimulatedUart := { uart with tx }
    let sent := if uart.tx.isEmpty then queued.perform .sendIfReady else queued
    (∃ bytes, Sends queued sent bytes) ∧ (sent.tx.isEmpty = true → uart.tx.isEmpty = true) := by
  intro queued sent
  have queuedValid : queued.tx.Valid := valid.push? pushed
  cases idle : uart.tx.isEmpty with
  | true =>
      have sentEq : sent = queued.perform .sendIfReady := if_pos idle
      rw [sentEq]
      exact ⟨sends_sendIfReady queuedValid closed, fun _ => rfl⟩
  | false =>
      have sentEq : sent = queued := if_neg (Bool.eq_false_iff.mp idle)
      rw [sentEq]
      refine ⟨⟨[], .refl queuedValid⟩, ?_⟩
      intro emptied
      exact absurd ((valid.isEmpty_push? pushed).symm.trans emptied) Bool.false_ne_true

private theorem armed_enqueue (armed : Armed uart) (byte : UInt8) :
    Armed (uart.perform (.enqueue byte)) := by
  cases pushed : uart.tx.push? byte with
  | none =>
      simp only [perform_enqueue, pushed]
      exact armed
  | some tx =>
      have sending := sends_queued armed.valid armed.closed pushed
      simp only [perform_enqueue, pushed] at sending ⊢
      generalize (if uart.tx.isEmpty then perform { uart with tx } .sendIfReady else
        { uart with tx }) = sent at sending ⊢
      obtain ⟨⟨bytes, sends⟩, waited⟩ := sending
      have closed := sends.closed armed.closed
      obtain ⟨room, transmitted, controllerEq, _⟩ := sends.line
      have overruns : sent.controller.overruns = 0 := by
        rw [controllerEq]
        exact armed.overruns
      split
      · next emptied =>
        refine ⟨sends.valid, closed, ?_, overruns⟩
        rw [controllerEq, enableFor_of_isEmpty emptied]
        exact armed.enabled.trans (enableFor_of_isEmpty (waited emptied))
      · next waits =>
        have wanted := enableFor_of_queued (Bool.eq_false_iff.mpr waits)
        rw [writeRegister_interruptEnable closed wanted.symm]
        exact armed_rearmed sends.valid closed overruns

private theorem armed_put (armed : Armed uart) (byte : UInt8) : Armed (uart.put byte) := by
  have armedMasked : Armed (uart.withMask uart.opened) := armed.of_same rfl rfl rfl rfl
  rw [put_eq]
  exact (armed_enqueue armedMasked byte).of_same rfl rfl rfl rfl

/-- Setting the divisor opens the latch for the two writes that need it. -/
theorem armed_setDivisor (armed : Armed uart) {divisor : UInt16}
    (done : uart.setDivisor divisor = .ok after) : Armed after := by
  unfold setDivisor at done
  split at done
  · cases done
  · have latch : hasBit divisorLatch divisorLatch = true := by
      decide
    obtain ⟨divisorNow, controllerEq⟩ : ∃ divisorNow, after.controller =
        { uart.controller with lineControl := eightNoneOne, divisor := divisorNow } := by
      rw [← Except.ok.inj done]
      simp only [writeRegister, Controller.write, SimulatedUart.write, SimulatedUart.latchOpen,
        latch, if_true]
      exact ⟨_, rfl⟩
    have tx : after.tx = uart.tx := by
      rw [← Except.ok.inj done]
      rfl
    have shut : hasBit eightNoneOne divisorLatch = false := by
      decide
    refine ⟨tx ▸ armed.valid, ?_, ?_, ?_⟩
    · rw [controllerEq]
      exact shut
    · rw [controllerEq, tx]
      exact armed.enabled
    · rw [controllerEq]
      exact armed.overruns

private theorem armed_get (armed : Armed uart) : Armed uart.get.2 := by
  unfold get
  split
  · exact armed.of_same rfl rfl rfl rfl
  · exact armed

/-- Every activity comes to an end and leaves the driver armed. -/
theorem armed_undergo (armed : Armed uart) (activity : Activity) :
    ∃ after, uart.undergo? activity = some after ∧ Armed after := by
  cases activity with
  | put byte =>
      exact ⟨_, rfl, armed_put armed byte⟩
  | get =>
      exact ⟨_, rfl, armed_get armed⟩
  | serve =>
      obtain ⟨receptions, after, served, serves⟩ := service_serves armed
      refine ⟨after, ?_, serves.armed⟩
      rw [undergo?, served]
      rfl
  | setDivisor divisor =>
      cases done : uart.setDivisor divisor with
      | ok after =>
          exact ⟨after, by rw [undergo?, done], armed_setDivisor armed done⟩
      | error error =>
          exact ⟨uart, by rw [undergo?, done], armed⟩
  | drain room =>
      exact ⟨_, rfl, armed.of_same rfl rfl rfl rfl⟩
  | receive bytes =>
      exact ⟨_, rfl, armed.of_same rfl rfl rfl rfl⟩
  | damage =>
      exact ⟨_, rfl, armed.of_same rfl rfl rfl rfl⟩

private theorem armed_undergoAll (armed : Armed uart) (activities : List Activity) :
    ∃ after, uart.undergoAll? activities = some after ∧ Armed after := by
  induction activities generalizing uart with
  | nil =>
      exact ⟨uart, rfl, armed⟩
  | cons activity rest inductionHypothesis =>
      obtain ⟨next, undergone, armedNext⟩ := armed_undergo armed activity
      obtain ⟨after, undergoneRest, armedAfter⟩ := inductionHypothesis armedNext
      refine ⟨after, ?_, armedAfter⟩
      rw [undergoAll?, List.foldlM_cons, undergone]
      exact undergoneRest

private theorem undergoAll_append (uart : Uart SimulatedUart) (first second : List Activity) :
    uart.undergoAll? (first ++ second) =
      (uart.undergoAll? first).bind fun next => next.undergoAll? second :=
  List.foldlM_append

private theorem armed_init {line : SimulatedUart} (mask : IrqMask) (closed : line.latchOpen = false)
    (fresh : line.overruns = 0) : Armed (Uart.new line mask).init := by
  let flushed := (Uart.new line mask).writeRegister .interruptId flushQueues
  have flushedClosed : flushed.controller.latchOpen = false := closed
  have wanted : receiveInterrupt = enableFor flushed.tx := (enableFor_of_isEmpty rfl).symm
  have rearms : (Uart.new line mask).init = flushed.rearmed :=
    writeRegister_interruptEnable flushedClosed wanted
  rw [rearms]
  exact armed_rearmed (Ring.valid_empty (by decide)) flushedClosed fresh

/-! ## Rounds -/

/-- What some rounds do: the backlog gets smaller by one with each round until no byte is left. -/
structure Advances (before after : Uart SimulatedUart) (rounds : Nat) : Prop where
  armed : Armed after
  emits : Emits before after
  progress : after.tx.toList = [] ∨ after.backlog + rounds ≤ before.backlog

theorem Advances.trans {rounds more : Nat} (advances : Advances before after rounds)
    (onward : Advances after final more) : Advances before final (rounds + more) := by
  refine ⟨onward.armed, advances.emits.trans onward.emits, ?_⟩
  rcases onward.progress with emptied | smaller
  · exact Or.inl emptied
  · rcases advances.progress with emptiedBefore | smallerBefore
    · exact Or.inl (onward.emits.empty emptiedBefore)
    · exact Or.inr (by omega)

private theorem round_advances (armed : Armed uart) {room : Nat} (positive : 1 ≤ room) :
    ∃ after, uart.undergoAll? (round room) = some after ∧ Advances uart after 1 := by
  let drained : Uart SimulatedUart := { uart with controller := uart.controller.drain room }
  have armedDrained : Armed drained := armed.of_same rfl rfl rfl rfl
  obtain ⟨receptions, after, served, serves⟩ := service_serves armedDrained
  refine ⟨after, ?_, serves.armed, serves.emits, ?_⟩
  · have undergone : drained.undergo? .serve = some after := by
      rw [undergo?, served]
      rfl
    have afterDrain : uart.undergoAll? (round room) = (drained.undergo? .serve).bind some := rfl
    rw [afterDrain, undergone]
    rfl
  · by_cases waits : uart.tx.toList = []
    · exact Or.inl (serves.emits.empty waits)
    · exact Or.inr (serves.progress (Nat.pos_iff_ne_zero.mp positive) waits)

private theorem rounds_advance (armed : Armed uart) {rooms : List Nat}
    (positive : ∀ room ∈ rooms, 1 ≤ room) :
    ∃ after, uart.undergoAll? (rooms.flatMap round) = some after ∧
      Advances uart after rooms.length := by
  induction rooms generalizing uart with
  | nil =>
      exact ⟨uart, rfl, armed, emits_of_same rfl rfl, Or.inr (Nat.le_refl _)⟩
  | cons room rest inductionHypothesis =>
      rw [List.forall_mem_cons] at positive
      obtain ⟨next, undergone, advances⟩ := round_advances armed positive.1
      obtain ⟨after, undergoneRest, advancesRest⟩ := inductionHypothesis advances.armed positive.2
      refine ⟨after, ?_, ?_⟩
      · rw [List.flatMap_cons, undergoAll_append, undergone]
        exact undergoneRest
      · rw [List.length_cons, Nat.add_comm]
        exact advances.trans advancesRest

private theorem backlog_le (uart : Uart SimulatedUart) :
    uart.backlog ≤ uart.tx.toList.length + 2 := by
  have damaged := Bool.toNat_le uart.controller.damaged
  have incoming := Bool.toNat_le (!uart.controller.incoming.isEmpty)
  simp only [backlog]
  omega

/-- However a driver was used since it was initialised, with two rounds more than bytes are queued
every one of them has left in order, and none was ever written to a busy transmitter. -/
theorem transmission_completes (line : SimulatedUart) (mask : IrqMask)
    (closed : line.latchOpen = false) (fresh : line.overruns = 0) (activities : List Activity) :
    ∃ uart, (Uart.new line mask).init.undergoAll? activities = some uart ∧
      uart.controller.overruns = 0 ∧
      ∀ rooms : List Nat, rooms.length = uart.tx.length + 2 → (∀ room ∈ rooms, 1 ≤ room) →
        ∃ final, uart.undergoAll? (rooms.flatMap round) = some final ∧
          final.tx.toList = [] ∧
          final.controller.transmitted.toList =
            uart.controller.transmitted.toList ++ uart.tx.toList ∧
          final.controller.overruns = 0 := by
  obtain ⟨uart, undergone, armed⟩ := armed_undergoAll (armed_init mask closed fresh) activities
  refine ⟨uart, undergone, armed.overruns, ?_⟩
  intro rooms enough positive
  obtain ⟨final, undergoneRounds, advances⟩ := rounds_advance armed positive
  have emptied : final.tx.toList = [] := by
    rcases advances.progress with emptied | smaller
    · exact emptied
    · have bounded := backlog_le uart
      rw [armed.valid.length_toList, ← enough] at bounded
      have nothing : final.backlog = 0 := by
        omega
      simp only [backlog] at nothing
      exact List.eq_nil_of_length_eq_zero (by omega)
  obtain ⟨sent, queueEq, transmittedEq⟩ := advances.emits
  rw [emptied, List.append_nil] at queueEq
  rw [← queueEq] at transmittedEq
  exact ⟨final, undergoneRounds, emptied, transmittedEq, advances.armed.overruns⟩

/-- A byte goes out at once and two more wait behind a line error and received bytes. -/
theorem transmission_completes_obstructed :
    let activities : List Activity :=
      [.put 65, .put 66, .put 67, .receive [1, 2], .damage]
    SimulatedUart.idle.latchOpen = false ∧ SimulatedUart.idle.overruns = 0 ∧
      ∃ uart final,
        (Uart.new SimulatedUart.idle .clear).init.undergoAll? activities = some uart ∧
        uart.tx.toList = [66, 67] ∧
        uart.undergoAll? ([1, 1, 1, 1].flatMap round) = some final ∧
        final.controller.transmitted.toList = [65, 66, 67] := by
  intro activities
  have closed : SimulatedUart.idle.latchOpen = false := rfl
  have fresh : SimulatedUart.idle.overruns = 0 := rfl
  have observed : ((Uart.new SimulatedUart.idle .clear).init.undergoAll? activities).map
      (fun uart => (uart.tx.length, uart.tx.toList, uart.controller.transmitted.toList)) =
        some (2, [66, 67], [65]) := by
    decide +kernel
  obtain ⟨uart, undergone, _, completes⟩ :=
    transmission_completes SimulatedUart.idle .clear closed fresh activities
  rw [undergone, Option.map_some, Option.some.injEq, Prod.mk.injEq, Prod.mk.injEq] at observed
  obtain ⟨pending, queued, transmitted⟩ := observed
  obtain ⟨final, undergoneRounds, _, transmittedEq, _⟩ :=
    completes [1, 1, 1, 1] (by rw [pending]; rfl) (by decide)
  rw [transmitted, queued] at transmittedEq
  exact ⟨closed, fresh, uart, final, undergone, queued, undergoneRounds, transmittedEq⟩

end Microkernel.Uart
