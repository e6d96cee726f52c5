import Microkernel.Proofs.Uart.Transmit

/-!
# The way of a received byte

A byte that is read while the receive ring has room goes behind the others, and any other byte is
lost.  `admitInto` says which bytes of a sequence find room, `Gathers` that a stretch of accesses
extends the receive ring by just these, and `receivedIn` which accesses of a served interrupt count:
those that follow a line status without an error.
-/

namespace Microkernel.Uart

def Access.read? (register : Register) : Access → Option UInt8
  | .read accessed byte => if accessed = register then some byte else none
  | .write _ _ => none

def readsOf (register : Register) (accesses : List Access) : List UInt8 :=
  accesses.filterMap (Access.read? register)

private theorem readsOf_append (register : Register) (first second : List Access) :
    readsOf register (first ++ second) = readsOf register first ++ readsOf register second :=
  List.filterMap_append

/-- The bytes that find room, of some that come one after the other while the ring holds so many. -/
def admitInto : (held : Nat) → List UInt8 → List UInt8
  | _, [] => []
  | held, byte :: rest =>
    if held < ringSize - 1 then byte :: admitInto (held + 1) rest else admitInto held rest

private theorem admitInto_append (held : Nat) (first second : List UInt8) :
    admitInto held (first ++ second) =
      admitInto held first ++ admitInto (held + (admitInto held first).length) second := by
  induction first generalizing held with
  | nil =>
      rfl
  | cons byte rest inductionHypothesis =>
      simp only [List.cons_append, admitInto]
      split
      · rw [inductionHypothesis, List.cons_append, List.length_cons, Nat.add_right_comm,
          Nat.add_assoc held]
      · exact inductionHypothesis held

/-- The bytes that the receive loop read in the course of serving an interrupt. -/
def receivedIn : List Access → List UInt8
  | .read .interruptId _ :: .read .lineStatus status :: rest =>
    if hasBit status lineError then [] else readsOf .data rest
  | _ => []

section Traced

variable {C : Type}

/-- Between two states the driver made these accesses, of which none reads the data register, and
the receive ring is as it was. -/
structure Bypasses (before after : Uart (TracedUart C)) (accesses : List Access) : Prop where
  trace : after.controller.trace = before.controller.trace ++ accesses
  rx : after.rx = before.rx
  noData : readsOf .data accesses = []

/-- Between two states the driver made these accesses, and the bytes that it read and that found
room went behind those in the receive ring. -/
structure Gathers (before after : Uart (TracedUart C)) (accesses : List Access) : Prop where
  trace : after.controller.trace = before.controller.trace ++ accesses
  valid : after.rx.Valid
  order : after.rx.toList =
    before.rx.toList ++ admitInto before.rx.toList.length (readsOf .data accesses)

variable {first second third uart : Uart (TracedUart C)} {accesses further : List Access}

theorem Bypasses.refl (uart : Uart (TracedUart C)) : Bypasses uart uart [] :=
  ⟨(List.append_nil _).symm, rfl, rfl⟩

theorem Bypasses.trans (bypasses : Bypasses first second accesses)
    (onward : Bypasses second third further) : Bypasses first third (accesses ++ further) where
  trace := by
    rw [onward.trace, bypasses.trace, List.append_assoc]
  rx := onward.rx.trans bypasses.rx
  noData := by
    rw [readsOf_append, bypasses.noData, onward.noData, List.append_nil]

private theorem Bypasses.gathers (bypasses : Bypasses first second accesses)
    (valid : first.rx.Valid) :
    Gathers first second accesses where
  trace := bypasses.trace
  valid := bypasses.rx ▸ valid
  order := by
    rw [bypasses.noData, bypasses.rx]
    exact (List.append_nil _).symm

theorem Gathers.trans (gathers : Gathers first second accesses)
    (onward : Gathers second third further) : Gathers first third (accesses ++ further) where
  trace := by
    rw [onward.trace, gathers.trace, List.append_assoc]
  valid := onward.valid
  order := by
    rw [onward.order, gathers.order, readsOf_append, admitInto_append, List.append_assoc,
      List.length_append]

variable [Controller C]

private theorem bypasses_read {register : Register} (other : register ≠ .data)
    (uart : Uart (TracedUart C)) :
    Bypasses uart (uart.readRegister register).2
      [.read register (uart.readRegister register).1] where
  trace := trace_read register uart
  rx := rfl
  noData := by
    simp [readsOf, Access.read?, other]

private theorem bypasses_write (register : Register) (byte : UInt8) (uart : Uart (TracedUart C)) :
    Bypasses uart (uart.writeRegister register byte) [.write register byte] :=
  ⟨trace_write register byte uart, rfl, rfl⟩

private theorem bypasses_transmitLoop (polls : Nat) (uart : Uart (TracedUart C)) :
    ∃ accesses, Bypasses uart (transmitLoop polls uart) accesses := by
  induction polls generalizing uart with
  | zero =>
      exact ⟨[], .refl uart⟩
  | succ polls inductionHypothesis =>
      have polled := bypasses_read (by decide : Register.lineStatus ≠ .data) uart
      simp only [transmitLoop]
      split
      · split
        · next byte tx popped =>
          let taken : Uart (TracedUart C) := { (uart.readRegister .lineStatus).2 with tx }
          have sent : Bypasses (uart.readRegister .lineStatus).2
              (taken.writeRegister .data byte) [.write .data byte] :=
            ⟨trace_write .data byte taken, rfl, rfl⟩
          obtain ⟨accesses, bypasses⟩ := inductionHypothesis (taken.writeRegister .data byte)
          exact ⟨_, (polled.trans sent).trans bypasses⟩
        · exact ⟨_, polled⟩
      · exact ⟨_, polled⟩

private theorem bypasses_transmit (uart : Uart (TracedUart C)) :
    ∃ accesses, Bypasses uart uart.transmit accesses := by
  obtain ⟨accesses, bypasses⟩ := bypasses_transmitLoop (uart.tx.length + 1) uart
  simp only [transmit]
  split
  · exact ⟨_, bypasses.trans (bypasses_write _ _ _)⟩
  · exact ⟨accesses, bypasses⟩

/-- A byte that was read goes into the ring if the ring has room for it. -/
theorem gathers_keep (valid : uart.rx.Valid) :
    let byte := (uart.readRegister .data).1
    Gathers uart ((uart.readRegister .data).2.keep byte).2 [.read .data byte] := by
  intro byte
  have admitOne : admitInto uart.rx.toList.length (readsOf .data [.read .data byte]) =
      if uart.rx.toList.length < ringSize - 1 then [byte] else [] :=
    rfl
  unfold keep
  split
  · next rx pushed =>
    have room := valid.isFull_eq_false_iff.mp (Ring.push?_eq_some_iff.mp pushed).1
    refine ⟨trace_read .data uart, valid.push? pushed, ?_⟩
    rw [admitOne, if_pos room]
    exact valid.toList_push? pushed
  · next full =>
    have noRoom : ¬ uart.rx.toList.length < ringSize - 1 := by
      rw [← valid.isFull_eq_false_iff, Bool.not_eq_false]
      exact Ring.push?_eq_none_iff.mp full
    refine ⟨trace_read .data uart, valid, ?_⟩
    rw [admitOne, if_neg noRoom]
    exact (List.append_nil _).symm

private theorem gathers_receive {polls : Nat} {receptions : List Reception}
    {after : Uart (TracedUart C)} (valid : uart.rx.Valid)
    (completed : uart.receive? polls = some (receptions, after)) :
    ∃ accesses, Gathers uart after accesses := by
  induction polls generalizing uart receptions with
  | zero =>
      simp [receive?] at completed
  | succ polls inductionHypothesis =>
      have polled := bypasses_read (by decide : Register.lineStatus ≠ .data) uart
      have looked := polled.gathers valid
      simp only [receive?] at completed
      split at completed
      · have kept := gathers_keep looked.valid
        split at completed
        · next later final rest =>
          obtain ⟨_, rfl⟩ := Prod.mk.inj (Option.some.inj completed)
          obtain ⟨accesses, gathers⟩ := inductionHypothesis kept.valid rest
          exact ⟨_, (looked.trans kept).trans gathers⟩
        · simp at completed
      · obtain ⟨_, rfl⟩ := Prod.mk.inj (Option.some.inj completed)
        exact ⟨_, looked⟩

/-- What serving an interrupt does to the receive ring: the bytes that the receive loop read and
that found room go behind the others.  On a line error a single byte is read, and dropped. -/
structure Collects (before after : Uart (TracedUart C)) (accesses : List Access) : Prop where
  trace : after.controller.trace = before.controller.trace ++ accesses
  valid : after.rx.Valid
  order : after.rx.toList =
    before.rx.toList ++ admitInto before.rx.toList.length (receivedIn accesses)
  damaged : ∀ identification status rest,
    accesses = .read .interruptId identification :: .read .lineStatus status :: rest →
      hasBit status lineError = true →
        ∃ byte, rest = [.read .data byte] ∧ after.rx = before.rx

/-- An interrupt of a line without an error gathers what is read after the line status. -/
theorem Gathers.collects {after : Uart (TracedUart C)}
    (gathers : Gathers ((uart.readRegister .interruptId).2.readRegister .lineStatus).2 after
      further)
    (clean : hasBit ((uart.readRegister .interruptId).2.readRegister .lineStatus).1 lineError ≠
      true) :
    Collects uart after
      (.read .interruptId (uart.readRegister .interruptId).1 ::
        .read .lineStatus ((uart.readRegister .interruptId).2.readRegister .lineStatus).1 ::
          further) where
  trace := by
    rw [gathers.trace, trace_read, trace_read, List.append_assoc, List.append_assoc]
    rfl
  valid := gathers.valid
  order := by
    rw [receivedIn, if_neg clean]
    exact gathers.order
  damaged := by
    intro identification status rest split damagedStatus
    simp only [List.cons.injEq, Access.read.injEq, true_and] at split
    obtain ⟨_, rfl, _⟩ := split
    exact absurd damagedStatus clean

theorem service_collects {polls : Nat} {receptions : List Reception}
    {after : Uart (TracedUart C)} (valid : uart.rx.Valid)
    (completed : uart.service? polls = some (receptions, after)) :
    ∃ accesses, Collects uart after accesses := by
  have identified := bypasses_read (by decide : Register.interruptId ≠ .data) uart
  have polled := bypasses_read (by decide : Register.lineStatus ≠ .data)
    (uart.readRegister .interruptId).2
  simp only [service?] at completed
  split at completed
  · obtain ⟨_, rfl⟩ := Prod.mk.inj (Option.some.inj completed)
    refine ⟨_, identified.trace, valid, (List.append_nil _).symm, ?_⟩
    intro identification status rest split
    cases split
  · split at completed
    · next damagedStatus =>
      obtain ⟨_, rfl⟩ := Prod.mk.inj (Option.some.inj completed)
      have discarded := trace_read .data
        ((uart.readRegister .interruptId).2.readRegister .lineStatus).2
      rw [polled.trace, identified.trace, List.append_assoc, List.append_assoc] at discarded
      refine ⟨_, discarded, valid, ?_, ?_⟩
      · simp only [List.cons_append, List.nil_append, receivedIn, damagedStatus, if_true]
        exact (List.append_nil _).symm
      · intro identification status rest split _
        simp only [List.cons_append, List.nil_append, List.cons.injEq] at split
        exact ⟨_, split.2.2.symm, rfl⟩
    · next clean =>
      have unread : (((uart.readRegister .interruptId).2.readRegister .lineStatus).2).rx.Valid :=
        valid
      split at completed
      · obtain ⟨_, rfl⟩ := Prod.mk.inj (Option.some.inj completed)
        obtain ⟨accesses, bypasses⟩ := bypasses_transmit
          ((uart.readRegister .interruptId).2.readRegister .lineStatus).2
        exact ⟨_, (bypasses.gathers unread).collects clean⟩
      · split at completed
        · obtain ⟨accesses, gathers⟩ := gathers_receive unread completed
          exact ⟨_, gathers.collects clean⟩
        · obtain ⟨_, rfl⟩ := Prod.mk.inj (Option.some.inj completed)
          exact ⟨_, ((Bypasses.refl _).gathers unread).collects clean⟩

end Traced

section Put

variable {C : Type} [Controller C]

theorem answer_rx {request : Request} (spares : request ≠ .take) (uart : Uart C) :
    (answer request uart).2.rx = uart.rx := by
  cases request with
  | take => exact absurd rfl spares
  | push byte =>
      simp only [answer]
      split
      · rfl
      · rfl
  | pop =>
      simp only [answer]
      split
      · rfl
      · rfl
  | _ => rfl

theorem put_rx (uart : Uart C) (byte : UInt8) : (uart.put byte).rx = uart.rx :=
  (put_spares byte).run_eq Uart.rx (fun _ state spares => answer_rx spares state) uart

end Put

section Polls

variable {C : Type} [Controller C] {uart : Uart C} {polls : Nat}
  {result : List Reception × Uart C}

/-- Polls that are left over when the loop ends make no difference. -/
theorem receive_more (completed : uart.receive? polls = some result) (more : Nat) :
    uart.receive? (polls + more) = some result := by
  induction polls generalizing uart result with
  | zero =>
      simp [receive?] at completed
  | succ polls inductionHypothesis =>
      rw [Nat.succ_add]
      simp only [receive?] at completed ⊢
      split at completed
      · next ready =>
        rw [if_pos ready]
        split at completed
        · next later final rest =>
          rw [inductionHypothesis rest]
          exact completed
        · simp at completed
      · next idle =>
        rw [if_neg idle]
        exact completed

theorem service_more (completed : uart.service? polls = some result) (more : Nat) :
    uart.service? (polls + more) = some result := by
  simp only [service?] at completed ⊢
  split
  · next idle => rwa [if_pos idle] at completed
  · next pending =>
    rw [if_neg pending] at completed
    split
    · next damaged => rwa [if_pos damaged] at completed
    · next clean =>
      rw [if_neg clean] at completed
      split
      · next ready => rwa [if_pos ready] at completed
      · next notReady =>
        rw [if_neg notReady] at completed
        split
        · next received =>
          rw [if_pos received] at completed
          exact receive_more completed more
        · next other => rwa [if_neg other] at completed

end Polls

end Microkernel.Uart
