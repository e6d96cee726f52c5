import Microkernel.Proofs.Uart.Ring

/-!
# A ring answers as a bounded queue

Beside a ring stands the queue that it is meant to be: a list that never grows beyond its capacity,
with no circle and no positions.  One call after the other the two give the same answers, and of the
queue it is plain that it hands out what it took in the order in which it took it.
-/

namespace Microkernel

/-- What is asked of a queue. -/
inductive QueueCall where
  | push (byte : UInt8)
  | pop
  deriving DecidableEq

inductive QueueAnswer where
  /-- Whether the queue took the byte. -/
  | pushed (taken : Bool)
  /-- The byte that the queue gave, if it had any. -/
  | popped (byte : Option UInt8)
  deriving DecidableEq

/-- Calls with their answers, the first call first. -/
abbrev QueueTrace : Type :=
  List (QueueCall × QueueAnswer)

namespace QueueTrace

/-- The bytes that were pushed with success. -/
def accepted (trace : QueueTrace) : List UInt8 :=
  trace.filterMap fun
    | (.push byte, .pushed true) => some byte
    | _ => none

/-- The bytes that were popped. -/
def given (trace : QueueTrace) : List UInt8 :=
  trace.filterMap fun
    | (_, .popped byte) => byte
    | _ => none

end QueueTrace

/-- Put calls one after the other to anything that answers them. -/
def runCalls {Q : Type} (step : Q → QueueCall → QueueAnswer × Q) :
    List QueueCall → Q → QueueTrace × Q
  | [], queue => ([], queue)
  | call :: rest, queue =>
    let (answer, next) := step queue call
    let (trace, last) := runCalls step rest next
    ((call, answer) :: trace, last)

/-- One call on a ring.  A refused call leaves the ring as it is. -/
def Ring.step {size : Nat} (ring : Ring size) : QueueCall → QueueAnswer × Ring size
  | .push byte => (.pushed (ring.push? byte).isSome, (ring.push? byte).getD ring)
  | .pop => (.popped (ring.pop?.map Prod.fst), (ring.pop?.map Prod.snd).getD ring)

/-- Bytes in the order of their arrival, no more than `capacity` of them. -/
structure BoundedQueue (capacity : Nat) where
  bytes : List UInt8
  length_le : bytes.length ≤ capacity

namespace BoundedQueue

variable {capacity : Nat}

def empty : BoundedQueue capacity :=
  ⟨[], Nat.zero_le capacity⟩

def push (queue : BoundedQueue capacity) (byte : UInt8)
    (room : queue.bytes.length < capacity) : BoundedQueue capacity where
  bytes := queue.bytes ++ [byte]
  length_le := by
    rw [List.length_append]
    exact room

def pop (queue : BoundedQueue capacity) : BoundedQueue capacity where
  bytes := queue.bytes.tail
  length_le := by
    rw [List.length_tail]
    exact Nat.le_trans (Nat.sub_le _ 1) queue.length_le

/-- A byte is taken if there is room, and the byte that was taken first is given. -/
def step (queue : BoundedQueue capacity) : QueueCall → QueueAnswer × BoundedQueue capacity
  | .push byte =>
    if room : queue.bytes.length < capacity then (.pushed true, queue.push byte room)
    else (.pushed false, queue)
  | .pop => (.popped queue.bytes.head?, queue.pop)

/-- What a queue held and takes is what it gives and holds then. -/
theorem step_conserves (queue : BoundedQueue capacity) (call : QueueCall) :
    queue.bytes ++ QueueTrace.accepted [(call, (queue.step call).1)] =
      QueueTrace.given [(call, (queue.step call).1)] ++ (queue.step call).2.bytes := by
  cases call with
  | push byte =>
      by_cases room : queue.bytes.length < capacity
      · simp only [step, dif_pos room]
        rfl
      · simp only [step, dif_neg room]
        exact List.append_nil queue.bytes
  | pop =>
      cases held : queue.bytes with
      | nil => simp [step, pop, held, QueueTrace.accepted, QueueTrace.given]
      | cons first rest => simp [step, pop, held, QueueTrace.accepted, QueueTrace.given]

private theorem run_conserves (calls : List QueueCall) (queue : BoundedQueue capacity) :
    queue.bytes ++ (runCalls step calls queue).1.accepted =
      (runCalls step calls queue).1.given ++ (runCalls step calls queue).2.bytes := by
  induction calls generalizing queue with
  | nil => exact List.append_nil queue.bytes
  | cons call rest inductionHypothesis =>
      let first := queue.step call
      let later := runCalls step rest first.2
      have acceptedEq : QueueTrace.accepted ((call, first.1) :: later.1) =
          QueueTrace.accepted [(call, first.1)] ++ later.1.accepted :=
        List.filterMap_append (l := [(call, first.1)])
      have givenEq : QueueTrace.given ((call, first.1) :: later.1) =
          QueueTrace.given [(call, first.1)] ++ later.1.given :=
        List.filterMap_append (l := [(call, first.1)])
      calc
        queue.bytes ++ QueueTrace.accepted ((call, first.1) :: later.1)
          = (queue.bytes ++ QueueTrace.accepted [(call, first.1)]) ++ later.1.accepted := by
            rw [acceptedEq, List.append_assoc]
        _ = QueueTrace.given [(call, first.1)] ++ (first.2.bytes ++ later.1.accepted) := by
            rw [queue.step_conserves call, List.append_assoc]
        _ = QueueTrace.given ((call, first.1) :: later.1) ++ later.2.bytes := by
            rw [inductionHypothesis first.2, givenEq, List.append_assoc]

end BoundedQueue

namespace Ring

variable {size : Nat} {ring : Ring size} {queue : BoundedQueue (size - 1)}

/-- A ring that stands for a queue. -/
structure Represents (ring : Ring size) (queue : BoundedQueue (size - 1)) : Prop where
  valid : ring.Valid
  toList_eq : ring.toList = queue.bytes

private theorem represents_empty (positive : 0 < size) :
    Represents (empty : Ring size) BoundedQueue.empty := by
  have valid := valid_empty positive
  exact ⟨valid, valid.isEmpty_iff.mp rfl⟩

namespace Represents

theorem length_eq (represents : Represents ring queue) : ring.length = queue.bytes.length := by
  rw [← represents.toList_eq, represents.valid.length_toList]

theorem isEmpty_iff (represents : Represents ring queue) :
    ring.isEmpty = true ↔ queue.bytes.length = 0 := by
  rw [represents.valid.isEmpty_iff, represents.toList_eq, List.length_eq_zero_iff]

theorem isFull_iff (represents : Represents ring queue) :
    ring.isFull = true ↔ queue.bytes.length = size - 1 := by
  rw [represents.valid.isFull_iff, represents.toList_eq]

theorem push?_eq_none_iff (represents : Represents ring queue) (byte : UInt8) :
    ring.push? byte = none ↔ queue.bytes.length = size - 1 := by
  rw [Ring.push?_eq_none_iff, represents.isFull_iff]

theorem pop?_eq_none_iff (represents : Represents ring queue) :
    ring.pop? = none ↔ queue.bytes.length = 0 := by
  rw [Ring.pop?_eq_none_iff, represents.isEmpty_iff]

private theorem step_push (represents : Represents ring queue) (byte : UInt8) :
    (ring.step (.push byte)).1 = (queue.step (.push byte)).1 ∧
      Represents (ring.step (.push byte)).2 (queue.step (.push byte)).2 := by
  cases pushed : ring.push? byte with
  | none =>
      have full := (represents.push?_eq_none_iff byte).mp pushed
      have noRoom : ¬ queue.bytes.length < size - 1 := by omega
      simp only [step, pushed, BoundedQueue.step, dif_neg noRoom]
      exact ⟨rfl, represents⟩
  | some next =>
      have notFull : queue.bytes.length ≠ size - 1 := by
        rw [ne_eq, ← represents.push?_eq_none_iff byte, pushed]
        exact nofun
      have room := Nat.lt_of_le_of_ne queue.length_le notFull
      simp only [step, pushed, BoundedQueue.step, dif_pos room]
      refine ⟨rfl, represents.valid.push? pushed, ?_⟩
      rw [Option.getD_some, represents.valid.toList_push? pushed, represents.toList_eq]
      rfl

private theorem step_pop (represents : Represents ring queue) :
    (ring.step .pop).1 = (queue.step .pop).1 ∧
      Represents (ring.step .pop).2 (queue.step .pop).2 := by
  cases popped : ring.pop? with
  | none =>
      have nothing := List.length_eq_zero_iff.mp (represents.pop?_eq_none_iff.mp popped)
      have nothingLeft : queue.bytes.tail = queue.bytes := by
        rw [nothing]
        rfl
      simp only [step, popped, BoundedQueue.step, nothing]
      exact ⟨rfl, represents.valid, represents.toList_eq.trans nothingLeft.symm⟩
  | some taken =>
      obtain ⟨byte, next⟩ := taken
      have front := represents.valid.toList_pop? popped
      rw [represents.toList_eq] at front
      have left : queue.bytes.tail = next.toList := by
        rw [front]
        rfl
      simp only [step, popped, BoundedQueue.step, front]
      exact ⟨rfl, represents.valid.pop? popped, left.symm⟩

theorem step (represents : Represents ring queue) (call : QueueCall) :
    (ring.step call).1 = (queue.step call).1 ∧
      Represents (ring.step call).2 (queue.step call).2 := by
  cases call with
  | push byte => exact represents.step_push byte
  | pop => exact represents.step_pop

theorem run (represents : Represents ring queue) (calls : List QueueCall) :
    (runCalls Ring.step calls ring).1 = (runCalls BoundedQueue.step calls queue).1 ∧
      Represents (runCalls Ring.step calls ring).2
        (runCalls BoundedQueue.step calls queue).2 := by
  induction calls generalizing ring queue with
  | nil => exact ⟨rfl, represents⟩
  | cons call rest inductionHypothesis =>
      obtain ⟨answerEq, next⟩ := represents.step call
      obtain ⟨traceEq, last⟩ := inductionHypothesis next
      refine ⟨?_, last⟩
      simp only [runCalls]
      rw [answerEq, traceEq]

end Represents

/-- What can be seen of a ring in which these bytes are queued. -/
structure Shows (ring : Ring size) (queued : List UInt8) : Prop where
  length_eq : ring.length = queued.length
  isEmpty_iff : ring.isEmpty = true ↔ queued.length = 0
  isFull_iff : ring.isFull = true ↔ queued.length = size - 1
  /-- Both positions lie in the circle. -/
  positions : ring.head < size ∧ ring.tail < size
  /-- A byte is refused for lack of room only. -/
  push_iff : ∀ byte, (ring.step (.push byte)).1 = .pushed false ↔ queued.length = size - 1
  push_refused : ∀ byte, (ring.step (.push byte)).1 = .pushed false →
    (ring.step (.push byte)).2 = ring
  /-- Nothing is given if nothing is queued, and only then. -/
  pop_iff : (ring.step .pop).1 = .popped none ↔ queued.length = 0
  pop_refused : (ring.step .pop).1 = .popped none → (ring.step .pop).2 = ring

theorem Represents.shows (represents : Represents ring queue) : Shows ring queue.bytes where
  length_eq := represents.length_eq
  isEmpty_iff := represents.isEmpty_iff
  isFull_iff := represents.isFull_iff
  positions := ⟨represents.valid.head, represents.valid.tail⟩
  push_iff byte := by
    rw [← represents.push?_eq_none_iff byte]
    simp [Ring.step]
  push_refused byte refused := by
    have untouched : ring.push? byte = none := by simpa [Ring.step] using refused
    simp [Ring.step, untouched]
  pop_iff := by
    rw [← represents.pop?_eq_none_iff]
    simp [Ring.step]
  pop_refused refused := by
    have untouched : ring.pop? = none := by simpa [Ring.step] using refused
    simp [Ring.step, untouched]

/-- Whatever is pushed and popped, a ring of `size` cells answers as the queue that holds at most
`size - 1` bytes.  What it gave, followed by what is still queued, is what it took, in order, and
its length, its being empty or full and its next refusals follow from the number of queued bytes. -/
theorem bounded_fifo (positive : 0 < size) (calls : List QueueCall) :
    let answered := runCalls step calls (empty : Ring size)
    let expected :=
      runCalls BoundedQueue.step calls (BoundedQueue.empty : BoundedQueue (size - 1))
    answered.1 = expected.1 ∧
      answered.1.accepted = answered.1.given ++ expected.2.bytes ∧
      Shows answered.2 expected.2.bytes := by
  intro answered expected
  obtain ⟨sameTrace, represents⟩ := (represents_empty positive).run calls
  refine ⟨sameTrace, ?_, represents.shows⟩
  rw [sameTrace]
  exact BoundedQueue.run_conserves calls BoundedQueue.empty

/-- Three cells hold two bytes; a third is refused, and the positions go round the circle. -/
theorem bounded_fifo_wrapped :
    let calls : List QueueCall :=
      [.push 1, .push 2, .push 3, .pop, .push 4, .pop, .pop, .pop, .push 5]
    let answered := runCalls step calls (empty : Ring 3)
    0 < 3 ∧ answered.1.accepted = [1, 2, 4, 5] ∧ answered.1.given = [1, 2, 4] ∧
      answered.1.accepted = answered.1.given ++ [5] ∧ Shows answered.2 [5] := by
  intro calls answered
  obtain ⟨_, conserved, shows⟩ := bounded_fifo (by decide : 0 < 3) calls
  have queued : (runCalls BoundedQueue.step calls
      (BoundedQueue.empty : BoundedQueue (3 - 1))).2.bytes = [5] := by
    decide
  rw [queued] at conserved shows
  exact ⟨by decide, by decide, by decide, conserved, shows⟩

/-- A single cell is empty and full at once. -/
example : (empty : Ring 1).isEmpty = true ∧ (empty : Ring 1).isFull = true := by
  decide

end Ring

end Microkernel
