import Mathlib.Data.List.Basic
import Microkernel.Routine

/-!
# Runs of routines

A routine that is made of others is run part after part, and its steps are theirs.  What its
requests keep its runs keep: a part of the state that none of them changes, or a relation between
two states that answer them alike.
-/

namespace Microkernel.Routine

variable {R Q S T α β : Type} {Answer : R → Type} {Given : Q → Type}

section Run

variable (answer : (request : R) → S → Answer request × S) (state : S)

@[simp]
theorem run_pure (result : α) :
    (pure result : Routine Answer α).run answer state = (result, state) :=
  rfl

@[simp]
theorem steps_pure (result : α) : (pure result : Routine Answer α).steps answer state = [] :=
  rfl

@[simp]
theorem run_ask (request : R) (next : Answer request → Routine Answer α) :
    (ask request next).run answer state =
      (next (answer request state).1).run answer (answer request state).2 :=
  rfl

@[simp]
theorem steps_ask (request : R) (next : Answer request → Routine Answer α) :
    (ask request next).steps answer state =
      ⟨state, request⟩ :: (next (answer request state).1).steps answer (answer request state).2 :=
  rfl

@[simp]
theorem run_bind (work : Routine Answer α) (rest : α → Routine Answer β) :
    (work >>= rest).run answer state =
      (rest (work.run answer state).1).run answer (work.run answer state).2 := by
  induction work generalizing state with
  | done result => rfl
  | ask request next inductionHypothesis =>
      exact inductionHypothesis (answer request state).1 (answer request state).2

@[simp]
theorem steps_bind (work : Routine Answer α) (rest : α → Routine Answer β) :
    (work >>= rest).steps answer state =
      work.steps answer state ++
        (rest (work.run answer state).1).steps answer (work.run answer state).2 := by
  induction work generalizing state with
  | done result => rfl
  | ask request next inductionHypothesis =>
      exact congrArg (⟨state, request⟩ :: ·)
        (inductionHypothesis (answer request state).1 (answer request state).2)

end Run

section Embed

variable (wrap : R → Q) (within : S → T) {inner : (request : R) → S → Given (wrap request) × S}
  {outer : (request : Q) → T → Given request × T}

theorem run_embed
    (carries : ∀ request state, outer (wrap request) (within state) =
      ((inner request state).1, within (inner request state).2))
    (work : Routine (fun request => Given (wrap request)) α) (state : S) :
    (work.embed wrap).run outer (within state) =
      ((work.run inner state).1, within (work.run inner state).2) := by
  induction work generalizing state with
  | done result => rfl
  | ask request next inductionHypothesis =>
      rw [embed, run_ask, carries]
      exact inductionHypothesis (inner request state).1 (inner request state).2

theorem steps_embed
    (carries : ∀ request state, outer (wrap request) (within state) =
      ((inner request state).1, within (inner request state).2))
    (work : Routine (fun request => Given (wrap request)) α) (state : S) :
    (work.embed wrap).steps outer (within state) =
      (work.steps inner state).map fun step => ⟨within step.state, wrap step.request⟩ := by
  induction work generalizing state with
  | done result => rfl
  | ask request next inductionHypothesis =>
      rw [embed, steps_ask, carries]
      exact congrArg (⟨within state, wrap request⟩ :: ·)
        (inductionHypothesis (inner request state).1 (inner request state).2)

end Embed

/-- Whatever is answered, all requests of a routine are of one kind. -/
def Asks (kind : R → Prop) : Routine Answer α → Prop
  | .done _ => True
  | .ask request next => kind request ∧ ∀ given, (next given).Asks kind

theorem Asks.bind {kind : R → Prop} {work : Routine Answer α} {rest : α → Routine Answer β}
    (asks : work.Asks kind) (later : ∀ result, (rest result).Asks kind) :
    (work >>= rest).Asks kind := by
  induction work with
  | done result => exact later result
  | ask request next inductionHypothesis =>
      exact ⟨asks.1, fun given => inductionHypothesis given (asks.2 given)⟩

theorem Asks.embed {kind : Q → Prop} {wrap : R → Q}
    {work : Routine (fun request => Given (wrap request)) α}
    (asks : work.Asks fun request => kind (wrap request)) :
    (work.embed wrap).Asks kind := by
  induction work with
  | done result => trivial
  | ask request next inductionHypothesis =>
      exact ⟨asks.1, fun given => inductionHypothesis given (asks.2 given)⟩

theorem Asks.mono {kind wider : R → Prop} {work : Routine Answer α} (asks : work.Asks kind)
    (widens : ∀ request, kind request → wider request) : work.Asks wider := by
  induction work with
  | done result => trivial
  | ask request next inductionHypothesis =>
      exact ⟨widens request asks.1, fun given => inductionHypothesis given (asks.2 given)⟩

section Kept

variable {answer : (request : R) → S → Answer request × S} {kind : R → Prop}
  {work : Routine Answer α}

/-- What no request of its kind changes a run does not change. -/
theorem Asks.run_eq (part : S → β) (asks : work.Asks kind)
    (keeps : ∀ request state, kind request → part (answer request state).2 = part state)
    (state : S) : part (work.run answer state).2 = part state := by
  induction work generalizing state with
  | done result => rfl
  | ask request next inductionHypothesis =>
      exact (inductionHypothesis _ (asks.2 _) _).trans (keeps request state asks.1)

theorem Asks.request_of_mem (asks : work.Asks kind) {state : S} {step : Step R S}
    (member : step ∈ work.steps answer state) : kind step.request := by
  induction work generalizing state with
  | done result => cases member
  | ask request next inductionHypothesis =>
      rcases List.mem_cons.mp member with rfl | later
      · exact asks.1
      · exact inductionHypothesis _ (asks.2 _) later

theorem Asks.state_of_mem (part : S → β) (asks : work.Asks kind)
    (keeps : ∀ request state, kind request → part (answer request state).2 = part state)
    {state : S} {step : Step R S} (member : step ∈ work.steps answer state) :
    part step.state = part state := by
  induction work generalizing state with
  | done result => cases member
  | ask request next inductionHypothesis =>
      rcases List.mem_cons.mp member with rfl | later
      · rfl
      · exact (inductionHypothesis _ (asks.2 _) later).trans (keeps request state asks.1)

/-- A change of the state that commutes with every request of its kind commutes with a run. -/
theorem Asks.run_map {change : S → S} (asks : work.Asks kind)
    (commutes : ∀ request state, kind request → answer request (change state) =
      ((answer request state).1, change (answer request state).2)) (state : S) :
    work.run answer (change state) =
      ((work.run answer state).1, change (work.run answer state).2) := by
  induction work generalizing state with
  | done result => rfl
  | ask request next inductionHypothesis =>
      rw [run_ask, commutes request state asks.1]
      exact inductionHypothesis _ (asks.2 _) _

/-- Two states that answer every request of its kind alike, and that stay so related, are not told
apart by a run. -/
theorem Asks.run_alike {Alike : S → S → Prop} (asks : work.Asks kind)
    (answers : ∀ request state other, kind request → Alike state other →
      (answer request state).1 = (answer request other).1 ∧
        Alike (answer request state).2 (answer request other).2)
    {state other : S} (alike : Alike state other) :
    (work.run answer state).1 = (work.run answer other).1 ∧
      Alike (work.run answer state).2 (work.run answer other).2 := by
  induction work generalizing state other with
  | done result => exact ⟨rfl, alike⟩
  | ask request next inductionHypothesis =>
      obtain ⟨sameAnswer, alikeAfter⟩ := answers request state other asks.1 alike
      rw [run_ask, run_ask, ← sameAnswer]
      exact inductionHypothesis _ (asks.2 _) alikeAfter

end Kept

section Trace

variable {answer : (request : R) → S → Answer request × S}

/-- What each request adds to a log a run adds to it, one step after the other. -/
theorem run_log (log : S → List β) (noted? : R → Option β)
    (adds : ∀ request state,
      log (answer request state).2 = log state ++ (noted? request).toList)
    (work : Routine Answer α) (state : S) :
    log (work.run answer state).2 =
      log state ++ (work.steps answer state).filterMap fun step => noted? step.request := by
  induction work generalizing state with
  | done result =>
      exact (List.append_nil _).symm
  | ask request next inductionHypothesis =>
      rw [run_ask, steps_ask, inductionHypothesis, List.filterMap_cons]
      rw [adds, List.append_assoc]
      cases noted? request with
      | none => rfl
      | some entry => rfl

/-- An invariant of the requests that a run makes holds at each of its steps and at its end. -/
theorem holds_of_steps {invariant : S → Prop} {allowed : R → Prop}
    (keeps : ∀ request state, allowed request → invariant state →
      invariant (answer request state).2)
    {work : Routine Answer α} {state : S} (initially : invariant state)
    (made : ∀ step ∈ work.steps answer state, allowed step.request) :
    (∀ step ∈ work.steps answer state, invariant step.state) ∧
      invariant (work.run answer state).2 := by
  induction work generalizing state with
  | done result =>
      exact ⟨nofun, initially⟩
  | ask request next inductionHypothesis =>
      obtain ⟨here, later⟩ := List.forall_mem_cons.mp made
      obtain ⟨during, atEnd⟩ :=
        inductionHypothesis _ (keeps request state here initially) later
      exact ⟨List.forall_mem_cons.mpr ⟨initially, during⟩, atEnd⟩

end Trace

end Microkernel.Routine
