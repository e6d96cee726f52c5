import Mathlib.Logic.Function.Basic
import Microkernel.Client.Serial
import Microkernel.Proofs.Kernel.Serial
import Microkernel.Uart.Simulated

/-!
# Clients that print at the same time

Each of several clients writes bytes of its own, and takes turns with the others call by call.  A
client asks for room and puts a byte in two calls, so that the room that it was told of may be taken
in between.  Its byte is then dropped, and the call succeeds all the same.  Apart from that no byte
is lost, and none is queued twice or out of order.
-/

namespace Microkernel.Client

/-- An answered call of one of several clients. -/
structure Call (ι : Type) where
  client : ι
  id : SyscallId
  arg : Value
  ret : Value
  /-- Whether the transmit ring had room when the call was made. -/
  room : Bool

namespace Call

variable {ι : Type}

def put? (call : Call ι) : Option UInt8 :=
  if call.id = .uartPutc then Kernel.byteOf? call.arg else none

/-- The byte that a call puts into the transmit ring. -/
def entered? (call : Call ι) : Option UInt8 :=
  if call.room then call.put? else none

end Call

/-- Clients on one kernel, and the calls that they have made so far. -/
structure Writers (ι C : Type) where
  kernel : Kernel (TracedUart C)
  programs : ι → Program Unit
  calls : List (Call ι)

/-- What can happen next: a client goes on up to the answer of its next call, an interrupt arrives,
or the line changes by itself. -/
inductive Turn (ι C : Type) where
  | client (who : ι)
  | interrupt (frame : TrapFrame) (lines : IrqLines)
  | line (change : C → C)

namespace Writers

variable {ι C : Type} [DecidableEq ι] [PolledController C]

def turn (writers : Writers ι C) : Turn ι C → Writers ι C
  | .client who =>
    match writers.programs who with
    | .call id arg next =>
      let served := writers.kernel.dispatch id.code arg
      { kernel := served.state
        programs := Function.update writers.programs who (next served.ret served.arg)
        calls := writers.calls ++
          [⟨who, id, arg, served.ret, !writers.kernel.uart.tx.isFull⟩] }
    | .note _ next => { writers with programs := Function.update writers.programs who next }
    | .done _ | .failed _ | .stalled => writers
  | .interrupt frame lines =>
    { writers with kernel := (writers.kernel.interrupt frame lines).state }
  | .line change => { writers with kernel := writers.kernel.disturb change }

def run (writers : Writers ι C) (turns : List (Turn ι C)) : Writers ι C :=
  turns.foldl turn writers

/-- Clients that are about to write these bytes. -/
def start (patience : Nat) (kernel : Kernel (TracedUart C)) (outputs : ι → List UInt8) :
    Writers ι C :=
  ⟨kernel, fun who => writeBytes patience (outputs who), []⟩

end Writers

section Calls

variable {ι : Type}

def putsOf [DecidableEq ι] (who : ι) (calls : List (Call ι)) : List UInt8 :=
  (calls.filter fun call => call.client = who).filterMap Call.put?

/-- The calls since a client was last told that there is room, none of them its own. -/
def Since (who : ι) (calls between : List (Call ι)) : Prop :=
  ∃ earlier asked, calls = earlier ++ asked :: between ∧ asked.client = who ∧
    asked.id = .uartTxFull ∧ asked.room = true ∧ ∀ call ∈ between, call.client ≠ who

/-- Another byte has been queued since a client was last told that there is room. -/
def Overtaken (who : ι) (calls : List (Call ι)) : Prop :=
  ∃ between, Since who calls between ∧ ∃ call ∈ between, call.entered?.isSome

/-- A put that found no room was overtaken. -/
def LosesOnlyOvertaken (calls : List (Call ι)) : Prop :=
  ∀ before call after, calls = before ++ call :: after → call.put?.isSome →
    call.room = false → Overtaken call.client before

/-- The bytes fall into the outputs of the clients, each in its own order. -/
def Interleaves [DecidableEq ι] (outputs : ι → List UInt8) (bytes : List UInt8) : Prop :=
  ∃ tagged : List (ι × UInt8), tagged.map Prod.snd = bytes ∧
    ∀ who, (tagged.filter fun entry => entry.1 = who).map Prod.snd = outputs who

end Calls

section Records

variable {ι : Type} {calls : List (Call ι)} {call : Call ι}

private theorem putsOf_append [DecidableEq ι] (who : ι) (calls : List (Call ι)) (call : Call ι) :
    putsOf who (calls ++ [call]) =
      putsOf who calls ++ if call.client = who then call.put?.toList else [] := by
  rw [putsOf, List.filter_append, List.filterMap_append, putsOf]
  congr 1
  by_cases own : call.client = who
  · cases put : call.put? with
    | none => simp [own, put]
    | some byte => simp [own, put]
  · simp [own]

theorem Since.append {who : ι} {between : List (Call ι)} (since : Since who calls between)
    (other : call.client ≠ who) : Since who (calls ++ [call]) (between ++ [call]) := by
  obtain ⟨earlier, asked, split, own, id, room, apart⟩ := since
  refine ⟨earlier, asked, ?_, own, id, room, ?_⟩
  · rw [split, List.append_assoc, List.cons_append]
  · intro later member
    rcases List.mem_append.1 member with earlierMember | last
    · exact apart later earlierMember
    · rw [List.mem_singleton.1 last]
      exact other

private theorem since_asked {who : ι} (own : call.client = who) (id : call.id = .uartTxFull)
    (room : call.room = true) : Since who (calls ++ [call]) [] :=
  ⟨calls, call, rfl, own, id, room, nofun⟩

theorem LosesOnlyOvertaken.append (loses : LosesOnlyOvertaken calls)
    (last : call.put?.isSome → call.room = false → Overtaken call.client calls) :
    LosesOnlyOvertaken (calls ++ [call]) := by
  intro before lost after split put noRoom
  rcases List.eq_nil_or_concat after with rfl | ⟨after, final, rfl⟩
  · obtain ⟨rfl, singleton⟩ := List.append_inj' split rfl
    obtain ⟨rfl, _⟩ := List.cons.inj singleton
    exact last put noRoom
  · have shifted : calls ++ [call] = (before ++ lost :: after) ++ [final] := by
      rw [split, List.concat_eq_append, List.append_assoc, List.cons_append]
    exact loses before lost after (List.append_inj' shifted rfl).1 put noRoom

/-- A client that was told of room finds it unless it is overtaken. -/
def Assured (who : ι) (calls : List (Call ι)) (tx : Ring Uart.ringSize) : Prop :=
  ∃ between, Since who calls between ∧
    (tx.isFull = false ∨ ∃ call ∈ between, call.entered?.isSome)

theorem Assured.mono {who : ι} {tx tx' : Ring Uart.ringSize} (assured : Assured who calls tx)
    (kept : tx.isFull = false → tx'.isFull = false) : Assured who calls tx' := by
  obtain ⟨between, since, room | taken⟩ := assured
  · exact ⟨between, since, .inl (kept room)⟩
  · exact ⟨between, since, .inr taken⟩

theorem Assured.append {who : ι} {tx tx' : Ring Uart.ringSize} (assured : Assured who calls tx)
    (other : call.client ≠ who)
    (kept : tx.isFull = false → tx'.isFull = false ∨ call.entered?.isSome) :
    Assured who (calls ++ [call]) tx' := by
  obtain ⟨between, since, foundRoom⟩ := assured
  refine ⟨between ++ [call], since.append other, ?_⟩
  rcases foundRoom with room | ⟨taker, member, taken⟩
  · rcases kept room with stillRoom | takes
    · exact .inl stillRoom
    · exact .inr ⟨call, List.mem_append_right _ List.mem_cons_self, takes⟩
  · exact .inr ⟨taker, List.mem_append_left _ member, taken⟩

end Records

/-- Where a client is that has these bytes left to put. -/
inductive Stage {ι : Type} (patience : Nat) (who : ι) (calls : List (Call ι))
    (tx : Ring Uart.ringSize) : List UInt8 → Program Unit → Prop where
  | finished : Stage patience who calls tx [] (.done ())
  | asking (tries : Nat) (byte : UInt8) (rest : List UInt8) :
      Stage patience who calls tx (byte :: rest)
        ((putByte tries byte).bind fun _ => putAll patience rest)
  | putting (byte : UInt8) (rest : List UInt8) (assured : Assured who calls tx) :
      Stage patience who calls tx (byte :: rest)
        ((putc byte).bind fun _ => putAll patience rest)

private theorem putByte_asks (tries : Nat) (byte : UInt8) (rest : Unit → Program Unit) :
    ∃ next, (putByte (tries + 1) byte).bind rest = .call .uartTxFull .none next ∧
      ∀ full, next .ok (Kernel.truthValue full) =
        if full then (putByte tries byte).bind rest else (putc byte).bind rest := by
  refine ⟨_, rfl, ?_⟩
  intro full
  cases full with
  | true => rfl
  | false => rfl

private theorem putc_puts (byte : UInt8) (rest : Unit → Program Unit) :
    ∃ next, (putc byte).bind rest = .call .uartPutc (.int32 byte.toUInt32.toInt32) next ∧
      ∀ arg, next .ok arg = rest () :=
  ⟨_, rfl, fun _ => rfl⟩

private theorem stage_putAll {ι : Type} (patience : Nat) (who : ι) (calls : List (Call ι))
    (tx : Ring Uart.ringSize) (bytes : List UInt8) :
    Stage patience who calls tx bytes (putAll patience bytes) := by
  cases bytes with
  | nil => exact .finished
  | cons byte rest => exact .asking patience byte rest

theorem Stage.map {ι : Type} {patience : Nat} {who : ι} {calls calls' : List (Call ι)}
    {tx tx' : Ring Uart.ringSize} {left : List UInt8} {program : Program Unit}
    (stage : Stage patience who calls tx left program)
    (kept : Assured who calls tx → Assured who calls' tx') :
    Stage patience who calls' tx' left program := by
  cases stage with
  | finished => exact .finished
  | asking tries byte rest => exact .asking tries byte rest
  | putting byte rest assured => exact .putting byte rest (kept assured)

/-! ## One turn -/

section Turns

variable {ι C : Type} [DecidableEq ι]

/-- What holds of clients on a kernel after any turns.  `history` is what had entered the transmit
ring before the first turn. -/
structure Faithful (patience : Nat) (outputs : ι → List UInt8) (history : List UInt8)
    (writers : Writers ι C) : Prop where
  valid : writers.kernel.uart.tx.Valid
  entered : writers.kernel.uart.entered = history ++ writers.calls.filterMap Call.entered?
  answered : ∀ call ∈ writers.calls, call.ret = .ok
  staged : ∀ who, ∃ left,
    Console.wireBytes (outputs who) = putsOf who writers.calls ++ left ∧
      Stage patience who writers.calls writers.kernel.uart.tx left (writers.programs who)
  loses : LosesOnlyOvertaken writers.calls

variable {patience : Nat} {outputs : ι → List UInt8} {history : List UInt8}
  {writers : Writers ι C}

/-- An event that only takes bytes out of the transmit ring. -/
theorem Faithful.drained {kernel : Kernel (TracedUart C)} {accesses : List Uart.Access}
    (faithful : Faithful patience outputs history writers)
    (conveys : Uart.Conveys writers.kernel.uart kernel.uart [] accesses) :
    Faithful patience outputs history { writers with kernel } where
  valid := conveys.valid
  entered := by
    rw [conveys.entered, List.append_nil]
    exact faithful.entered
  answered := faithful.answered
  staged := by
    intro who
    obtain ⟨left, split, stage⟩ := faithful.staged who
    refine ⟨left, split, stage.map ?_⟩
    intro assured
    exact assured.mono (conveys.isFull_eq_false faithful.valid)
  loses := faithful.loses

/-- A successful call of one client: what it does to the ring, and where it leaves the client. -/
theorem Faithful.called {kernel : Kernel (TracedUart C)} {accesses : List Uart.Access}
    {program : Program Unit} {left : List UInt8}
    (faithful : Faithful patience outputs history writers) (call : Call ι)
    (conveys : Uart.Conveys writers.kernel.uart kernel.uart call.entered?.toList accesses)
    (answered : call.ret = .ok)
    (split : Console.wireBytes (outputs call.client) =
      putsOf call.client writers.calls ++ call.put?.toList ++ left)
    (stage : Stage patience call.client (writers.calls ++ [call]) kernel.uart.tx left program)
    (loses : call.put?.isSome → call.room = false → Overtaken call.client writers.calls) :
    Faithful patience outputs history
      ⟨kernel, Function.update writers.programs call.client program,
        writers.calls ++ [call]⟩ where
  valid := conveys.valid
  entered := by
    rw [conveys.entered, faithful.entered, List.filterMap_append, List.append_assoc]
    cases entered : call.entered? with
    | none => simp [entered]
    | some byte => simp [entered]
  answered := by
    intro earlier member
    rcases List.mem_append.1 member with before | last
    · exact faithful.answered earlier before
    · rw [List.mem_singleton.1 last]
      exact answered
  staged := by
    intro who
    by_cases own : who = call.client
    · subst own
      refine ⟨left, ?_, ?_⟩
      · rw [putsOf_append, if_pos rfl]
        exact split
      · dsimp only
        rw [Function.update_self]
        exact stage
    · obtain ⟨left, otherSplit, otherStage⟩ := faithful.staged who
      refine ⟨left, ?_, ?_⟩
      · rw [putsOf_append, if_neg (Ne.symm own), List.append_nil]
        exact otherSplit
      · dsimp only
        rw [Function.update_of_ne own]
        refine otherStage.map ?_
        intro assured
        refine assured.append (Ne.symm own) ?_
        intro room
        cases entered : call.entered? with
        | none =>
            rw [entered] at conveys
            exact .inl (conveys.isFull_eq_false faithful.valid room)
        | some byte => exact .inr rfl
  loses := faithful.loses.append loses

variable [PolledController C]

/-- A client that asks for room goes on to put its byte if there is room, and asks again if not. -/
theorem Faithful.asks {who : ι} {tries : Nat} {byte : UInt8} {rest : List UInt8}
    (faithful : Faithful patience outputs history writers)
    (split : Console.wireBytes (outputs who) = putsOf who writers.calls ++ byte :: rest)
    (program : writers.programs who =
      (putByte (tries + 1) byte).bind fun _ => putAll patience rest) :
    Faithful patience outputs history (writers.turn (.client who)) := by
  obtain ⟨next, asks, answer⟩ := putByte_asks tries byte fun _ => putAll patience rest
  simp only [Writers.turn, program, asks, Kernel.dispatch_uartTxFull, answer]
  generalize full : writers.kernel.uart.tx.isFull = isFull
  let call : Call ι := ⟨who, .uartTxFull, .none, .ok, !isFull⟩
  have nothing : call.entered?.toList = [] := by
    cases isFull with
    | true => rfl
    | false => rfl
  have conveys := (Uart.Looks.refl writers.kernel.uart).conveys faithful.valid
  rw [← nothing] at conveys
  have unput : Console.wireBytes (outputs who) =
      putsOf who writers.calls ++ call.put?.toList ++ byte :: rest := by
    rw [split]
    exact congrArg (· ++ _) (List.append_nil _).symm
  refine faithful.called call conveys rfl unput ?_ (fun put => nomatch put)
  cases isFull with
  | true => exact .asking tries byte rest
  | false => exact .putting byte rest ⟨[], since_asked rfl rfl rfl, .inl full⟩

/-- A client that was told of room puts its byte, which is dropped if the room was taken. -/
theorem Faithful.puts {who : ι} {byte : UInt8} {rest : List UInt8}
    (faithful : Faithful patience outputs history writers)
    (split : Console.wireBytes (outputs who) = putsOf who writers.calls ++ byte :: rest)
    (assured : Assured who writers.calls writers.kernel.uart.tx)
    (program : writers.programs who = (putc byte).bind fun _ => putAll patience rest) :
    Faithful patience outputs history (writers.turn (.client who)) := by
  obtain ⟨next, puts, answer⟩ := putc_puts byte fun _ => putAll patience rest
  simp only [Writers.turn, program, puts, Kernel.dispatch_uartPutc, answer]
  obtain ⟨accesses, conveys, _⟩ := Uart.put_operates faithful.valid byte
  generalize full : writers.kernel.uart.tx.isFull = isFull at conveys
  let call : Call ι := ⟨who, .uartPutc, .int32 byte.toUInt32.toInt32, .ok, !isFull⟩
  have put : call.put? = some byte := Kernel.byteOf_int32 byte
  have entered : call.entered?.toList = if isFull then [] else [byte] := by
    rw [Call.entered?, put]
    cases isFull with
    | true => rfl
    | false => rfl
  rw [← entered] at conveys
  refine faithful.called call conveys rfl ?_ (stage_putAll patience who _ _ rest) ?_
  · rw [put, split, List.append_assoc]
    rfl
  · intro _ noRoom
    obtain ⟨between, since, room | taken⟩ := assured
    · rw [full] at room
      subst room
      cases noRoom
    · exact ⟨between, since, taken⟩

theorem Faithful.turn (faithful : Faithful patience outputs history writers) (turn : Turn ι C) :
    Faithful patience outputs history (writers.turn turn) := by
  cases turn with
  | client who =>
      obtain ⟨left, split, stage⟩ := faithful.staged who
      generalize program : writers.programs who = remaining at stage
      cases stage with
      | finished =>
          simp only [Writers.turn, program]
          exact faithful
      | asking tries byte rest =>
          cases tries with
          | zero =>
              have stalled : writers.programs who = .stalled := program
              simp only [Writers.turn, stalled]
              exact faithful
          | succ tries => exact faithful.asks split program
      | putting byte rest assured => exact faithful.puts split assured program
  | interrupt frame lines =>
      obtain ⟨accesses, conveys⟩ := Kernel.conveys_interrupt faithful.valid frame lines
      exact faithful.drained conveys
  | line change =>
      exact faithful.drained ((Uart.looks_disturb change _).conveys faithful.valid)

theorem Faithful.run (faithful : Faithful patience outputs history writers)
    (turns : List (Turn ι C)) : Faithful patience outputs history (writers.run turns) := by
  induction turns generalizing writers with
  | nil => exact faithful
  | cons turn rest inductionHypothesis => exact inductionHypothesis (faithful.turn turn)

end Turns

section Outputs

variable {ι : Type} {patience : Nat} {who : ι} {calls : List (Call ι)}
  {tx : Ring Uart.ringSize} {left : List UInt8} {program : Program Unit}

private theorem Stage.left_of_done (stage : Stage patience who calls tx left program)
    (returned : program = .done ()) : left = [] := by
  cases stage with
  | finished => rfl
  | asking tries byte rest =>
      cases tries with
      | zero => cases returned
      | succ tries => cases returned
  | putting byte rest assured => cases returned

theorem Stage.not_failed (stage : Stage patience who calls tx left program)
    (error : ClientError) : program ≠ .failed error := by
  cases stage with
  | finished => exact nofun
  | asking tries byte rest =>
      cases tries with
      | zero => exact nofun
      | succ tries => exact nofun
  | putting byte rest assured => exact nofun

private theorem Call.entered_of_room {call : Call ι} (room : call.put?.isSome → call.room = true) :
    call.entered? = call.put? := by
  rw [Call.entered?]
  cases put : call.put? with
  | none => exact ite_self _
  | some byte =>
      rw [put] at room
      exact if_pos (room rfl)

/-- Where every put found room, the bytes in the ring are those that the clients put. -/
theorem interleaves_putsOf [DecidableEq ι]
    (nothingDropped : ∀ call ∈ calls, call.put?.isSome → call.room = true) :
    Interleaves (putsOf · calls) (calls.filterMap Call.entered?) := by
  refine ⟨calls.filterMap fun call => call.entered?.map (Prod.mk call.client), ?_, ?_⟩
  · simp [List.map_filterMap, Function.comp_def]
  · intro who
    induction calls with
    | nil => rfl
    | cons call rest inductionHypothesis =>
        obtain ⟨room, restRoom⟩ := List.forall_mem_cons.1 nothingDropped
        have tail := inductionHypothesis restRoom
        simp only [putsOf, List.filterMap_cons, Call.entered_of_room room] at tail ⊢
        by_cases own : call.client = who
        · cases put : call.put? with
          | none => simp [put, own, tail]
          | some byte => simp [put, own, tail]
        · cases put : call.put? with
          | none => simp [own, tail]
          | some byte => simp [own, tail]

end Outputs

private theorem faithful_start {ι C : Type} [DecidableEq ι] {kernel : Kernel (TracedUart C)}
    (valid : kernel.uart.tx.Valid) (patience : Nat) (outputs : ι → List UInt8) :
    Faithful patience outputs kernel.uart.entered (Writers.start patience kernel outputs) where
  valid := valid
  entered := (List.append_nil _).symm
  answered := nofun
  staged who := ⟨_, rfl, stage_putAll patience who [] kernel.uart.tx _⟩
  loses := by
    intro before call after split
    simp [Writers.start] at split

/-- Every call of clients that write at the same time succeeds, and each client puts its own output
in order.  A byte enters the transmit ring once, at the call that puts it, unless that call finds no
room, which takes another client's byte since this client was told of room.  Where every put finds
room, what the clients have written in the end is an interleaving of their outputs. -/
theorem writers_faithful {ι C : Type} [DecidableEq ι] [PolledController C]
    {kernel : Kernel (TracedUart C)} (valid : kernel.uart.tx.Valid) (patience : Nat)
    (outputs : ι → List UInt8) (turns : List (Turn ι C)) :
    let writers := (Writers.start patience kernel outputs).run turns
    (∀ call ∈ writers.calls, call.ret = .ok) ∧
      (∀ who, ∃ left, Console.wireBytes (outputs who) = putsOf who writers.calls ++ left ∧
        (writers.programs who = .done () → left = []) ∧
        ∀ error, writers.programs who ≠ .failed error) ∧
      writers.kernel.uart.entered =
        kernel.uart.entered ++ writers.calls.filterMap Call.entered? ∧
      LosesOnlyOvertaken writers.calls ∧
      ((∀ call ∈ writers.calls, call.put?.isSome → call.room = true) →
        (∀ who, writers.programs who = .done ()) →
        Interleaves (fun who => Console.wireBytes (outputs who))
          (writers.calls.filterMap Call.entered?)) := by
  intro writers
  have faithful := (faithful_start valid patience outputs).run turns
  have staged : ∀ who, ∃ left,
      Console.wireBytes (outputs who) = putsOf who writers.calls ++ left ∧
        (writers.programs who = .done () → left = []) ∧
        ∀ error, writers.programs who ≠ .failed error := by
    intro who
    obtain ⟨left, split, stage⟩ := faithful.staged who
    exact ⟨left, split, stage.left_of_done, stage.not_failed⟩
  refine ⟨faithful.answered, staged, faithful.entered, faithful.loses, ?_⟩
  intro nothingDropped returned
  have written : (fun who => Console.wireBytes (outputs who)) = (putsOf · writers.calls) := by
    funext who
    obtain ⟨left, split, nothingLeft, _⟩ := staged who
    rw [split, nothingLeft (returned who), List.append_nil]
  rw [written]
  exact interleaves_putsOf nothingDropped

/-- A booted kernel that has queued 510 bytes for a busy line, the last one just now. -/
def crowded : Kernel (TracedUart SimulatedUart) :=
  let kernel := ((Kernel.new .default ⟨SimulatedUart.idle.drain 0, []⟩ .clear).boot 8192).2
  let queued : Ring Uart.ringSize := ⟨Vector.replicate Uart.ringSize 46, 509, 0⟩
  { kernel with uart := { kernel.uart with tx := queued }.put 46 }

theorem valid_crowded : crowded.uart.tx.Valid :=
  ⟨by decide +kernel, by decide +kernel⟩

def returned : Program Unit → Bool
  | .done _ => true
  | _ => false

private theorem eq_done_of_returned {program : Program Unit} (ended : returned program = true) :
    program = .done () := by
  cases program with
  | done result => rfl
  | _ => cases ended

def letters : Bool → List UInt8
  | false => [65]
  | true => [66]

theorem writers_faithful_crowded :
    let turns : List (Turn Bool SimulatedUart) :=
      [.client false, .client false, .client true, .line (SimulatedUart.drain 1),
        .interrupt .zero .all, .client true, .client true]
    let writers := (Writers.start 2 crowded letters).run turns
    crowded.uart.tx.Valid ∧
      (∀ call ∈ writers.calls, call.put?.isSome → call.room = true) ∧
      (∀ who, writers.programs who = .done ()) ∧
      Interleaves (fun who => Console.wireBytes (letters who)) [65, 66] := by
  intro turns writers
  have room : ∀ call ∈ writers.calls, call.put?.isSome → call.room = true := by
    decide +kernel
  have ended : ∀ who, returned (writers.programs who) = true := by
    decide +kernel
  have written : writers.calls.filterMap Call.entered? = [65, 66] := by
    decide +kernel
  have done : ∀ who, writers.programs who = .done () :=
    fun who => eq_done_of_returned (ended who)
  obtain ⟨_, _, _, _, interleaves⟩ := writers_faithful valid_crowded 2 letters turns
  exact ⟨valid_crowded, room, done, written ▸ interleaves room done⟩

/-- Both clients are told of the last free cell before either puts its letter.  Both writes succeed,
and the second letter is in no ring and on no line. -/
theorem reported_letter_lost :
    let turns : List (Turn Bool SimulatedUart) :=
      [.client false, .client true, .client false, .client true]
    let writers := (Writers.start 1 crowded letters).run turns
    (∀ who, writers.programs who = .done ()) ∧ (∀ call ∈ writers.calls, call.ret = .ok) ∧
      writers.kernel.uart.entered = crowded.uart.entered ++ [65] ∧
      ¬ Interleaves (fun who => Console.wireBytes (letters who)) [65] := by
  intro turns writers
  have ended : ∀ who, returned (writers.programs who) = true := by
    decide +kernel
  have written : writers.calls.filterMap Call.entered? = [65] := by
    decide +kernel
  have faithful := (faithful_start valid_crowded 1 letters).run turns
  refine ⟨fun who => eq_done_of_returned (ended who), faithful.answered, ?_, ?_⟩
  · exact faithful.entered.trans (congrArg _ written)
  · rintro ⟨tagged, bytes, own⟩
    have second : 66 ∈ (tagged.filter fun entry => entry.1 = true).map Prod.snd := by
      rw [own true]
      decide
    obtain ⟨entry, member, isSecond⟩ := List.mem_map.1 second
    have written : 66 ∈ tagged.map Prod.snd :=
      List.mem_map.2 ⟨entry, (List.mem_filter.1 member).1, isSecond⟩
    rw [bytes] at written
    exact absurd written (by decide)

end Microkernel.Client
