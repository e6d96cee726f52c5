import Microkernel.Proofs.Kernel.Handlers
import Microkernel.Proofs.Value.Storage
import Microkernel.Uart.Simulated

/-!
# A refused call changes nothing

Several calls change the kernel before they write their answer, and a process dump writes the
caller's buffer slot by slot.  In each of them the step that could still fail after a change is
one that an earlier check has made sure of.
-/

namespace Microkernel.Kernel

variable {C : Type}

/-- A value is found under each of these keys. -/
def HasKeys (entry : Value) (keys : List String) : Prop :=
  ∀ key ∈ keys, (entry.mapFind? key).isSome

theorem HasKeys.mapPut {entry : Value} {keys : List String} (present : HasKeys entry keys)
    (key : String) (item : Value) : HasKeys (entry.mapPut key item) keys := by
  intro name nameMember
  rw [Value.isSome_mapFind?_mapPut]
  exact present name nameMember

private theorem writeFields_of_hasKeys {fields : List (String × UInt32)} {entry : Value}
    (present : HasKeys entry (fields.map Prod.fst)) : (writeFields fields entry).1 = true := by
  induction fields generalizing entry with
  | nil =>
      rfl
  | cons field rest inductionHypothesis =>
      obtain ⟨key, word⟩ := field
      obtain ⟨keyPresent, restPresent⟩ := List.forall_mem_cons.1 present
      obtain ⟨value, found⟩ := Option.isSome_iff_exists.1 keyPresent
      simp only [writeFields, found]
      exact inductionHypothesis (HasKeys.mapPut restPresent key _)

theorem hasKeys_of_isPreparedEntry {entry : Value} (prepared : isPreparedEntry entry = true) :
    HasKeys entry dumpKeys := by
  intro key keyMember
  have keyPrepared := List.all_eq_true.1 prepared key keyMember
  cases found : entry.mapFind? key with
  | some value => rfl
  | none => simp [found] at keyPrepared

theorem writeFields_of_isPreparedEntry {entry : Value} (prepared : isPreparedEntry entry = true)
    (info : ProcessInfo) : (writeFields info.fields entry).1 = true :=
  writeFields_of_hasKeys (hasKeys_of_isPreparedEntry prepared)

/-- The `count` items of a list from `index` on are prepared entries. -/
def PreparedFrom (index count : Nat) (buffer : Value) : Prop :=
  ∀ position, index ≤ position → position < index + count →
    ∃ entry, buffer.listGet? position = some entry ∧ isPreparedEntry entry = true

theorem preparedFrom_of_bufferHolds {buffer : Value} {count : Nat}
    (holds : bufferHolds buffer count = true) : PreparedFrom 0 count buffer := by
  intro position _ inRange
  have prepared := List.all_eq_true.1 holds position (List.mem_range.2 (by omega))
  cases found : buffer.listGet? position with
  | some entry => exact ⟨entry, rfl, by simpa [found] using prepared⟩
  | none => simp [found] at prepared

section PreparedFrom

variable {index count : Nat} {buffer : Value}

theorem PreparedFrom.first (prepared : PreparedFrom index (count + 1) buffer) :
    ∃ entry, buffer.listGet? index = some entry ∧ isPreparedEntry entry = true :=
  prepared index (Nat.le_refl index) (by omega)

/-- Writing one item leaves the items behind it as they were. -/
theorem PreparedFrom.listPut (prepared : PreparedFrom index (count + 1) buffer) (item : Value) :
    PreparedFrom (index + 1) count (buffer.listPut index item) := by
  intro position pastIndex inRange
  rw [Value.listGet?_listPut_of_ne _ _ (by omega)]
  exact prepared position (by omega) (by omega)

end PreparedFrom

private theorem fillFrom_of_preparedFrom {infos : List ProcessInfo} {index : Nat} {buffer : Value}
    (prepared : PreparedFrom index infos.length buffer) :
    (fillFrom index infos buffer).1 = true := by
  induction infos generalizing index buffer with
  | nil =>
      rfl
  | cons info rest inductionHypothesis =>
      obtain ⟨entry, found, entryPrepared⟩ := prepared.first
      simp only [fillFrom, found, writeFields_of_isPreparedEntry entryPrepared info, if_true]
      exact inductionHypothesis (prepared.listPut _)

theorem fillFrom_of_bufferHolds {infos : List ProcessInfo} {buffer : Value}
    (holds : bufferHolds buffer infos.length = true) : (fillFrom 0 infos buffer).1 = true :=
  fillFrom_of_preparedFrom (preparedFrom_of_bufferHolds holds)

/-- A call other than a process dump is refused and changes nothing, or succeeds and takes no
storage from its argument. -/
inductive Settled (kernel : Kernel C) (arg : Value) : Served (Kernel C) → Prop
  | refused (log : List Log.Entry) : Settled kernel arg (.refused arg kernel log)
  | done (answer : Value) (after : Kernel C) (log : List Log.Entry)
      (kept : arg.SameStorage answer) : Settled kernel arg ⟨.ok, answer, after, log⟩

theorem Settled.kept {kernel : Kernel C} {arg : Value} {after : Kernel C} {log : List Log.Entry} :
    Settled kernel arg ⟨.ok, arg, after, log⟩ :=
  .done arg after log (.refl arg)

theorem Settled.replaced {kernel : Kernel C} {arg answer : Value} {after : Kernel C}
    {log : List Log.Entry} (scalar : arg.ownsHeap = false)
    (scalarAnswer : answer.ownsHeap = false) :
    Settled kernel arg ⟨.ok, answer, after, log⟩ :=
  .done answer after log (.of_scalars scalar scalarAnswer)

theorem Settled.atomic {kernel : Kernel C} {arg : Value} {served : Served (Kernel C)}
    (settled : Settled kernel arg served) :
    (served.ret.isFail = true → served.state = kernel ∧ served.arg = arg) ∧
      (served.ret.isFail = false → served.ret = .ok) := by
  cases settled with
  | refused log => exact ⟨fun _ => ⟨rfl, rfl⟩, nofun⟩
  | done answer after log => exact ⟨nofun, fun _ => rfl⟩

private theorem answered_settled (kernel : Kernel C) (arg : Value) {answer : Value}
    (scalarAnswer : answer.ownsHeap = false) (log : List Log.Entry) :
    Settled kernel arg ((Reply.answered arg answer log).upon kernel) := by
  unfold Reply.answered
  split
  · exact .refused log
  · next owner => exact .replaced (Bool.eq_false_iff.2 owner) scalarAnswer

private theorem uartGetc_settled [Controller C] (kernel : Kernel C) (arg : Value) :
    Settled kernel arg (kernel.perform (.uartGetc arg)) := by
  simp only [perform_uartGetc]
  split
  · exact .refused []
  · next owner =>
    refine .replaced (Bool.eq_false_iff.2 owner) ?_
    cases kernel.uart.get.1 with
    | some byte => rfl
    | none => rfl

private theorem uartPutc_settled [Controller C] (kernel : Kernel C) (arg : Value) :
    Settled kernel arg (kernel.perform (.uartPutc arg)) := by
  rw [perform_uartPutc]
  split
  · exact .kept
  · exact .refused []

private theorem procCreate_settled [Controller C] (kernel : Kernel C) (arg : Value) :
    Settled kernel arg (kernel.perform (.procCreate arg)) := by
  rw [perform_procCreate]
  split
  · exact .refused []
  · next size isWord =>
    split
    · exact .replaced (ownsHeap_of_asUInt32? isWord) rfl
    · exact .refused _

private theorem flagged_settled (kernel : Kernel C) (arg : Value) (change : Process → Process)
    (log : Nat → List Log.Entry) : Settled kernel arg (kernel.flagged arg change log) := by
  unfold flagged
  split
  · exact .refused []
  · split
    · exact .kept
    · exact .refused _

private theorem procBase_settled [Controller C] (kernel : Kernel C) (arg : Value) :
    Settled kernel arg (kernel.perform (.procBase arg)) := by
  rw [perform_procBase]
  split
  · exact .refused []
  · next pid isWord =>
    split
    · exact .replaced (ownsHeap_of_asUInt32? isWord) rfl
    · exact .refused []

private theorem memAlloc_settled [Controller C] (kernel : Kernel C) (arg : Value) :
    Settled kernel arg (kernel.perform (.memAlloc arg)) := by
  rw [perform_memAlloc]
  split
  · exact .refused []
  · next size isWord =>
    split
    · exact .replaced (ownsHeap_of_asUInt32? isWord) rfl
    · exact .refused _

private theorem memFree_settled [Controller C] (kernel : Kernel C) (arg : Value) :
    Settled kernel arg (kernel.perform (.memFree arg)) := by
  rw [perform_memFree]
  split
  · exact .refused []
  · split
    · exact .kept
    · exact .refused _

/-- A process dump answers with a number as soon as its first look at the buffer is satisfied. -/
theorem procDump_ends [Controller C] (kernel : Kernel C) (arg : Value) :
    (∃ log, kernel.perform (.procDump arg) = .refused arg kernel log) ∨
      ∃ count buffer log,
        kernel.perform (.procDump arg) = ⟨.uint32 count, buffer, kernel, log⟩ := by
  simp only [perform_procDump]
  split
  · next holds =>
    simp only [fillFrom_of_bufferHolds holds, if_true]
    exact .inr ⟨_, _, _, rfl⟩
  · exact .inl ⟨_, rfl⟩

theorem serve_settled [Controller C] (kernel : Kernel C) {call : SyscallId}
    (notDump : call ≠ .procDump) (arg : Value) : Settled kernel arg (kernel.serve call arg) := by
  cases call with
  | none => exact .refused _
  | hello => exact .kept
  | uartRxEmpty =>
      rw [serve, Work.call, perform_uartRxEmpty]
      exact answered_settled kernel arg rfl []
  | uartTxFull =>
      rw [serve, Work.call, perform_uartTxFull]
      exact answered_settled kernel arg rfl []
  | uartGetc => exact uartGetc_settled kernel arg
  | uartPutc => exact uartPutc_settled kernel arg
  | procCreate => exact procCreate_settled kernel arg
  | procStart =>
      rw [serve, Work.call, perform_procStart]
      exact flagged_settled kernel arg _ _
  | procStop =>
      rw [serve, Work.call, perform_procStop]
      exact flagged_settled kernel arg _ _
  | procKill =>
      rw [serve, Work.call, perform_procKill]
      exact flagged_settled kernel arg _ _
  | procBase => exact procBase_settled kernel arg
  | procDump => exact absurd rfl notDump
  | kernelDump =>
      rw [serve, Work.call, perform_kernelDump]
      exact answered_settled kernel arg rfl kernel.dumpLog
  | memAlloc => exact memAlloc_settled kernel arg
  | memFree => exact memFree_settled kernel arg

/-- A call that fails leaves the whole kernel and its argument as they were.  Any other call
succeeds, or is a process dump that answers with a number. -/
theorem dispatch_atomic [Controller C] (kernel : Kernel C) (id : UInt32) (arg : Value) :
    let served := kernel.dispatch id arg
    (served.ret.isFail = true → served.state = kernel ∧ served.arg = arg) ∧
      (served.ret.isFail = false → served.ret = .ok ∨
        SyscallId.ofCode? id = some .procDump ∧ ∃ count, served.ret = .uint32 count) := by
  rw [dispatch_eq]
  split
  · next call named =>
    by_cases isDump : call = .procDump
    · subst isDump
      rcases kernel.procDump_ends arg with ⟨log, ends⟩ | ⟨count, buffer, log, ends⟩
      · simp [serve, Work.call, ends, Served.refused, Value.isFail, Value.fail]
      · simp [serve, Work.call, ends, named, Value.isFail]
    · have atomic := (kernel.serve_settled isDump arg).atomic
      exact ⟨atomic.1, fun succeeds => .inl (atomic.2 succeeds)⟩
  · simp [Served.refused, Value.isFail, Value.fail]

/-- A buffer for one process whose entry lacks the last of the keys. -/
def unfinishedBuffer : Value :=
  .list [.map ((dumpKeys.dropLast.map fun key => (some key, .uint32 0)) ++ [(none, .none)])]

theorem dispatch_atomic_unfinishedBuffer :
    let kernel := ((Kernel.new .default SimulatedUart.idle .clear).boot 8192).2
    let served := kernel.dispatch 11 unfinishedBuffer
    served.ret.isFail = true ∧ served.state = kernel ∧ served.arg = unfinishedBuffer := by
  intro kernel served
  have fails : served.ret.isFail = true := by
    decide +kernel
  exact ⟨fails, (dispatch_atomic kernel 11 unfinishedBuffer).1 fails⟩

end Microkernel.Kernel
