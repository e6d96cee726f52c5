import Microkernel.Entry.ControlCell
import Microkernel.Proofs.Kernel.Refusal

/-!
# The caller's storage

The kernel shares no heap with its callers, so it must neither drop nor replace a value that owns
storage.  A process dump is the one call that writes below the root of its argument, under keys that
the caller chose; its first look at the buffer covers every value that it then overwrites.
-/

namespace Microkernel

open Value (SameStorage)

namespace Kernel

variable {C : Type}

/-- A scalar is found under each of these keys. -/
def HasScalars (entry : Value) (keys : List String) : Prop :=
  ∀ key ∈ keys, ∃ value, entry.mapFind? key = some value ∧ value.ownsHeap = false

theorem HasScalars.mapPut {entry item : Value} {keys : List String}
    (scalars : HasScalars entry keys) (key : String) (scalar : item.ownsHeap = false) :
    HasScalars (entry.mapPut key item) keys := by
  intro name nameMember
  obtain ⟨value, found, valueScalar⟩ := scalars name nameMember
  rw [Value.mapFind?_mapPut]
  split
  · next same =>
    subst name
    exact ⟨item, by simp [found], scalar⟩
  · exact ⟨value, found, valueScalar⟩

theorem hasScalars_of_isPreparedEntry {entry : Value} (prepared : isPreparedEntry entry = true) :
    HasScalars entry dumpKeys := by
  intro key keyMember
  have keyPrepared := List.all_eq_true.1 prepared key keyMember
  cases found : entry.mapFind? key with
  | some value => exact ⟨value, rfl, by simpa [found] using keyPrepared⟩
  | none => simp [found] at keyPrepared

private theorem writeFields_sameStorage {fields : List (String × UInt32)} {entry : Value}
    (scalars : HasScalars entry (fields.map Prod.fst)) :
    SameStorage entry (writeFields fields entry).2 := by
  induction fields generalizing entry with
  | nil =>
      exact .refl entry
  | cons field rest inductionHypothesis =>
      obtain ⟨key, word⟩ := field
      obtain ⟨⟨value, found, scalar⟩, restScalars⟩ := List.forall_mem_cons.1 scalars
      have written : SameStorage entry (entry.mapPut key (.uint32 word)) :=
        Value.sameStorage_mapPut found (.of_scalars scalar rfl)
      simp only [writeFields, found]
      exact written.trans (inductionHypothesis (HasScalars.mapPut restScalars key rfl))

private theorem fillFrom_sameStorage {infos : List ProcessInfo} {index : Nat} {buffer : Value}
    (prepared : PreparedFrom index infos.length buffer) :
    SameStorage buffer (fillFrom index infos buffer).2 := by
  induction infos generalizing index buffer with
  | nil =>
      exact .refl buffer
  | cons info rest inductionHypothesis =>
      obtain ⟨entry, found, entryPrepared⟩ := prepared.first
      have entryKept : SameStorage entry (writeFields info.fields entry).2 :=
        writeFields_sameStorage (hasScalars_of_isPreparedEntry entryPrepared)
      have bufferKept := Value.sameStorage_listPut found entryKept
      simp only [fillFrom, found, writeFields_of_isPreparedEntry entryPrepared info, if_true]
      exact bufferKept.trans (inductionHypothesis (prepared.listPut _))

private theorem procDump_sameStorage [Controller C] (kernel : Kernel C) (arg : Value) :
    SameStorage arg (kernel.perform (.procDump arg)).arg := by
  rw [perform_procDump]
  dsimp only
  split
  · next holds => exact fillFrom_sameStorage (preparedFrom_of_bufferHolds holds)
  · exact .refl arg

private theorem Settled.sameStorage {kernel : Kernel C} {arg : Value} {served : Served (Kernel C)}
    (settled : Settled kernel arg served) :
    SameStorage arg served.arg ∧ served.ret.ownsHeap = false := by
  cases settled with
  | refused log => exact ⟨.refl arg, rfl⟩
  | done answer after log kept => exact ⟨kept, rfl⟩

private theorem dispatch_sameStorage [Controller C] (kernel : Kernel C) (id : UInt32)
    (arg : Value) :
    let served := kernel.dispatch id arg
    SameStorage arg served.arg ∧ served.ret.ownsHeap = false := by
  rw [dispatch_eq]
  split
  · next call named =>
    by_cases isDump : call = .procDump
    · subst isDump
      refine ⟨kernel.procDump_sameStorage arg, ?_⟩
      rcases kernel.procDump_ends arg with ⟨log, ends⟩ | ⟨count, buffer, log, ends⟩
      · simp only [serve, Work.call, ends, Served.refused, Value.fail, Value.ownsHeap]
      · simp only [serve, Work.call, ends, Value.ownsHeap]
    · exact (kernel.serve_settled isDump arg).sameStorage
  · exact ⟨.refl arg, rfl⟩

/-- A raw call keeps the storage of both values of its frame. -/
theorem serveSyscall_sameStorage [PolledController C] (kernel : Kernel C) (id : UInt32)
    (frame : SyscallFrame) :
    let left := (RawEntry.serveSyscall id frame kernel).frame
    SameStorage frame.arg left.arg ∧ SameStorage frame.ret left.ret := by
  simp only [RawEntry.serveSyscall]
  split
  · exact ⟨.refl frame.arg, .refl frame.ret⟩
  · next owner =>
    obtain ⟨argKept, retScalar⟩ := kernel.dispatch_sameStorage id frame.arg
    exact ⟨argKept, .of_scalars (Bool.eq_false_iff.2 owner) retScalar⟩

/-- A call leaves every text and every table of its argument at its place, with its text or its
slots and keys, and answers with a scalar.  A raw call does so too, and where the outcome in its
frame owns storage it leaves the frame alone, and whatever kernel is behind it. -/
theorem storage_kept [PolledController C] (kernel : Kernel C) (id : UInt32) (arg : Value) :
    let served := kernel.dispatch id arg
    SameStorage arg served.arg ∧ served.ret.ownsHeap = false ∧
      (∀ ret : Value,
        let raw := RawEntry.serveSyscall id ⟨arg, ret⟩ kernel
        SameStorage arg raw.frame.arg ∧ SameStorage ret raw.frame.ret) ∧
      ∀ (S : Type) [Boundary S] (state : S) (ret : Value), ret.ownsHeap = true →
        RawEntry.serveSyscall id ⟨arg, ret⟩ state = ⟨⟨arg, ret⟩, state, []⟩ := by
  intro served
  obtain ⟨argKept, retScalar⟩ := kernel.dispatch_sameStorage id arg
  refine ⟨argKept, retScalar, ?_, ?_⟩
  · intro ret
    exact kernel.serveSyscall_sameStorage id ⟨arg, ret⟩
  · intro S _ state ret owner
    exact if_pos owner

/-- A buffer whose only entry also holds a table of the caller under a key of its own. -/
def annotatedBuffer : Value :=
  .list [.map ((dumpKeys.map fun key => (some key, .none)) ++
    [(some "note", .list [.str "mine", .uint32 7])]), .str "rest"]

theorem storage_kept_annotatedBuffer :
    let kernel := ((Kernel.new .default SimulatedUart.idle .clear).boot 8192).2
    let served := kernel.dispatch 11 annotatedBuffer
    let raw := RawEntry.serveSyscall 11 ⟨annotatedBuffer, .str "kept"⟩ kernel
    served.ret.asUInt32? = some 1 ∧ SameStorage annotatedBuffer served.arg ∧
      (Value.str "kept").ownsHeap = true ∧
      raw = ⟨⟨annotatedBuffer, .str "kept"⟩, kernel, []⟩ := by
  intro kernel served raw
  obtain ⟨argKept, _, _, untouched⟩ := kernel.storage_kept 11 annotatedBuffer
  have dumped : served.ret.asUInt32? = some 1 := by
    decide +kernel
  exact ⟨dumped, argKept, rfl, untouched (Kernel SimulatedUart) kernel (.str "kept") rfl⟩

end Kernel

end Microkernel
