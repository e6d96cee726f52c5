import Microkernel.Kernel.Calls

/-! # Dumping the process table into the caller's buffer

The caller brings a list with one map per process, each with all of the dump's keys. The kernel
only overwrites the scalars under those keys, and it writes nothing unless all of them are there.
-/

namespace Microkernel

namespace ProcessInfo

/-- The numbers of an entry, in the order of its keys. -/
def numbers (info : ProcessInfo) : List UInt32 :=
  [UInt32.ofNat info.pid.val, info.base, info.size, info.pc, info.sp, info.flags.toBits]

/-- Each key of an entry with the number that belongs under it. -/
def fields (info : ProcessInfo) : List (String × UInt32) :=
  dumpKeys.zip info.numbers

/-- The line of the log for an entry. -/
def log (info : ProcessInfo) : Log.Entry :=
  Log.info (" pid: " ++ Text.decimalColumn 2 info.pid.val ++
    " addr: " ++ Text.hexColumn 8 info.base.toNat ++
    " size: " ++ Text.hexColumn 8 info.size.toNat ++
    " pc " ++ Text.hexColumn 8 info.pc.toNat ++
    " sp: " ++ Text.hexColumn 8 info.sp.toNat ++
    " flags: " ++ Text.hexColumn 8 info.flags.toBits.toNat)

end ProcessInfo

namespace Kernel

/-- Whether a value is a map with a scalar under every key of an entry. -/
def isPreparedEntry (entry : Value) : Bool :=
  dumpKeys.all fun key =>
    match entry.mapFind? key with
    | some value => !value.ownsHeap
    | none => false

/-- Whether the first `count` items of a value are prepared entries. -/
def bufferHolds (buffer : Value) (count : Nat) : Bool :=
  (List.range count).all fun index =>
    match buffer.listGet? index with
    | some entry => isPreparedEntry entry
    | none => false

/-- Write words under keys one after the other, up to the first key that is absent; whether none
was. -/
def writeFields : List (String × UInt32) → Value → Bool × Value
  | [], entry => (true, entry)
  | (key, word) :: rest, entry =>
    match entry.mapFind? key with
    | some _ => writeFields rest (entry.mapPut key (.uint32 word))
    | none => (false, entry)

/-- Write one slot after the other into the items of a list from `index` on, up to the first that
cannot be written; whether all could. -/
def fillFrom : (index : Nat) → List ProcessInfo → Value → Bool × Value
  | _, [], buffer => (true, buffer)
  | index, info :: rest, buffer =>
    match buffer.listGet? index with
    | some entry =>
      let (filled, entry) := writeFields info.fields entry
      let buffer := buffer.listPut index entry
      if filled then fillFrom (index + 1) rest buffer else (false, buffer)
    | none => (false, buffer)

/-- Log every occupied slot and copy it into the caller's buffer; the return value is their
number. -/
def Work.procDump (arg : Value) : Work Reply := do
  let infos ← dump
  let log := infos.map ProcessInfo.log
  if bufferHolds arg infos.length then
    let (filled, buffer) := fillFrom 0 infos arg
    return ⟨if filled then .uint32 (UInt32.ofNat infos.length) else .fail, buffer, log⟩
  else
    return .refused arg (log ++ [Log.warn ("[syscall] proc_dump: buffer cannot hold " ++
      toString infos.length ++ " entries")])

end Kernel

end Microkernel
