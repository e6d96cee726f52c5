import Microkernel.Client.Calls
import Microkernel.Syscall.Id

/-! # The process dump

The client prepares a list with an entry for every slot, has the kernel fill it, and reads the
entries back. The kernel only overwrites scalars that are already there.
-/

namespace Microkernel.Client

/-- One occupied slot of the kernel's process table. -/
structure ProcessEntry where
  pid : UInt32
  base : UInt32
  size : UInt32
  pc : UInt32
  sp : UInt32
  flags : UInt32
  deriving DecidableEq

namespace ProcessEntry

def activeBit : UInt32 := 1

def dieBit : UInt32 := 2

def isActive (entry : ProcessEntry) : Bool :=
  entry.flags &&& activeBit != 0

def isDying (entry : ProcessEntry) : Bool :=
  entry.flags &&& dieBit != 0

/-- Read an entry from a map, if every key holds an unsigned word. -/
def ofMap? (map : Value) : Option ProcessEntry := do
  let field := fun key => (map.mapFind? key).bind Value.asUInt32?
  let pid ← field "pid"
  let base ← field "base"
  let size ← field "size"
  let pc ← field "pc"
  let sp ← field "sp"
  let flags ← field "flags"
  some ⟨pid, base, size, pc, sp, flags⟩

end ProcessEntry

/-- A map with zero under every key of an entry. -/
def emptyEntry : Except Value.TableError Value :=
  dumpKeys.foldlM (fun entry key => entry.mapSet key (.uint32 0))
    (Value.freshMap dumpKeys.length)

/-- A list with an empty entry for every slot. -/
def dumpBuffer : Except Value.TableError Value := do
  let entry ← emptyEntry
  (List.replicate maxProcesses entry).foldlM Value.listAppend
    (Value.freshList maxProcesses)

/-- Read the entries of a filled buffer from `index` on. The first place that is no entry decides
the error: the buffer itself where the list is too short, the item where a field is missing. -/
def readEntries (buffer : Value) : (count index : Nat) → Except ClientError (List ProcessEntry)
  | 0, _ => .ok []
  | count + 1, index =>
    match buffer.listGet? index with
    | none => .error (.unexpectedReply .procDump buffer.kind)
    | some item =>
      match ProcessEntry.ofMap? item with
      | none => .error (.unexpectedReply .procDump item.kind)
      | some entry => do
        let rest ← readEntries buffer count (index + 1)
        .ok (entry :: rest)

def readDump (ret buffer : Value) : Except ClientError (List ProcessEntry) :=
  if ret.isFail then .error (.syscallFailed .procDump)
  else
    match ret.asUInt32? with
    | some count => readEntries buffer count.toNat 0
    | none => .error (.unexpectedReply .procDump ret.kind)

def procDump : Program (List ProcessEntry) :=
  match dumpBuffer with
  | .error cause => .failed (.argument cause)
  | .ok buffer =>
    .call .procDump buffer fun ret buffer =>
      match readDump ret buffer with
      | .ok entries => .done entries
      | .error error => .failed error

end Microkernel.Client
