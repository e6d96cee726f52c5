import Microkernel.Entry.Boundary

/-! # The control cell

The kernel publishes one raw entry in a word of memory, and everyone else calls it through that
word. Number zero announces an interrupt and hands over a trap frame, which the entry overwrites
with the one to resume; any other number is a system call on a frame of two values.
-/

namespace Microkernel

/-- The word in which the kernel publishes its entry point; zero means that none is present. -/
def Machine.entryCellAddress : UInt32 :=
  0x0000000C

/-- What a raw system call reads and writes. -/
structure SyscallFrame where
  arg : Value
  ret : Value

/-- A frame for a call that has no outcome yet. -/
def SyscallFrame.new (arg : Value) : SyscallFrame :=
  ⟨arg, .none⟩

/-- Which trap frame a raw entry tells its caller to resume. -/
inductive RawTarget where
  /-- The frame that was handed over, as the entry left it. -/
  | inPlace
  /-- A null pointer: no frame. -/
  | nowhere
  | elsewhere (frame : TrapFrame)

/-- What a raw system call leaves behind. -/
structure RawServed (S : Type) where
  frame : SyscallFrame
  state : S
  log : List Log.Entry

/-- What a raw interrupt leaves behind. -/
structure RawResumed (S : Type) where
  left : TrapFrame
  target : RawTarget
  state : S
  log : List Log.Entry

/-- A raw entry: what it does on a nonzero number and what it does on zero. -/
structure RawEntry (S : Type) where
  syscall : UInt32 → SyscallFrame → S → RawServed S
  interrupt : TrapFrame → UInt32 → S → RawResumed S

namespace RawEntry

variable {S : Type} [Boundary S]

/-- Serve a raw system call. A frame whose outcome owns storage is left untouched, since storing
an outcome would drop it. -/
def serveSyscall (id : UInt32) (frame : SyscallFrame) (state : S) : RawServed S :=
  if frame.ret.ownsHeap then ⟨frame, state, []⟩
  else
    let served := Boundary.dispatch id frame.arg state
    ⟨⟨served.arg, served.ret⟩, served.state, served.log⟩

/-- Serve a raw interrupt and answer in the frame that was handed over. -/
def serveInterrupt (frame : TrapFrame) (bits : UInt32) (state : S) : RawResumed S :=
  let resumed := Boundary.interrupt frame (IrqLines.ofBits bits) state
  ⟨resumed.frame, .inPlace, resumed.state, resumed.log⟩

def serving (S : Type) [Boundary S] : RawEntry S where
  syscall := serveSyscall
  interrupt := serveInterrupt

/-- Serve a raw system call whose frame may be missing; then nothing happens. -/
def serveSyscallAt (id : UInt32) (frame : Option SyscallFrame) (state : S) :
    Option SyscallFrame × S :=
  match frame with
  | none => (none, state)
  | some frame =>
    let served := serveSyscall id frame state
    (some served.frame, served.state)

end RawEntry

/-- A kernel seen through a control cell, which holds an entry or none. -/
structure Celled (S : Type) where
  entry : Option (RawEntry S)
  state : S

namespace Celled

variable {S : Type}

def isPresent (celled : Celled S) : Bool :=
  celled.entry.isSome

/-- Put an entry into the cell, or take it out. -/
def store (entry : Option (RawEntry S)) (celled : Celled S) : Celled S :=
  { celled with entry }

/-- Call through the cell. Number zero would be read as an interrupt, so it fails at once, as does
every call on an empty cell. -/
def dispatch (id : UInt32) (arg : Value) (celled : Celled S) : Served (Celled S) :=
  if id = 0 then .refused arg celled []
  else
    match celled.entry with
    | none => .refused arg celled []
    | some entry =>
      let served := entry.syscall id (.new arg) celled.state
      ⟨served.frame.ret, served.frame.arg, { celled with state := served.state }, served.log⟩

/-- Interrupt through the cell. Without an entry, or with one that points nowhere, the frame that
was handed over is resumed. -/
def interrupt (frame : TrapFrame) (lines : IrqLines) (celled : Celled S) : Resumed (Celled S) :=
  match celled.entry with
  | none => ⟨frame, celled, []⟩
  | some entry =>
    let resumed := entry.interrupt frame lines.toBits celled.state
    let target := match resumed.target with
      | .inPlace | .nowhere => resumed.left
      | .elsewhere other => other
    ⟨target, { celled with state := resumed.state }, resumed.log⟩

instance : Boundary (Celled S) where
  dispatch := dispatch
  interrupt := interrupt

end Celled

end Microkernel
