import Microkernel.Client.LineEditor
import Microkernel.Client.ProcessDump

/-! # Client sessions

A client's hold on a kernel: the boundary through which it calls, and whether it echoes what is
typed.
-/

namespace Microkernel.Client

def version : String :=
  "0.1.0"

/-- A client on a boundary. -/
structure Session (S : Type) where
  boundary : S
  echoing : Bool

namespace Session

variable {S α : Type}

/-- A new session echoes. -/
def new (boundary : S) : Session S :=
  ⟨boundary, true⟩

def setEcho (echoing : Bool) (session : Session S) : Session S :=
  { session with echoing }

/-- Run a program and go on with the boundary that it leaves. -/
def run [Boundary S] (program : Program α) (session : Session S) :
    Program.Ran (Session S) α :=
  let ran := program.run session.boundary
  ⟨ran.outcome, { session with boundary := ran.state }, ran.log⟩

/-- Read a line into a buffer, echoing as the session says. -/
def readInto [Boundary S] (patience limit : Nat) (held : List Char) (session : Session S) :
    Program.Ran (Session S) LineRead :=
  session.run (Client.readInto patience session.echoing limit held)

/-- Read a line, echoing as the session says. -/
def readLine [Boundary S] (patience limit : Nat) (session : Session S) :
    Program.Ran (Session S) LineRead :=
  session.run (Client.readLine patience session.echoing limit)

end Session

end Microkernel.Client
