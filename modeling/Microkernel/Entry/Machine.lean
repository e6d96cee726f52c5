import Microkernel.Entry.ControlCell
import Microkernel.Entry.Gate

/-! # A machine and its three ways in

A kernel can be entered as it stands, through its gate, or through the control cell in which the
gate's raw entry is published. The machine remembers which way its clients use.
-/

namespace Microkernel

inductive Route where
  | direct
  | gate
  | cell
  deriving DecidableEq

/-- A kernel, its lock, and the control cell through which it may be entered. -/
structure Machine (C : Type) where
  system : System C
  /-- Whether the gate's raw entry stands in the control cell. -/
  published : Bool
  route : Route

namespace Machine

variable {C : Type}

/-- A machine whose entry is published and whose lock is free. -/
def new (kernel : Kernel C) (route : Route) : Machine C :=
  ⟨.new kernel, true, route⟩

def kernel (machine : Machine C) : Kernel C :=
  machine.system.kernel

def setKernel (machine : Machine C) (kernel : Kernel C) : Machine C :=
  { machine with system := { machine.system with kernel } }

/-- Change the controller behind the kernel's back, as the line does. -/
def onController (change : C → C) (machine : Machine C) : Machine C :=
  let kernel := machine.kernel
  let uart := { kernel.uart with controller := change kernel.uart.controller }
  machine.setKernel { kernel with uart }

/-- Take the lock, as a client inside the kernel does. Entering directly would now wait for ever,
so such a machine is entered through its gate from here on. -/
def lock (machine : Machine C) : Machine C :=
  { machine with
    system := { machine.system with locked := true }
    route := if machine.route = .direct then .gate else machine.route }

def unlock (machine : Machine C) : Machine C :=
  { machine with system := { machine.system with locked := false } }

section Controller

variable [PolledController C]

def celled (machine : Machine C) : Celled (System C) where
  entry := if machine.published then some (.serving (System C)) else none
  state := machine.system

def dispatch (id : UInt32) (arg : Value) (machine : Machine C) : Served (Machine C) :=
  match machine.route with
  | .direct => (machine.kernel.dispatch id arg).map machine.setKernel
  | .gate => (machine.system.syscall id arg).map fun system => { machine with system }
  | .cell =>
    (machine.celled.dispatch id arg).map fun celled => { machine with system := celled.state }

def interrupt (frame : TrapFrame) (lines : IrqLines) (machine : Machine C) :
    Resumed (Machine C) :=
  match machine.route with
  | .direct => (machine.kernel.interrupt frame lines).map machine.setKernel
  | .gate => (machine.system.interrupt frame lines).map fun system => { machine with system }
  | .cell =>
    (machine.celled.interrupt frame lines).map fun celled =>
      { machine with system := celled.state }

instance : Boundary (Machine C) where
  dispatch := dispatch
  interrupt := interrupt

end Controller

end Machine

end Microkernel
