import Microkernel.Entry.Machine
import Microkernel.Uart.Simulated

/-! # Metered entry

A machine whose clients have a budget of calls and whose serial line moves on at a fixed rhythm:
every so many calls the transmitter gets room, a chunk of bytes arrives and the controller's
interrupt is delivered, before the call goes through.
-/

namespace Microkernel

/-- What the line does on its own. -/
structure Pump where
  /-- Calls between two moves of the line; zero for a line that stands still. -/
  every : Nat
  /-- Room that the transmitter gets at each move. -/
  room : Nat
  /-- The chunks that arrive, one at each move. -/
  feed : List (List UInt8)

/-- A machine under a budget of calls. -/
structure Metered where
  machine : Machine SimulatedUart
  budget : Nat
  pump : Pump
  /-- The numbers of the calls that went through, the newest first. -/
  calls : List UInt32

namespace Metered

/-- Move the line on and deliver the controller's interrupt. -/
def moveLine (metered : Metered) : Resumed Metered :=
  let chunk := metered.pump.feed.headD []
  let machine := metered.machine.onController fun controller =>
    (controller.drain metered.pump.room).receive chunk
  let pump := { metered.pump with feed := metered.pump.feed.tail }
  (machine.interrupt .zero (.ofBits (IrqLines.bitOf IrqLines.uartLine))).map fun machine =>
    { metered with machine, pump }

/-- Count a call, and move the line on if it is time to. -/
def charge (id : UInt32) (metered : Metered) : Resumed Metered :=
  let counted :=
    { metered with budget := metered.budget - 1, calls := id :: metered.calls }
  if 0 < counted.pump.every ∧ counted.calls.length % counted.pump.every = 0 then counted.moveLine
  else ⟨.zero, counted, []⟩

/-- Pass a call on while the budget lasts; after that every call fails. -/
def dispatch (id : UInt32) (arg : Value) (metered : Metered) : Served Metered :=
  if metered.budget = 0 then .refused arg metered []
  else
    let charged := metered.charge id
    let served := (charged.state.machine.dispatch id arg).map fun machine =>
      { charged.state with machine }
    { served with log := charged.log ++ served.log }

/-- Interrupts cost nothing. -/
def interrupt (frame : TrapFrame) (lines : IrqLines) (metered : Metered) : Resumed Metered :=
  (metered.machine.interrupt frame lines).map fun machine => { metered with machine }

instance : Boundary Metered where
  dispatch := dispatch
  interrupt := interrupt

end Metered

end Microkernel
