/-! # Log entries

What the kernel tells its operator. Operations return their entries beside their results, so no
state carries them.
-/

namespace Microkernel.Log

inductive Level where
  | error
  | warn
  | info
  | debug
  | trace
  deriving DecidableEq

namespace Level

def name : Level → String
  | .error => "ERROR"
  | .warn => "WARN"
  | .info => "INFO"
  | .debug => "DEBUG"
  | .trace => "TRACE"

/-- Position from the most urgent level to the least. -/
def verbosity : Level → Nat
  | .error => 1
  | .warn => 2
  | .info => 3
  | .debug => 4
  | .trace => 5

def all : List Level :=
  [.error, .warn, .info, .debug, .trace]

end Level

structure Entry where
  level : Level
  text : String
  deriving DecidableEq

def error (text : String) : Entry := ⟨.error, text⟩

def warn (text : String) : Entry := ⟨.warn, text⟩

def info (text : String) : Entry := ⟨.info, text⟩

def debug (text : String) : Entry := ⟨.debug, text⟩

def trace (text : String) : Entry := ⟨.trace, text⟩

end Microkernel.Log
