import Microkernel.Entry.Boundary
import Microkernel.Syscall.Id
import Microkernel.Value.Table
import Microkernel.Value.Text

/-! # Client programs

What a user program does, as data: the system calls that it issues and how it goes on with each
answer. Between two calls anything may happen to the kernel, so a statement about clients that
take turns speaks of their programs call by call; `run` is the case where nothing intervenes.
-/

namespace Microkernel

inductive ClientError where
  | syscallFailed (id : SyscallId)
  | unexpectedReply (id : SyscallId) (kind : Value.Kind)
  | argument (cause : Value.TableError)
  deriving DecidableEq

def ClientError.message : ClientError → String
  | .syscallFailed id => id.name ++ " failed"
  | .unexpectedReply id kind => id.name ++ " returned unexpected " ++ kind.name
  | .argument cause => "argument: " ++ cause.message

/-- A client's remaining work. -/
inductive Program (α : Type) where
  | done (result : α)
  | failed (error : ClientError)
  /-- The program has waited as long as its patience lasts. -/
  | stalled
  /-- Issue a call and go on with its return value and with the argument that it left. -/
  | call (id : SyscallId) (arg : Value) (next : Value → Value → Program α)
  /-- Tell the operator something. -/
  | note (entry : Log.Entry) (next : Program α)

namespace Program

variable {α β : Type}

/-- Go on with the result; a failed or stalled program stays as it is. -/
def bind : Program α → (α → Program β) → Program β
  | .done result, rest => rest result
  | .failed error, _ => .failed error
  | .stalled, _ => .stalled
  | .call id arg next, rest => .call id arg fun ret arg => (next ret arg).bind rest
  | .note entry next, rest => .note entry (next.bind rest)

instance : Monad Program where
  pure := .done
  bind := bind

/-- Turn a failure into a result. -/
def attempt : Program α → Program (Except ClientError α)
  | .done result => .done (.ok result)
  | .failed error => .done (.error error)
  | .stalled => .stalled
  | .call id arg next => .call id arg fun ret arg => (next ret arg).attempt
  | .note entry next => .note entry next.attempt

inductive Outcome (α : Type) where
  | done (result : α)
  | failed (error : ClientError)
  | stalled

/-- What a run leaves behind. -/
structure Ran (S α : Type) where
  outcome : Outcome α
  state : S
  log : List Log.Entry

/-- The line of the log for an answered call. -/
def answerLog (id : SyscallId) (ret : Value) : Log.Entry :=
  Log.trace ("[sdk] " ++ id.name ++ " -> " ++ ret.toText)

/-- Run a program alone on a kernel. -/
def run {S : Type} [Boundary S] : Program α → S → Ran S α
  | .done result, state => ⟨.done result, state, []⟩
  | .failed error, state => ⟨.failed error, state, []⟩
  | .stalled, state => ⟨.stalled, state, []⟩
  | .call id arg next, state =>
    let served := Boundary.dispatch id.code arg state
    let rest := (next served.ret served.arg).run served.state
    { rest with log := served.log ++ answerLog id served.ret :: rest.log }
  | .note entry next, state =>
    let rest := next.run state
    { rest with log := entry :: rest.log }

end Program

end Microkernel
