/-!
# Exit statuses

The status word with which the system reports the end of a process: the low seven bits name the
signal that ended it, if one did, and else the next byte is its exit code.
-/
namespace LspProxy.Session

/-- How a process ended. -/
structure ExitStatus where
  word : Nat
  deriving Repr, DecidableEq

namespace ExitStatus

/-- The status of a process that ended by itself. -/
def ofCode (code : Nat) : ExitStatus := ⟨code % 256 * 256⟩

/-- The status of a process that a signal ended. -/
def ofSignal (signal : Nat) : ExitStatus := ⟨signal⟩

/-- The signal that ended the process, or zero. -/
def signal (status : ExitStatus) : Nat := status.word % 128

/-- The exit code of a process that ended by itself. -/
def code? (status : ExitStatus) : Option Nat :=
  if status.signal = 0 then some (status.word / 256 % 256) else none

/-- The name of a signal. -/
def signalName : Nat → String
  | 1 => "SIGHUP" | 2 => "SIGINT" | 3 => "SIGQUIT" | 4 => "SIGILL" | 5 => "SIGTRAP" | 6 => "SIGABRT"
  | 7 => "SIGBUS" | 8 => "SIGFPE" | 9 => "SIGKILL" | 10 => "SIGUSR1" | 11 => "SIGSEGV"
  | 12 => "SIGUSR2" | 13 => "SIGPIPE" | 14 => "SIGALRM" | 15 => "SIGTERM" | 16 => "SIGSTKFLT"
  | 17 => "SIGCHLD" | 18 => "SIGCONT" | 19 => "SIGSTOP" | 20 => "SIGTSTP" | 21 => "SIGTTIN"
  | 22 => "SIGTTOU" | 23 => "SIGURG" | 24 => "SIGXCPU" | 25 => "SIGXFSZ" | 26 => "SIGVTALRM"
  | 27 => "SIGPROF" | 28 => "SIGWINCH" | 29 => "SIGIO" | 30 => "SIGPWR" | 31 => "SIGSYS"
  | _ => ""

/-- The written form of a status. -/
def display (status : ExitStatus) : String :=
  match status.code? with
  | some code => "exit status: " ++ toString code
  | none =>
    let name := signalName status.signal
    "signal: " ++ toString status.signal ++ (if name = "" then "" else " (" ++ name ++ ")")
      ++ (if status.word / 128 % 2 = 1 then " (core dumped)" else "")

theorem code?_ofCode {code : Nat} (small : code < 256) : (ofCode code).code? = some code := by
  simp [ofCode, code?, signal, Nat.mod_eq_of_lt small]
  omega

end ExitStatus

end LspProxy.Session
