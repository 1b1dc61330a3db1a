import LspProxy.Rehearsal.Program
import LspProxy.Rehearsal.Stage

/-!
# The command line

The program is called with the command line that it reads. The standard input is read to its end, and
the session is rehearsed on a stage whose working folder has the name of the real one. What it comes to
is written out: the client's output, the error output, and the exit code. Times are counted from the
start of the system.
-/
namespace LspProxy.CommandLine

/-- The variables that the command line looks at. -/
def environment : IO (List (String × Bytes)) := do
  let found ← environmentKeys.mapM fun (name, _) => do
    return (← IO.getEnv name).map fun value => (name, Text.Utf8.ofString value)
  return found.filterMap id

/-- The standard input up to its end. -/
partial def readAll (input : IO.FS.Stream) (before : ByteArray) : IO Bytes := do
  let portion ← input.read 65536
  if portion.isEmpty then return before.toList else readAll input (before ++ portion)

/-- The program used with the arguments and in the environment of this process. -/
def usage (arguments : List String) (stage : Disk) (moment : String) : IO Rehearsal.Usage := do
  return {
    arguments := arguments.map Text.Utf8.ofString
    environment := ← environment
    disk := stage
    input := ← readAll (← IO.getStdin) ByteArray.empty
    inputEnds := true
    programFolders := Rehearsal.searchFolders
    process := 2
    parent := 1
    fresh := Channel.generatedName Channel.usualPrefix moment "1"
    moment }

/-- Write out what a use of the program came to. -/
def conclude (conclusion : Rehearsal.Conclusion) (moment : String) : IO UInt32 := do
  let screen := conclusion.screen.flatMap (Rehearsal.written conclusion.format moment)
  (← IO.getStdout).write ⟨conclusion.output.toArray⟩
  (← IO.getStderr).write ⟨screen.toArray⟩
  return UInt32.ofNat (conclusion.code.getD Session.ExitCode.failure.number)

end LspProxy.CommandLine

open LspProxy

def main (arguments : List String) : IO UInt32 := do
  let moment := Channel.stamp ((← IO.monoMsNow) / 1000)
  let working := Text.Utf8.ofString ((← IO.getEnv "PWD").getD "/")
  match Rehearsal.stage working with
  | .error failure =>
    (← IO.getStderr).putStr (failure.message ++ "\n")
    return UInt32.ofNat Session.ExitCode.internal.number
  | .ok stage =>
    let usage ← CommandLine.usage arguments stage moment
    CommandLine.conclude usage.run moment
