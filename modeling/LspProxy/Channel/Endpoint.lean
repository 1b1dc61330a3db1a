import LspProxy.Disk.Path

/-!
# Endpoints

The proxy talks to the server over its standard streams, or over a channel with a name. The server is
told which by its last arguments. A generated name carries the time and the number of the process, so
that no two runs share it.
-/
namespace LspProxy

/-- How the proxy reaches the server. -/
inductive Endpoint where
  /-- The standard streams of the server. -/
  | standard
  /-- A channel that the server connects to. -/
  | named (name : String)
  deriving Repr, DecidableEq

namespace Endpoint

/-- The arguments that tell the server how to talk to the proxy. -/
def arguments : Endpoint → List Bytes
  | standard => [Bytes.ascii "--stdio"]
  | named name => [Bytes.ascii "--pipe", Text.Utf8.ofString name]

/-- The written form of an endpoint. -/
def display : Endpoint → String
  | standard => "stdio"
  | named name => "named-duplex:" ++ name

/-- The kind of transport that an endpoint asks for. -/
def transport : Endpoint → String
  | standard => "stdio"
  | named _ => "named-duplex"

end Endpoint

namespace Channel

/-- The folder of all that is temporary. -/
def temporaryFolder : Path := Bytes.ascii "/tmp"

/-- The path of the socket behind a channel name. -/
def path (name : String) : Path :=
  temporaryFolder.join (Bytes.ascii "CoreFxPipe_" ++ Text.Utf8.ofString name)

/-- What generated names start with. -/
def usualPrefix : String := "lspshim"

/-- A name of a moment and a process. -/
def generatedName (start moment process : String) : String := start ++ "-" ++ moment ++ "-" ++ process

/-- The year, month and day that are so many days after the first of March of the year zero. Years
are counted from March on, so the day that some years add is the last of its year. -/
def civilDate (days : Nat) : Nat × Nat × Nat :=
  let era := days / 146097
  let day := days % 146097
  let year := (day - day / 1460 + day / 36524 - day / 146096) / 365
  let ofYear := day - (365 * year + year / 4 - year / 100)
  let month := (5 * ofYear + 2) / 153
  let ofMonth := ofYear - (153 * month + 2) / 5 + 1
  if month < 10 then (era * 400 + year, month + 3, ofMonth)
  else (era * 400 + year + 1, month - 9, ofMonth)

/-- A number in so many decimal digits. -/
def padded (width n : Nat) : String :=
  let digits := Nat.toDigits 10 n
  String.ofList (List.replicate (width - digits.length) '0' ++ digits)

/-- A moment in fourteen digits, given in seconds since the start of 1970. -/
def stamp (seconds : Nat) : String :=
  let (year, month, day) := civilDate (seconds / 86400 + 719468)
  let rest := seconds % 86400
  padded 4 year ++ padded 2 month ++ padded 2 day ++ padded 2 (rest / 3600)
    ++ padded 2 (rest / 60 % 60) ++ padded 2 (rest % 60)

example : stamp 951782400 = "20000229000000" := by decide +kernel
example : stamp 1735689599 = "20241231235959" := by decide +kernel

end Channel

end LspProxy
