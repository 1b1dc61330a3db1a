import LspProxy.Json.Printer
import LspProxy.Log.Event
import LspProxy.Text.Quoted

/-!
# Lines of the log

An event is written as one line. In the plain form the level stands in a column of its own, and texts
in their own right are quoted, while displayed forms stand as they are. In the JSON form the message is
the first of the fields, and numbers remain numbers.
-/
namespace LspProxy.Log

/-- The name of a level. -/
def Level.name : Level → String
  | error => "ERROR"
  | warning => "WARN"
  | info => "INFO"
  | debug => "DEBUG"
  | trace => "TRACE"

/-- The place of a level, the most important one being first. -/
def Level.rank : Level → Nat
  | error => 0
  | warning => 1
  | info => 2
  | debug => 3
  | trace => 4

/-- Events of a level are reported where the least important level is `least`. -/
def Level.isWithin (least level : Level) : Bool := level.rank ≤ least.rank

/-- A value in the plain form. -/
def Value.plain : Value → String
  | text written => Text.Quoted.ofText written
  | shown written => written
  | number value => toString value

/-- A value in the JSON form. -/
def Value.json : Value → List Char
  | text written | shown written => Json.quote written
  | number value => Json.printNatural value

/-- The width of the column for the level. -/
def levelWidth : Nat := 5

/-- The plain form of an event at a time. -/
def Event.plainLine (time : String) (event : Event) : String :=
  let level := event.level.name
  let blanks := String.ofList (List.replicate (levelWidth - level.length) ' ')
  event.fields.foldl (fun line (key, value) => line ++ " " ++ key ++ "=" ++ value.plain)
    (time ++ " " ++ blanks ++ level ++ " " ++ event.message)

/-- The JSON form of an event at a time. -/
def Event.jsonLine (time : String) (event : Event) : String :=
  let fields := ("message", Json.quote event.message)
    :: event.fields.map fun (key, value) => (key, value.json)
  String.ofList <| Json.printObject
    [("timestamp", Json.quote time), ("level", Json.quote event.level.name),
     ("fields", Json.printObject fields)]

example : Event.plainLine "now" ⟨.warning, "gone", [("parent", .number 7), ("relay", .text "a b")]⟩
    = "now  WARN gone parent=7 relay=\"a b\"" := by decide +kernel

end LspProxy.Log
