import LspProxy.Disk.Basic
import LspProxy.Rehearsal.Command
import LspProxy.Rehearsal.Word

/-!
# Scripts

A script is read into the actions that it comes to. Its commands stand one after the other, or depend
on the status of the one before; commands with bars between them are one command through which bytes
flow. Redirections hold from left to right. The statuses of all commands are known beforehand, since
the only question a script asks is whether a file is there yet, and it asks until it is.
-/
namespace LspProxy.Rehearsal

/-- A command with its redirections carried out. -/
structure Plan where
  words : List Bytes := []
  input : Option Origin := none
  output : Target := .output
  errors : Target := .errors
  /-- What has to be done first. -/
  before : List Action := []

/-- A file as a target, and what has to be done to it first. -/
def fileTarget (path : Path) (empty : Bool) : Target × List Action :=
  if path = Bytes.ascii "/dev/null" then (.nowhere, []) else (.file path, [.create path empty])

/-- The plan with its output going to a file. -/
def Plan.outputTo (plan : Plan) (path : Path) (empty : Bool) : Plan :=
  let (target, before) := fileTarget path empty
  { plan with output := target, before := plan.before ++ before }

/-- The plan with its error output going to a file. -/
def Plan.errorsTo (plan : Plan) (path : Path) (empty : Bool) : Plan :=
  let (target, before) := fileTarget path empty
  { plan with errors := target, before := plan.before ++ before }

/-- Read the words and redirections of a command. -/
def Plan.read (plan : Plan) : List Token → Plan
  | [] => plan
  | .word word _ :: rest => { plan with words := plan.words ++ [word] }.read rest
  | .mark sign :: .word word _ :: rest =>
    match sign with
    | ">" | "1>" => (plan.outputTo word true).read rest
    | ">>" | "1>>" => (plan.outputTo word false).read rest
    | "2>" => (plan.errorsTo word true).read rest
    | "2>>" => (plan.errorsTo word false).read rest
    | ">&" | "1>&" =>
      (if word = [0x32] then { plan with output := plan.errors } else plan).read rest
    | "2>&" => (if word = [0x31] then { plan with errors := plan.output } else plan).read rest
    | "<" => { plan with input := some (fileOrigin word) }.read rest
    | _ => plan.read rest
  | .mark _ :: rest => plan.read rest

/-- What a command comes to. -/
structure Result where
  actions : List Action := []
  status : Nat := 0
  /-- The script ends with it. -/
  final : Bool := false

/-- The complaint about a command that nobody knows. -/
def unknownCommand (call : Call) (plan : Plan) (name : Bytes) : Result where
  actions := plan.before ++
    [.say plan.errors (call.name ++ Bytes.ascii ": 1: " ++ name ++ Bytes.ascii ": not found\n")]
  status := 127

/-- What the last command of a pipeline comes to, `flow` being what comes to it, and the script ending
with it or not. -/
def Plan.run (call : Call) (status : Nat) (flow : Flow) (last : Bool) (plan : Plan) :
    List Bytes → Result
  | [] => { actions := plan.before }
  | name :: words =>
    match Text.Utf8.display name with
    | "exit" =>
      let code := ((words.head?.bind number?).getD status) % 256
      { actions := plan.before ++ [.exit code], status := code, final := true }
    | "exec" =>
      if words.isEmpty then { actions := plan.before }
      else
        let result := plan.run call status flow true words
        { result with actions := result.actions ++ [.exit result.status], final := true }
    | "false" => { actions := plan.before, status := 1 }
    | known =>
      match effect? call.processText flow known words with
      | some (.flow flow own) => { actions := plan.before ++ [.pass flow plan.output (own || last)] }
      | some (.actions actions) => { actions := plan.before ++ actions }
      | none => unknownCommand call plan name

/-- What a command before a bar sends on, `flow` being what comes to it. -/
def Plan.feed (call : Call) (flow : Flow) (plan : Plan) : Flow :=
  match plan.words with
  | [] => { origin := .bytes [] }
  | name :: words =>
    match effect? call.processText flow (Text.Utf8.display name) words with
    | some (.flow flow _) => flow
    | _ => { origin := .bytes [] }

/-- What commands with bars between them come to. -/
def runPipeline (call : Call) (status : Nat) (last : Bool) : Flow → List (List Token) → Result
  | _, [] => {}
  | flow, [stage] =>
    let plan := Plan.read {} stage
    let flow := match plan.input with
      | some origin => { origin }
      | none => flow
    plan.run call status flow last plan.words
  | flow, stage :: stages => runPipeline call status last ((Plan.read {} stage).feed call flow) stages

/-- A token without regard to its quotes. -/
def Token.text : Token → String
  | word content _ => Text.Utf8.display content
  | mark sign => sign

/-- The loop that waits for a file, if there is one at the start, and the number of its tokens. -/
def loop? (tokens : List Token) : Option (Action × Nat) :=
  let wait (file time : String) (count : Nat) : Option (Action × Nat) := do
    return (.await (Text.Utf8.ofString file) (← seconds? (Bytes.ascii time)), count)
  match tokens.map Token.text with
  | "while" :: "[" :: "!" :: "-e" :: file :: "]" :: ";" :: "do" :: "sleep" :: time :: ";" :: "done" :: _ =>
    wait file time 12
  | "until" :: "[" :: "-e" :: file :: "]" :: ";" :: "do" :: "sleep" :: time :: ";" :: "done" :: _ =>
    wait file time 11
  | _ => none

/-- The token ends a command. -/
def Token.isSeparator (token : Token) : Bool :=
  token = .mark ";" || token = .mark "&&" || token = .mark "||"

/-- The actions that a script comes to from here on, `wanted` being whether its next command is
carried out. -/
def compile (call : Call) : Nat → (wanted : Bool) → (status : Nat) → List Token → List Action
  | 0, _, status, _ | _, _, status, [] => [.exit status]
  | fuel + 1, wanted, status, token :: tokens =>
    if token = .mark ";" then compile call fuel true status tokens
    else if token = .mark "&&" then compile call fuel (status = 0) status tokens
    else if token = .mark "||" then compile call fuel (status ≠ 0) status tokens
    else
      match loop? (token :: tokens) with
      | some (wait, count) => wait :: compile call fuel true 0 ((token :: tokens).drop count)
      | none =>
        let command := (token :: tokens).takeWhile (! ·.isSeparator)
        let rest := (token :: tokens).dropWhile (! ·.isSeparator)
        if ¬ wanted then compile call fuel true status rest
        else
          let result := runPipeline call status rest.isEmpty { origin := .input }
            (Text.fields (· == .mark "|") command)
          if result.final then result.actions
          else result.actions ++ compile call fuel true result.status rest

/-- The actions of a script. -/
def script (call : Call) (text : Bytes) : List Action :=
  let tokens := tokens call (Text.Utf8.lossy text)
  compile call (tokens.length + 1) true 0 tokens

/-! ## Programs -/

/-- The programs that can be rehearsed. -/
def programs : List String :=
  ["sh", "dash", "cat", "head", "tr", "sleep", "touch", "true", "false", "echo", "printf"]

/-- The actions of a program that complains, and ends. -/
def complaining (code : Nat) (text : Bytes) : List Action := [.say .errors text, .exit code]

/-- The actions of a program that does not know an option. -/
def refusing (program option : Bytes) : List Action :=
  complaining 1 (program ++ Bytes.ascii ": unrecognized option '" ++ option ++ Bytes.ascii "'\nTry '"
    ++ program ++ Bytes.ascii " --help' for more information.\n")

/-- The actions of a shell. -/
def shell (disk : Disk) (process : Nat) (program : Path) : List Bytes → List Action
  | [] => [.exit 0]
  | option :: rest =>
    if option = Bytes.ascii "-c" then
      match rest with
      | [] => complaining 2 (program ++ Bytes.ascii ": 0: -c requires an argument\n")
      | text :: names =>
        script { name := names.headD program, arguments := names.drop 1, process } text
    else if option.head? = some 0x2D then
      complaining 2 (program ++ Bytes.ascii ": 0: Illegal option --\n")
    else
      match disk.read option with
      | .ok text => script { name := option, arguments := rest, process } text
      | .error _ =>
        complaining 2 (program ++ Bytes.ascii ": 0: cannot open " ++ option
          ++ Bytes.ascii ": No such file\n")

/-- The words are options that programs do not know, by their two hyphens. -/
def isLongOption (word : Bytes) : Bool := (Bytes.ascii "--").isPrefixOf word

/-- The actions of a program. -/
def programActions (disk : Disk) (process : Nat) (program : Path) (arguments : List Bytes) :
    List Action :=
  let name := Text.Utf8.display (program.fileName?.getD [])
  match name with
  | "sh" | "dash" => shell disk process program arguments
  | "true" => [.exit 0]
  | "false" => [.exit 1]
  | name =>
    match name, arguments.find? isLongOption with
    | "echo", _ | "printf", _ | _, none =>
      match effect? [] { origin := .input } name arguments with
      | some (.flow flow _) => [.pass flow .output true, .exit 0]
      | some (.actions actions) => actions ++ [.exit 0]
      | none => [.exit 1]
    | _, some option => refusing program option

end LspProxy.Rehearsal
