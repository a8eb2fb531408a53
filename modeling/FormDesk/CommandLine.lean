/-
The command line: `xmlform [OPTIONS] <SCRIPT>` replays a script under the
settings of an optional file and prints the report.

Arguments are read first: a wrong one ends the program with code 2 before any
file is read. A file that cannot be loaded ends it with code 1; the settings
are read before the script.
-/
import FormDesk.Script.Replay

namespace FormDesk

/-- What the command line asks for. -/
structure Request where
  script : String
  config : Option String := none
  verbose : Bool := false
  deriving DecidableEq, Repr

/-- Why nothing is replayed. -/
inductive Refusal where
  /-- The help text is asked for. -/
  | help
  /-- The arguments make no sense. -/
  | usage
  deriving DecidableEq, Repr

/-- What the program prints on standard output, and the code that it ends with. -/
structure Reply where
  code : Nat
  output : String
  deriving DecidableEq, Repr

/-- The help text. -/
def helpText : String :=
  "Replay an XML form editing script\n\n" ++
  "Usage: xmlform [OPTIONS] <SCRIPT>\n\n" ++
  "Arguments:\n" ++
  "  <SCRIPT>  Script to replay (TOML)\n\n" ++
  "Options:\n" ++
  "  -c, --config <PATH>  Editor configuration file\n" ++
  "  -v, --verbose        Verbose logging\n" ++
  "  -h, --help           Print help\n"

/-! ## Reading the arguments -/

/-- The arguments as far as they are read. -/
structure Arguments where
  script : Option String := none
  config : Option String := none
  verbose : Bool := false
  deriving DecidableEq, Repr

namespace Arguments

/-- Takes the path of the settings file, which may be given once and may not be empty. -/
def setConfig (a : Arguments) (path : String) : Except Refusal Arguments :=
  if a.config.isSome || path.isEmpty then .error .usage else .ok { a with config := some path }

/-- Takes the path of the script, which may be given once and may not be empty. -/
def setScript (a : Arguments) (path : String) : Except Refusal Arguments :=
  if a.script.isSome || path.isEmpty then .error .usage else .ok { a with script := some path }

/-- Takes the switch for more messages, which may be given once. -/
def setVerbose (a : Arguments) : Except Refusal Arguments :=
  if a.verbose then .error .usage else .ok { a with verbose := true }

end Arguments

/-- Whether an argument is an option and no value; a lone dash is a value. -/
def isOption (arg : String) : Bool := arg.startsWith "-" && arg != "-"

/-- What the letters after a single dash mean. -/
inductive Letters where
  /-- All letters are switches, and these are the arguments with them. -/
  | switches (a : Arguments)
  /-- The last letter takes the path of the settings file, which follows it here or is the next
  argument. -/
  | config (a : Arguments) (path : Option String)

/-- Reads the letters after a single dash. -/
def letters (a : Arguments) : List Char → Except Refusal Letters
  | [] => .ok (.switches a)
  | 'v' :: r => do letters (← a.setVerbose) r
  | 'h' :: _ => .error .help
  | ['c'] => .ok (.config a none)
  | 'c' :: '=' :: r => .ok (.config a (some (String.ofList r)))
  | 'c' :: r => .ok (.config a (some (String.ofList r)))
  | _ => .error .usage

/-- Reads arguments of which none is an option any more. -/
def positionals (a : Arguments) : List String → Except Refusal Arguments
  | [] => .ok a
  | path :: rest => do positionals (← a.setScript path) rest

/-- The part of an argument after a leading text. -/
def after? (lead arg : String) : Option String :=
  if arg.startsWith lead then some (String.ofList (arg.toList.drop lead.length)) else none

/-- Reads arguments one after another. -/
def arguments (a : Arguments) : List String → Except Refusal Arguments
  | [] => .ok a
  | "--" :: rest => positionals a rest
  | "--help" :: _ => .error .help
  | "--verbose" :: rest => do arguments (← a.setVerbose) rest
  | ["--config"] => .error .usage
  | "--config" :: path :: rest => do
    if isOption path then .error .usage else arguments (← a.setConfig path) rest
  | arg :: rest => do
    match after? "--config=" arg with
    | some path => arguments (← a.setConfig path) rest
    | none =>
      if !isOption arg then arguments (← a.setScript arg) rest
      else match arg.toList with
        | '-' :: '-' :: _ => .error .usage
        | _ :: cs =>
          match ← letters a cs with
          | .switches a => arguments a rest
          | .config a (some path) => arguments (← a.setConfig path) rest
          | .config a none =>
            match rest with
            | [] => .error .usage
            | path :: rest =>
              if isOption path then .error .usage else arguments (← a.setConfig path) rest
        | [] => .error .usage

/-- What the arguments ask for. -/
def Request.ofArguments (args : List String) : Except Refusal Request := do
  let a ← arguments {} args
  match a.script with
  | some script => return { script, config := a.config, verbose := a.verbose }
  | none => .error .usage

/-! ## Answering -/

/-- The reply when nothing is replayed. -/
def Refusal.reply : Refusal → Reply
  | .help => ⟨0, helpText⟩
  | .usage => ⟨2, ""⟩

/-- The reply to a replay: the report, if there is one. -/
def Reply.ofRun : Outcome (Except PageError Report) → Reply
  | .returned (.ok report) => ⟨0, report.text ++ "\n"⟩
  | _ => ⟨1, ""⟩

/-- The reply to a request, given what its files hold. -/
def Request.reply (r : Request) (config : Option FileText) (script : FileText) : Reply :=
  let loaded : Except LoadError Settings := match config with
    | none => .ok {}
    | some text => Settings.load (r.config.getD "") text
  match loaded, Script.load r.script script with
  | .ok settings, .ok script => Reply.ofRun (script.run settings)
  | _, _ => ⟨1, ""⟩

/-- Runs the program; `read` reads a file. -/
def commandLine {m : Type → Type} [Monad m] (read : String → m FileText) (args : List String) :
    m Reply := do
  match Request.ofArguments args with
  | .error refusal => return refusal.reply
  | .ok request =>
    let config ← match request.config with
      | none => pure none
      | some path => some <$> read path
    return request.reply config (← read request.script)

end FormDesk
