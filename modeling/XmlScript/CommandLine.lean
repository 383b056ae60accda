import XmlScript.Engine
import XmlScript.Markup.Reader
import XmlScript.Script.Parser
import XmlScript.Settings

/-!
# The command line

`CommandLine.parse` reads the arguments of the program, and `CommandLine.run` answers them, given
the texts of the files that `Request.paths` asks for. Settings are loaded before the script is
read, and the script is parsed before the document is read, so the first of several faults in
this order is the one reported.
-/

namespace XmlScript.CommandLine

/-! ## Options -/

inductive Flag where
  | config | verbose | version | help | input | indent | noDeclaration | encoding | emit
  deriving DecidableEq, Repr

namespace Flag

/-- An option as it is written after two dashes. -/
def long : Flag → String
  | config => "config"
  | verbose => "verbose"
  | version => "version"
  | help => "help"
  | input => "input"
  | indent => "indent"
  | noDeclaration => "no-declaration"
  | encoding => "encoding"
  | emit => "emit"

/-- An option as it is written after one dash. -/
def short? : Flag → Option Char
  | config => some 'c'
  | verbose => some 'v'
  | version => some 'V'
  | help => some 'h'
  | input => some 'i'
  | emit => some 'e'
  | indent | noDeclaration | encoding => none

def hasValue : Flag → Bool
  | config | input | indent | emit => true
  | verbose | version | help | noDeclaration | encoding => false

end Flag

inductive Stop where
  | usage
  | version
  | help
  deriving DecidableEq, Repr

/-- The width that the value of the option for indentation denotes. -/
def readIndent (s : String) : Option Nat :=
  let (negative, digits) :=
    match s.toList with
    | '-' :: rest => (true, rest)
    | '+' :: rest => (false, rest)
    | rest => (false, rest)
  (Text.readDigits 10 digits).filter fun n => if negative then n = 0 else n < UInt16.size

def accepts (flag : Flag) (value : String) : Bool :=
  match flag with
  | .config | .input => !value.isEmpty
  | .indent => (readIndent value).isSome
  | .emit => (Emit.ofText? value).isSome
  | _ => true

/-- Options with their values, empty for an option without. -/
abbrev Given := List (Flag × String)

/-- Adds an option, which may be given once only. Asking for help or the version ends
everything. -/
def give (flag : Flag) (value : String) (given : Given) : Except Stop Given :=
  match flag with
  | .version => .error .version
  | .help => .error .help
  | _ =>
    if (given.lookup flag).isSome || !accepts flag value then .error .usage
    else .ok (given ++ [(flag, value)])

/-- Options read from one argument, and the one that still waits for its value. -/
abbrev Pending := Given × Option Flag

/-- Reads an argument of one dash and the letters after it. The first letter of an option with a
value ends them; what follows, after an equals sign or directly, is the value. -/
def readShort (allowed : List Flag) (given : Given) : List Char → Except Stop Pending
  | [] => .ok (given, none)
  | c :: rest =>
    match allowed.find? fun flag => flag.short? = some c with
    | none => .error .usage
    | some flag =>
      if flag.hasValue then
        match rest with
        | [] => .ok (given, some flag)
        | '=' :: value => (give flag (String.ofList value) given).map fun given => (given, none)
        | value => (give flag (String.ofList value) given).map fun given => (given, none)
      else
        match give flag "" given with
        | .error stop => .error stop
        | .ok given => readShort allowed given rest

/-- Reads an argument of two dashes, a name and maybe an equals sign and a value. -/
def readLong (allowed : List Flag) (given : Given) (s : List Char) : Except Stop Pending :=
  let name := String.ofList (s.takeWhile (· ≠ '='))
  match allowed.find? fun flag => flag.long = name with
  | none => .error .usage
  | some flag =>
    match s.dropWhile (· ≠ '='), flag.hasValue with
    | [], true => .ok (given, some flag)
    | [], false => (give flag "" given).map fun given => (given, none)
    | _ :: value, true => (give flag (String.ofList value) given).map fun given => (given, none)
    | _ :: _, false => .error .usage

/-- What one level of arguments holds. -/
structure Level where
  given : Given := []
  positional : List String := []
  /-- The arguments after the first positional one, where they are left to the next level. -/
  rest : List String := []

/-- Reads arguments. With `nested` the first one that is no option ends the level, and options
may not be shut off before it. -/
def readLevel (nested : Bool) (allowed : List Flag) (l : Level) (waiting? : Option Flag) :
    List String → Except Stop Level
  | [] => if waiting?.isSome then .error .usage else .ok l
  | arg :: rest =>
    let isOption := arg.toList.head? = some '-' && arg ≠ "-"
    match waiting? with
    | some flag =>
      -- a value in an argument of its own may not look like an option
      if isOption then .error .usage
      else
        match give flag arg l.given with
        | .error stop => .error stop
        | .ok given => readLevel nested allowed { l with given } none rest
    | none =>
      if arg = "--" then
        if nested then .error .usage else .ok { l with positional := l.positional ++ rest }
      else if isOption then
        let pending :=
          match arg.toList with
          | '-' :: '-' :: name => readLong allowed l.given name
          | _ => readShort allowed l.given (arg.toList.drop 1)
        match pending with
        | .error stop => .error stop
        | .ok (given, waiting?) => readLevel nested allowed { l with given } waiting? rest
      else if nested then .ok { l with positional := [arg], rest }
      else if l.positional.isEmpty then
        if arg.isEmpty then .error .usage
        else readLevel nested allowed { l with positional := [arg] } none rest
      else .error .usage

/-! ## Requests -/

/-- What the program is asked to do with a script. -/
inductive Task where
  /-- Applies the script to the document in a file, or to an empty one. -/
  | apply (input? : Option String)
  | check
  deriving DecidableEq, Repr

structure Request where
  task : Task
  script : String
  config? : Option String
  /-- The settings that options give, over those of the file. -/
  overrides : List (String × Setting)

/-- The settings that the options of a task give. -/
def overridesOf (given : Given) : List (String × Setting) :=
  given.filterMap fun (flag, value) =>
    match flag with
    | .indent => some ("render.indent", .integer ((readIndent value).getD 0))
    | .noDeclaration => some ("render.declaration", .boolean false)
    | .encoding => some ("render.encoding", .boolean true)
    | .emit => some ("check.emit", .text value)
    | _ => none

/-- The options that stand before the name of a task. -/
def topFlags : List Flag := [.config, .verbose, .version, .help]

/-- The options of one of the two tasks. -/
def applyFlags : List Flag :=
  [.config, .verbose, .help, .input, .indent, .noDeclaration, .encoding]
@[inherit_doc applyFlags] def checkFlags : List Flag := [.config, .verbose, .help, .emit]

/-- The request of a task. A settings file named after the task counts more than one named
before it. -/
def request (flags : List Flag) (task : Given → Task) (top : Level) : Except Stop Request :=
  (readLevel false flags {} none top.rest).bind fun l =>
    match l.positional with
    | [script] =>
      if script.isEmpty then .error .usage
      else .ok
        { task := task l.given
          script
          config? := (l.given.lookup .config).or (top.given.lookup .config)
          overrides := overridesOf l.given }
    | _ => .error .usage

/-- What becomes of a call for help: it may name one task, or itself. -/
def helpFor : List String → Stop
  | [] => .help
  | [name] => if ["apply", "check", "help"].contains name then .help else .usage
  | _ => .usage

/-- The request that some arguments make. -/
def parse (arguments : List String) : Except Stop Request :=
  (readLevel true topFlags {} none arguments).bind fun top =>
    match top.positional with
    | ["apply"] => request applyFlags (fun given => .apply (given.lookup .input)) top
    | ["check"] => request checkFlags (fun _ => .check) top
    | ["help"] => .error (helpFor top.rest)
    | _ => .error .usage

/-! ## Answers -/

/-- What the program leaves behind. -/
structure Outcome where
  code : Nat
  output : String := ""
  errors : String := ""
  deriving DecidableEq, Repr

inductive Failure where
  | settings (error : SettingsError)
  | unreadable (path : String)
  | script (error : SyntaxError)
  | input
  | execution (error : ApplyError)
  | rendering (error : RenderError)

def Failure.message : Failure → String
  | settings error => "configuration error: " ++ error.message
  | unreadable path => "i/o error: cannot read " ++ path
  | script error => error.message
  | input => "failed to parse document"
  | execution error => error.message
  | rendering error => error.message

def Failure.code : Failure → Nat
  | settings error => if error.isFatal then 101 else 1
  | execution error => if error.cause.isFatal then 101 else 1
  | rendering error => if error.isFatal then 101 else 1
  | _ => 1

/-- The paths at which a settings file is looked for. -/
def configPaths (path : String) : List String := [path, path ++ ".toml"]

/-- The paths of the files that a request may read. -/
def Request.paths (r : Request) : List String :=
  let inputs := match r.task with
    | .apply (some input) => [input]
    | _ => []
  (r.config?.toList.flatMap configPaths) ++ r.script :: inputs

/-- The text of a file. -/
def readFile (files : String → Option String) (path : String) : Except Failure String :=
  match files path with
  | some text => .ok text
  | none => .error (.unreadable path)

def loadSettings (files : String → Option String) (r : Request) :
    Except SettingsError Settings := do
  let loader : Loader := match r.config? with
    | some path => Loader.withFile {} { text? := (configPaths path).findSome? files }
    | none => {}
  let loader ← r.overrides.foldlM (fun l (key, v) => l.override key v) loader
  loader.build

/-- The document that a script is applied to. -/
def readDocument (files : String → Option String) (path? : Option String) :
    Except Failure Document :=
  match path? with
  | none => .ok Document.empty
  | some path =>
    (readFile files path).bind fun text =>
      match Markup.read? text with
      | some d => .ok d
      | none => .error .input

/-- The text that a request prints, without the line end after it. -/
def answer (files : String → Option String) (r : Request) : Except Failure String :=
  ((loadSettings files r).mapError .settings).bind fun settings =>
  (readFile files r.script).bind fun source =>
  ((Script.parse source).mapError .script).bind fun script =>
    match r.task with
    | .check => .ok (String.ofList (Text.trimEnd (settings.emit.print script).toList))
    | .apply input? =>
      (readDocument files input?).bind fun d =>
        match Engine.apply script d with
        | (.error e, _) => .error (.execution e)
        | (.ok (), d) => ((d.render settings.render).mapError .rendering).map String.ofList

def usageText : String :=
  "Usage: xdirect [OPTIONS] apply <SCRIPT> [--input <FILE>] [--indent <N>] [--no-declaration] " ++
    "[--encoding]\n       xdirect [OPTIONS] check <SCRIPT> [--emit canonical|json|yaml]\n"

def versionText : String := "xdirect 0.1.0\n"

/-- What the program leaves behind if it has nothing to run. -/
def Stop.outcome : Stop → Outcome
  | usage => { code := 2, errors := usageText }
  | version => { code := 0, output := versionText }
  | help => { code := 0, output := usageText }

/-- The answer to a request. -/
def run (files : String → Option String) (r : Request) : Outcome :=
  match answer files r with
  | .ok text => { code := 0, output := text ++ "\n" }
  | .error e => { code := e.code, errors := "Error: " ++ e.message ++ "\n" }

end XmlScript.CommandLine
