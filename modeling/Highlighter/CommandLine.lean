import Highlighter.Brackets
import Highlighter.Json.Printer
import Highlighter.Registry

/-!
The command that labels a file and writes it in colors, or its labels as JSON.
-/

namespace Highlighter.CommandLine

structure Options where
  /-- The file to label; no name as long as there is none. -/
  file : String := ""
  scheme : Option String := none
  schemeFiles : List String := []
  settingsFile : Option String := none
  json : Bool := false
  brackets : Bool := false
  verbosity : Nat := 0
  deriving DecidableEq, Repr

inductive Request where
  | label (options : Options)
  | help
  | misuse
  deriving DecidableEq, Repr

namespace Options

def addFile (o : Options) (file : String) : Option Options :=
  if !o.file.isEmpty || file.isEmpty then none else some { o with file }

/-- An option with a value; only scheme files can be given several times. -/
def addValue (o : Options) (option value : String) : Option Options :=
  match option with
  | "scheme" => if o.scheme.isSome then none else some { o with scheme := some value }
  | "schemes" =>
    if value.isEmpty then none else some { o with schemeFiles := o.schemeFiles ++ [value] }
  | "config" =>
    if o.settingsFile.isSome || value.isEmpty then none
    else some { o with settingsFile := some value }
  | _ => none

def addFlag (o : Options) (option : String) : Option Options :=
  match option with
  | "json" => if o.json then none else some { o with json := true }
  | "brackets" => if o.brackets then none else some { o with brackets := true }
  | "verbose" => some { o with verbosity := o.verbosity + 1 }
  | _ => none

def request (o : Options) : Request := if o.file.isEmpty then .misuse else .label o

def readFiles (o : Options) : List String → Request
  | [] => o.request
  | arg :: rest =>
    match o.addFile arg with
    | some o => readFiles o rest
    | none => .misuse

/-- Whether single letters behind one hyphen all stand for options. -/
def addLetters (o : Options) (letters : List Char) : Option Options :=
  if letters.all (· == 'v') then some { o with verbosity := o.verbosity + letters.length } else none

/-- Reads arguments in their order. After an option that needs one, the next of them is its value,
which must not begin with a hyphen. -/
def read (o : Options) (awaited : Option String) : List String → Request
  | [] => if awaited.isSome then .misuse else o.request
  | arg :: rest =>
    match awaited with
    | some option =>
      if arg.startsWith "-" && arg != "-" then .misuse
      else
        match o.addValue option arg with
        | some o => read o none rest
        | none => .misuse
    | none =>
      match arg.toList with
      | ['-', '-'] => o.readFiles rest
      | '-' :: '-' :: option =>
        match option.span (· != '=') with
        | (name, _ :: value) =>
          match o.addValue (String.ofList name) (String.ofList value) with
          | some o => read o none rest
          | none => .misuse
        | (name, []) =>
          if name = "help".toList then .help
          else
            match o.addFlag (String.ofList name) with
            | some o => read o none rest
            | none => read o (some (String.ofList name)) rest
      | '-' :: letter :: letters =>
        if letter = 'h' then .help
        else
          match o.addLetters (letter :: letters) with
          | some o => read o none rest
          | none => .misuse
      | _ =>
        match o.addFile arg with
        | some o => read o none rest
        | none => .misuse

end Options

def Request.ofArguments (args : List String) : Request := ({} : Options).read none args

inductive Failure where
  | load (e : LoadError)
  | unknownScheme (name : String)
  | noScheme (file : String) (names : List String)
  | unreadableSettings (path : String) (e : FileError)
  | undecodableSettings (text : Text) (e : Json.DecodeError)
  | unreadable (e : FileError)
  deriving DecidableEq, Repr

def undecodableSettingsMessage (text : Text) (e : Json.DecodeError) : String :=
  "invalid labeler config: " ++ Json.placedMessage Settings.shape.decode text e

def unreadableSettingsMessage (path : String) (e : FileError) : String :=
  "failed to read config file " ++ path ++ ": " ++ e.message

def Failure.message : Failure → String
  | load e => e.message
  | unknownScheme name => "unknown scheme `" ++ name ++ "`"
  | noScheme file names =>
    "no scheme for " ++ file ++ "; pick one with --scheme (" ++ ", ".intercalate names ++ ")"
  | unreadableSettings path e => unreadableSettingsMessage path e
  | undecodableSettings text e => undecodableSettingsMessage text e
  | unreadable e => e.message

abbrev Files := String → Except FileError Text

def loadAll (files : Files) (r : Registry) : List String → Except Failure Registry
  | [] => .ok r
  | path :: rest =>
    match r.loadFile path (files path) with
    | (.ok _, r) => loadAll files r rest
    | (.error e, _) => .error (.load e)

def chooseScheme (r : Registry) (o : Options) : Except Failure Scheme :=
  match o.scheme with
  | some name =>
    match (r.forName? name).or (r.forExtension? name) with
    | some s => .ok s
    | none => .error (.unknownScheme name)
  | none =>
    match r.forPath? o.file with
    | some s => .ok s
    | none => .error (.noScheme o.file r.names)

def readSettings (files : Files) (o : Options) : Except Failure Settings :=
  match o.settingsFile with
  | none => .ok {}
  | some path =>
    match files path with
    | .error e => .error (.unreadableSettings path e)
    | .ok t => (Settings.ofText t).mapError (.undecodableSettings t)

def ansiColor : Color → Text
  | .plain => "\x1b[39m".toList
  | .rgb r g b =>
    ("\x1b[38;2;" ++ toString r ++ ";" ++ toString g ++ ";" ++ toString b ++ "m").toList

def ansiLine (line : StyledLine) : Text :=
  line.spans.flatMap (fun s ↦ ansiColor s.color ++ s.text) ++ "\x1b[0m".toList

def kindName : Label.Kind → String
  | .opening => "Start"
  | .closing => "End"
  | .single => "Single"
  | .continued => "Continued"

def labelJson (l : Label) : Json :=
  .ofMembers [
    ("color", .string (String.ofList l.color.print)),
    ("depth", .ofInt l.depth),
    ("disabled", .bool l.disabled),
    ("end", match l.stop with
      | .column n => .ofInt n
      | .lineEnd => .string "eol"),
    ("kind", .string (kindName l.kind)),
    ("level", .ofInt l.level),
    ("name", .string l.name),
    ("scheme", .string l.scheme),
    ("start", .ofInt l.start)]

def lineJson (line : Nat) (r : LineRecord) : Json :=
  .ofMembers [
    ("continues", .ofList (r.offered.map fun l ↦ .string (l.scheme ++ ":" ++ l.name))),
    ("labels", .ofList (r.labeled.labels.map labelJson)),
    ("line", .ofInt line)]

/-- The labels whose brackets do not count: comments, strings and embedded text. -/
def bracketMasks : List String :=
  ["COMMENT", "BLOCK_COMMENT", "STRING_DOUBLE", "STRING_SINGLE", "TEMPLATE", "TRIPLE_DOUBLE",
    "TRIPLE_SINGLE", "SCRIPT_BLOCK", "STYLE_BLOCK"]

def report (o : Options) (d : Document) (source : List Text) : List Text :=
  let body :=
    if o.json then [(Json.ofList (d.records.zipIdx.map fun (r, line) ↦ lineJson line r)).print]
    else source.zipIdx.map fun (t, line) ↦ ansiLine (d.styledLine line t)
  let problems :=
    if o.brackets then
      (d.checkBrackets source bracketMasks).map fun p ↦ (o.file ++ ": " ++ p.message).toList
    else []
  body ++ problems

/-- Labels the file as a whole. Definitions are loaded before a scheme is chosen, and the settings
read before the file. -/
def label (files : Files) (o : Options) : Except Failure (List Text) := do
  let registry ← loadAll files .builtIn o.schemeFiles
  let scheme ← chooseScheme registry o
  let settings ← readSettings files o
  let content ← (files o.file).mapError .unreadable
  let source := Text.splitLines content
  let (_, d) := (Document.new scheme settings source.length).runUntilIdle 0 source
  return report o d source

structure Outcome where
  exitCode : Nat
  output : Text := []
  failure : Option Failure := none

def unlines (lines : List Text) : Text := lines.flatMap (· ++ ['\n'])

def run (files : Files) (args : List String) : Outcome :=
  match Request.ofArguments args with
  | .help => { exitCode := 0 }
  | .misuse => { exitCode := 2 }
  | .label o =>
    match label files o with
    | .ok lines => { exitCode := 0, output := unlines lines }
    | .error e => { exitCode := 1, failure := some e }

def pathsOf (args : List String) : List String :=
  match Request.ofArguments args with
  | .label o => o.schemeFiles ++ o.settingsFile.toList ++ [o.file]
  | _ => []

end Highlighter.CommandLine
