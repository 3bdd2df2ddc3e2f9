import Highlighter.Definition.Json
import Highlighter.Languages
import Highlighter.Text.Lower

/-!
Registries: schemes by name, alias and file name extension, whatever the case of the letters.
-/

namespace Highlighter

inductive FileError where
  | notFound
  | notAllowed
  | notDirectory
  | isDirectory
  | notUtf8
  deriving DecidableEq, Repr

def FileError.message : FileError → String
  | notFound => "No such file or directory (os error 2)"
  | notAllowed => "Permission denied (os error 13)"
  | notDirectory => "Not a directory (os error 20)"
  | isDirectory => "Is a directory (os error 21)"
  | notUtf8 => "stream did not contain valid UTF-8"

inductive LoadError where
  | unreadable (path : String) (e : FileError)
  | undecodable (text : Text) (e : Json.DecodeError)
  | rejected (e : SchemeError)
  deriving DecidableEq, Repr

def LoadError.message : LoadError → String
  | unreadable path e => "failed to read scheme file " ++ path ++ ": " ++ e.message
  | undecodable text e => "invalid scheme definition: " ++ e.message text
  | rejected e => e.message

structure Registry where
  theme : Theme
  schemes : Table Scheme := .empty
  extensions : Table String := .empty
  aliases : Table String := .empty

namespace Registry

def lowerName (name : String) : String := String.ofList (Text.lower name.toList)

def normalName (name : String) : String := String.ofList (Text.lower (Text.trim name.toList))

def normalExtension (ext : String) : String :=
  String.ofList <| Text.lower <|
    match Text.trim ext.toList with
    | '.' :: t => t
    | t => t

def new : Registry := { theme := .mocha }

def insert (r : Registry) (s : Scheme) (extensions : List String) : Registry :=
  let name := lowerName s.name
  { r with
    schemes := r.schemes.put name s
    extensions := extensions.foldl (fun t ext ↦ t.put (normalExtension ext) name) r.extensions }

def addAlias (r : Registry) (other name : String) : Registry :=
  { r with aliases := r.aliases.put (normalName other) (normalName name) }

def forExtension? (r : Registry) (ext : String) : Option Scheme :=
  (r.extensions.get? (normalExtension ext)).bind r.schemes.get?

def forName? (r : Registry) (name : String) : Option Scheme :=
  (r.schemes.get? (normalName name)).or
    ((r.aliases.get? (normalName name)).bind r.schemes.get?)

/-- The part of a path after the last slash that something follows. -/
def fileName? (path : Text) : Option Text :=
  let parts := (path.splitBy (fun a b ↦ a != '/' && b != '/')).filter
    (fun p ↦ p != ['/'] && p != ['.'])
  match parts.getLast? with
  | none => none
  | some name => if name = ['.', '.'] then none else some name

/-- The part of a file name after its last dot, unless that begins the name. -/
def extensionOf? (name : Text) : Option Text :=
  let after := (name.reverse.takeWhile (· != '.')).reverse
  let before := name.take (name.length - after.length - 1)
  if before.isEmpty then none else some after

def forPath? (r : Registry) (path : String) : Option Scheme := do
  let name ← fileName? path.toList
  let ext ← extensionOf? name
  r.forExtension? (String.ofList ext)

def names (r : Registry) : List String := r.schemes.names

/-- Adds definitions one after the other, so that later ones can refer to earlier ones. Those
before one that is rejected stay. -/
def addDefinitions (r : Registry) : List Definition → Except SchemeError (List String) × Registry
  | [] => (.ok [], r)
  | d :: rest =>
    match d.compile r.theme r.forName? with
    | .error e => (.error e, r)
    | .ok s =>
      let r := d.aliases.foldl (fun r other ↦ r.addAlias other d.name) (r.insert s d.extensions)
      match addDefinitions r rest with
      | (.ok names, r) => (.ok (d.name :: names), r)
      | (.error e, r) => (.error e, r)

def load (r : Registry) (t : Text) : Except LoadError (List String) × Registry :=
  match Definition.listOfText t with
  | .error e => (.error (.undecodable t e), r)
  | .ok ds =>
    match r.addDefinitions ds with
    | (.ok names, r) => (.ok names, r)
    | (.error e, r) => (.error (.rejected e), r)

def loadFile (r : Registry) (path : String) (content : Except FileError Text) :
    Except LoadError (List String) × Registry :=
  match content with
  | .error e => (.error (.unreadable path e), r)
  | .ok t => r.load t

def insertAll (r : Registry) (s : Scheme) (extensions aliases : List String) : Registry :=
  aliases.foldl (fun r other ↦ r.addAlias other s.name) (r.insert s extensions)

def builtIn : Registry :=
  let theme := Theme.mocha
  let all : Except SchemeError Registry := do
    let javascript ← Languages.javascript theme
    let css ← Languages.css theme
    let html ← Languages.html theme javascript css
    let python ← Languages.python theme
    return new.insertAll javascript ["js", "jsx", "mjs", "cjs"] ["javascript", "ecmascript"]
      |>.insertAll css ["css"] []
      |>.insertAll html ["html", "htm", "xhtml"] []
      |>.insertAll python ["py", "pyw"] ["python3", "py"]
  match all with
  | .ok r => r
  | .error _ => new

end Registry

end Highlighter
