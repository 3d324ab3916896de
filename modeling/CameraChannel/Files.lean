import CameraChannel.Text.Utf8

/-!
A file system: directories and files under names, found by walking a path from the root or from the
working directory, and the operations on it with the errors they meet.
-/
namespace CameraChannel

/-- What the system refuses, or what it is not even asked: no path and no argument holds the
character zero. -/
inductive OsError where
  | notFound
  | permissionDenied
  | exists
  | notDirectory
  | isDirectory
  | nameTooLong
  | zeroInPath
  | zeroInArgument
  deriving DecidableEq, Repr

def OsError.message : OsError → String
  | .notFound => "No such file or directory (os error 2)"
  | .permissionDenied => "Permission denied (os error 13)"
  | .exists => "File exists (os error 17)"
  | .notDirectory => "Not a directory (os error 20)"
  | .isDirectory => "Is a directory (os error 21)"
  | .nameTooLong => "File name too long (os error 36)"
  | .zeroInPath => "file name contained an unexpected NUL byte"
  | .zeroInArgument => "nul byte found in provided data"

inductive Node where
  | file (contents : Bytes)
  | directory
  deriving DecidableEq, Repr

/-- A place is the list of names that lead to it from the root. -/
abbrev Place := List String

structure Files where
  nodes : List (Place × Node) := []
  working : Place := []
  deriving Repr

namespace Path

/-- The names of a path; slashes in a row count once. -/
def names (path : String) : List String :=
  ((path.toList.splitOn '/').filter (!·.isEmpty)).map String.ofList

def isAbsolute (path : String) : Bool := path.startsWith "/"

def hasZero (text : String) : Bool := text.toList.contains '\x00'

/-- The bytes that a name can have. -/
def nameLimit : Nat := 255

/-- The bytes that a path can have. -/
def limit : Nat := 4095

/-- What is wrong with a path before any of its names is looked up. -/
def fault? (path : String) : Option OsError :=
  if hasZero path then some .zeroInPath
  else if path.isEmpty then some .notFound
  else if limit < path.utf8ByteSize then some .nameTooLong
  else none

/-- A slash stands between directory and name unless one is there or the directory is empty. -/
def join (directory name : String) : String :=
  if directory.isEmpty || directory.endsWith "/" then directory ++ name
  else directory ++ "/" ++ name

end Path

namespace Files

def node? (fs : Files) (place : Place) : Option Node :=
  if place.isEmpty then some .directory else fs.nodes.lookup place

/-- The place that names lead to; everything on the way must be a directory. The last name need not
exist, but it must not be too long for a name. -/
def walk (fs : Files) (here : Place) : List String → Except OsError Place
  | [] => .ok here
  | name :: names =>
    match fs.node? here with
    | none => .error .notFound
    | some (.file _) => .error .notDirectory
    | some .directory =>
      if name = "." then walk fs here names
      else if name = ".." then walk fs here.dropLast names
      else if Path.nameLimit < name.utf8ByteSize then .error .nameTooLong
      else walk fs (here ++ [name]) names

def start (fs : Files) (path : String) : Place := if Path.isAbsolute path then [] else fs.working

/-- The place of a path. A slash at the end asks for a directory. -/
def locate (fs : Files) (path : String) : Except OsError Place :=
  match Path.fault? path with
  | some e => .error e
  | none => fs.walk (fs.start path) (Path.names path ++ if path.endsWith "/" then ["."] else [])

def find (fs : Files) (path : String) : Except OsError (Place × Node) := do
  let place ← fs.locate path
  match fs.node? place with
  | some node => .ok (place, node)
  | none => .error .notFound

def isFile (fs : Files) (path : String) : Bool :=
  match fs.find path with
  | .ok (_, .file _) => true
  | _ => false

def isDirectory (fs : Files) (path : String) : Bool :=
  match fs.find path with
  | .ok (_, .directory) => true
  | _ => false

def exists? (fs : Files) (path : String) : Bool := (fs.find path).toOption.isSome

def read (fs : Files) (path : String) : Except OsError Bytes := do
  match ← fs.find path with
  | (_, .file contents) => .ok contents
  | (_, .directory) => .error .isDirectory

def put (fs : Files) (place : Place) (node : Node) : Files :=
  { fs with nodes := (place, node) :: fs.nodes.filter (·.1 != place) }

/-- Writes a file. A slash at the end asks for a directory, whether there is one or not. -/
def write (fs : Files) (path : String) (contents : Bytes) : Except OsError Files :=
  match Path.fault? path with
  | some e => .error e
  | none => do
    let names := Path.names path
    if path.endsWith "/" then
      let _ ← fs.walk (fs.start path) (names.dropLast ++ ["."])
      .error .isDirectory
    else
      let place ← fs.walk (fs.start path) names
      if fs.node? place = some .directory then .error .isDirectory
      else .ok (fs.put place (.file contents))

/-- Makes the directory that names lead to from `here`. -/
def makeAt (fs : Files) (here : Place) (names : List String) : Except OsError Files := do
  let place ← fs.walk here names
  match fs.node? place with
  | some _ => .error .exists
  | none => .ok (fs.put place .directory)

def isDirectoryAt (fs : Files) (here : Place) (names : List String) : Bool :=
  match fs.walk here names with
  | .ok place => fs.node? place == some .directory
  | .error _ => false

/-- Makes a directory unless it is there already. -/
def ensureAt (fs : Files) (here : Place) (names : List String) : Except OsError Unit × Files :=
  match fs.makeAt here names with
  | .ok fs => (.ok (), fs)
  | .error e => (if fs.isDirectoryAt here names then .ok () else .error e, fs)

/-- Makes the directories behind `done` one after another. -/
def ensureEach (fs : Files) (here : Place) (done : List String) :
    List String → Except OsError Unit × Files
  | [] => (.ok (), fs)
  | name :: names =>
    match fs.ensureAt here (done ++ [name]) with
    | (.ok (), fs) => ensureEach fs here (done ++ [name]) names
    | failed => failed

/-- Makes a directory, and those that lead to it if they are missing. A dot at the end does not make
the directory in front of it. What has been made stays when a later one cannot be made. -/
def makeDirectories (fs : Files) (path : String) : Except OsError Unit × Files :=
  if path.isEmpty then (.ok (), fs)
  else
    match Path.fault? path with
    | some e => (.error e, fs)
    | none =>
      let here := fs.start path
      let names := Path.names path
      match fs.ensureAt here names with
      | (.error .notFound, fs) =>
        match fs.ensureEach here [] (names.filter (· != ".")).dropLast with
        | (.ok (), fs) => fs.ensureAt here names
        | failed => failed
      | r => r

/-- The names in a directory, with whether each is a file. -/
def list (fs : Files) (place : Place) : List (String × Bool) :=
  fs.nodes.filterMap fun (p, node) =>
    if p.dropLast = place ∧ p ≠ [] then
      p.getLast?.map (·, match node with
        | .file _ => true
        | .directory => false)
    else none

end Files

end CameraChannel
