import CameraChannel.Files
import CameraChannel.Settings.Reader

/-!
Where settings are kept: a file in a directory named by the environment or below the user's home.
-/
namespace CameraChannel

namespace Settings

inductive Error where
  | os (e : OsError)
  | notUtf8
  | json (e : Json.ReadError)

def Error.message : Error → String
  | .os e => "IO error: " ++ e.message
  | .notUtf8 => "IO error: stream did not contain valid UTF-8"
  | .json e => "JSON error: " ++ e.message

/-- Reads a settings file. A file that is no text is not looked into. -/
def loadFrom (fs : Files) (path : String) : Except Error Settings :=
  match fs.read path with
  | .error e => .error (.os e)
  | .ok bs =>
    if (Utf8.decode? bs).isNone then .error .notUtf8
    else (parse bs).mapError .json

def saveTo (s : Settings) (fs : Files) (path : String) : Except Error Files :=
  (fs.write path (Utf8.ofString s.render)).mapError .os

end Settings

/-- Variables and their values. -/
abbrev Environment := List (String × String)

namespace Home

def homeVariable : String := "CAMWIRE_HOME"

/-- The directory of the settings: named by the environment, or in the user's home, or in the
directory for temporary files. -/
def directory (env : Environment) : String :=
  match env.lookup homeVariable with
  | some d => d
  | none =>
    let home := ((env.lookup "HOME").filter (!·.isEmpty)).getD "/tmp"
    Path.join home ".camwire"

/-- Looking for the directory makes it if it can be made. -/
def make (env : Environment) (fs : Files) : Files :=
  (fs.makeDirectories (directory env)).2

def settingsPath (env : Environment) : String := Path.join (directory env) "config.json"

def logDirectory (env : Environment) : String := Path.join (directory env) "logs"

def makeLogs (env : Environment) (fs : Files) : Files :=
  let fs := make env fs
  (fs.makeDirectories (logDirectory env)).2

/-- The settings in force: those of the file, or the defaults when it cannot be read. -/
def load (env : Environment) (fs : Files) : Settings × Files :=
  let fs := make env fs
  (((Settings.loadFrom fs (settingsPath env)).toOption).getD {}, fs)

/-- Saves settings and tells where. -/
def save (s : Settings) (env : Environment) (fs : Files) : Except Settings.Error (String × Files) :=
  let fs := make env fs
  (s.saveTo fs (settingsPath env)).map (settingsPath env, ·)

end Home

end CameraChannel
