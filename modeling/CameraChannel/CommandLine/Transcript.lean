import CameraChannel.Capture.Request
import CameraChannel.CommandLine.Program
import CameraChannel.Stream.Client

/-!
What a run shows: the pieces it prints, in order, and its exit code.
-/
namespace CameraChannel.CommandLine

inductive Print where
  | out (text : String)
  | err (text : String)
  deriving DecidableEq, Repr

/-- Why a run fails. -/
inductive Error where
  | connection (reason : String)
  | action (reason : String)
  | protocol (reason : String)
  deriving DecidableEq, Repr

namespace Error

def message : Error → String
  | .connection reason => "Connection error: " ++ reason
  | .action reason => "Action failed: " ++ reason
  | .protocol reason => "Protocol error: " ++ reason

def exitCode : Error → Nat
  | .connection _ => 2
  | .action _ => 1
  | .protocol _ => 3

def ofFrame (e : FrameError) : Error := .protocol e.message

def ofClient : ClientError → Error
  | .protocol e => .ofFrame e
  | e => .connection e.message

def ofCapture (e : Capture.Error) : Error := .action e.message

end Error

structure Transcript where
  prints : List Print := []
  exitCode : Nat := 0
  deriving DecidableEq, Repr

namespace Print

def out? : Print → Option String
  | .out text => some text
  | .err _ => none

def err? : Print → Option String
  | .out _ => none
  | .err text => some text

def outLine (text : String) : Print := .out (text ++ "\n")

def errLine (text : String) : Print := .err (text ++ "\n")

def document (v : Json) : Print := outLine (v.text .compact)

end Print

namespace Transcript

/-- All of standard output. -/
def out (t : Transcript) : String := String.join (t.prints.filterMap Print.out?)

/-- All of standard error. -/
def err (t : Transcript) : String := String.join (t.prints.filterMap Print.err?)

/-- A run that fails after some output. -/
def failing (printed : List Print) (e : Error) : Transcript :=
  ⟨printed ++ [.errLine ("Error: " ++ e.message)], e.exitCode⟩

/-- Output before that of another run. -/
def after (printed : List Print) (t : Transcript) : Transcript :=
  { t with prints := printed ++ t.prints }

end Transcript

/-- What is shown when there is nothing to run. -/
def Stop.transcript (env : List (String × String)) : Stop → Transcript
  | .help path => { prints := [.out (Program.grammar.help env path)] }
  | .version => { prints := [.outLine (programName ++ " " ++ Program.grammar.version)] }
  | .missing path => ⟨[.err (Program.grammar.help env path)], 2⟩
  | .usage => ⟨[.errLine ("error: see " ++ programName ++ " --help")], 2⟩

end CameraChannel.CommandLine
