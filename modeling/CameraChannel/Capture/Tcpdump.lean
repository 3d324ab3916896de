import CameraChannel.Capture.Facility

/-!
Capturing with an external tool. The tool is started with a command line, watched until it exits,
the time is over or a cancellation comes, and stopped if it still runs.
-/
namespace CameraChannel.Capture

/-- How a process ended, and after a signal whether its memory was kept. -/
inductive ExitStatus where
  | exited (code : Nat)
  | signalled (signal : Nat) (dumped : Bool)
  deriving DecidableEq, Repr

namespace ExitStatus

def isSuccess (s : ExitStatus) : Bool := s == .exited 0

def signalName : Nat → Option String
  | 1 => some "SIGHUP"
  | 2 => some "SIGINT"
  | 3 => some "SIGQUIT"
  | 4 => some "SIGILL"
  | 5 => some "SIGTRAP"
  | 6 => some "SIGABRT"
  | 7 => some "SIGBUS"
  | 8 => some "SIGFPE"
  | 9 => some "SIGKILL"
  | 10 => some "SIGUSR1"
  | 11 => some "SIGSEGV"
  | 12 => some "SIGUSR2"
  | 13 => some "SIGPIPE"
  | 14 => some "SIGALRM"
  | 15 => some "SIGTERM"
  | 16 => some "SIGSTKFLT"
  | 17 => some "SIGCHLD"
  | 18 => some "SIGCONT"
  | 19 => some "SIGSTOP"
  | 20 => some "SIGTSTP"
  | 21 => some "SIGTTIN"
  | 22 => some "SIGTTOU"
  | 23 => some "SIGURG"
  | 24 => some "SIGXCPU"
  | 25 => some "SIGXFSZ"
  | 26 => some "SIGVTALRM"
  | 27 => some "SIGPROF"
  | 28 => some "SIGWINCH"
  | 29 => some "SIGIO"
  | 30 => some "SIGPWR"
  | 31 => some "SIGSYS"
  | _ => none

def text : ExitStatus → String
  | .exited code => "exit status: " ++ Digits.text code
  | .signalled n dumped =>
    "signal: " ++ Digits.text n ++
      (match signalName n with
      | some name => " (" ++ name ++ ")"
      | none => "") ++
      if dumped then " (core dumped)" else ""

end ExitStatus

/-- The bytes that a pipe holds until they are read. -/
def pipeLimit : Nat := 65536

/-- What a tool does when it is run: the file it writes, what it prints, and when and how it ends if
nothing keeps it from ending. -/
structure Tool where
  contents : Option Bytes := none
  output : Bytes := []
  errors : Bytes := []
  lifetime : Nat := 1
  heedsTerm : Bool := true
  status : ExitStatus := .exited 0
  deriving DecidableEq, Repr

/-- The present time, the files, the programs that can be started, how the last one was, and the
milliseconds spent on captures. -/
structure Workshop where
  now : Moment
  files : Files
  spent : Nat := 0
  programs : List (String × Tool) := []
  hasSudo : Bool := false
  lastArguments : Option (List String) := none
  usedSudo : Bool := false

namespace Workshop

/-- The program that a command line starts, through `sudo` or directly. -/
def program? (w : Workshop) : List String → Option (Tool × List String × Bool)
  | [] => none
  | "sudo" :: program :: arguments =>
    if w.hasSudo then (w.programs.lookup program).map (·, arguments, true) else none
  | program :: arguments => (w.programs.lookup program).map (·, arguments, false)

/-- The file named after `-w`. -/
def outputOf : List String → Option String
  | "-w" :: path :: _ => some path
  | _ :: rest => outputOf rest
  | [] => none

/-- Why nothing is started under a name. With a slash it is the path of the program, and what stands
there, file or directory, may not be run. Without one it is looked for where programs are kept. -/
def refusal (w : Workshop) (name : String) : OsError :=
  if name.toList.contains '/' then
    match w.files.find name with
    | .ok _ => .permissionDenied
    | .error e => e
  else if name = "." ∨ name = ".." then .permissionDenied
  else if Path.nameLimit < name.utf8ByteSize then .nameTooLong
  else .notFound

/-- Starts a program, which writes its file at once. -/
def start (w : Workshop) (argv : List String) : Except OsError Tool × Workshop :=
  if argv.any Path.hasZero then (.error .zeroInArgument, w)
  else
    match w.program? argv with
    | none => (.error (w.refusal (argv.headD "")), w)
    | some (tool, arguments, elevated) =>
      let files :=
        match tool.contents, outputOf arguments with
        | some contents, some path => ((w.files.write path contents).toOption).getD w.files
        | _, _ => w.files
      (.ok tool,
        { w with files, lastArguments := some arguments, usedSudo := w.usedSudo || elevated })

end Workshop

structure Tcpdump where
  program : String := "tcpdump"
  grace : Nat := 5000
  deriving DecidableEq, Repr

namespace Tcpdump

def commandLine (t : Tcpdump) (r : Request) (output : String) : List String :=
  (if r.useSudo then ["sudo"] else []) ++
    [t.program, "-v", "-i", r.interface, "-w", output] ++ r.filter.arguments

/-- What ends the wait for a tool. -/
inductive Waited where
  | cancelled
  | elapsed
  | exited (s : ExitStatus)
  deriving DecidableEq, Repr

/-- When a tool ends by itself. What it writes on standard error is read only after its end, so that
with more than a pipe holds it waits until it is stopped. -/
def exitTime? (tool : Tool) : Option Nat :=
  if tool.errors.length ≤ pipeLimit then some tool.lifetime else none

/-- Whichever of the tool's end and the window's comes first. -/
def ownEnd (tool : Tool) (window : Nat) : Waited × Nat :=
  match exitTime? tool with
  | some time => if window < time then (.elapsed, window) else (.exited tool.status, time)
  | none => (.elapsed, window)

/-- Whichever comes first, and when. -/
def wait (tool : Tool) (window : Nat) : Cancellation → Waited × Nat
  | .never => ownEnd tool window
  | .before => (.cancelled, 0)
  | .after time =>
    if time ≤ (ownEnd tool window).2 then (.cancelled, time) else ownEnd tool window

/-- How long it takes to stop a tool: one that does not heed the request is killed after the
grace. -/
def stopTime (t : Tcpdump) (tool : Tool) : Waited → Nat
  | .exited _ => 0
  | _ => if tool.heedsTerm then 0 else t.grace

/-- Why a tool failed: what it wrote on standard error, or else how it ended. -/
def failure (program : String) (tool : Tool) (s : ExitStatus) : String :=
  match (Utf8.toString? tool.errors).map Blank.trim with
  | some text => if text.isEmpty then program ++ " exited with " ++ s.text else text
  | none => program ++ " exited with " ++ s.text

/-- A tool that was stopped or ended well must have left its file. -/
def capture (t : Tcpdump) (r : Request) (cancelled : Cancellation) (w : Workshop) :
    Except Error Outcome × Workshop :=
  let output := Artifact.path r.directory w.now
  let argv := t.commandLine r output
  match w.start argv with
  | (.error e, w) => (.error (.os e), w)
  | (.ok tool, w) =>
    let finished : Except Error Outcome :=
      if w.files.isFile output then .ok (.completed output) else .error (.artifactMissing output)
    let (waited, time) := wait tool r.duration cancelled
    let w := { w with spent := w.spent + time + t.stopTime tool waited }
    match waited with
    | .cancelled => (.ok .interrupted, w)
    | .elapsed => (finished, w)
    | .exited s =>
      if s.isSuccess then (finished, w)
      else (.error (.toolFailed (failure (argv.headD "") tool s)), w)

def analyze (t : Tcpdump) (path : String) (w : Workshop) : Except Error String × Workshop :=
  match w.start [t.program, "-v", "-r", path] with
  | (.error e, w) => (.error (.os e), w)
  | (.ok tool, w) =>
    if tool.status.isSuccess then (.ok (Utf8.repair tool.output), w)
    else (.error (.toolFailed (Blank.trim (Utf8.repair tool.errors))), w)

def facility (t : Tcpdump) : Facility Workshop where
  files := Workshop.files
  capture := t.capture
  analyze := t.analyze

end Tcpdump

end CameraChannel.Capture
