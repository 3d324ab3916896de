import CameraChannel.CommandLine.Grammar
import CameraChannel.Decimal.Digits

/-!
Help texts. A text tells what a level is for, how it is called, and lists its subcommands, its
argument and its switches in two columns, or in one when the second would become too narrow.
-/
namespace CameraChannel.CommandLine

/-- A row of a list: what is written on the command line, and what it means. -/
structure Row where
  margin : String := "  "
  label : String
  meaning : String

namespace Row

def lineWidth : Nat := 100

def widest (rows : List Row) : Nat := (rows.map (·.label.length)).foldl max 0

/-- Whether a meaning no longer fits behind labels of this width, when those take up two fifths. -/
def isNarrow (width : Nat) (r : Row) : Bool :=
  40 < width + 12 && lineWidth < width + 12 + r.meaning.length

def blanks (n : Nat) : String := String.ofList (List.replicate n ' ')

def line (width : Nat) (r : Row) : String :=
  r.margin ++ r.label ++ blanks (width - r.label.length) ++ "  " ++ r.meaning ++ "\n"

def lines (r : Row) : String := r.margin ++ r.label ++ "\n" ++ blanks 10 ++ r.meaning ++ "\n"

/-- A titled list; none without rows. -/
def list (title : String) (rows : List Row) : String :=
  if rows.isEmpty then ""
  else
    let width := widest rows
    "\n" ++ title ++ ":\n" ++
      String.join (rows.map (if rows.any (isNarrow width) then lines else line width))

end Row

namespace Switch

def label (s : Switch) : String :=
  "--" ++ s.long ++
    match s.action with
    | .flag => ""
    | .count => "..."
    | _ => " <" ++ s.valueName ++ ">"

/-- What else there is to know of a switch: its variable in the environment with the present value,
its default and its choices. -/
def remarks (s : Switch) (env : List (String × String)) : List String :=
  (s.fallback?.map fun v => "[env: " ++ v ++ "=" ++ (env.lookup v).getD "" ++ "]").toList ++
    (s.default.map fun d => "[default: " ++ d ++ "]").toList ++
    (if s.choices.isEmpty then []
    else ["[possible values: " ++ ", ".intercalate s.choices ++ "]"])

def row (s : Switch) (env : List (String × String)) : Row where
  margin :=
    match s.short with
    | some c => "  -" ++ String.singleton c ++ ", "
    | none => "      "
  label := s.label
  meaning := " ".intercalate (s.help :: s.remarks env)

/-- Switches of one rank stand in the order of their short names, or of their long ones. -/
def sortKey (s : Switch) : String :=
  match s.short with
  | some c => String.ofList [c.toLower, if c.isLower then '0' else '1']
  | none => s.long

end Switch

def Argument.label (a : Argument) : String :=
  if a.isRequired then "<" ++ a.name ++ ">" else "[" ++ a.name ++ "]"

def helpSwitch : Switch where
  long := "help"
  short := some 'h'
  help := "Print help"

def versionSwitch : Switch where
  long := "version"
  short := some 'V'
  help := "Print version"

namespace Grammar

/-- Switches with their ranks. -/
def ranked (switches : List Switch) : List (Nat × Switch) :=
  (List.range switches.length).zip switches

def comesFirst (a b : Nat × Switch) : Bool :=
  a.1 < b.1 || (a.1 == b.1 && decide (a.2.sortKey ≤ b.2.sortKey))

/-- The switches of a level and the shared ones, by rank. -/
def listed (g : Grammar) (l : Level) (isRoot : Bool) : List Switch :=
  ((ranked l.switches ++ ranked g.shared).mergeSort comesFirst).map (·.2) ++
    helpSwitch :: if isRoot then [versionSwitch] else []

/-- How a level is called. -/
def call (l : Level) (path : List String) : String :=
  " ".intercalate (path ++ ["[OPTIONS]"] ++
    (l.switches.filter (·.isRequired)).map Switch.label ++
    (l.argument.map Argument.label).toList ++
    if l.children.isEmpty then [] else ["<COMMAND>"])

def childRows (l : Level) : List Row :=
  if l.children.isEmpty then []
  else
    l.children.map (fun c => { label := c.name, meaning := c.about }) ++
      [{ label := "help"
         meaning := "Print this message or the help of the given subcommand(s)" }]

def levelHelp (g : Grammar) (env : List (String × String)) (l : Level) (path : List String) :
    String :=
  l.about ++ "\n\nUsage: " ++ call l path ++ "\n" ++
    Row.list "Commands" (childRows l) ++
    Row.list "Arguments" (l.argument.map fun a => { label := a.label, meaning := a.help }).toList ++
    Row.list "Options" ((g.listed l (path.length == 1)).map (·.row env))

/-- The help text of the level that a path of names leads to. -/
def help (g : Grammar) (env : List (String × String)) (path : List String) : String :=
  match descend g.root path.tail with
  | some l => g.levelHelp env l path
  | none => ""

end Grammar

end CameraChannel.CommandLine
