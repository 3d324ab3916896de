/-!
Command lines with subcommands: switches with long and short names, values, flags in one cluster,
and options that every level takes. A grammar is a tree of levels; reading a command line gives
what each level on its way was given.
-/
namespace CameraChannel.CommandLine

/-- What a switch does when it is met. -/
inductive Action where
  | flag
  | count
  | value
  | values
  deriving DecidableEq, Repr

structure Switch where
  long : String
  short : Option Char := none
  action : Action := .flag
  valueName : String := ""
  /-- Whether a text is a value of this switch. -/
  accepts : String → Bool := fun _ => true
  help : String
  default : Option String := none
  choices : List String := []
  fallback? : Option String := none
  isRequired : Bool := false

namespace Switch

def takesValue (s : Switch) : Bool := s.action == .value || s.action == .values

/-- Whether it may be given once only. -/
def isSingle (s : Switch) : Bool := s.action == .flag || s.action == .value

end Switch

structure Argument where
  name : String
  accepts : String → Bool := fun _ => true
  help : String
  isRequired : Bool

/-- A command or subcommand. -/
inductive Level where
  | mk (name about : String) (switches : List Switch) (argument : Option Argument)
      (children : List Level)

namespace Level

def name : Level → String
  | .mk n _ _ _ _ => n

def about : Level → String
  | .mk _ a _ _ _ => a

def switches : Level → List Switch
  | .mk _ _ s _ _ => s

def argument : Level → Option Argument
  | .mk _ _ _ a _ => a

def children : Level → List Level
  | .mk _ _ _ _ c => c

def child? (l : Level) (name : String) : Option Level := l.children.find? (·.name == name)

end Level

/-- A grammar's root, and the switches that every level takes. -/
structure Grammar where
  root : Level
  shared : List Switch
  version : String

/-- What one level was given: switches with their values in order, and the argument. -/
structure Given where
  switches : List (String × String) := []
  argument : Option String := none

/-- Why there is nothing to run. -/
inductive Stop where
  | usage
  | help (path : List String)
  | missing (path : List String)
  | version
  deriving DecidableEq, Repr

namespace Given

def has (g : Given) (long : String) : Bool := g.switches.any (·.1 == long)

def values (g : Given) (long : String) : List String :=
  (g.switches.filter (·.1 == long)).map (·.2)

def value? (g : Given) (long : String) : Option String := (g.values long).head?

/-- Notes a switch with an acceptable value. -/
def add (g : Given) (s : Switch) (v : String) : Except Stop Given :=
  if s.isSingle && g.has s.long then .error .usage
  else if s.takesValue && !s.accepts v then .error .usage
  else .ok { g with switches := g.switches ++ [(s.long, v)] }

end Given

/-- Where reading stands at a level. -/
structure Reading where
  level : Level
  /-- Names of the levels down to this one. -/
  path : List String
  given : Given := {}
  /-- A switch that waits for its value. -/
  pending : Option Switch := none
  /-- Whether only arguments may follow. -/
  trailing : Bool := false

namespace Grammar

def switchesAt (g : Grammar) (l : Level) : List Switch := l.switches ++ g.shared

/-- The text after the first equals sign, if there is one. -/
def splitEquals (cs : List Char) : String × Option String :=
  match cs.dropWhile (· != '=') with
  | [] => (String.ofList cs, none)
  | _ :: v => (String.ofList (cs.takeWhile (· != '=')), some (String.ofList v))

/-- A switch given by its long name, without the dashes. -/
def long (g : Grammar) (r : Reading) (cs : List Char) : Except Stop Reading := do
  if r.pending.isSome then .error .usage
  else
    let (name, attached) := splitEquals cs
    match (g.switchesAt r.level).find? (·.long == name) with
    | some s =>
      if s.takesValue then
        match attached with
        | some v => .ok { r with given := ← r.given.add s v }
        | none => .ok { r with pending := some s }
      else if attached.isSome then .error .usage
      else .ok { r with given := ← r.given.add s "" }
    | none =>
      if attached.isSome then .error .usage
      else if name = "help" then .error (.help r.path)
      else if name = "version" ∧ r.path.length = 1 then .error .version
      else .error .usage

/-- Switches given by their short names in one word; the first that takes a value takes the rest. -/
def cluster (g : Grammar) (r : Reading) : List Char → Except Stop Reading
  | [] => .ok r
  | c :: cs => do
    match (g.switchesAt r.level).find? (·.short == some c) with
    | some s =>
      if s.takesValue then
        match cs with
        | [] => .ok { r with pending := some s }
        | '=' :: v => .ok { r with given := ← r.given.add s (String.ofList v) }
        | v => .ok { r with given := ← r.given.add s (String.ofList v) }
      else cluster g { r with given := ← r.given.add s "" } cs
    | none =>
      if c = 'h' then .error (.help r.path)
      else if c = 'V' ∧ r.path.length = 1 then .error .version
      else .error .usage

/-- A word that is neither switch nor subcommand. -/
def word (r : Reading) (w : String) : Except Stop Reading := do
  match r.pending with
  | some s => .ok { r with given := ← r.given.add s w, pending := none }
  | none =>
    match r.level.argument with
    | some a =>
      if r.given.argument.isSome || !a.accepts w then .error .usage
      else .ok { r with given := { r.given with argument := some w } }
    | none => .error .usage

/-- A word at a level; subcommands are looked for before. -/
def step (g : Grammar) (r : Reading) (w : String) : Except Stop Reading :=
  if r.trailing then if r.pending.isSome then .error .usage else word r w
  else
    match w.toList with
    | ['-', '-'] => if r.pending.isSome then .error .usage else .ok { r with trailing := true }
    | '-' :: '-' :: cs => long g r cs
    | '-' :: c :: cs => if r.pending.isSome then .error .usage else cluster g r (c :: cs)
    | _ => word r w

/-- The level that names lead to below another. -/
def descend (l : Level) : List String → Option Level
  | [] => some l
  | name :: names => (l.child? name).bind (descend · names)

/-- The texts that the environment gives to switches which the command line does not. -/
def fromEnvironment (g : Grammar) (l : Level) (env : List (String × String)) (given : Given) :
    List (Switch × String) :=
  (g.switchesAt l).filterMap fun s =>
    if given.has s.long then none
    else (s.fallback?.bind (env.lookup ·)).map (s, ·)

/-- Checks a level whose words are all read. -/
def close (g : Grammar) (env : List (String × String)) (r : Reading) (hasChild : Bool) :
    Except Stop Given :=
  let borrowed := g.fromEnvironment r.level env r.given
  let isMissing (s : Switch) := s.isRequired && !r.given.has s.long
  let lacksArgument :=
    match r.level.argument with
    | some a => a.isRequired && r.given.argument.isNone
    | none => false
  if r.pending.isSome then .error .usage
  else if borrowed.any fun (s, v) => !s.accepts v then .error .usage
  else if !r.level.children.isEmpty && !hasChild then
    if r.given.switches.isEmpty && borrowed.isEmpty then .error (.missing r.path)
    else .error .usage
  else if (g.switchesAt r.level).any isMissing || lacksArgument then .error .usage
  else .ok r.given

/-- Reads words from a level on. The answer lists the levels with what each was given. -/
def readFrom (g : Grammar) (env : List (String × String)) (r : Reading) :
    List String → Except Stop (List (String × Given))
  | [] => do .ok [(r.level.name, ← g.close env r false)]
  | w :: ws => do
    if r.pending.isNone && !r.trailing && !r.level.children.isEmpty && w == "help" then
      if (descend r.level ws).isSome then .error (.help (r.path ++ ws)) else .error .usage
    else
      match if r.pending.isNone && !r.trailing then r.level.child? w else none with
      | some child =>
        let below ← readFrom g env { level := child, path := r.path ++ [child.name] } ws
        .ok ((r.level.name, ← g.close env r true) :: below)
      | none => readFrom g env (← g.step r w) ws

/-- Reads a whole command line, without the program's name. -/
def read (g : Grammar) (env : List (String × String)) (words : List String) :
    Except Stop (List (String × Given)) :=
  g.readFrom env { level := g.root, path := [g.root.name] } words

/-- The value of a shared switch: the last level that was given one decides, before the
environment. -/
def shared? (g : Grammar) (env : List (String × String)) (levels : List (String × Given))
    (long : String) : Option String :=
  match (levels.filterMap fun l => l.2.value? long).getLast? with
  | some v => some v
  | none => (g.shared.find? (·.long == long)).bind fun s => s.fallback?.bind (env.lookup ·)

end Grammar

end CameraChannel.CommandLine
