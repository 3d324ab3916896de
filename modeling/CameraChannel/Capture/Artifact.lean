import CameraChannel.Decimal.Digits
import CameraChannel.Files
import CameraChannel.Text.Order

/-!
Capture files. A name tells when the capture started, in local time, so that the greatest name in a
directory is the newest capture. Directories are given by paths that are texts.
-/
namespace CameraChannel.Capture

/-- A second on the Gregorian calendar, as a clock on the wall shows it. -/
structure Moment where
  year : Int
  month : Nat
  day : Nat
  hour : Nat
  minute : Nat
  second : Nat
  deriving DecidableEq, Repr

namespace Moment

def isLeap (year : Int) : Bool := year % 4 = 0 ∧ (year % 100 ≠ 0 ∨ year % 400 = 0)

def daysIn (year : Int) : Nat → Nat
  | 2 => if isLeap year then 29 else 28
  | 4 => 30
  | 6 => 30
  | 9 => 30
  | 11 => 30
  | _ => 31

/-- The years in which dates are counted. -/
def firstYear : Int := -262143

def lastYear : Int := 262142

/-- Whether there is such a second. -/
def IsValid (t : Moment) : Prop :=
  firstYear ≤ t.year ∧ t.year ≤ lastYear ∧ 1 ≤ t.month ∧ t.month ≤ 12 ∧
    1 ≤ t.day ∧ t.day ≤ daysIn t.year t.month ∧ t.hour < 24 ∧ t.minute < 60 ∧ t.second < 60

instance (t : Moment) : Decidable t.IsValid := inferInstanceAs (Decidable (_ ∧ _))

/-- Four digits, or more with a sign outside the years 0 to 9999. -/
def yearText (y : Int) : List Char :=
  match y with
  | .ofNat n => if n ≤ 9999 then Digits.padded 4 n else '+' :: Digits.padded 4 n
  | .negSucc n => '-' :: Digits.padded 4 (n + 1)

def stamp (t : Moment) : List Char :=
  yearText t.year ++ Digits.padded 2 t.month ++ Digits.padded 2 t.day ++ '_' ::
    (Digits.padded 2 t.hour ++ Digits.padded 2 t.minute ++ Digits.padded 2 t.second)

end Moment

namespace Artifact

def opening : List Char := "camera_capture_".toList

def ending : List Char := ".pcap".toList

/-- The file name of a capture started at `t`. -/
def name (t : Moment) : String := String.ofList (opening ++ t.stamp ++ ending)

def path (directory : String) (t : Moment) : String := Path.join directory (name t)

/-- A name of this form; opening and ending do not overlap. -/
def isNamed (n : String) : Bool :=
  opening.isPrefixOf n.toList && ending.isSuffixOf n.toList &&
    opening.length + ending.length ≤ n.toList.length

/-- The greatest name of a capture among some names. -/
def newest (names : List String) : Option String := Utf8.greatest (names.filter isNamed)

/-- A directory's path as it stands in front of the files found in it: slashes in a row are one, and
a leading dot goes. -/
def shown (directory : String) : String :=
  let names := (Path.names directory)
  let root := if Path.isAbsolute directory || directory.isEmpty then "/" else ""
  let names := if root.isEmpty then names.dropWhile (· == ".") else names
  root ++ "/".intercalate names

/-- The path of the newest capture in a directory. Only files whose path can be used count. -/
def latest (fs : Files) (directory : String) : Option String :=
  match fs.walk (if directory.isEmpty then [] else fs.start directory) (Path.names directory) with
  | .error _ => none
  | .ok place =>
    let path := Path.join (shown directory)
    (newest ((fs.list place).filterMap fun (n, isFile) =>
      if isFile && (Path.fault? (path n)).isNone then some n else none)).map path

end Artifact

end CameraChannel.Capture
