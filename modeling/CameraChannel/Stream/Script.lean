import CameraChannel.Bytes

/-!
Byte streams that behave as a script says. What a peer does is a list of events for each kind of
operation, used up in order on a virtual clock; a `Stream` also tells what it has taken so far.
-/
namespace CameraChannel

/-- What kind of failure decides how it is met; all others are alike. An interrupted operation is
tried again where many bytes are read or written in one, and only there. -/
inductive FailureKind where
  | unexpectedEnd
  | interrupted
  | other
  deriving DecidableEq, Repr

/-- Why an operation of a stream failed. -/
structure Failure where
  kind : FailureKind := .other
  reason : String
  deriving DecidableEq, Repr

namespace Failure

/-- The stream ended before all bytes asked for were there. -/
def ended : Failure := ⟨.unexpectedEnd, "early eof"⟩

/-- A write that took no byte. -/
def tookNothing : Failure := { reason := "write zero" }

end Failure

inductive ReadEvent where
  | data (bs : Bytes)
  | finish
  | failure (f : Failure)
  | delay (ms : Nat)
  | never
  deriving DecidableEq, Repr

inductive WriteEvent where
  | accept (most : Nat)
  | failure (f : Failure)
  | delay (ms : Nat)
  | never
  deriving DecidableEq, Repr

/-- What meets a flush or a shutdown. -/
inductive ControlEvent where
  | success
  | failure (f : Failure)
  | delay (ms : Nat)
  | never
  deriving DecidableEq, Repr

/-- The time an operation has left; none when it may take for ever. -/
abbrev Allowance := Option Nat

/-- What is left after waiting, if the wait fits. -/
def Allowance.spend (a : Allowance) (ms : Nat) : Option Allowance :=
  match a with
  | none => some none
  | some left => if ms ≤ left then some (some (left - ms)) else none

/-- How an operation ends. It stays unfinished when its time is over or it never becomes ready. -/
inductive Ending (α : Type) where
  | done (value : α) (left : Allowance)
  | failed (f : Failure)
  | unfinished

def Ending.isDone {α : Type} : Ending α → Bool
  | .done _ _ => true
  | .failed _ => false
  | .unfinished => false

/-- The room that is made before each read. A scripted stream gives no more in one read, even where
there is more room. -/
def readChunk : Nat := 4096

/-- What is left of a piece of data; the event goes when nothing is. -/
def leftover (bs : Bytes) (es : List ReadEvent) : List ReadEvent :=
  if bs.isEmpty then es else .data bs :: es

/-- One read. No bytes mean the end of the stream. -/
def readSome (a : Allowance) : List ReadEvent → Ending Bytes × List ReadEvent
  | [] => (.done [] a, [])
  | .data bs :: es => (.done (bs.take readChunk) a, leftover (bs.drop readChunk) es)
  | .finish :: es => (.done [] a, es)
  | .failure f :: es => (.failed f, es)
  | .delay ms :: es =>
    match a.spend ms with
    | some a => readSome a es
    | none => (.unfinished, es)
  | .never :: es => (.unfinished, .never :: es)

/-- Reads until `n` bytes are there. An interrupted read is tried again. -/
def readExactly (n : Nat) (a : Allowance) : List ReadEvent → Ending Bytes × List ReadEvent
  | [] => if n = 0 then (.done [] a, []) else (.failed .ended, [])
  | e :: es =>
    if n = 0 then (.done [] a, e :: es)
    else
      match e with
      | .data bs =>
        if bs.isEmpty then (.failed .ended, es)
        else if n ≤ bs.length then (.done (bs.take n) a, leftover (bs.drop n) es)
        else
          match readExactly (n - bs.length) a es with
          | (.done more a, es) => (.done (bs ++ more) a, es)
          | r => r
      | .finish => (.failed .ended, es)
      | .failure f => if f.kind = .interrupted then readExactly n a es else (.failed f, es)
      | .delay ms =>
        match a.spend ms with
        | some a => readExactly n a es
        | none => (.unfinished, es)
      | .never => (.unfinished, .never :: es)

/-- Writes all of `bs`; an interrupted write is tried again. The second part is what was taken,
whatever the ending. -/
def writeAll (bs : Bytes) (a : Allowance) : List WriteEvent → Ending Unit × Bytes × List WriteEvent
  | [] => (.done () a, bs, [])
  | e :: es =>
    if bs.isEmpty then (.done () a, [], e :: es)
    else
      match e with
      | .accept most =>
        if most = 0 then (.failed .tookNothing, [], es)
        else
          let (r, taken, es) := writeAll (bs.drop most) a es
          (r, bs.take most ++ taken, es)
      | .failure f => if f.kind = .interrupted then writeAll bs a es else (.failed f, [], es)
      | .delay ms =>
        match a.spend ms with
        | some a => writeAll bs a es
        | none => (.unfinished, [], es)
      | .never => (.unfinished, [], .never :: es)

def control (a : Allowance) : List ControlEvent → Ending Unit × List ControlEvent
  | [] => (.done () a, [])
  | .success :: es => (.done () a, es)
  | .failure f :: es => (.failed f, es)
  | .delay ms :: es =>
    match a.spend ms with
    | some a => control a es
    | none => (.unfinished, es)
  | .never :: es => (.unfinished, .never :: es)

/-- What is asked of a stream besides bytes. -/
inductive Control where
  | flush
  | shutdown
  deriving DecidableEq, Repr

/-- The events to come, the bytes taken, and the flushes and shutdowns asked for so far, each with
whether it went well. -/
structure Stream where
  reads : List ReadEvent := []
  writes : List WriteEvent := []
  flushes : List ControlEvent := []
  shutdowns : List ControlEvent := []
  taken : Bytes := []
  controls : List (Control × Bool) := []
  deriving DecidableEq, Repr

namespace Stream

/-- How many flushes went well. -/
def flushed (s : Stream) : Nat := s.controls.count (.flush, true)

/-- How many shutdowns went well. -/
def shut (s : Stream) : Nat := s.controls.count (.shutdown, true)

def read (s : Stream) (n : Nat) (a : Allowance) : Ending Bytes × Stream :=
  let (r, reads) := readExactly n a s.reads
  (r, { s with reads })

def write (s : Stream) (bs : Bytes) (a : Allowance) : Ending Unit × Stream :=
  let (r, taken, writes) := writeAll bs a s.writes
  (r, { s with writes, taken := s.taken ++ taken })

def flush (s : Stream) (a : Allowance) : Ending Unit × Stream :=
  let (r, flushes) := control a s.flushes
  (r, { s with flushes, controls := s.controls ++ [(.flush, r.isDone)] })

def shutdown (s : Stream) (a : Allowance) : Ending Unit × Stream :=
  let (r, shutdowns) := control a s.shutdowns
  (r, { s with shutdowns, controls := s.controls ++ [(.shutdown, r.isDone)] })

/-- A second operation in what time the first one leaves. -/
def andThen {α β : Type} (first : Ending α × Stream)
    (second : α → Allowance → Stream → Ending β × Stream) : Ending β × Stream :=
  match first with
  | (.done v a, s) => second v a s
  | (.failed f, s) => (.failed f, s)
  | (.unfinished, s) => (.unfinished, s)

end Stream

end CameraChannel
