import CameraChannel.CommandLine.Transcript
import CameraChannel.Frame.Batch

/-!
Encoding a command and decoding frames without a connection. What encoding prints is what decoding
takes.
-/
namespace CameraChannel.CommandLine

namespace Offline

def count (n : Nat) : Json := .ofUInt64 (UInt64.ofNat n)

/-- The frame of a command, in hex on standard output; its parts are told beside it. -/
def encode (g : Globals) (c : Command) (o : FrameOptions) : Transcript :=
  match Frame.encode (.command c) o with
  | .error e => .failing [] (.ofFrame e)
  | .ok frame =>
    let header := frame.take Header.size
    let payload := frame.drop Header.size
    let payloadText := Utf8.repair payload
    match g.format with
    | .json =>
      { prints := [.document (Json.canonical (.object [
          ("payload", .string payloadText),
          ("payload_len", count payload.length),
          ("header", .string (Hex.text header)),
          ("frame", .string (Hex.text frame)),
          ("frame_len", count frame.length)]))] }
    | .text =>
      let notes :=
        if g.quiet then []
        else [
          .errLine ("payload " ++ Digits.text payload.length ++ " bytes: " ++ payloadText),
          .errLine ("header  " ++ Digits.text header.length ++ " bytes: " ++ Hex.text header),
          .errLine ("frame   " ++ Digits.text frame.length ++ " bytes")]
      { prints := notes ++ [.outLine (Hex.text frame)] }

/-- A frame with its place among all complete frames; a refused one goes to standard error. -/
def entryPrint (f : Format) (index : Nat) : Entry → Print
  | .error e => .errLine ("#" ++ Digits.text index ++ " skipped: " ++ e.message)
  | .ok frame =>
    match f with
    | .json => .document frame.toJson
    | .text => .outLine ("#" ++ Digits.text index ++ " " ++ frame.line)

def entryPrints (f : Format) (index : Nat) : List Entry → List Print
  | [] => []
  | e :: es => entryPrint f index e :: entryPrints f (index + 1) es

def isFrame : Entry → Bool
  | .ok _ => true
  | .error _ => false

/-- What is wrong with a batch as a whole: bytes behind the last frame, or no good frame. -/
def batchError (b : Batch) : Option Error :=
  if 0 < b.trailing then
    some (.protocol (Digits.text b.trailing ++ " trailing bytes do not form a complete frame"))
  else if b.entries.any isFrame then none
  else some (.protocol "no well-formed frames in input")

def decodeBytes (f : Format) (bs : Bytes) : Transcript :=
  let b := Batch.decode bs
  let prints := entryPrints f 0 b.entries
  match batchError b with
  | some e => .failing prints e
  | none => { prints }

/-- All frames of a hex text. -/
def decode (f : Format) (input : String) : Transcript :=
  match Hex.read input with
  | .error e => .failing [] (.action ("Invalid hex input: " ++ e.message))
  | .ok bs => decodeBytes f bs

/-- The text of standard input. -/
def inputText (input : Bytes) : Except Error String :=
  match Utf8.toString? input with
  | some text => .ok text
  | none => .error (.action "Failed to read stdin: stream did not contain valid UTF-8")

/-- Decodes the text given, or else standard input. -/
def decodeGiven (f : Format) (hex : Option String) (input : Bytes) : Transcript :=
  match hex with
  | some text => decode f text
  | none =>
    match inputText input with
    | .ok text => decode f text
    | .error e => .failing [] e

end Offline

end CameraChannel.CommandLine
