import CameraChannel.CommandLine.Run
import CameraChannel.Proofs.CommandLine.Fields
import CameraChannel.Proofs.CommandLine.Reading
import CameraChannel.Proofs.Command.Resending
import CameraChannel.Proofs.Frame.Batches
import CameraChannel.Proofs.Text.Hex

/-!
What encoding prints, given to decoding. Main statement: the frame that is printed is decoded to one
line that shows the command and the header asked for, unless the command is nested too deep to be
read; then it is refused.
-/
namespace CameraChannel.CommandLine

open Json (Integral nesting)

namespace Offline

theorem out_outLine (s : String) : Transcript.out { prints := [.outLine s] } = s ++ "\n" := by
  simp [Transcript.out, Print.outLine, Print.out?, String.join]

/-- An encoded frame is printed in hex, on a line of its own. -/
theorem encode_taken {g : Globals} {c : Command} {o : FrameOptions} {w : Bytes}
    (hf : g.format = .text) (h : Frame.encode (.command c) o = .ok w) :
    (encode g c o).exitCode = 0 ∧ (encode g c o).out = Hex.text w ++ "\n" := by
  rw [encode, h, hf]
  refine ⟨rfl, ?_⟩
  cases g.quiet <;> exact out_outLine _

theorem encode_refused {g : Globals} {c : Command} {o : FrameOptions} {e : FrameError}
    (h : Frame.encode (.command c) o = .error e) : (encode g c o).exitCode = 3 := by
  rw [encode, h]
  rfl

variable {r : RawFrame}

theorem decode_text (hs : r.Sized) :
    decode .text (Hex.text r.toBytes) = decodeBytes .text r.toBytes ∧
      Batch.decode r.toBytes = ⟨[r.entry], 0⟩ := by
  constructor
  · rw [decode, Hex.read_text]
  · have hb := Batch.decode_frame hs []
    rw [List.append_nil, Batch.decode_of_error (d := []) (Frame.split_headless (by decide))] at hb
    exact hb

/-- A frame alone that is read is shown on one line. -/
theorem decode_read {f : Frame} (hs : r.Sized) (h : r.entry = .ok f) :
    (decode .text (Hex.text r.toBytes)).exitCode = 0 ∧
      (decode .text (Hex.text r.toBytes)).out = "#0 " ++ f.line ++ "\n" := by
  obtain ⟨hd, hb⟩ := decode_text hs
  rw [hd, decodeBytes, hb, h]
  exact ⟨rfl, out_outLine _⟩

/-- A frame alone that is refused leaves nothing to show. -/
theorem decode_refused {e : FrameError} (hs : r.Sized) (h : r.entry = .error e) :
    (decode .text (Hex.text r.toBytes)).exitCode = 3 ∧
      (decode .text (Hex.text r.toBytes)).out = "" := by
  obtain ⟨hd, hb⟩ := decode_text hs
  rw [hd, decodeBytes, hb, h]
  exact ⟨rfl, rfl⟩

end Offline

/-! ### A field given to encoding -/

section OneField

variable {f : String} {v : Json}

theorem read_oneField (hf : Program.isField f = true) (hd : f.toList.head? ≠ some '-') :
    Program.grammar.read [] ["encode", "-c", "1", "--field", f] =
      .ok [("camwire", {}), ("encode", oneField f)] := by
  have hcode :
      Program.grammar.step { level := Program.encode, path := ["camwire", "encode"] } "-c" =
        .ok { level := Program.encode, path := ["camwire", "encode"],
              pending := Program.message[0]? } := rfl
  have hbelow :
      Program.grammar.readFrom [] { level := Program.encode, path := ["camwire", "encode"] }
        ["-c", "1", "--field", f] = .ok [("encode", oneField f)] := by
    rw [Grammar.readFrom_step rfl hcode, Grammar.readFrom_step rfl rfl,
      Grammar.readFrom_step rfl rfl, Grammar.readFrom_step rfl ((Grammar.step_word rfl hd).trans
        (Grammar.word_pending rfl (Given.add_values rfl hf))), Grammar.readFrom_end]
    rfl
  rw [Grammar.read, Grammar.readFrom_child Program.encode rfl rfl (by decide) rfl]
  exact congrArg (· >>= _) hbelow

theorem encode_oneField (h : field f = .ok ("a", v)) (hi : Integral v) (hs : Json.extent v ≤ 1000) :
    ∃ w, Frame.encode (.command (oneField f).command) (oneField f).options = .ok w := by
  have hu : (oneField f).command.Unreserved := by
    intro r
    rw [command_oneField h]
    cases r <;> rfl
  have hlen : ((oneField f).command.payload .compact).length ≤ Frame.lengthLimit := by
    have hcode : Json.extent (.ofInt64 1) = 1 := rfl
    have hname : (Utf8.ofChars (Json.quote "code")).length = 6 := by decide
    have ha : (Utf8.ofChars (Json.quote "a")).length = 3 := by decide
    rw [Command.length_payload (Given.integral_command (integral_oneField h hi)),
      members_oneField h]
    simp only [Json.extent, Json.extentMembers, Frame.lengthLimit, hcode, hname, ha]
    omega
  have hstyle : (oneField f).options.style = .compact := rfl
  refine ⟨(Frame.rawFrame ((oneField f).command.payload .compact) (oneField f).options).toBytes, ?_⟩
  rw [Frame.encode, hstyle, Frame.encodePayload_command hu]
  exact Frame.enclose_fits hlen _

end OneField

namespace Machine

variable {m : Machine} {words : List String} {root : String × Given} {given : Given}

/-- What words are read as is run. -/
theorem run_read {levels : List (String × Given)} {verb : Verb}
    (h : Program.grammar.read m.environment words = .ok levels)
    (hverb : Invocation.verb? levels.tail = some verb) :
    m.run words = .ok (m.invoke { globals := .ofLevels m.environment levels, verb }) := by
  have hread : Invocation.read m.environment words =
      .ok { globals := .ofLevels m.environment levels, verb } := by
    simp only [Invocation.read, h, Bind.bind, Except.bind, hverb]
  rw [run, hread]
  rfl

theorem run_encode (h : Program.grammar.read m.environment words = .ok [root, ("encode", given)]) :
    ∃ after, m.run words = .ok (Offline.encode (.ofLevels m.environment [root, ("encode", given)])
      given.command given.options, after) :=
  ⟨_, run_read h rfl⟩

theorem run_decodeGiven
    (h : Program.grammar.read m.environment words = .ok [root, ("decode", given)]) :
    ∃ after, m.run words = .ok (Offline.decodeGiven
      (Globals.ofLevels m.environment [root, ("decode", given)]).format given.argument m.input,
      after) :=
  ⟨_, run_read h rfl⟩

theorem run_decode (h : Program.Usable m.environment) {text : String}
    (ht : text.toList.head? ≠ some '-') :
    ∃ after, m.run ["decode", text] = .ok (Offline.decode .text text, after) :=
  ⟨_, run_read (Program.read_decode h ht) rfl⟩

/-- The frame of a command, decoded as it is printed. -/
theorem decode_encoded {c : Command} {o : FrameOptions} {w : Bytes}
    (h : Frame.encode (.command c) o = .ok w) (hi : Integral c.extra.toJson) :
    (nesting (.object c.members) ≤ 127 →
      (Offline.decode .text (Hex.text w)).exitCode = 0 ∧
      (Offline.decode .text (Hex.text w)).out =
        "#0 " ++ Frame.line ⟨.forPayload (UInt32.ofNat (c.payload o.style).length) o, c⟩ ++ "\n") ∧
    (127 < nesting (.object c.members) →
      (Offline.decode .text (Hex.text w)).exitCode = 3 ∧
      (Offline.decode .text (Hex.text w)).out = "") := by
  obtain ⟨hu, hs, rfl⟩ := Frame.rawFrame_of_encode h
  constructor
  · intro hn
    exact Offline.decode_read hs (RawFrame.entry_taken hu hi hn _ _)
  · intro hn
    obtain ⟨reason, -, hr⟩ := RawFrame.entry_refused hu hi hn
      (.forPayload (UInt32.ofNat (c.payload o.style).length) o) o.style
    exact Offline.decode_refused hs hr

/-- A machine with nothing on it. -/
def bare : Machine where
  workshop := { now := ⟨2024, 1, 1, 0, 0, 0⟩, files := {} }
  dial _ _ := .refused "no network"
  bind _ := .error "no network"

/-- A field of lists inside one another is encoded as deep as its text alone is read. -/
theorem listField_printed {n : Nat} (h : n < Json.Reader.depthLimit) :
    ∃ t after w, bare.run ["encode", "-c", "1", "--field", listField n] = .ok (t, after) ∧
      t.exitCode = 0 ∧ t.out = Hex.text w ++ "\n" ∧
      Frame.encode (.command (oneField (listField n)).command) (oneField (listField n)).options =
        .ok w := by
  have hf := field_listField h
  have hacc : Program.isField (listField n) = true := by
    rw [Program.isField, hf]
    rfl
  have hdash : (listField n).toList.head? ≠ some '-' := by
    rw [listField, String.toList_ofList]
    simp
  have hextent : Json.extent (nestedList n) ≤ 1000 := by
    rw [extent_nestedList]
    rw [Json.Reader.depthLimit] at h
    omega
  obtain ⟨w, hw⟩ := encode_oneField hf (integral_nestedList n) hextent
  obtain ⟨after, hencode⟩ := run_encode (m := bare) (read_oneField hacc hdash)
  obtain ⟨hexit, hout⟩ := Offline.encode_taken
    (g := .ofLevels [] [("camwire", {}), ("encode", oneField (listField n))]) rfl hw
  exact ⟨_, after, w, hencode, hexit, hout, hw⟩

/-- When encoding prints a line, decoding that line on any machine shows the command that was built
from the words, with the header that they ask for; if the command's containers are nested deeper
than the reader allows, its frame is refused and nothing is shown. -/
theorem decode_printed (m m' : Machine) (words : List String) (root : String × Given)
    (given : Given) (t : Transcript) (after : Machine) (h : String)
    (hread : Program.grammar.read m.environment words = .ok [root, ("encode", given)])
    (hformat : (Globals.ofLevels m.environment [root, ("encode", given)]).format = .text)
    (hintegral : ∀ f ∈ given.fields, Integral f.2)
    (hrun : m.run words = .ok (t, after)) (hexit : t.exitCode = 0) (hout : t.out = h ++ "\n")
    (husable : Program.Usable m'.environment) :
    ∃ p t' after', Frame.encodePayload (.command given.command) given.options.style = .ok p ∧
      p.length ≤ Frame.lengthLimit ∧ m'.run ["decode", h] = .ok (t', after') ∧
      (nesting (.object given.command.members) ≤ 127 → t'.exitCode = 0 ∧
        t'.out = "#0 " ++ Frame.line
          ⟨.forPayload (UInt32.ofNat p.length) given.options, given.command⟩ ++ "\n") ∧
      (127 < nesting (.object given.command.members) → t'.exitCode = 3 ∧ t'.out = "") ∧
      ∀ name, given.command.extra.get? name = (Json.values name given.fields).getLast? := by
  obtain ⟨_, hrun'⟩ := run_encode hread
  cases hrun.symm.trans hrun'
  cases hw : Frame.encode (.command given.command) given.options with
  | error e =>
    rw [Offline.encode_refused hw] at hexit
    cases hexit
  | ok w =>
    have htext : h = Hex.text w := by
      rw [(Offline.encode_taken hformat hw).2] at hout
      simpa using hout.symm
    subst htext
    obtain ⟨hu, hs, -⟩ := Frame.rawFrame_of_encode hw
    obtain ⟨after', hdecode⟩ := run_decode husable (Hex.text_no_dash w)
    obtain ⟨hshallow, hdeep⟩ := decode_encoded hw (Given.integral_command hintegral)
    exact ⟨_, _, after', Frame.encodePayload_command hu _, hs.within_limit, hdecode, hshallow,
      hdeep, given.get?_command⟩

/-- An empty list in a field is shown. -/
theorem decode_printed_list :
    ∃ t after h t' after', bare.run ["encode", "-c", "1", "--field", "a=[]"] = .ok (t, after) ∧
      t.exitCode = 0 ∧ t.out = h ++ "\n" ∧
      bare.run ["decode", h] = .ok (t', after') ∧ t'.exitCode = 0 ∧
      t'.out =
        "#0 len=17 flag=0 package=0 deal=0 forward=0000000000000000 \x7b\"code\":1,\"a\":[]\x7d\n"
      := by
  have hlimit : 0 < Json.Reader.depthLimit := by decide
  have hlist : listField 0 = "a=[]" := rfl
  have hf := field_listField hlimit
  obtain ⟨t, after, w, hencode, hexit, hout, hw⟩ := listField_printed hlimit
  rw [hlist] at hencode hf
  have hcommand := command_oneField hf
  have haccepted : Program.isField "a=[]" = true := by
    rw [Program.isField, hf]
    rfl
  obtain ⟨p, t', after', hp, -, hdecode, hshown, -⟩ := decode_printed bare bare
    ["encode", "-c", "1", "--field", "a=[]"] ("camwire", {}) (oneField "a=[]") t after (Hex.text w)
    (read_oneField haccepted (by decide)) rfl (integral_oneField hf (integral_nestedList 0))
    hencode hexit hout (fun _ h => by cases h)
  have hshallow : nesting (.object (oneField "a=[]").command.members) ≤ 127 := by
    rw [nesting_oneField hf]
    decide
  obtain ⟨hexit', hout'⟩ := hshown hshallow
  have hoptions : (oneField "a=[]").options = {} := rfl
  rw [hcommand, hoptions] at hp hout'
  have hlength : p.length = 17 := by
    cases hp.symm.trans rfl
    rfl
  rw [hlength] at hout'
  refine ⟨t, after, _, t', after', hencode, hexit, hout, hdecode, hexit', hout'.trans ?_⟩
  decide

/-- As many lists in a field as its text alone may have are one container too many in the object
around them. -/
theorem encoded_not_shown :
    ∃ t after h t' after',
      bare.run ["encode", "-c", "1", "--field", listField 126] = .ok (t, after) ∧
      (∀ f ∈ (oneField (listField 126)).fields, Integral f.2) ∧ t.exitCode = 0 ∧ t.out = h ++ "\n" ∧
      bare.run ["decode", h] = .ok (t', after') ∧ t'.exitCode = 3 ∧ t'.out = "" := by
  have hlimit : 126 < Json.Reader.depthLimit := by decide
  have hf := field_listField hlimit
  have hintegral := integral_oneField hf (integral_nestedList 126)
  obtain ⟨t, after, w, hencode, hexit, hout, hw⟩ := listField_printed hlimit
  obtain ⟨after', hdecode⟩ := run_decode (m := bare) (fun _ h => by cases h) (Hex.text_no_dash w)
  have hdeep : 127 < nesting (.object (oneField (listField 126)).command.members) := by
    rw [nesting_oneField hf, nesting_nestedList]
    decide
  obtain ⟨hexit', hout'⟩ := (decode_encoded hw (Given.integral_command hintegral)).2 hdeep
  exact ⟨t, after, _, _, after', hencode, hintegral, hexit, hout, hdecode, hexit', hout'⟩

end Machine

end CameraChannel.CommandLine
