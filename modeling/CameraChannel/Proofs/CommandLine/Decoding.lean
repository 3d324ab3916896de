import CameraChannel.Proofs.CommandLine.Offline
import CameraChannel.Proofs.Frame.Lines

/-!
What decoding reports. Main statement: a text that is no hex ends the run at once; of any other the
frames are shown one a line and the refused ones are named, each with its place among all complete
frames, and the exit code tells whether anything is amiss with the bytes as a whole.
-/
namespace CameraChannel.CommandLine

open CameraChannel.Frame (rawFrame loose kept)
open RawFrame (Cut)

namespace Offline

/-- The line for a frame that stands at a place. -/
def frameLine (f : Format) (place : Nat) (frame : Frame) : String :=
  match f with
  | .json => frame.toJson.text .compact
  | .text => "#" ++ Digits.text place ++ " " ++ frame.line

/-- The lines for the frames among entries; `first` is the place of the first entry. -/
def frameLines (f : Format) (first : Nat) (es : List Entry) : List String :=
  (es.zipIdx first).filterMap fun e => e.1.toOption.map (frameLine f e.2)

def refusal? : Entry → Option FrameError
  | .error e => some e
  | .ok _ => none

/-- The reports of the refused entries. -/
def refusals (first : Nat) (es : List Entry) : List String :=
  (es.zipIdx first).filterMap fun e => (refusal? e.1).map fun reason =>
    "#" ++ Digits.text e.2 ++ " skipped: " ++ reason.message

/-- What is said last when something is amiss. -/
def complaint (trailing : Nat) (es : List Entry) : List String :=
  if 0 < trailing then
    ["Error: " ++ ("Protocol error: " ++ (Digits.text trailing ++
      " trailing bytes do not form a complete frame"))]
  else if es.any isFrame then []
  else ["Error: " ++ ("Protocol error: " ++ "no well-formed frames in input")]

/-- Text of lines. -/
def lines (ls : List String) : String := String.join (ls.map (· ++ "\n"))

theorem out_entryPrints (f : Format) (first : Nat) (es : List Entry) :
    (entryPrints f first es).filterMap Print.out? = (frameLines f first es).map (· ++ "\n") := by
  induction es generalizing first with
  | nil => rfl
  | cons e es ih =>
    cases e with
    | error reason => exact ih (first + 1)
    | ok frame => cases f <;> exact congrArg (_ :: ·) (ih (first + 1))

theorem err_entryPrints (f : Format) (first : Nat) (es : List Entry) :
    (entryPrints f first es).filterMap Print.err? = (refusals first es).map (· ++ "\n") := by
  induction es generalizing first with
  | nil => rfl
  | cons e es ih =>
    cases e with
    | error reason => exact congrArg (_ :: ·) (ih (first + 1))
    | ok frame => cases f <;> exact ih (first + 1)

theorem complaint_eq (b : Batch) : complaint b.trailing b.entries =
    ((batchError b).map fun e => "Error: " ++ e.message).toList := by
  rw [complaint, batchError]
  by_cases ht : 0 < b.trailing
  · rw [if_pos ht, if_pos ht]
    rfl
  · rw [if_neg ht, if_neg ht]
    cases b.entries.any isFrame <;> rfl

/-- What is shown of bytes hangs on their batch only. -/
theorem decodeBytes_shown (f : Format) (bs : Bytes) {b : Batch} (hb : Batch.decode bs = b) :
    (decodeBytes f bs).out = lines (frameLines f 0 b.entries) ∧
    (decodeBytes f bs).err = lines (refusals 0 b.entries ++ complaint b.trailing b.entries) ∧
    (decodeBytes f bs).exitCode = if complaint b.trailing b.entries = [] then 0 else 3 := by
  have hcode : ∀ e, batchError b = some e → e.exitCode = 3 := by
    intro e he
    rw [batchError] at he
    split at he
    · cases he; rfl
    · split at he
      · cases he
      · cases he; rfl
  rw [complaint_eq, decodeBytes, hb]
  simp only [Transcript.out, Transcript.err, lines]
  cases he : batchError b with
  | none =>
    simp [out_entryPrints, err_entryPrints]
  | some e =>
    simp [Transcript.failing, out_entryPrints, err_entryPrints, Print.errLine, Print.out?,
      Print.err?, hcode e he, List.filterMap_cons, String.join]

theorem complaint_eq_nil {trailing : Nat} {es : List Entry} :
    complaint trailing es = [] ↔ trailing = 0 ∧ ∃ frame, .ok frame ∈ es := by
  have hany : es.any isFrame = true ↔ ∃ frame, .ok frame ∈ es := by
    rw [List.any_eq_true]
    constructor
    · rintro ⟨e, he, hf⟩
      cases e with
      | error reason => cases hf
      | ok frame => exact ⟨frame, he⟩
    · rintro ⟨frame, hframe⟩
      exact ⟨_, hframe, rfl⟩
  rw [complaint, ← hany]
  split
  · simp; omega
  · split
    · simp [*]; omega
    · simp [*]

/-- Every line shows a frame that was read. -/
theorem unbroken_frameLine (f : Format) (place : Nat) {w : RawFrame} {frame : Frame}
    (h : w.entry = .ok frame) : Unbroken (frameLine f place frame).toList := by
  cases f with
  | json => exact Json.unbroken_text _
  | text =>
    obtain ⟨c, hc, rfl⟩ := Json.map_eq_ok h
    obtain ⟨ms, -, hd⟩ := Frame.parsePayload_eq_ok.1 hc
    have hplace : Unbroken (Digits.text place).toList := by
      rw [Digits.text, String.toList_ofList]
      exact (Json.Numeral.decimal place).unbroken
    rw [frameLine]
    simp only [String.toList_append]
    exact ((Unbroken.append (by decide) hplace).append (by decide)).append
      (Frame.unbroken_line hd.unreserved)

theorem unbroken_frameLines (f : Format) (first : Nat) (ws : List RawFrame) :
    ∀ l ∈ frameLines f first (ws.map RawFrame.entry), Unbroken l.toList := by
  intro l hl
  obtain ⟨e, he, hl⟩ := List.mem_filterMap.1 hl
  obtain ⟨frame, hframe, rfl⟩ := Option.map_eq_some_iff.1 hl
  obtain ⟨w, -, hw⟩ := List.mem_map.1 (List.fst_mem_of_mem_zipIdx he)
  refine unbroken_frameLine f e.2 (w := w) ?_
  rw [hw]
  cases h : e.1 with
  | error reason => rw [h] at hframe; cases hframe
  | ok frame' => rw [h] at hframe; cases hframe; rfl

theorem decodeBytes_cut (f : Format) {bs part : Bytes} {ws : List RawFrame} (h : Cut bs ws part) :
    (decodeBytes f bs).out = lines (frameLines f 0 (ws.map RawFrame.entry)) ∧
    (decodeBytes f bs).err = lines (refusals 0 (ws.map RawFrame.entry) ++
      complaint part.length (ws.map RawFrame.entry)) ∧
    ((decodeBytes f bs).exitCode = 0 ↔ part = [] ∧ ∃ w ∈ ws, ∃ frame, w.entry = .ok frame) ∧
    ((decodeBytes f bs).exitCode = 0 ∨ (decodeBytes f bs).exitCode = 3) := by
  obtain ⟨hout, herr, hcode⟩ := decodeBytes_shown f bs (Batch.decode_cut h)
  have hgood : complaint part.length (ws.map RawFrame.entry) = [] ↔
      part = [] ∧ ∃ w ∈ ws, ∃ frame, w.entry = .ok frame := by
    rw [complaint_eq_nil, List.length_eq_zero_iff]
    refine and_congr_right fun _ => ⟨?_, ?_⟩
    · rintro ⟨frame, hframe⟩
      obtain ⟨w, hw, he⟩ := List.mem_map.1 hframe
      exact ⟨w, hw, frame, he⟩
    · rintro ⟨w, hw, frame, he⟩
      exact ⟨frame, List.mem_map.2 ⟨w, hw, he⟩⟩
  refine ⟨hout, herr, ?_, ?_⟩
  · rw [hcode, ← hgood]
    split
    · next h => exact ⟨fun _ => h, fun _ => rfl⟩
    · next h => exact ⟨nofun, fun h' => absurd h' h⟩
  · rw [hcode]
    split
    · exact .inl rfl
    · exact .inr rfl

/-- A text is decoded the same from a word and from standard input. -/
theorem decodeGiven_eq (f : Format) {argument : Option String} {input : Bytes} {s : String}
    (h : argument = some s ∨ argument = none ∧ input = Utf8.ofString s) :
    decodeGiven f argument input = decode f s := by
  obtain rfl | ⟨rfl, rfl⟩ := h
  · rfl
  · rw [decodeGiven, inputText, Utf8.toString?_eq_some.2 rfl]

theorem decode_cases (f : Format) (s : String) :
    (∃ e, Hex.read s = .error e ∧ (decode f s).exitCode = 1 ∧ (decode f s).out = "") ∨
    ∃ bs, Hex.read s = .ok bs ∧ decode f s = decodeBytes f bs := by
  rw [decode]
  cases Hex.read s with
  | error e => exact .inl ⟨e, rfl, rfl, rfl⟩
  | ok bs => exact .inr ⟨bs, rfl, rfl⟩

end Offline

namespace Machine

/-- Decoding the words' text, or else standard input, reports faithfully. The run fails with code 1
and shows nothing exactly when the text is no hex. Otherwise its bytes are whole frames and a part
of one more, in one way. Standard output has a line for each frame that is read, in their order: its
object, or its text behind its place among all frames. Standard error names each of the others with
its place, and then what is amiss. The code is 0 when no part trails and some frame is read, and
else 3. -/
theorem decode_faithful (m : Machine) (words : List String) (root : String × Given) (given : Given)
    (f : Format) (s : String)
    (hread : Program.grammar.read m.environment words = .ok [root, ("decode", given)])
    (hformat : (Globals.ofLevels m.environment [root, ("decode", given)]).format = f)
    (hinput : given.argument = some s ∨ given.argument = none ∧ m.input = Utf8.ofString s) :
    ∃ t after, m.run words = .ok (t, after) ∧
      (t.exitCode = 1 ↔ ∃ e, Hex.read s = .error e) ∧ (t.exitCode = 1 → t.out = "") ∧
      ∀ bs, Hex.read s = .ok bs → ∃ ws part, Cut bs ws part ∧
        (∀ ws' part', Cut bs ws' part' → ws' = ws ∧ part' = part) ∧
        t.out = Offline.lines (Offline.frameLines f 0 (ws.map RawFrame.entry)) ∧
        (∀ l ∈ Offline.frameLines f 0 (ws.map RawFrame.entry), '\n' ∉ l.toList) ∧
        t.err = Offline.lines (Offline.refusals 0 (ws.map RawFrame.entry) ++
          Offline.complaint part.length (ws.map RawFrame.entry)) ∧
        (t.exitCode = 0 ↔ part = [] ∧ ∃ w ∈ ws, ∃ frame, w.entry = .ok frame) ∧
        (t.exitCode = 0 ∨ t.exitCode = 3) := by
  obtain ⟨after, hrun⟩ := run_decodeGiven hread
  rw [hformat, Offline.decodeGiven_eq _ hinput] at hrun
  refine ⟨_, after, hrun, ?_⟩
  obtain ⟨e, he, hcode, hout⟩ | ⟨bs, hbs, hd⟩ := Offline.decode_cases f s
  · refine ⟨⟨fun _ => ⟨e, he⟩, fun _ => hcode⟩, fun _ => hout, fun bs hbs => ?_⟩
    cases he.symm.trans hbs
  · obtain ⟨ws, part, hcut⟩ := RawFrame.exists_cut bs
    obtain ⟨hout, herr, hzero, hthree⟩ := Offline.decodeBytes_cut f hcut
    have hone : (Offline.decode f s).exitCode ≠ 1 := by
      rw [hd]
      omega
    refine ⟨⟨fun h => absurd h hone, ?_⟩, fun h => absurd h hone, fun bs' hbs' => ?_⟩
    · rintro ⟨e, he⟩
      cases he.symm.trans hbs
    · cases hbs.symm.trans hbs'
      rw [hd]
      exact ⟨ws, part, hcut, fun _ _ => hcut.unique, hout,
        fun l hl => (Offline.unbroken_frameLines f 0 ws l hl).no_newline, herr, hzero, hthree⟩

/-- A frame without a payload, one that is read, and a byte. -/
def mixed : Bytes := RawFrame.wire [rawFrame [] {}, loose] ++ [0]

theorem mixed_cut : Cut mixed [rawFrame [] {}, loose] [0] := by
  refine ⟨fun w hw => ?_, .of_longer (w := rawFrame [] {}) rfl ⟨_, rfl⟩ (by decide), rfl⟩
  simp only [List.mem_cons, List.not_mem_nil, or_false] at hw
  obtain rfl | rfl := hw <;> rfl

theorem decode_faithful_mixed :
    ∃ t after reason, bare.run ["decode", Hex.text mixed] = .ok (t, after) ∧ t.exitCode = 3 ∧
      t.out = "#1 " ++ kept.line ++ "\n" ∧
      t.err = Offline.lines ["#0 skipped: " ++ FrameError.message (.malformed reason 18),
        "Error: Protocol error: 1 trailing bytes do not form a complete frame"] := by
  have husable : Program.Usable bare.environment := fun _ h => by cases h
  have hread := Program.read_decode husable (Hex.text_no_dash mixed)
  obtain ⟨t, after, hrun, -, -, hreport⟩ := decode_faithful bare _ _ _ .text _ hread rfl (.inl rfl)
  obtain ⟨ws, part, -, hunique, hout, -, herr, hzero, hthree⟩ := hreport _ (Hex.read_text mixed)
  obtain ⟨rfl, rfl⟩ := hunique _ _ mixed_cut
  have hempty : ∃ reason, (rawFrame [] {}).entry = .error (.malformed reason 18) := ⟨_, rfl⟩
  obtain ⟨reason, hempty⟩ := hempty
  rw [List.map_cons, List.map_cons, List.map_nil, hempty, Frame.entry_loose] at hout herr
  refine ⟨t, after, reason, hrun, hthree.resolve_left fun h => ?_, hout.trans ?_, herr.trans ?_⟩
  · exact absurd (hzero.1 h).1 (by decide)
  · change String.join ["#" ++ Digits.text 1 ++ " " ++ kept.line ++ "\n"] = _
    rw [show "#" ++ Digits.text 1 ++ " " = "#1 " by decide, String.join_cons, String.join_nil,
      String.append_empty]
  · have hskipped : "#" ++ Digits.text 0 ++ " skipped: " = "#0 skipped: " := by decide
    have hcomplaint : "Error: " ++ ("Protocol error: " ++ (Digits.text 1 ++
        " trailing bytes do not form a complete frame")) =
        "Error: Protocol error: 1 trailing bytes do not form a complete frame" := by decide +kernel
    rw [← hskipped, ← hcomplaint]
    rfl

end Machine

end CameraChannel.CommandLine
