import CameraChannel.CommandLine.Values
import CameraChannel.Proofs.Command.Agreement
import CameraChannel.Proofs.Command.Resending
import CameraChannel.Proofs.Command.Reserved
import CameraChannel.Proofs.Frame.Boundaries
import CameraChannel.Proofs.Text.Hex

/-!
Frames as they are shown, on a line and as an object. Both tell every field of the header and the
command itself. Main statement: `Frame.rendering_lossless`.
-/
namespace CameraChannel

open Json (values canonical canonicalOnto Integral)
open Command (Reserved Describes)

namespace Json

theorem values_append (name : String) (ms ns : List (String × Json)) :
    values name (ms ++ ns) = values name ms ++ values name ns := by
  rw [values, List.filter_append, List.map_append]
  rfl

/-- The member of an object that has a name. -/
def member? (name : String) : Json → Option Json
  | .object ms => ms.lookup name
  | _ => none

theorem member?_canonical (name : String) (ms : List (String × Json)) :
    (canonical (.object ms)).member? name = (values name ms).getLast?.map canonical := by
  rw [canonical, ← Fields.entries_ofMembers, ← Fields.get?_ofMembers]
  rfl

def nat? : Json → Option Nat
  | .integer n => if 0 ≤ n.val then some n.val.toNat else none
  | _ => none

def string? : Json → Option String
  | .string s => some s
  | _ => none

@[simp] theorem nat?_ofUInt64 (n : UInt64) : (ofUInt64 n).nat? = some n.toNat := by
  simp [ofUInt64, nat?]

end Json

theorem Fields.canonical_of_get? {f : Fields} {name : String} {v : Json}
    (h : f.get? name = some v) : v.canonical = v := by
  rw [Fields.get?, List.lookup_eq_some_iff] at h
  obtain ⟨ms, ns, h, -⟩ := h
  exact (f.entries_canonical (name, v) (by rw [h]; simp)).canonical_eq

namespace Command

variable {c : Command}

theorem Unreserved.get?_extra (h : c.Unreserved) (r : Reserved) : c.extra.get? r.name = none := by
  have := h r
  rwa [Fields.contains, Option.isSome_eq_false_iff, Option.isNone_iff_eq_none] at this

/-- The members of a command have for each name what the command has for it. -/
theorem values_members (h : c.Unreserved) (name : String) :
    values name c.members = (c.get? name).toList := by
  have hne : Reserved.code.name ≠ Reserved.target.name := by decide
  have hextra := Json.values_ascending c.extra.ascending name
  rw [members, get?]
  by_cases hcode : name = Reserved.code.name
  · subst hcode
    rw [Json.values_cons_self, Json.values_append, hextra, if_pos rfl]
    change _ :: (_ ++ (c.extra.get? Reserved.code.name).toList) = _
    rw [h.get?_extra .code, Option.toList_none, List.append_nil]
    cases c.target with
    | none => rfl
    | some t => exact congrArg _ (Json.values_cons_of_ne hne.symm _ _)
  rw [Json.values_cons_of_ne (Ne.symm hcode), Json.values_append, hextra, if_neg hcode]
  by_cases htarget : name = Reserved.target.name
  · subst htarget
    rw [if_pos rfl]
    change _ ++ (c.extra.get? Reserved.target.name).toList = _
    rw [h.get?_extra .target, Option.toList_none, List.append_nil]
    cases c.target with
    | none => rfl
    | some t => exact Json.values_cons_self _ _ _
  · rw [if_neg htarget]
    cases c.target with
    | none => rfl
    | some t => exact congrArg (· ++ _) (Json.values_cons_of_ne (Ne.symm htarget) _ _)

/-- What a command has for a name is in order. -/
theorem get?_canonical (c : Command) (name : String) :
    (c.get? name).map canonical = c.get? name := by
  rw [get?]
  split
  · rfl
  · split
    · cases c.target <;> rfl
    · cases h : c.extra.get? name with
      | none => rfl
      | some v => rw [Option.map_some, Fields.canonical_of_get? h]

/-- A command is described by its own members. -/
theorem Unreserved.describes (h : c.Unreserved) : Describes c.members c := by
  refine ⟨values_members h _, ?_, h.get?_extra, fun name hname => ?_⟩
  · rw [values_members h]
    change (_ ∧ ((c.target.map Json.string).toList = _ ∨ (c.target.map Json.string).toList = _)) ∨
      ∃ s, _ ∧ (c.target.map Json.string).toList = _
    cases c.target with
    | none => exact .inl ⟨rfl, .inl rfl⟩
    | some t => exact .inr ⟨t, rfl, rfl⟩
  · have hget : c.get? name = c.extra.get? name := by
      rw [get?, if_neg (hname .code), if_neg (hname .target)]
    have hc := c.get?_canonical name
    rw [values_members h, hget]
    rw [hget] at hc
    cases hv : c.extra.get? name with
    | none => rfl
    | some v => rw [hv] at hc; exact hc.symm

/-- The value of a command that can be sent is an object with the command's own fields, and is that
command. -/
theorem Unreserved.value (h : c.Unreserved) :
    Frame.messageValue c = canonical (.object c.members) ∧
      (∀ name, (Frame.messageValue c).member? name = c.get? name) ∧
      ofJson (Frame.messageValue c) = .ok c := by
  have hv : Frame.messageValue c = canonical (.object c.members) := by
    rw [Frame.messageValue, h.document]
  refine ⟨hv, fun name => ?_, ?_⟩
  · have hc := c.get?_canonical name
    rw [hv, Json.member?_canonical, values_members h]
    cases hg : c.get? name with
    | none => rfl
    | some v => rw [hg] at hc; exact hc
  · rw [hv]
    exact ofJson_canonical_eq_ok.2 (describes_iff_latest.1 h.describes).2

end Command

/-- A header as it is shown: numbers, and the forwarding token in hex. -/
structure Header.Shown where
  length : Nat
  messageFlag : Nat
  packageId : Nat
  dealFlag : Nat
  forwardId : String

namespace Header

def shown (h : Header) : Shown where
  length := h.length.toNat
  messageFlag := h.messageFlag.toNat
  packageId := h.packageId.toNat
  dealFlag := h.dealFlag.toNat
  forwardId := Hex.text h.forwardId.toList

/-- The header that is shown so, with the token read as on the command line. -/
def Shown.header? (s : Shown) : Option Header :=
  match CommandLine.forwardId s.forwardId with
  | .error _ => none
  | .ok forwardId =>
    if s.length < 0x100000000 ∧ s.messageFlag < 256 ∧
        s.packageId < 0x100000000 ∧ s.dealFlag < 256 then
      some {
        length := UInt32.ofNat s.length
        messageFlag := UInt8.ofNat s.messageFlag
        packageId := UInt32.ofNat s.packageId
        dealFlag := UInt8.ofNat s.dealFlag
        forwardId }
    else none

/-- What an object shows of a header. -/
def Shown.ofJson? (v : Json) : Option Shown := do
  let length ← (← v.member? "length").nat?
  let messageFlag ← (← v.member? "message_flag").nat?
  let packageId ← (← v.member? "package_id").nat?
  let dealFlag ← (← v.member? "deal_flag").nat?
  let forwardId ← (← v.member? "forward_id").string?
  return { length, messageFlag, packageId, dealFlag, forwardId }

/-- What stands behind so many spaces. -/
def afterSpaces : Nat → List Char → List Char
  | 0, cs => cs
  | n + 1, cs => afterSpaces n ((cs.dropWhile (· != ' ')).drop 1)

/-- The word behind so many spaces, without the label in front of it. -/
def labelled? (label : String) (n : Nat) (line : List Char) : Option (List Char) :=
  label.toList.isPrefixOf? ((afterSpaces n line).takeWhile (· != ' '))

/-- What a line shows of a header. -/
def Shown.ofLine? (line : List Char) : Option Shown := do
  let length ← Digits.read? (← labelled? "len=" 0 line)
  let messageFlag ← Digits.read? (← labelled? "flag=" 1 line)
  let packageId ← Digits.read? (← labelled? "package=" 2 line)
  let dealFlag ← Digits.read? (← labelled? "deal=" 3 line)
  let forwardId ← labelled? "forward=" 4 line
  return { length, messageFlag, packageId, dealFlag, forwardId := String.ofList forwardId }

theorem forwardId_text (id : ForwardId) : CommandLine.forwardId (Hex.text id.toList) = .ok id := by
  rw [CommandLine.forwardId, Hex.read_text]
  obtain ⟨⟨l⟩, hl⟩ := id
  exact dif_pos hl

theorem header?_shown (h : Header) : h.shown.header? = some h := by
  have hlength := h.length.toNat_lt
  have hflag := h.messageFlag.toNat_lt
  have hpackage := h.packageId.toNat_lt
  have hdeal := h.dealFlag.toNat_lt
  rw [Shown.header?, shown]
  simp only [forwardId_text]
  rw [if_pos ⟨hlength, hflag, hpackage, hdeal⟩]
  simp

theorem shown_inj {a b : Header} (h : a.shown = b.shown) : a = b :=
  Option.some.inj (by rw [← header?_shown a, h, header?_shown b])

end Header

namespace Frame

variable {f : Frame}

theorem member?_toJson (f : Frame) :
    f.toJson.member? "length" = some (.ofUInt32 f.header.length) ∧
    f.toJson.member? "message_flag" = some (.ofUInt8 f.header.messageFlag) ∧
    f.toJson.member? "package_id" = some (.ofUInt32 f.header.packageId) ∧
    f.toJson.member? "deal_flag" = some (.ofUInt8 f.header.dealFlag) ∧
    f.toJson.member? "forward_id" = some (.string (Hex.text f.header.forwardId.toList)) ∧
    f.toJson.member? "message" = some (messageValue f.message).canonical := by
  simp only [toJson, Json.member?_canonical]
  exact ⟨rfl, rfl, rfl, rfl, rfl, rfl⟩

theorem ofJson?_toJson (f : Frame) : Header.Shown.ofJson? f.toJson = some f.header.shown := by
  obtain ⟨hlength, hflag, hpackage, hdeal, hforward, -⟩ := f.member?_toJson
  rw [Header.Shown.ofJson?, hlength, hflag, hpackage, hdeal, hforward]
  simp [Json.ofUInt32, Json.ofUInt8, Json.string?, Header.shown]

theorem messageValue_canonical (c : Command) : (messageValue c).canonical = messageValue c := by
  rw [messageValue]
  cases c.document with
  | ok v => exact (Json.canonical_canonical v).canonical_eq
  | error r => rfl

end Frame

namespace Header

variable {w cs : List Char}

theorem dropWhile_word (h : ' ' ∉ w) (cs : List Char) :
    (w ++ ' ' :: cs).dropWhile (· != ' ') = ' ' :: cs := by
  have hw : ∀ c ∈ w, (c != ' ') = true := fun c hc => by
    simpa using fun e : c = ' ' => h (e ▸ hc)
  rw [List.dropWhile_append_of_pos hw, List.dropWhile_cons_of_neg (by simp)]

theorem takeWhile_word (h : ' ' ∉ w) (cs : List Char) :
    (w ++ ' ' :: cs).takeWhile (· != ' ') = w := by
  have hw : ∀ c ∈ w, (c != ' ') = true := fun c hc => by
    simpa using fun e : c = ' ' => h (e ▸ hc)
  rw [List.takeWhile_append_of_pos hw, List.takeWhile_cons_of_neg (by simp), List.append_nil]

theorem afterSpaces_word (h : ' ' ∉ w) (n : Nat) (cs : List Char) :
    afterSpaces (n + 1) (w ++ ' ' :: cs) = afterSpaces n cs := by
  rw [afterSpaces, dropWhile_word h]
  rfl

theorem labelled?_later (h : ' ' ∉ w) (label : String) (n : Nat) (cs : List Char) :
    labelled? label (n + 1) (w ++ ' ' :: cs) = labelled? label n cs := by
  rw [labelled?, afterSpaces_word h, labelled?]

theorem labelled?_first {label : String} (h : ' ' ∉ label.toList ++ w) (cs : List Char) :
    labelled? label 0 ((label.toList ++ w) ++ ' ' :: cs) = some w := by
  rw [labelled?, afterSpaces, takeWhile_word h, List.isPrefixOf?_eq_some_iff_append_eq]

theorem space_not_mem_decimal (n : Nat) : ' ' ∉ Digits.decimal n := by
  intro h
  have := Digits.isSome_value?_of_readFrom (Digits.readFrom_decimal n) ' ' h
  exact absurd this (by decide)

theorem space_not_mem_hex (bs : Bytes) : ' ' ∉ Hex.encode bs := by
  intro h
  obtain ⟨d, hd⟩ := (Hex.spells_encode bs).digit _ h
  exact absurd (Hex.digit_read hd).2.2.1 (by decide)

end Header

namespace Frame

/-- The words of a line, each behind its label, and the command behind the last of them. -/
theorem toList_line (f : Frame) :
    f.line.toList =
      ("len=".toList ++ Digits.decimal f.header.length.toNat) ++ ' ' ::
      (("flag=".toList ++ Digits.decimal f.header.messageFlag.toNat) ++ ' ' ::
      (("package=".toList ++ Digits.decimal f.header.packageId.toNat) ++ ' ' ::
      (("deal=".toList ++ Digits.decimal f.header.dealFlag.toNat) ++ ' ' ::
      (("forward=".toList ++ Hex.encode f.header.forwardId.toList) ++ ' ' ::
        f.message.text.toList)))) := by
  -- the equation of this definition takes seconds to find
  delta line
  simp only [String.toList_append, Digits.text, Hex.text, String.toList_ofList, List.append_assoc]
  rfl

theorem line_read (f : Frame) : Header.Shown.ofLine? f.line.toList = some f.header.shown ∧
    Header.afterSpaces 5 f.line.toList = f.message.text.toList := by
  have number (label : String) (h : ' ' ∉ label.toList) (n : Nat) :
      ' ' ∉ label.toList ++ Digits.decimal n := fun hm =>
    (List.mem_append.1 hm).elim h (Header.space_not_mem_decimal n)
  have hlength := number "len=" (by decide) f.header.length.toNat
  have hflag := number "flag=" (by decide) f.header.messageFlag.toNat
  have hpackage := number "package=" (by decide) f.header.packageId.toNat
  have hdeal := number "deal=" (by decide) f.header.dealFlag.toNat
  have hforward : ' ' ∉ "forward=".toList ++ Hex.encode f.header.forwardId.toList := fun hm =>
    (List.mem_append.1 hm).elim (by decide) (Header.space_not_mem_hex _)
  rw [toList_line]
  constructor
  · simp only [Header.Shown.ofLine?, Header.labelled?_later hlength, Header.labelled?_later hflag,
      Header.labelled?_later hpackage, Header.labelled?_later hdeal, Header.labelled?_first hlength,
      Header.labelled?_first hflag, Header.labelled?_first hpackage, Header.labelled?_first hdeal,
      Header.labelled?_first hforward, bind, Option.bind, Digits.read?_decimal]
    rfl
  · rw [Header.afterSpaces_word hlength, Header.afterSpaces_word hflag,
      Header.afterSpaces_word hpackage, Header.afterSpaces_word hdeal,
      Header.afterSpaces_word hforward]
    rfl

/-- Bytes give a frame at a place among all their frames, and its payload holds no float. -/
structure Decoded (d : Bytes) (i : Nat) (f : Frame) : Prop where
  entry : (Batch.decode d).entries[i]? = some (.ok f)
  integral : ∀ ws t w v, RawFrame.Cut d ws t → ws[i]? = some w → Json.read w.payload = .ok v →
    Integral v

variable {d : Bytes} {i : Nat}

theorem decoded_of_cut {ws : List RawFrame} {t : Bytes} {w : RawFrame} (h : RawFrame.Cut d ws t)
    (hw : ws[i]? = some w) (he : w.entry = .ok f)
    (hi : ∀ v, Json.read w.payload = .ok v → Integral v) : Decoded d i f := by
  refine ⟨?_, fun ws' t' w' v h' hw' hv => ?_⟩
  · rw [Batch.decode_cut h, List.getElem?_map, hw, Option.map_some, he]
  · obtain ⟨rfl, -⟩ := h.unique h'
    obtain rfl := Option.some.inj (hw.symm.trans hw')
    exact hi v hv

/-- The command of such a frame is read again from what it is sent as. -/
theorem Decoded.readable (h : Decoded d i f) : f.message.Unreserved ∧
    Integral f.message.extra.toJson ∧
    Json.nesting (.object f.message.members) ≤ Json.Reader.depthLimit := by
  obtain ⟨ws, t, hcut⟩ := RawFrame.exists_cut d
  have he := h.entry
  rw [Batch.decode_cut hcut, List.getElem?_map, Option.map_eq_some_iff] at he
  obtain ⟨w, hw, he⟩ := he
  obtain ⟨c, hc, rfl⟩ := Json.map_eq_ok he
  obtain ⟨ms, hread, hd⟩ := parsePayload_eq_ok.1 hc
  have hms : ∀ m ∈ ms, Integral m.2 := by
    cases h.integral ws t w _ hcut hw hread with
    | object hms => exact hms
  exact ⟨hd.unreserved, hd.integral hms, hd.nesting_le hms (Json.read_text hread).1⟩

theorem Decoded.parsePayload_line (h : Decoded d i f) (n : Nat) :
    parsePayload (Utf8.ofChars (Header.afterSpaces 5 f.line.toList)) n = .ok f.message := by
  obtain ⟨hu, hi, hn⟩ := h.readable
  rw [f.line_read.2, ← Utf8.ofString, Command.text_sent hu, parsePayload, Command.payload,
    Command.parse_taken Style.compact.blanks hu hi hn]
  rfl

theorem Decoded.member?_toJson (h : Decoded d i f) :
    f.toJson.member? "message" = some (canonical (.object f.message.members)) := by
  obtain ⟨-, -, -, -, -, hm⟩ := f.member?_toJson
  rw [hm, messageValue_canonical, h.readable.1.value.1]

variable {d' : Bytes} {j : Nat} {g : Frame}

theorem eq_of_parts (hheader : f.header = g.header) (hmessage : f.message = g.message) : f = g := by
  cases f
  cases g
  cases hheader
  cases hmessage
  rfl

/-- A line is that of one frame only. -/
theorem Decoded.line_inj (hf : Decoded d i f) (hg : Decoded d' j g) (h : f.line = g.line) :
    f = g := by
  have hheader : f.header = g.header := Header.shown_inj <| by
    have := f.line_read.1
    rw [h, g.line_read.1] at this
    exact (Option.some.inj this).symm
  have hmessage : f.message = g.message := by
    have := hf.parsePayload_line 0
    rw [h, hg.parsePayload_line 0] at this
    exact (Except.ok.inj this).symm
  exact eq_of_parts hheader hmessage

/-- An object is that of one frame only. -/
theorem Decoded.toJson_inj (hf : Decoded d i f) (hg : Decoded d' j g) (h : f.toJson = g.toJson) :
    f = g := by
  have hheader : f.header = g.header := Header.shown_inj <| by
    have := f.ofJson?_toJson
    rw [h, g.ofJson?_toJson] at this
    exact (Option.some.inj this).symm
  have hmessage : f.message = g.message := by
    obtain ⟨hv, -, hof⟩ := hf.readable.1.value
    obtain ⟨hv', -, hof'⟩ := hg.readable.1.value
    have hshown := hf.member?_toJson
    rw [h, hg.member?_toJson, ← hv, ← hv'] at hshown
    rw [← Option.some.inj hshown, hof'] at hof
    exact (Except.ok.inj hof).symm
  exact eq_of_parts hheader hmessage

/-- A frame taken from bytes, its payload without floats, is shown with nothing lost. In its object
the command is an object again, never null, which has for every name what the command has for it and
which is that command; the line ends with the compact payload, which is read as the command; and
both tell every field of the header. So either of them determines the frame, and with it the
other. -/
theorem rendering_lossless (h : Decoded d i f) :
    (∃ ms, f.toJson.member? "message" = some (.object ms) ∧ Json.Canonical (.object ms) ∧
      (∀ name, ms.lookup name = f.message.get? name) ∧
      Command.ofJson (.object ms) = .ok f.message) ∧
    (∃ p, encodePayload (.command f.message) .compact = .ok p ∧
      Utf8.ofChars (Header.afterSpaces 5 f.line.toList) = p ∧
        ∀ n, parsePayload p n = .ok f.message) ∧
    (Header.Shown.ofLine? f.line.toList).bind Header.Shown.header? = some f.header ∧
    (Header.Shown.ofJson? f.toJson).bind Header.Shown.header? = some f.header ∧
    ∀ {d' j g}, Decoded d' j g → (f.line = g.line ↔ f = g) ∧ (f.toJson = g.toJson ↔ f = g) := by
  obtain ⟨hu, -, -⟩ := h.readable
  obtain ⟨hv, hget, hof⟩ := hu.value
  have hms : canonical (.object f.message.members) =
      .object (canonicalOnto [] f.message.members) := by
    rw [canonical]
  have hpayload : Utf8.ofChars (Header.afterSpaces 5 f.line.toList) =
      f.message.payload .compact := by
    rw [f.line_read.2, ← Utf8.ofString, Command.text_sent hu]
  refine ⟨⟨canonicalOnto [] f.message.members, ?_, ?_, fun name => ?_, ?_⟩,
    ⟨_, encodePayload_command hu .compact, hpayload, fun n => hpayload ▸ h.parsePayload_line n⟩,
    ?_, ?_, fun hg => ⟨⟨h.line_inj hg, congrArg line⟩, ⟨h.toJson_inj hg, congrArg toJson⟩⟩⟩
  · rw [h.member?_toJson, hms]
  · exact hms ▸ Json.canonical_canonical _
  · rw [← hget, hv, hms]
    rfl
  · rw [← hof, hv, hms]
  · rw [f.line_read.1, Option.bind_some, Header.header?_shown]
  · rw [f.ofJson?_toJson, Option.bind_some, Header.header?_shown]

/-- A payload with blanks, a field that is repeated, and no device. -/
def loose : RawFrame :=
  rawFrame (Utf8.ofString "\x7b\"b\":[1], \"code\" :3,\"devTarget\":null,\"b\":\"\u00e9\"\x7d")
    { messageFlag := 255, packageId := 0x01020304,
      forwardId := #v[0, 1, 2, 3, 0xfc, 0xfd, 0xfe, 0xff] }

/-- The frame with it. -/
def kept : Frame := ⟨loose.header, ({ code := 3 } : Command).withField "b" (.string "\u00e9")⟩

theorem entry_loose : loose.entry = .ok kept := by
  have hm : parsePayload loose.payload loose.header.frameLength = .ok kept.message :=
    parsePayload_of_parsesAs (by decide +kernel) _
  rw [RawFrame.entry, hm]
  rfl

theorem rendering_lossless_second :
    Decoded (RawFrame.wire [rawFrame [] {}, loose] ++ [0]) 1 kept ∧
    (Header.Shown.ofLine? kept.line.toList).bind Header.Shown.header? = some loose.header ∧
    ∃ ms, kept.toJson.member? "message" = some (.object ms) ∧ ms.lookup "devTarget" = none ∧
      Command.ofJson (.object ms) = .ok kept.message := by
  have hread : Json.read loose.payload =
      .ok (.object [("b", .array [.ofInt64 1]), ("code", .ofInt64 3),
        ("devTarget", .null), ("b", .string "\u00e9")]) := Json.read_of_readsAs (by decide +kernel)
  have hcut : RawFrame.Cut (RawFrame.wire [rawFrame [] {}, loose] ++ [0])
      [rawFrame [] {}, loose] [0] := by
    refine ⟨fun w hw => ?_, .of_longer (w := rawFrame [] {}) rfl ⟨_, rfl⟩ (by decide), rfl⟩
    simp only [List.mem_cons, List.not_mem_nil, or_false] at hw
    obtain rfl | rfl := hw <;> rfl
  have h : Decoded (RawFrame.wire [rawFrame [] {}, loose] ++ [0]) 1 kept := by
    refine decoded_of_cut hcut rfl entry_loose fun v hv => ?_
    rw [hread] at hv
    cases hv
    exact Json.integral_of_isIntegral _ (by decide +kernel)
  obtain ⟨⟨ms, hms, -, hget, hof⟩, -, hline, -⟩ := rendering_lossless h
  exact ⟨h, hline, ms, hms, hget _, hof⟩

end Frame

end CameraChannel
