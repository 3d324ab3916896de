import CameraChannel.Command.Reader
import CameraChannel.Proofs.Json.Canonical
import CameraChannel.Proofs.Json.Typed

/-!
Commands read back from the text they are sent as. A command without floats comes out as it went
in, unless its object is nested deeper than the reader allows.
-/
namespace CameraChannel

open Json (Integral Layout Blank render membersText memberText)
open Json.Number (Stops)
open Json.Scan (Absorbs Rejects Fails)
open Utf8 (ofChars)

namespace Command

variable {l : Layout} {d : Nat}

/-- The members that may stand beside the code and the target. -/
def Free (m : String × Json) : Prop := ∀ r : Reserved, m.1 ≠ r.name

theorem member_code (hl : l.Blanks) (n : Int64) {rest : Bytes} (hs : Stops rest) :
    Draft.member Reserved.code.name {} (ofChars (memberText l d (.ofInt64 n)) ++ rest) =
      .ok ({ code := some n }, rest) := by
  rw [Draft.member, if_pos rfl, Json.Scan.colon_memberText]
  simp only [bind, Except.bind, Json.Typed.int64_taken hl.afterColon n hs]
  rfl

theorem member_target (hl : l.Blanks) (n : Int64) (t : String) (rest : Bytes) :
    Draft.member Reserved.target.name { code := some n }
        (ofChars (memberText l d (.string t)) ++ rest) =
      .ok ({ code := some n, target := some (some t) }, rest) := by
  rw [Draft.member, if_neg (by decide), if_pos rfl, Json.Scan.colon_memberText]
  simp only [bind, Except.bind, Json.Typed.optional_string_taken hl.afterColon t]
  rfl

theorem member_free {m : String × Json} (h : Free m) (s : Draft) (bs : Bytes) :
    Draft.member m.1 s bs =
      (Json.Reader.member (Json.Reader.value innerDepth) m.1 s.extra bs).map fun r =>
        ({ s with extra := r.1 }, r.2) := by
  rw [Draft.member, if_neg (h .code), if_neg (h .target)]
  cases Json.Reader.member (Json.Reader.value innerDepth) m.1 s.extra bs <;> rfl

/-- A further member is put in front of those before it. -/
def Draft.push (s : Draft) (m : String × Json) : Draft := { s with extra := m :: s.extra }

theorem member_absorbs (hl : l.Blanks) {m : String × Json} (hm : Free m) (hi : Integral m.2)
    (h : m.2.nesting ≤ innerDepth) : Absorbs l d Draft.member Draft.push m := by
  intro s rest hs
  rw [member_free hm, Json.Reader.member_absorbs hl ((Json.Reader.handles hi _ l d hl).1 h) _ _ hs]
  rfl

theorem member_rejects (hl : l.Blanks) {m : String × Json} (hm : Free m) (hi : Integral m.2)
    (h : innerDepth < m.2.nesting) : Rejects l d Draft.member .tooDeep m := by
  intro s rest hs
  obtain ⟨e, he, hc⟩ :=
    Json.Reader.member_rejects hl ((Json.Reader.handles hi _ l d hl).2 h) s.extra _ hs
  rw [member_free hm, he]
  exact ⟨e, rfl, hc⟩

theorem foldl_push (ms : List (String × Json)) (s : Draft) :
    ms.foldl Draft.push s = { s with extra := ms.reverse ++ s.extra } := by
  induction ms generalizing s with
  | nil => rfl
  | cons m ms ih => simp [ih, Draft.push]

/-- The draft behind the code and the target. -/
def headed (c : Command) : Draft := { code := some c.code, target := c.target.map some }

/-- The members before the further ones. -/
def head (c : Command) : List (String × Json) :=
  (Reserved.code.name, .ofInt64 c.code) ::
    (c.target.map fun t => (Reserved.target.name, Json.string t)).toList

theorem members_eq (c : Command) : c.members = c.head ++ c.extra.entries := rfl

theorem read_head (hl : l.Blanks) (c : Command) {cs : List Char} (hcs : Blank cs) (n : Nat)
    (rest : Bytes) :
    Json.Scan.members Draft.member (n + c.head.length) true {}
        (ofChars (membersText l d true c.members) ++ (ofChars cs ++ ascii '\x7d' :: rest)) =
      Json.Scan.members Draft.member n false c.headed
        (ofChars (membersText l d false c.extra.entries) ++
          (ofChars cs ++ ascii '\x7d' :: rest)) := by
  obtain ⟨code, target, extra⟩ := c
  cases target with
  | none =>
    change Json.Scan.members Draft.member (n + 1) true {} (ofChars (membersText l d true
      ((Reserved.code.name, .ofInt64 code) :: extra.entries)) ++ _) = _
    rw [Json.Scan.members_cons hl, member_code hl code (Json.Scan.stops_members _ hcs rest)]
    rfl
  | some t =>
    change Json.Scan.members Draft.member (n + 1 + 1) true {} (ofChars (membersText l d true
      ((Reserved.code.name, .ofInt64 code) :: (Reserved.target.name, .string t) ::
        extra.entries)) ++ _) = _
    rw [Json.Scan.members_cons hl, member_code hl code (Json.Scan.stops_members _ hcs rest)]
    simp only [bind, Except.bind]
    rw [Json.Scan.members_cons hl, member_target hl code t]
    rfl

theorem nesting_members {c : Command} : (Json.object c.members).nesting ≤ Json.Reader.depthLimit ↔
    ∀ m ∈ c.extra.entries, m.2.nesting ≤ innerDepth := by
  have h0 : ∀ m ∈ c.head, m.2.nesting = 0 := by
    intro m hm
    obtain rfl | hm := List.mem_cons.1 hm
    · rfl
    · cases ht : c.target with
      | none => simp [ht] at hm
      | some t =>
        simp only [ht, Option.map_some, Option.toList_some, List.mem_singleton] at hm
        rw [hm]
        rfl
  rw [Json.nesting, Json.Reader.depthLimit, show (127 : Nat) = innerDepth + 1 from rfl,
    Nat.add_le_add_iff_right, Json.nestingMembers_le, members_eq]
  refine ⟨fun h m hm => h m (List.mem_append_right _ hm), fun h m hm => ?_⟩
  obtain hm | hm := List.mem_append.1 hm
  · rw [h0 m hm]
    exact Nat.zero_le _
  · exact h m hm

theorem integral_members {c : Command} (h : Integral c.extra.toJson) :
    Integral (.object c.members) := by
  cases h with
  | object h =>
    refine .object fun m hm => ?_
    rw [members_eq] at hm
    obtain hm | hm := List.mem_append.1 hm
    · obtain rfl | hm := List.mem_cons.1 hm
      · exact .integer _
      · obtain ⟨t, -, rfl⟩ :
            ∃ t, c.target = some t ∧ (Reserved.target.name, Json.string t) = m := by
          simpa using hm
        exact .string _
    · exact h m hm

/-- The text of a command, opened up to its further members. -/
theorem read_text (hl : l.Blanks) (c : Command) (rest : Bytes) :
    ∃ fuel, c.extra.entries.length < fuel ∧
      read (ofChars (render l d (.object c.members)) ++ rest) = (do
        let (s, rest) ← Json.Scan.members Draft.member fuel false c.headed
          (ofChars (membersText l (d + 1) false c.extra.entries) ++
            (ofChars (l.ending d c.members.isEmpty) ++ ascii '\x7d' :: rest))
        match s.command with
        | .ok c => .ok (c, rest)
        | .error r => .error (Json.fault (.missingField r.name) rest)) := by
  have hlen := Json.Scan.length_le_membersText l (d + 1) true c.members
  have hcount : c.members.length = c.head.length + c.extra.entries.length := by
    rw [members_eq, List.length_append]
  obtain ⟨n, hn⟩ : ∃ n, (ofChars (membersText l (d + 1) true c.members) ++
      (ofChars (l.ending d c.members.isEmpty) ++ ascii '\x7d' :: rest)).length + 1 =
      n + c.head.length ∧ c.extra.entries.length < n := by
    refine ⟨(ofChars (membersText l (d + 1) true c.members) ++
      (ofChars (l.ending d c.members.isEmpty) ++ ascii '\x7d' :: rest)).length + 1 -
      c.head.length, ?_, ?_⟩ <;> (rw [List.length_append]; omega)
  refine ⟨n, hn.2, ?_⟩
  rw [← read_head hl c (hl.ending d _), ← hn.1, Json.render_object]
  simp only [Utf8.ofChars_cons, Utf8.ofChars_append, List.append_assoc]
  rfl

/-- No further field has a name that is reserved. -/
def Unreserved (c : Command) : Prop := ∀ r : Reserved, c.extra.contains r.name = false

theorem Unreserved.free {c : Command} (h : c.Unreserved) : ∀ m ∈ c.extra.entries, Free m :=
  fun m hm r => Fields.contains_eq_false.1 (h r) m hm

theorem Unreserved.document {c : Command} (h : c.Unreserved) :
    c.document = .ok (.object c.members) := by
  rw [Command.document, clash, h .code, h .target]
  rfl

theorem unreserved_of_document {c : Command} {v : Json} (h : c.document = .ok v) :
    c.Unreserved := by
  rw [Command.document] at h
  cases hc : c.clash with
  | some r =>
    rw [hc] at h
    cases h
  | none =>
    rw [clash] at hc
    split at hc
    · cases hc
    · next hcode =>
      split at hc
      · cases hc
      · next htarget =>
        intro r
        cases r with
        | code => exact Bool.eq_false_iff.2 hcode
        | target => exact Bool.eq_false_iff.2 htarget

theorem headed_command (c : Command) :
    (c.extra.entries.foldl Draft.push c.headed).command = .ok c := by
  rw [foldl_push]
  have he : Fields.ofMembers (c.extra.entries.reverse ++ []).reverse = c.extra := by
    rw [List.append_nil, List.reverse_reverse, Fields.ofMembers_entries]
  obtain ⟨code, target, extra⟩ := c
  cases target with
  | none => simp only [headed, Draft.command, Option.map_none, Option.join_none]; rw [he]
  | some t => simp only [headed, Draft.command, Option.map_some, Option.join_some]; rw [he]

variable {c : Command}

theorem read_taken (hl : l.Blanks) (hu : c.Unreserved) (hi : Integral c.extra.toJson)
    (h : (Json.object c.members).nesting ≤ Json.Reader.depthLimit) (rest : Bytes) :
    read (ofChars (render l d (.object c.members)) ++ rest) = .ok (c, rest) := by
  obtain ⟨fuel, hfuel, hr⟩ := read_text (d := d) hl c rest
  cases hi with
  | object hi =>
    rw [hr, Json.Scan.members_absorbed _ hl (fun m hm =>
      member_absorbs hl (hu.free m hm) (hi m hm) (nesting_members.1 h m hm)) hfuel
      (hl.ending d _)]
    simp only [bind, Except.bind, headed_command]

theorem read_refused (hl : l.Blanks) (hu : c.Unreserved) (hi : Integral c.extra.toJson)
    (h : Json.Reader.depthLimit < (Json.object c.members).nesting) (rest : Bytes) :
    Fails .tooDeep (read (ofChars (render l d (.object c.members)) ++ rest)) := by
  obtain ⟨fuel, hfuel, hr⟩ := read_text (d := d) hl c rest
  have hdeep : ∃ m ∈ c.extra.entries, innerDepth < m.2.nesting := by
    rw [← Nat.not_le, nesting_members] at h
    simpa using h
  obtain ⟨m, hm, hd⟩ := hdeep
  cases hi with
  | object hi =>
    have hrej := Json.Scan.members_rejected Draft.member Draft.push hl (fun m hm => by
      by_cases hle : m.2.nesting ≤ innerDepth
      · exact .inl (member_absorbs (d := d + 1) hl (hu.free m hm) (hi m hm) hle)
      · exact .inr (member_rejects hl (hu.free m hm) (hi m hm) (by omega)))
      ⟨m, hm, member_rejects hl (hu.free m hm) (hi m hm) hd⟩ hfuel
      (hl.ending d c.members.isEmpty) false c.headed rest
    rw [hr]
    exact hrej.bind _

/-- The text of a command, alone, is read as the command. -/
theorem parse_taken (hl : l.Blanks) (hu : c.Unreserved) (hi : Integral c.extra.toJson)
    (h : (Json.object c.members).nesting ≤ Json.Reader.depthLimit) :
    parse (ofChars (render l d (.object c.members))) = .ok c := by
  have hr := read_taken (d := d) hl hu hi h []
  rw [List.append_nil] at hr
  rw [parse, Json.Scan.whole, hr]
  rfl

theorem parse_refused (hl : l.Blanks) (hu : c.Unreserved) (hi : Integral c.extra.toJson)
    (h : Json.Reader.depthLimit < (Json.object c.members).nesting) :
    ∃ reason, parse (ofChars (render l d (.object c.members))) = .error reason ∧
      reason.cause = .tooDeep := by
  obtain ⟨f, hf, hc⟩ := read_refused (d := d) hl hu hi h []
  rw [List.append_nil] at hf
  rw [parse, Json.Scan.whole, hf]
  exact ⟨_, rfl, hc⟩

end Command

end CameraChannel
