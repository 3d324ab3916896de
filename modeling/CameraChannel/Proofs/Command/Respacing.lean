import CameraChannel.Proofs.Command.Acceptance
import CameraChannel.Proofs.Json.Respacing

/-!
The two layouts of a payload. The spaced one is the compact one with a space behind every separator,
and no reader tells them apart. Main statement: `Frame.encodePayload_spaced`.
-/
namespace CameraChannel

open Json (Alike Indifferent respace spread spread_cons)

namespace Json.Typed

variable {α : Type}

theorem mismatch_alike (expected : String) (bs : Bytes) :
    Alike respace (mismatch (α := α) expected bs) (mismatch expected (spread .outside bs)) := by
  have refused : ∀ (found : Found) (bs bs' : Bytes),
      Alike respace (bracket (α := Json) found expected bs) (bracket found expected bs') :=
    fun _ _ _ => .error rfl
  exact (Reader.node_alike (fun _ => refused .array _ _) (fun _ => refused .object _ _) bs).bind
    fun _ => .error rfl

theorem integer_alike (low high : Int) (expected : String) (bs : Bytes) :
    Alike respace (integer low high expected bs)
      (integer low high expected (spread .outside bs)) := by
  rw [integer, integer, Scan.skipSpace_spread]
  cases Scan.skipSpace bs with
  | nil => exact .error rfl
  | cons b rest =>
    obtain ⟨tail, htail⟩ := spread_cons b rest
    have hn := Number.read_alike (b :: rest)
    have hm := mismatch_alike (α := Int) expected (b :: rest)
    rw [htail] at hn hm ⊢
    by_cases hb : Number.starts b = true
    · simp only [if_pos hb]
      refine hn.andThen fun v rest => ?_
      cases v with
      | integer n =>
        simp only
        by_cases hr : low ≤ n.val ∧ n.val ≤ high
        · rw [if_pos hr, if_pos hr]
          exact .ok (n.val, rest)
        · rw [if_neg hr, if_neg hr]
          exact .error rfl
      | _ => exact .error rfl
    · simp only [if_neg hb]
      exact hm

theorem int64_alike (bs : Bytes) : Alike respace (int64 bs) (int64 (spread .outside bs)) :=
  (integer_alike _ _ _ bs).map fun _ => rfl

theorem string_alike (expected : String) (bs : Bytes) :
    Alike respace (string expected bs) (string expected (spread .outside bs)) := by
  rw [string, string, Scan.skipSpace_spread]
  cases Scan.skipSpace bs with
  | nil => exact .error rfl
  | cons b rest =>
    by_cases hq : b = ascii '\x22'
    · subst hq
      exact Scan.string_alike rest
    · obtain ⟨tail, htail⟩ := spread_cons b rest
      have hm := mismatch_alike (α := String) expected (b :: rest)
      rw [htail] at hm ⊢
      simp only [if_neg hq]
      exact hm

theorem optional_alike {one : Bytes → Read α}
    (h : ∀ bs, Alike respace (one bs) (one (spread .outside bs))) (bs : Bytes) :
    Alike respace (optional one bs) (optional one (spread .outside bs)) := by
  rw [optional, optional, Scan.skipSpace_spread]
  cases Scan.skipSpace bs with
  | nil => exact .error rfl
  | cons b rest =>
    by_cases hn : b = ascii 'n'
    · rw [hn, spread_quiet (by decide)]
      simp only [if_true]
      exact (Scan.word_alike (by simp [Quiet, ascii]) rest).map fun _ => rfl
    · obtain ⟨tail, htail⟩ := spread_cons b rest
      have ho := h (b :: rest)
      rw [htail] at ho ⊢
      simp only [if_neg hn]
      exact ho.map fun _ => rfl

end Json.Typed

namespace Command

open Json.Typed

theorem member_indifferent (name : String) (d : Draft) : Indifferent (Draft.member name d) where
  alike bs := by
    by_cases hcode : name = Reserved.code.name
    · rw [Draft.member, Draft.member, if_pos hcode, if_pos hcode]
      cases d.code.isSome with
      | true => exact .error rfl
      | false =>
        exact (Json.Scan.colon_alike bs).bind fun rest =>
          (int64_alike rest).andThen fun code rest => .ok ({ d with code := some code }, rest)
    by_cases htarget : name = Reserved.target.name
    · rw [Draft.member, Draft.member, if_neg hcode, if_neg hcode, if_pos htarget, if_pos htarget]
      cases d.target.isSome with
      | true => exact .error rfl
      | false =>
        exact (Json.Scan.colon_alike bs).bind fun rest =>
          (optional_alike (string_alike _) rest).andThen fun target rest =>
            .ok ({ d with target := some target }, rest)
    · rw [Draft.member, Draft.member, if_neg hcode, if_neg hcode, if_neg htarget, if_neg htarget]
      exact ((Json.Reader.member_indifferent (Json.Reader.value_indifferent innerDepth)
        (Json.Reader.value_space innerDepth) name d.extra).alike bs).andThen fun extra rest =>
          .ok ({ d with extra }, rest)
  shorter h := by
    obtain ⟨v, hvalue, -⟩ := member_eq_ok.1 h
    exact Json.Reader.memberValue_shorter (Json.Reader.value_indifferent innerDepth) hvalue

theorem read_alike (bs : Bytes) : Alike respace (read bs) (read (spread .outside bs)) := by
  rw [read, read, Json.Scan.skipSpace_spread]
  cases Json.Scan.skipSpace bs with
  | nil => exact .error rfl
  | cons b rest =>
    by_cases hb : b = ascii '\x7b'
    · subst hb
      refine (Json.Scan.all_members_alike member_indifferent {} rest).andThen fun d rest => ?_
      simp only
      cases d.command with
      | error r => exact .error rfl
      | ok c => exact .ok (c, rest)
    · obtain ⟨tail, htail⟩ := spread_cons b rest
      have hm := mismatch_alike (α := Command) expected (b :: rest)
      rw [htail] at hm ⊢
      simp only [if_neg hb]
      exact hm

/-- A text and the same with a space behind every separator are read as the same command, or refused
for the same cause. -/
theorem parse_spread (bs : Bytes) :
    (parse (spread .outside bs)).mapError (·.cause) = (parse bs).mapError (·.cause) :=
  Json.Scan.whole_alike (read_alike bs)

end Command

/-- A payload is laid out spaced when it is laid out compact, which is the compact text of what is
to be sent, and then as that with one space put behind every comma and colon outside of strings.
From any text with these spaces, taking them away gives the text back; there are as many of them as
separators; and with and without them the text is read to the same value and the same command, or
refused for the same cause. -/
theorem Frame.encodePayload_spaced :
    (∀ m : Content,
      encodePayload m .spaced = (encodePayload m .compact).map (spread .outside)) ∧
    (∀ (m : Content) (v : Json), m.document = .ok v →
      encodePayload m .compact = .ok (Utf8.ofString (v.text .compact))) ∧
    ∀ payload : Bytes,
      Json.unspread false .outside (spread .outside payload) = payload ∧
      (spread .outside payload).length = payload.length + Json.separators .outside payload ∧
      (Json.read (spread .outside payload)).mapError (·.cause) =
        (Json.read payload).mapError (·.cause) ∧
      (Command.parse (spread .outside payload)).mapError (·.cause) =
        (Command.parse payload).mapError (·.cause) := by
  refine ⟨fun m => ?_, fun m v h => ?_, fun payload => ⟨Json.unspread_spread _ _,
    Json.length_spread _ _, Json.read_spread payload, Command.parse_spread payload⟩⟩
  · rw [encodePayload, encodePayload]
    cases m.document with
    | error r => rfl
    | ok v => exact congrArg Except.ok (Json.ofChars_spaced 0 v)
  · rw [encodePayload, h, Json.text, Utf8.ofString, String.toList_ofList]
    rfl

end CameraChannel
