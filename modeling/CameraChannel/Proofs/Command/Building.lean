import Mathlib.Data.List.Basic
import CameraChannel.Proofs.Command.Acceptance
import CameraChannel.Proofs.Frame.RoundTrip
import CameraChannel.Proofs.Json.Members

/-!
Commands put together one setting after another. A command is known by its code, the last target and
the last value of each name, whatever the order of the settings; so is the frame it is sent in. Main
statement: `Command.build_canonical`.
-/
namespace CameraChannel

open Json (Integral Canonical values)
open Utf8 (Before)

namespace Command

/-- What a command begins as: a code alone, or the wish that a device starts streaming. -/
inductive Start where
  | plain (code : Int64)
  | streaming (target : String)

def Start.code : Start → Int64
  | .plain n => n
  | .streaming _ => startCode

def Start.target? : Start → Option String
  | .plain _ => none
  | .streaming t => some t

def Start.command : Start → Command
  | .plain n => { code := n }
  | .streaming t => startStreaming t

/-- What is set in a command that is there. -/
inductive Setting where
  | target (t : String)
  | field (name : String) (v : Json)

def Setting.target? : Setting → Option String
  | .target t => some t
  | .field _ _ => none

def Setting.field? : Setting → Option (String × Json)
  | .target _ => none
  | .field name v => some (name, v)

def Setting.apply (c : Command) : Setting → Command
  | .target t => c.withTarget t
  | .field name v => c.withField name v

def build (s : Start) (settings : List Setting) : Command := settings.foldl Setting.apply s.command

/-- The target meant last, if any. -/
def lastTarget (s : Start) (settings : List Setting) : Option String :=
  (s.target?.toList ++ settings.filterMap Setting.target?).getLast?

/-- The value that a name was given last, if any. -/
def lastValue (name : String) (settings : List Setting) : Option Json :=
  (values name (settings.filterMap Setting.field?)).getLast?

variable {s s' : Start} {settings settings' : List Setting}

theorem code_foldl (settings : List Setting) (c : Command) :
    (settings.foldl Setting.apply c).code = c.code := by
  induction settings generalizing c with
  | nil => rfl
  | cons e settings ih => cases e <;> exact ih _

theorem target_foldl (settings : List Setting) (c : Command) :
    (settings.foldl Setting.apply c).target =
      (c.target.toList ++ settings.filterMap Setting.target?).getLast? := by
  induction settings generalizing c with
  | nil => cases h : c.target <;> simp [h]
  | cons e settings ih =>
    cases e with
    | target t =>
      have hlast : (c.target.toList ++ t :: settings.filterMap Setting.target?).getLast? =
          (t :: settings.filterMap Setting.target?).getLast? :=
        List.getLast?_append_of_ne_nil _ (List.cons_ne_nil _ _)
      rw [List.foldl_cons, ih]
      exact hlast.symm
    | field name v => exact ih _

theorem extra_foldl (settings : List Setting) (c : Command) :
    (settings.foldl Setting.apply c).extra =
      (settings.filterMap Setting.field?).foldl (fun f m => f.insert m.1 m.2) c.extra := by
  induction settings generalizing c with
  | nil => rfl
  | cons e settings ih => cases e <;> exact ih _

@[simp] theorem code_build (s : Start) (settings : List Setting) :
    (build s settings).code = s.code := by
  rw [build, code_foldl]
  cases s <;> rfl

@[simp] theorem target_build (s : Start) (settings : List Setting) :
    (build s settings).target = lastTarget s settings := by
  rw [build, target_foldl, lastTarget]
  cases s <;> rfl

/-- Every name has the value it was given last. -/
theorem get?_build (s : Start) (settings : List Setting) (name : String) :
    (build s settings).extra.get? name = (lastValue name settings).map Json.canonical := by
  have hs : s.command.extra.get? name = none := by cases s <;> rfl
  rw [build, extra_foldl, Fields.get?_foldl, hs, Option.or_none]
  rfl

/-- Commands are built the same when the same code, target and values are left in the end. -/
theorem build_eq_iff : build s settings = build s' settings' ↔ s.code = s'.code ∧
    lastTarget s settings = lastTarget s' settings' ∧
    ∀ name, (lastValue name settings).map Json.canonical =
      (lastValue name settings').map Json.canonical := by
  constructor
  · intro h
    refine ⟨?_, ?_, fun name => ?_⟩
    · rw [← code_build s settings, h, code_build]
    · rw [← target_build s settings, h, target_build]
    · rw [← get?_build s settings, h, get?_build]
  · rintro ⟨hc, ht, hf⟩
    have he : (build s settings).extra = (build s' settings').extra :=
      Fields.ext_get? fun name => by rw [get?_build, get?_build, hf]
    rw [← code_build s settings, ← code_build s' settings'] at hc
    rw [← target_build s settings, ← target_build s' settings'] at ht
    cases hb : build s settings
    cases hb' : build s' settings'
    simp_all

/-- A command can be sent when it was given no reserved name. -/
theorem unreserved_build (h : ∀ r : Reserved, lastValue r.name settings = none) :
    (build s settings).Unreserved := by
  intro r
  rw [Fields.contains, get?_build, h]
  rfl

variable {a b : Command}

/-- A target is told from the further fields by its name, which is none of theirs. -/
theorem eq_of_targeted {t u : Option String} {ms ns : List (String × Json)}
    (hm : ∀ m ∈ ms, Free m) (hn : ∀ n ∈ ns, Free n)
    (h : (t.map fun t => (Reserved.target.name, Json.string t)).toList ++ ms =
      (u.map fun u => (Reserved.target.name, Json.string u)).toList ++ ns) : t = u ∧ ms = ns := by
  cases t with
  | none =>
    cases u with
    | none => exact ⟨rfl, h⟩
    | some u =>
      have hms : ms = (Reserved.target.name, Json.string u) :: ns := h
      exact absurd rfl (hm _ (hms ▸ List.mem_cons_self) .target)
  | some t =>
    cases u with
    | none =>
      have hns : (Reserved.target.name, Json.string t) :: ms = ns := h
      exact absurd rfl (hn _ (hns ▸ List.mem_cons_self) .target)
    | some u =>
      obtain ⟨he, hr⟩ := List.cons.inj h
      exact ⟨congrArg some (Json.string.inj (Prod.mk.inj he).2), hr⟩

theorem eq_of_members (ha : a.Unreserved) (hb : b.Unreserved) (h : a.members = b.members) :
    a = b := by
  obtain ⟨hcode, hrest⟩ := List.cons.inj h
  have hc := ofInt64_inj _ _ (Prod.mk.inj hcode).2
  obtain ⟨ht, he⟩ := eq_of_targeted ha.free hb.free hrest
  have hf : a.extra = b.extra := Fields.ext he
  cases a
  cases b
  simp_all

theorem payload_inj (ha : a.Unreserved) (hb : b.Unreserved) (hia : Integral a.extra.toJson)
    (hib : Integral b.extra.toJson) {style : Style} (h : a.payload style = b.payload style) :
    a = b := by
  have ho := Json.render_inj style.blanks (integral_members hia) (integral_members hib) h
  exact eq_of_members ha hb (Json.object.inj ho)

/-- Commands without floats that are sent as the same bytes are the same. -/
theorem encode_inj {o : FrameOptions} {w : Bytes} (hia : Integral a.extra.toJson)
    (hib : Integral b.extra.toJson) (ha : Frame.encode (.command a) o = .ok w)
    (hb : Frame.encode (.command b) o = .ok w) : a = b := by
  obtain ⟨hua, -, rfl⟩ := Frame.rawFrame_of_encode ha
  obtain ⟨hub, -, h⟩ := Frame.rawFrame_of_encode hb
  have hp := (List.append_inj h (by rw [Header.length_toBytes, Header.length_toBytes])).2
  exact payload_inj hua hub hia hib hp

/-- What is sent hangs on the code, the last target and the last value of each name alone, and not
on how often and in which order things were set. Without a reserved name among those set, the
payload has the code first, then the target if there is one, then every other name once in ascending
order of its bytes, with ordered objects inside. And commands without floats, however deep they are
nested, are the same when they are sent as the same bytes. -/
theorem build_canonical :
    (∀ s s' settings settings', s.code = s'.code → lastTarget s settings = lastTarget s' settings' →
      (∀ name, (lastValue name settings).map Json.canonical =
        (lastValue name settings').map Json.canonical) →
      ∀ o, Frame.encode (.command (build s settings)) o =
        Frame.encode (.command (build s' settings')) o) ∧
    (∀ s settings (style : Style), (∀ r : Reserved, lastValue r.name settings = none) →
      ∃ further, Frame.encodePayload (.command (build s settings)) style =
          .ok (Utf8.ofChars (Json.render style.layout 0 (.object (("code", .ofInt64 s.code) ::
            ((lastTarget s settings).map fun t => ("devTarget", .string t)).toList ++ further)))) ∧
        (further.Pairwise fun m n => Before m.1 n.1) ∧ (∀ m ∈ further, Canonical m.2) ∧
        ∀ name, further.lookup name = (lastValue name settings).map Json.canonical) ∧
    (∀ (a b : Command) (o : FrameOptions) (w : Bytes), Integral a.extra.toJson →
      Integral b.extra.toJson → Frame.encode (.command a) o = .ok w →
      Frame.encode (.command b) o = .ok w → a = b) := by
  refine ⟨fun s s' settings settings' hc ht hf o => ?_, fun s settings style hr => ?_,
    fun a b o w hia hib ha hb => encode_inj hia hib ha hb⟩
  · rw [build_eq_iff.2 ⟨hc, ht, hf⟩]
  · refine ⟨(build s settings).extra.entries, ?_, Fields.ascending _, Fields.entries_canonical _,
      get?_build s settings⟩
    rw [Frame.encodePayload_command (unreserved_build hr), payload, members, code_build,
      target_build]
    rfl

/-- Two ways to ask a device to start streaming, with the same two fields in the end. -/
def restated : List Setting :=
  [.field "zoom" .null, .field "mode" (.bool true), .target "beef", .field "zoom" (.string "wide")]

def stated : List Setting :=
  [.target "beef", .field "zoom" (.string "wide"), .field "mode" (.bool true)]

theorem build_canonical_restated :
    Frame.encode (.command (build (.streaming "dead") restated)) {} =
      Frame.encode (.command (build (.plain startCode) stated)) {} ∧
    ∃ payload, Frame.encodePayload (.command (build (.plain startCode) stated)) .spaced =
      .ok payload := by
  have values_restated : ∀ name, lastValue name restated = lastValue name stated := by
    intro name
    by_cases hzoom : name = "zoom"
    · subst hzoom
      rfl
    · by_cases hmode : name = "mode"
      · subst hmode
        rfl
      · change (values name
            [("zoom", .null), ("mode", .bool true), ("zoom", .string "wide")]).getLast? =
          (values name [("zoom", .string "wide"), ("mode", .bool true)]).getLast?
        simp only [Json.values_cons_of_ne (Ne.symm hzoom), Json.values_cons_of_ne (Ne.symm hmode)]
  refine ⟨build_canonical.1 _ _ _ _ rfl rfl (fun name => by rw [values_restated]) _, ?_⟩
  obtain ⟨_, h, -⟩ := build_canonical.2.1 (.plain startCode) stated .spaced fun r => by
    cases r <;> rfl
  exact ⟨_, h⟩

end Command

end CameraChannel
