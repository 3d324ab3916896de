import CameraChannel.Frame.Codec
import CameraChannel.Proofs.Command.Acceptance
import CameraChannel.Proofs.Frame.RoundTrip
import CameraChannel.Proofs.Json.Reordering

/-!
Commands sent on. What a command is read from is at least as long and as deeply nested as what it is
sent as. Main statement: `Frame.parsePayload_resent`.
-/
namespace CameraChannel

open Json (Integral values extent extentMembers nesting canonicalOnto)

namespace Command

variable {ms : List (String × Json)} {c : Command}

theorem mem_further {m : String × Json} : m ∈ further ms ↔ m ∈ ms ∧ Free m := by
  rw [further, List.mem_filter, free_iff, decide_eq_true_eq]

theorem Describes.unreserved (h : Describes ms c) : c.Unreserved := by
  intro r
  rw [Fields.contains, h.reserved]
  rfl

/-- A further field is one of the members, put in order. -/
theorem Describes.mem_extra (h : Describes ms c) {m : String × Json} (hm : m ∈ c.extra.entries) :
    ∃ x ∈ ms, m = (x.1, x.2.canonical) := by
  rw [h.extra_eq, Fields.entries_ofMembers] at hm
  obtain hm | ⟨x, hx, rfl⟩ := Json.mem_canonicalOnto hm
  · cases hm
  · exact ⟨x, (mem_further.1 hx).1, rfl⟩

theorem Describes.integral (h : Describes ms c) (hi : ∀ m ∈ ms, Integral m.2) :
    Integral c.extra.toJson := by
  refine .object fun m hm => ?_
  obtain ⟨x, hx, rfl⟩ := h.mem_extra hm
  exact (hi x hx).canonical

theorem Describes.nesting_le (h : Describes ms c) (hi : ∀ m ∈ ms, Integral m.2)
    (hn : nesting (.object ms) ≤ Json.Reader.depthLimit) :
    nesting (.object c.members) ≤ Json.Reader.depthLimit := by
  refine nesting_members.2 fun m hm => ?_
  obtain ⟨x, hx, rfl⟩ := h.mem_extra hm
  have hms : Json.nestingMembers ms ≤ innerDepth := Nat.le_of_succ_le_succ hn
  exact Nat.le_trans (Json.nesting_canonical_le (hi x hx)) (Json.nestingMembers_le.1 hms x hx)

/-- The extent of members is that of the values of either reserved name and of the others. -/
theorem extentMembers_further (ms : List (String × Json)) :
    extentMembers ms =
      ((values Reserved.code.name ms).map fun v => extentMembers [(Reserved.code.name, v)]).sum +
      ((values Reserved.target.name ms).map fun v =>
          extentMembers [(Reserved.target.name, v)]).sum +
      extentMembers (further ms) := by
  have hne : Reserved.code.name ≠ Reserved.target.name := by decide
  induction ms with
  | nil => rfl
  | cons m ms ih =>
    obtain ⟨name, v⟩ := m
    by_cases hcode : name = Reserved.code.name
    · subst hcode
      rw [Json.values_cons_self, Json.values_cons_of_ne hne, further_cons_reserved .code,
        List.map_cons, List.sum_cons, extentMembers, ih, extentMembers, extentMembers]
      omega
    by_cases htarget : name = Reserved.target.name
    · subst htarget
      rw [Json.values_cons_self, Json.values_cons_of_ne hcode, further_cons_reserved .target,
        List.map_cons, List.sum_cons, extentMembers, ih, extentMembers, extentMembers]
      omega
    rw [Json.values_cons_of_ne hcode, Json.values_cons_of_ne htarget,
      further_cons_free (free_iff.2 ⟨hcode, htarget⟩), extentMembers, ih, extentMembers]
    omega

theorem extentMembers_members (c : Command) :
    extentMembers c.members = extentMembers [(Reserved.code.name, .ofInt64 c.code)] +
      ((c.target.map fun t => extentMembers [(Reserved.target.name, .string t)]).getD 0) +
      extentMembers c.extra.entries := by
  obtain ⟨code, target, extra⟩ := c
  cases target with
  | none => simp [members, extentMembers]
  | some t =>
    simp only [members, extentMembers, Option.map_some, Option.toList_some, List.cons_append,
      List.nil_append, Option.getD_some]
    omega

/-- A command takes no more text than the object it was read from. -/
theorem Describes.extent_le (h : Describes ms c) (hi : ∀ m ∈ ms, Integral m.2) :
    extent (.object c.members) ≤ extent (.object ms) := by
  have hextra : extentMembers c.extra.entries ≤ extentMembers (further ms) := by
    rw [h.extra_eq, Fields.entries_ofMembers]
    have := Json.extentMembers_canonical_le (further ms)
      (fun m hm => Json.extent_canonical_le (hi m (mem_further.1 hm).1)) []
    simpa [extentMembers] using this
  have htarget : (c.target.map fun t => extentMembers [(Reserved.target.name, .string t)]).getD 0 ≤
      ((values Reserved.target.name ms).map fun v =>
          extentMembers [(Reserved.target.name, v)]).sum := by
    obtain ⟨hc, -⟩ | ⟨s, hc, hv⟩ := h.target
    · rw [hc]
      exact Nat.zero_le _
    · rw [hc, hv]
      exact Nat.le_refl _
  have hall := extentMembers_further ms
  rw [h.code, List.map_singleton, List.sum_singleton] at hall
  have := extentMembers_members c
  rw [extent, extent]
  omega

/-- The compact payload of a command is as long as the extent of its object. -/
theorem length_payload (h : Integral c.extra.toJson) :
    (c.payload .compact).length = extent (.object c.members) :=
  (Json.extent_eq (integral_members h) 0).symm

end Command

namespace Frame

variable {p : Bytes} {n : Nat} {m : Command}

/-- A command that was read from text without floats can be sent on in either style and is read
again as it was; in compact style it is not longer than it was. So a codec that has taken it from a
frame has a frame for it, of that length at most. -/
theorem parsePayload_resent (hm : parsePayload p n = .ok m)
    (hi : ∀ v, Json.read p = .ok v → Integral v) :
    (∀ r : Command.Reserved, m.extra.contains r.name = false) ∧
    (∀ s : Style, ∃ q, encodePayload (.command m) s = .ok q ∧ (∀ k, parsePayload q k = .ok m) ∧
      (s = .compact → q.length ≤ p.length)) ∧
    ∀ (c c' : Codec) (h : Header) (rest buffer : Bytes),
      c.decode (h.toBytes ++ p ++ rest) = .ok (some (.ok ⟨h, m⟩, rest)) →
      c'.ceiling = c.ceiling → c'.options.style = .compact →
      ∃ w, c'.encode (.command m) buffer = .ok (buffer ++ w) ∧
        w.length ≤ (h.toBytes ++ p).length := by
  obtain ⟨ms, hread, hd⟩ := parsePayload_eq_ok.1 hm
  obtain ⟨hnest, hspan⟩ := Json.read_text hread
  have hms : ∀ x ∈ ms, Integral x.2 := by
    cases hi _ hread with
    | object h => exact h
  have hu := hd.unreserved
  have hint := hd.integral hms
  have hdeep := hd.nesting_le hms hnest
  have hlen : (m.payload .compact).length ≤ p.length := by
    rw [Command.length_payload hint]
    exact Nat.le_trans (hd.extent_le hms) hspan.length_le
  refine ⟨hu, fun s => ⟨m.payload s, encodePayload_command hu s, fun k => ?_, ?_⟩, ?_⟩
  · rw [parsePayload, Command.payload, Command.parse_taken s.blanks hu hint hdeep]
    rfl
  · rintro rfl
    exact hlen
  · intro c c' h rest buffer hc hceil hstyle
    obtain ⟨r, hs, hr, he, -⟩ := Codec.frame_of_decode hc
    have hp : p.length = r.payload.length := by
      have := congrArg List.length he
      simp only [List.length_append, Header.length_toBytes, RawFrame.length_toBytes] at this
      omega
    have hword := hs.within_limit
    refine ⟨(rawFrame (m.payload .compact) c'.options).toBytes, ?_, ?_⟩
    · rw [Codec.encode, Codec.frame, hstyle, encodePayload_command hu]
      simp only [if_neg (show ¬c'.ceiling < (m.payload .compact).length by omega)]
      rw [enclose_fits (by omega)]
      rfl
    · rw [RawFrame.length_toBytes, List.length_append, Header.length_toBytes]
      change Header.size + (m.payload .compact).length ≤ _
      omega

/-- A payload with blanks, escapes, a name that is repeated and no device. -/
def verbose : Bytes :=
  Utf8.ofString
    "\x7b \"a\" : -1, \"c\\u006fde\":\t3, \"a\":[\"\\ud83d\\ude00\"], \"devTarget\":null \x7d\n"

/-- What it stands for. -/
def terse : Command := ({ code := 3 } : Command).withField "a" (.array [.string "😀"])

theorem parsePayload_resent_verbose :
    parsePayload verbose 0 = .ok terse ∧ (∀ v, Json.read verbose = .ok v → Integral v) ∧
    ∃ q, encodePayload (.command terse) .compact = .ok q ∧ parsePayload q 0 = .ok terse ∧
      q.length ≤ verbose.length := by
  have hm : parsePayload verbose 0 = .ok terse := parsePayload_of_parsesAs (by decide +kernel) 0
  have hv : Json.read verbose = .ok (.object [("a", .integer ⟨-1, by decide, by decide⟩),
      ("code", .ofInt64 3), ("a", .array [.string "😀"]), ("devTarget", .null)]) :=
    Json.read_of_readsAs (by decide +kernel)
  have hi : ∀ v, Json.read verbose = .ok v → Integral v := by
    intro v h
    rw [hv] at h
    cases h
    exact Json.integral_of_isIntegral _ (by decide +kernel)
  obtain ⟨-, h, -⟩ := parsePayload_resent hm hi
  obtain ⟨q, hq, hp, hlen⟩ := h .compact
  exact ⟨hm, hi, q, hq, hp 0, hlen rfl⟩

end Frame

end CameraChannel
