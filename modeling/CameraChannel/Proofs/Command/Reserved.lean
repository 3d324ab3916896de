import CameraChannel.Proofs.Command.Acceptance
import CameraChannel.Proofs.Stream.Sending

/-!
Names that further fields may not have. A command with one of them is refused by everything that
would send or write it, and shown in a form of its own, which is no command; all other commands are
taken. Main statement: `Command.reserved_exact`.
-/
namespace CameraChannel

namespace Command

/-- The reserved name that is told: the one that a further field has, and the code's before the
target's. -/
structure Repeats (c : Command) (r : Reserved) : Prop where
  present : c.extra.contains r.name = true
  first : r = .target → c.extra.contains Reserved.code.name = false

/-- What is refused for a reserved name, with that name in the reason, and for nothing else. -/
structure Minds {ε α : Type} (c : Command) (reason : Reserved → ε)
    (result : Except ε α) : Prop where
  told : ∀ r, result = .error (reason r) ↔ c.Repeats r
  refused : (∃ e, result = .error e) ↔ ∃ r : Reserved, c.extra.contains r.name = true

/-- The form in which a command is shown that cannot be sent. -/
def plain (c : Command) : String :=
  "code=" ++ String.ofList (Digits.signed c.code.toInt) ++
    ((c.target.map (" devTarget=" ++ ·)).getD "") ++ " extra=" ++ c.extra.toJson.text .compact

variable {c : Command} {r : Reserved}

theorem clash_eq_some : c.clash = some r ↔ c.Repeats r := by
  rw [clash]
  constructor
  · intro h
    split at h
    · next hcode =>
      cases h
      exact ⟨hcode, fun e => by cases e⟩
    · next hcode =>
      split at h
      · next htarget =>
        cases h
        exact ⟨htarget, fun _ => Bool.eq_false_iff.2 hcode⟩
      · cases h
  · rintro ⟨present, first⟩
    cases r with
    | code => rw [if_pos present]
    | target => rw [if_neg (by simp [first rfl]), if_pos present]

theorem unreserved_or_repeats (c : Command) : c.Unreserved ∨ ∃ r, c.Repeats r := by
  cases h : c.clash with
  | some r => exact .inr ⟨r, clash_eq_some.1 h⟩
  | none =>
    have hd : c.document = .ok (.object c.members) := by rw [document, h]
    exact .inl (unreserved_of_document hd)

theorem Repeats.document (h : c.Repeats r) : c.document = .error r := by
  rw [Command.document, clash_eq_some.2 h]

/-- Either some reserved name is told, or there is none. -/
theorem exists_contains_iff :
    (∃ r : Reserved, c.extra.contains r.name = true) ↔ ∃ r, c.Repeats r := by
  constructor
  · rintro ⟨r, hr⟩
    refine c.unreserved_or_repeats.resolve_left fun h => ?_
    rw [h r] at hr
    cases hr
  · rintro ⟨r, hr⟩
    exact ⟨r, hr.present⟩

theorem Minds.intro {ε α : Type} {reason : Reserved → ε} {result : Except ε α}
    (inj : ∀ a b, reason a = reason b → a = b)
    (refused : ∀ r, c.Repeats r → result = .error (reason r))
    (given : c.Unreserved → ∃ a, result = .ok a) : c.Minds reason result := by
  refine ⟨fun r => ⟨fun h => ?_, refused r⟩, ?_⟩
  · obtain hu | ⟨r', hr'⟩ := c.unreserved_or_repeats
    · obtain ⟨a, ha⟩ := given hu
      cases ha.symm.trans h
    · rw [refused r' hr'] at h
      exact inj _ _ (Except.error.inj h) ▸ hr'
  · rw [exists_contains_iff]
    constructor
    · rintro ⟨e, he⟩
      refine c.unreserved_or_repeats.resolve_left fun hu => ?_
      obtain ⟨a, ha⟩ := given hu
      cases ha.symm.trans he
    · rintro ⟨r, hr⟩
      exact ⟨_, refused r hr⟩

/-- A further field of another name makes no difference, whatever its value. -/
theorem repeats_withField {name : String} (h : ∀ r : Reserved, name ≠ r.name) (v : Json) :
    (c.withField name v).Repeats r ↔ c.Repeats r := by
  have same (r : Reserved) :
      (c.withField name v).extra.contains r.name = c.extra.contains r.name := by
    change ((c.extra.insert name v).get? r.name).isSome = _
    rw [Fields.get?_insert, if_neg (Ne.symm (h r))]
    rfl
  constructor
  · rintro ⟨present, first⟩
    exact ⟨same r ▸ present, fun e => same .code ▸ first e⟩
  · rintro ⟨present, first⟩
    exact ⟨(same r).trans present, fun e => (same .code).trans (first e)⟩

theorem Minds.map {ε α β : Type} {reason : Reserved → ε} {result : Except ε α}
    (h : c.Minds reason result) (f : α → β) : c.Minds reason (result.map f) := by
  have same (e : ε) : result.map f = .error e ↔ result = .error e := by
    cases result <;> simp [Except.map]
  exact ⟨fun r => (same _).trans (h.told r), (exists_congr same).trans h.refused⟩

theorem minds_document (c : Command) : c.Minds id c.document :=
  .intro (fun _ _ => id) (fun _ hr => hr.document) fun hu => ⟨_, hu.document⟩

theorem unencodable_inj (a b : Reserved) (h : FrameError.unencodable a = .unencodable b) : a = b :=
  FrameError.unencodable.inj h

theorem minds_payload (c : Command) (s : Style) :
    c.Minds .unencodable (Frame.encodePayload (.command c) s) :=
  .intro unencodable_inj (fun _ hr => Frame.encodePayload_of_error (m := .command c) hr.document s)
    fun hu => ⟨_, Frame.encodePayload_command hu s⟩

theorem minds_frame {o : FrameOptions}
    (short : ∀ p, Frame.encodePayload (.command c) o.style = .ok p → p.length ≤ Frame.lengthLimit) :
    c.Minds .unencodable (Frame.encode (.command c) o) := by
  refine .intro unencodable_inj (fun r hr => ?_) fun hu => ?_
  · rw [Frame.encode, Frame.encodePayload_of_error (m := .command c) hr.document]
  · have hp := Frame.encodePayload_command hu o.style
    rw [Frame.encode_of_payload hp, Frame.enclose_fits (short _ hp)]
    exact ⟨_, rfl⟩

end Command

namespace Codec

variable {k : Codec} {c : Command}

theorem minds_frame
    (fits : ∀ p, Frame.encodePayload (.command c) k.options.style = .ok p →
      p.length ≤ k.ceiling ∧ p.length ≤ Frame.lengthLimit) :
    c.Minds .unencodable (k.frame (.command c)) := by
  refine .intro Command.unencodable_inj (fun r hr => ?_) fun hu => ?_
  · exact frame_of_refused (Frame.encodePayload_of_error (m := .command c) hr.document _)
  · have hp := Frame.encodePayload_command hu k.options.style
    exact ⟨_, frame_of_payload hp (fits _ hp).1 (fits _ hp).2⟩

end Codec

namespace Client

variable {c : Client} {s : Step} {m : Command}

/-- Sending is refused for the command when its frame is, and never by the stream. -/
theorem perform_refused_iff (h : s.message? = some m) {e : FrameError} :
    (c.perform s).1 = .failed (.protocol e) ↔ (s.codec c.codec).frame (.command m) = .error e := by
  constructor
  · intro hp
    cases hf : (s.codec c.codec).frame (.command m) with
    | error e' =>
      rw [perform_refused h hf] at hp
      cases hp
      rfl
    | ok w =>
      rw [perform_framed h hf] at hp
      cases hc : c.connected with
      | false =>
        rw [writeFrame_released hc] at hp
        cases hp
      | true =>
        have := writeFrame_held hc w
        rw [hp] at this
        simp [Reply.isSent, Reply.isBroken] at this
  · intro hf
    rw [perform_refused h hf]

/-- A stream that takes all it is given fails no send of a frame. -/
theorem perform_ready (h : s.message? = some m) {w : Bytes}
    (hf : (s.codec c.codec).frame (.command m) = .ok w) (held : c.connected = true)
    (writes : c.stream.writes = []) (flushes : c.stream.flushes = []) :
    (c.perform s).1 = .sent w.length := by
  have hw := writeFrame_ready held writes flushes w
  rw [perform_framed h hf]
  generalize c.writeFrame w = r at hw ⊢
  obtain ⟨r, c'⟩ := r
  cases hw
  rfl

/-- Within the ceiling, sending minds the reserved names, and so does the stream if it is ready. -/
theorem perform_minds (h : s.message? = some m)
    (fits : ∀ p, Frame.encodePayload (.command m) (s.options c.codec.options).style = .ok p →
      p.length ≤ c.codec.ceiling ∧ p.length ≤ Frame.lengthLimit) :
    (∀ r, c.perform s = (.failed (.protocol (.unencodable r)), c) ↔ m.Repeats r) ∧
    ((∃ e, (c.perform s).1 = .failed (.protocol e)) ↔
      ∃ r : Command.Reserved, m.extra.contains r.name = true) ∧
    (c.connected = true → c.stream.writes = [] → c.stream.flushes = [] →
      ((∃ e, (c.perform s).1 = .failed e) ↔
        ∃ r : Command.Reserved, m.extra.contains r.name = true)) := by
  obtain ⟨told, refused⟩ := Codec.minds_frame (k := s.codec c.codec) fits
  refine ⟨fun r => ?_, ?_, fun held writes flushes => ?_⟩
  · rw [← told]
    exact ⟨fun hp => (perform_refused_iff h).1 (congrArg Prod.fst hp), perform_refused h⟩
  · rw [← refused]
    exact exists_congr fun e => perform_refused_iff h
  · rw [← refused]
    constructor
    · rintro ⟨e, he⟩
      cases hf : (s.codec c.codec).frame (.command m) with
      | error e' => exact ⟨e', rfl⟩
      | ok w =>
        rw [perform_ready h hf held writes flushes] at he
        cases he
    · rintro ⟨e, he⟩
      exact ⟨_, (perform_refused_iff h).2 he⟩

end Client

namespace Command

variable {c : Command}

theorem text_refused {r : Reserved} (h : c.Repeats r) : c.text = c.plain := by
  rw [text, h.document, plain]
  cases c.target <;> rfl

theorem text_sent (h : c.Unreserved) : Utf8.ofString c.text = c.payload .compact := by
  rw [text, h.document]
  exact congrArg Utf8.ofChars String.toList_ofList

theorem text_of_payload {p : Bytes} (h : Frame.encodePayload (.command c) .compact = .ok p) :
    Utf8.ofString c.text = p := by
  obtain hu | ⟨r, hr⟩ := c.unreserved_or_repeats
  · rw [Frame.encodePayload_command hu] at h
    rw [text_sent hu]
    exact Except.ok.inj h
  · rw [Frame.encodePayload_of_error (m := .command c) hr.document] at h
    cases h

theorem plain_starts (c : Command) : ∃ cs, c.plain.toList = 'c' :: cs := by
  rw [plain, String.append_assoc, String.append_assoc, String.append_assoc, String.toList_append]
  exact ⟨_, rfl⟩

/-- Either form is told by how it starts. -/
theorem text_eq_plain : c.text = c.plain ↔ ∃ r : Reserved, c.extra.contains r.name = true := by
  rw [exists_contains_iff]
  constructor
  · intro h
    refine c.unreserved_or_repeats.resolve_left fun hu => ?_
    obtain ⟨cs, hcs⟩ := c.plain_starts
    rw [← h, text] at hcs
    simp only [hu.document, Json.text, String.toList_ofList, Json.render_object] at hcs
    exact absurd (List.cons.inj hcs).1 (by decide)
  · rintro ⟨r, hr⟩
    exact text_refused hr

/-- What is shown of a command that cannot be sent is no JSON. -/
theorem read_plain (c : Command) : ∃ e, Json.read (Utf8.ofString c.plain) = .error e := by
  obtain ⟨cs, hcs⟩ := c.plain_starts
  rw [Utf8.ofString, hcs]
  exact ⟨_, rfl⟩

theorem parsePayload_plain (c : Command) (n : Nat) (m : Command) :
    Frame.parsePayload (Utf8.ofString c.plain) n ≠ .ok m := by
  intro h
  obtain ⟨ms, hms, -⟩ := Frame.parsePayload_eq_ok.1 h
  obtain ⟨e, he⟩ := c.read_plain
  cases he.symm.trans hms

/-- A command whose payload fits into a frame is refused, on every way there is to send or write it,
exactly when one of its further fields has a reserved name itself, and the reason tells the code's
name if it is there and the target's otherwise; a client then stays as it is, connected or not, and
refuses no command otherwise. Fields of other names make no difference, whatever names are in their
values. A command is shown as its compact payload, or in a form of its own exactly when it has none,
which is never read as a command. A reserved name always gives the code or the target, whatever the
fields. -/
theorem reserved_exact (m : Command)
    (short : ∀ s p, Frame.encodePayload (.command m) s = .ok p → p.length < 0x100000000) :
    (∀ s, m.Minds .unencodable (Frame.encodePayload (.command m) s)) ∧
    (∀ o, m.Minds .unencodable (Frame.encode (.command m) o)) ∧
    m.Minds id (m.document.map (Json.text .compact)) ∧
    m.Minds id (m.document.map Json.canonical) ∧
    (∀ (k : Codec) (buffer : Bytes),
      (∀ p, Frame.encodePayload (.command m) k.options.style = .ok p → p.length ≤ k.ceiling) →
      m.Minds .unencodable (k.encode (.command m) buffer)) ∧
    (∀ (c : Client) (s : Client.Step), s.message? = some m →
      (∀ p, Frame.encodePayload (.command m) (s.options c.codec.options).style = .ok p →
        p.length ≤ c.codec.ceiling) →
      (∀ r, c.perform s = (.failed (.protocol (.unencodable r)), c) ↔ m.Repeats r) ∧
      ((∃ e, (c.perform s).1 = .failed (.protocol e)) ↔
        ∃ r : Reserved, m.extra.contains r.name = true) ∧
      (c.connected = true → c.stream.writes = [] → c.stream.flushes = [] →
        ((∃ e, (c.perform s).1 = .failed e) ↔ ∃ r : Reserved, m.extra.contains r.name = true))) ∧
    (∀ r : Reserved, (FrameError.unencodable r).message =
      "failed to encode message: " ++
        ("extra fields must not repeat reserved key `" ++ r.name ++ "`")) ∧
    (∀ name v, (∀ r : Reserved, name ≠ r.name) →
      ∀ r, (m.withField name v).Repeats r ↔ m.Repeats r) ∧
    ((∀ p, Frame.encodePayload (.command m) .compact = .ok p → Utf8.ofString m.text = p) ∧
      (m.text = m.plain ↔ ∃ r : Reserved, m.extra.contains r.name = true) ∧
      ∀ n c, Frame.parsePayload (Utf8.ofString m.plain) n ≠ .ok c) ∧
    (m.get? "code" = some (.ofInt64 m.code) ∧ m.get? "devTarget" = m.target.map .string ∧
      ∀ name, (∀ r : Reserved, name ≠ r.name) → m.get? name = m.extra.get? name) := by
  have fits {s : Style} {p : Bytes} (h : Frame.encodePayload (.command m) s = .ok p) :
      p.length ≤ Frame.lengthLimit := Nat.le_of_lt_succ (short s p h)
  refine ⟨m.minds_payload, fun o => minds_frame fun p => fits, m.minds_document.map _,
    m.minds_document.map _, fun k buffer hk => ?_,
    fun c s hs hc => Client.perform_minds hs fun p hp => ⟨hc p hp, fits hp⟩, fun r => rfl,
    fun name v h r => repeats_withField h v,
    ⟨fun p => text_of_payload, text_eq_plain, m.parsePayload_plain⟩, rfl, rfl, fun name h => ?_⟩
  · exact (Codec.minds_frame fun p hp => ⟨hk p hp, fits hp⟩).map _
  · rw [get?, if_neg (h .code), if_neg (h .target)]

/-- Names in another case, and reserved names inside of a value. -/
def lookalike : Command :=
  (({ code := 3 } : Command).withField "Code" (.ofInt64 4)).withField "content"
    (.object [("code", .ofInt64 4), ("devTarget", .null)])

theorem reserved_exact_lookalike :
    (∀ s p, Frame.encodePayload (.command lookalike) s = .ok p → p.length < 0x100000000) ∧
    lookalike.Minds .unencodable (Frame.encode (.command lookalike) {}) ∧
    (∀ r : Reserved, lookalike.extra.contains r.name = false) := by
  have free : lookalike.Unreserved := fun r => by cases r <;> rfl
  have short : ∀ s p, Frame.encodePayload (.command lookalike) s = .ok p →
      p.length < 0x100000000 := by
    intro s p h
    rw [Frame.encodePayload_command free] at h
    cases h
    refine Nat.lt_of_le_of_lt (m := 99) ?_ (by decide)
    cases s <;> decide +kernel
  exact ⟨short, (reserved_exact lookalike short).2.1 {}, free⟩

end Command

end CameraChannel
