import CameraChannel.Proofs.Stream.Wire

/-!
When a client lets its stream go. Main statement: it does so on closing, on a failure of the stream
and on a reply that announces too much, and on nothing else; without a stream it refuses until it is
connected again.
-/
namespace CameraChannel

/-- A read that is done gives as many bytes as were asked for. -/
theorem readExactly_length {n : Nat} {a left : Allowance} {es rest : List ReadEvent} {bs : Bytes}
    (h : readExactly n a es = (.done bs left, rest)) : bs.length = n := by
  fun_induction readExactly n a es generalizing bs left rest with
  | case1 =>
    cases h
    rfl
  | case2 => cases h
  | case3 =>
    cases h
    rfl
  | case4 => cases h
  | case5 n a es hn ds hd hle =>
    cases h
    rw [List.length_take, Nat.min_eq_left hle]
  | case6 n a es hn ds hd hlt more b es' hr ih =>
    cases h
    rw [List.length_append, ih hr]
    omega
  | case7 n a es hn ds hd hlt hr ih => exact absurd h (hr _ _ _)
  | case8 => cases h
  | case9 n a es hn f hf ih => exact ih h
  | case10 => cases h
  | case11 n a es hn ms b hs ih => exact ih h
  | case12 => cases h
  | case13 => cases h

theorem Frame.readHeader_whole {bs : Bytes} (h : bs.length = Header.size) :
    ∃ hd : Header, readHeader bs = .ok (hd, []) ∧ bs = hd.toBytes := by
  obtain ⟨hd, hb, hr⟩ := Header.read?_whole h
  exact ⟨hd, by rw [readHeader, hr], hb⟩

namespace Codec

variable {k : Codec} {m : Content}

theorem frame_of_refused {e : FrameError} (h : Frame.encodePayload m k.options.style = .error e) :
    k.frame m = .error e := by
  rw [frame, h]

/-- A payload is refused above the ceiling, and above what a header can announce. -/
theorem frame_of_oversized {p : Bytes} (h : Frame.encodePayload m k.options.style = .ok p)
    (hp : k.ceiling < p.length ∨ Frame.lengthLimit < p.length) :
    k.frame m = .error (.tooLarge p.length
      (if k.ceiling < p.length then k.ceiling else Frame.lengthLimit)) := by
  rw [frame, h]
  by_cases hc : k.ceiling < p.length
  · simp only [if_pos hc]
  · simp only [if_neg hc, Frame.enclose]
    exact if_neg (Nat.not_le_of_lt (hp.resolve_left hc))

theorem frame_eq_error {e : FrameError} (h : k.frame m = .error e) :
    (∃ reason, e = .unencodable reason) ∨ ∃ n limit, e = .tooLarge n limit := by
  cases hp : Frame.encodePayload m k.options.style with
  | error e' =>
    rw [frame_of_refused hp] at h
    cases h
    rw [Frame.encodePayload] at hp
    split at hp
    · cases hp
    · next reason _ =>
      cases hp
      exact .inl ⟨reason, rfl⟩
  | ok p =>
    rw [frame, hp] at h
    simp only [Frame.enclose] at h
    split at h
    · cases h
      exact .inr ⟨_, _, rfl⟩
    · split at h
      · cases h
      · cases h
        exact .inr ⟨_, _, rfl⟩

end Codec

namespace Client

namespace Reply

/-- Whether the stream failed or is at its end. -/
def isLost : Reply → Bool
  | .failed (.io _) => true
  | .failed (.timeout _) => true
  | .failed .closed => true
  | _ => false

def isOversized : Reply → Bool
  | .failed (.protocol (.tooLarge _ _)) => true
  | _ => false

end Reply

namespace Step

/-- The codec that a step sends with. -/
def codec (k : Codec) (s : Step) : Codec := { k with options := s.options k.options }

/-- Whether a step opened a connection. -/
def connects : Step → Reply → Bool
  | .connect _, .ok => true
  | _, _ => false

/-- Whether a step is to end with the stream let go, by what it is answered. -/
def releases (s : Step) (r : Reply) : Bool :=
  match s with
  | .connect _ => false
  | .close => true
  | .disconnect => true
  | .send _ => r.isLost
  | .sendWith _ _ => r.isLost
  | .startStreaming _ => r.isLost
  | .recv => r.isLost || r.isOversized

theorem of_message {s : Step} (h : s.message?.isSome) (r : Reply) :
    s.connects r = false ∧ s.releases r = r.isLost := by
  cases s with
  | send m => exact ⟨rfl, rfl⟩
  | sendWith m o => exact ⟨rfl, rfl⟩
  | startStreaming device => exact ⟨rfl, rfl⟩
  | connect dial => cases h
  | close => cases h
  | disconnect => cases h
  | recv => cases h

end Step

/-- How a step may end: with a connection opened or not, with the stream let go, with the stream
used and kept, or refused as it was asked. -/
inductive Outcome (c : Client) : Step → Reply → Client → Prop where
  | opened (dial : Dial) (t : Stream) :
      Outcome c (.connect dial) .ok { c with stream := t, connected := true }
  | unopened (dial : Dial) {e : ClientError} (kind : ∀ f, e ≠ .protocol f) :
      Outcome c (.connect dial) (.failed e) c
  | closed {r : Reply} (t : Stream) (held : c.connected = true)
      (kind : ∀ f, r ≠ .failed (.protocol f)) :
      Outcome c .close r { c with stream := t, connected := false }
  | idle (released : c.connected = false) : Outcome c .close .ok c
  | disconnected : Outcome c .disconnect .ok c.release
  | refused {s : Step} {m : Command} {e : FrameError} (message : s.message? = some m)
      (frame : (s.codec c.codec).frame (.command m) = .error e) :
      Outcome c s (.failed (.protocol e)) c
  | absent {s : Step} (released : c.connected = false) (asks : s = .recv ∨ s.message?.isSome) :
      Outcome c s (.failed .notConnected) c
  | sent {s : Step} (n : Nat) {t : Stream} (held : c.connected = true)
      (message : s.message?.isSome) (reads : t.reads = c.stream.reads) :
      Outcome c s (.sent n) { c with stream := t }
  | received (f : Frame) (t : Stream) (held : c.connected = true) :
      Outcome c .recv (.received f) { c with stream := t }
  | malformed (reason : Json.ReadError) (n : Nat) (t : Stream) (held : c.connected = true) :
      Outcome c .recv (.failed (.protocol (.malformed reason n))) { c with stream := t }
  | oversized (n : Nat) (t : Stream) (held : c.connected = true) :
      Outcome c .recv (.failed (.protocol (.tooLarge n c.codec.ceiling)))
        { c with stream := t, connected := false }
  | broken {s : Step} {e : ClientError} (t : Stream) (held : c.connected = true)
      (asks : s = .recv ∨ s.message?.isSome)
      (fails : (Reply.failed e).isLost = true) :
      Outcome c s (.failed e) { c with stream := t, connected := false }

variable {c : Client} {s : Step}

theorem perform_message {m : Command} (h : s.message? = some m) :
    c.perform s = Reply.of .sent (c.sendBy (s.codec c.codec) m) := by
  cases s <;> cases h <;> rfl

theorem connect_outcome (c : Client) (dial : Dial) :
    Outcome c (.connect dial) (c.perform (.connect dial)).1 (c.perform (.connect dial)).2 := by
  rw [perform, connect]
  split
  · exact .unopened dial (by simp)
  · cases dial with
    | opened t => exact .opened _ t
    | refused reason => exact .unopened _ (by simp)
    | late => exact .unopened _ (by simp)
    | unset t o reason =>
      dsimp only
      split
      · exact .unopened _ (by simp)
      · exact .opened _ t

theorem close_outcome (c : Client) :
    Outcome c .close (c.perform .close).1 (c.perform .close).2 := by
  cases hc : c.connected with
  | false =>
    rw [perform, close_released hc]
    exact .idle hc
  | true =>
    rw [perform, close, if_neg (by simp [hc])]
    dsimp only
    split <;> exact .closed _ hc (by simp [Reply.of])

theorem send_outcome {m : Command} (h : s.message? = some m) :
    Outcome c s (c.perform s).1 (c.perform s).2 := by
  have asks : s.message?.isSome := by rw [h]; rfl
  rw [perform_message h, sendBy]
  cases hf : (s.codec c.codec).frame (.command m) with
  | error e => exact .refused h hf
  | ok w =>
    cases hc : c.connected with
    | false =>
      simp only [writeFrame_released hc]
      exact .absent hc (.inr asks)
    | true =>
      simp only
      rw [writeFrame, if_neg (by simp [hc])]
      have hreads : (Stream.andThen (c.stream.write w (some c.timeouts.write)) fun _ a t =>
          t.flush a).2.reads = c.stream.reads :=
        Stream.andThen_keeps (P := fun t => t.reads = c.stream.reads) rfl fun _ _ _ ht => ht
      dsimp only
      split
      · exact .sent _ hc asks hreads
      · exact .broken _ hc (.inr asks) rfl
      · exact .broken _ hc (.inr asks) rfl

/-- A frame that is not read for its header announces more than the ceiling. -/
theorem readFrame_error {t t' : Stream} {ceiling : Nat} {a left : Allowance} {e : FrameError}
    (h : readFrame t ceiling a = (.done (.error e) left, t')) :
    ∃ n, ceiling < n ∧ e = .tooLarge n ceiling := by
  rw [readFrame, Stream.read] at h
  cases hr : readExactly Header.size a t.reads with
  | mk r rest =>
    rw [hr] at h
    cases r with
    | failed f => cases h
    | unfinished => cases h
    | done bs b =>
      obtain ⟨hd, hh, -⟩ := Frame.readHeader_whole (readExactly_length hr)
      simp only [Stream.andThen, hh] at h
      split at h
      · next above =>
        cases h
        exact ⟨_, above, rfl⟩
      · split at h <;> cases h

theorem recv_outcome (c : Client) : Outcome c .recv (c.perform .recv).1 (c.perform .recv).2 := by
  cases hc : c.connected with
  | false =>
    rw [perform, recv_released hc]
    exact .absent hc (.inl rfl)
  | true =>
    rw [perform, recv, if_neg (by simp [hc])]
    cases hf : readFrame c.stream c.codec.ceiling (some c.timeouts.read) with
    | mk r t =>
      cases r with
      | done found left =>
        cases found with
        | ok w =>
          cases he : w.entry with
          | ok f =>
            simp only [he]
            exact .received f t hc
          | error e =>
            obtain ⟨reason, rfl⟩ := RawFrame.entry_eq_error he
            simp only [he]
            exact .malformed reason _ t hc
        | error e =>
          obtain ⟨n, -, rfl⟩ := readFrame_error hf
          exact .oversized n t hc
      | failed f =>
        refine .broken t hc (.inl rfl) ?_
        split <;> rfl
      | unfinished => exact .broken t hc (.inl rfl) rfl

theorem perform_outcome (c : Client) (s : Step) : Outcome c s (c.perform s).1 (c.perform s).2 := by
  cases s with
  | connect dial => exact connect_outcome c dial
  | close => exact close_outcome c
  | disconnect => exact .disconnected
  | send m => exact send_outcome rfl
  | sendWith m o => exact send_outcome rfl
  | startStreaming device => exact send_outcome rfl
  | recv => exact recv_outcome c

variable {r : Reply} {c' : Client}

/-- The stream is held after a step when it was opened, or was held and need not be let go. -/
theorem Outcome.connection (h : Outcome c s r c') :
    c'.connected =
      if s.connects r then true else if s.releases r then false else c.connected := by
  cases h with
  | opened dial t => rfl
  | unopened dial kind => rfl
  | closed t held kind => rfl
  | idle released => exact released
  | disconnected => rfl
  | @refused s m e message frame =>
    obtain ⟨hs, hr⟩ := Step.of_message (by rw [message]; rfl) (.failed (.protocol e))
    rw [hs, hr]
    rfl
  | @absent s released asks =>
    obtain rfl | asks := asks
    · rfl
    · obtain ⟨hs, hr⟩ := Step.of_message asks (.failed .notConnected)
      rw [hs, hr]
      rfl
  | @sent s n t held message reads =>
    obtain ⟨hs, hr⟩ := Step.of_message message (.sent n)
    rw [hs, hr]
    rfl
  | received f t held => rfl
  | malformed reason n t held => rfl
  | oversized n t held => rfl
  | @broken s e t held asks fails =>
    obtain rfl | asks := asks
    · rw [Step.releases, fails]
      rfl
    · obtain ⟨hs, hr⟩ := Step.of_message asks (.failed e)
      rw [hs, hr, fails]
      rfl

/-- A refusal that need not cost the stream leaves a client as it was, except that a payload that is
refused was read. -/
theorem Outcome.refusal {e : ClientError} (h : Outcome c s (.failed e) c')
    (hr : s.releases (.failed e) = false) (he : s ≠ .recv ∨ e = .notConnected) : c' = c := by
  cases h with
  | unopened dial kind => rfl
  | closed t held kind => cases hr
  | refused message frame => rfl
  | absent released asks => rfl
  | malformed reason n t held =>
    obtain he | he := he
    · exact absurd rfl he
    · cases he
  | oversized n t held => cases hr
  | broken t held asks fails =>
    obtain rfl | asks := asks
    · rw [Step.releases, fails] at hr
      cases hr
    · rw [(Step.of_message asks _).2, fails] at hr
      cases hr

theorem Outcome.protocol {e : FrameError} (h : Outcome c s (.failed (.protocol e)) c') :
    (s = .recv ∧ ((∃ reason n, e = .malformed reason n) ∨ ∃ n, e = .tooLarge n c.codec.ceiling)) ∨
      (s.message?.isSome ∧
        ((∃ reason, e = .unencodable reason) ∨ ∃ n limit, e = .tooLarge n limit)) := by
  cases h with
  | unopened dial kind => exact absurd rfl (kind e)
  | closed t held kind => exact absurd rfl (kind e)
  | refused message frame => exact .inr ⟨by rw [message]; rfl, Codec.frame_eq_error frame⟩
  | malformed reason n t held => exact .inl ⟨rfl, .inl ⟨reason, n, rfl⟩⟩
  | oversized n t held => exact .inl ⟨rfl, .inr ⟨n, rfl⟩⟩
  | broken t held asks fails => cases fails

/-- A step that does not receive, and neither opens a connection nor loses it, reads nothing. -/
theorem Outcome.unread (h : Outcome c s r c') (hne : s ≠ .recv) (hr : s.releases r = false)
    (hs : s.connects r = false) :
    ∃ t : Stream, t.reads = c.stream.reads ∧ c' = { c with stream := t } := by
  cases h with
  | opened dial t => cases hs
  | unopened dial kind => exact ⟨c.stream, rfl, rfl⟩
  | closed t held kind => cases hr
  | idle released => exact ⟨c.stream, rfl, rfl⟩
  | disconnected => cases hr
  | refused message frame => exact ⟨c.stream, rfl, rfl⟩
  | absent released asks => exact ⟨c.stream, rfl, rfl⟩
  | @sent s n t held message reads => exact ⟨t, reads, rfl⟩
  | received f t held => exact absurd rfl hne
  | malformed reason n t held => exact absurd rfl hne
  | oversized n t held => exact absurd rfl hne
  | broken t held asks fails =>
    rw [(Step.of_message (asks.resolve_left hne) _).2, fails] at hr
    cases hr

/-- Without a stream, and as long as none is opened, a step finds none and leaves it at that. -/
theorem Outcome.without (h : Outcome c s r c') (hc : c.connected = false)
    (hs : s.connects r = false) : c' = c ∧ (s = .recv → r = .failed .notConnected) ∧
      (s = .close → r = .ok) ∧
      ∀ m w, s.message? = some m → (s.codec c.codec).frame (.command m) = .ok w →
        r = .failed .notConnected := by
  have gone (held : c.connected = true) : False := by
    rw [hc] at held
    cases held
  cases h with
  | opened dial t => cases hs
  | unopened dial kind => exact ⟨rfl, nofun, nofun, nofun⟩
  | closed t held kind => exact (gone held).elim
  | idle released => exact ⟨rfl, nofun, fun _ => rfl, nofun⟩
  | disconnected =>
    refine ⟨?_, nofun, nofun, nofun⟩
    obtain ⟨target, timeouts, codec, stream, connected⟩ := c
    exact congrArg _ hc.symm
  | @refused s m e message frame =>
    refine ⟨rfl, ?_, ?_, fun m' w hm hw => ?_⟩
    · rintro rfl
      cases message
    · rintro rfl
      cases message
    · cases message.symm.trans hm
      cases frame.symm.trans hw
  | @absent s released asks =>
    refine ⟨rfl, fun _ => rfl, ?_, fun _ _ _ _ => rfl⟩
    rintro rfl
    obtain asks | asks := asks
    · cases asks
    · cases asks
  | sent n held message reads => exact (gone held).elim
  | received f t held => exact (gone held).elim
  | malformed reason n t held => exact (gone held).elim
  | oversized n t held => exact (gone held).elim
  | broken t held asks fails => exact (gone held).elim

theorem run_without (hc : c.connected = false) {steps : List Step}
    (h : ∀ e ∈ c.history steps, e.1.connects e.2 = false) :
    c.run steps = c ∧ ∀ e ∈ c.history steps, (e.1 = .recv → e.2 = .failed .notConnected) ∧
      (e.1 = .close → e.2 = .ok) ∧
      ∀ m w, e.1.message? = some m → (e.1.codec c.codec).frame (.command m) = .ok w →
        e.2 = .failed .notConnected := by
  induction steps with
  | nil => exact ⟨rfl, by simp [history]⟩
  | cons s steps ih =>
    have hs := h (s, (c.perform s).1) List.mem_cons_self
    obtain ⟨hsame, hanswer⟩ := (perform_outcome c s).without hc hs
    have hrest := fun e he => h e (List.mem_cons_of_mem _ he)
    rw [hsame] at hrest
    obtain ⟨hrun, hanswers⟩ := ih hrest
    rw [run, history, hsame]
    refine ⟨hrun, fun e he => ?_⟩
    obtain rfl | he := List.mem_cons.1 he
    · exact hanswer
    · exact hanswers e he

/-- A step ends without a stream if it closes or disconnects, if the stream failed, timed out or was
at its end, or if a frame announced too much; it ends with one if it opened one; and in every other
case with the one it had, or with none, as before. Refusals change nothing at all. Receiving is
refused by the payload or by its length, and sending by a reserved name or by the length, with or
without a stream. Without one, and until one is opened, receiving and sending find none, and closing
has nothing to do. -/
theorem release_exact (c : Client) (s : Step) (later : List Step) :
    let r := (c.perform s).1
    let c' := (c.perform s).2
    (c'.connected =
      if s.connects r then true else if s.releases r then false else c.connected) ∧
    (∀ e, r = .failed e → s.releases r = false → s ≠ .recv ∨ e = .notConnected → c' = c) ∧
    (∀ e, r = .failed (.protocol e) →
      (s = .recv ∧ ((∃ reason n, e = .malformed reason n) ∨ ∃ n, e = .tooLarge n c.codec.ceiling)) ∨
      (s.message?.isSome ∧
        ((∃ reason, e = .unencodable reason) ∨ ∃ n limit, e = .tooLarge n limit))) ∧
    (∀ m, s.message? = some m →
      (∀ e, Frame.encodePayload (.command m) (s.options c.codec.options).style = .error e →
        r = .failed (.protocol e)) ∧
      (∀ p, Frame.encodePayload (.command m) (s.options c.codec.options).style = .ok p →
        c.codec.ceiling < p.length ∨ Frame.lengthLimit < p.length →
        r = .failed (.protocol (.tooLarge p.length
          (if c.codec.ceiling < p.length then c.codec.ceiling else Frame.lengthLimit))))) ∧
    (c'.connected = false → (∀ e ∈ c'.history later, e.1.connects e.2 = false) →
      c'.run later = c' ∧ ∀ e ∈ c'.history later, (e.1 = .recv → e.2 = .failed .notConnected) ∧
        (e.1 = .close → e.2 = .ok) ∧
        ∀ m w, e.1.message? = some m → (e.1.codec c'.codec).frame (.command m) = .ok w →
          e.2 = .failed .notConnected) := by
  intro r c'
  have houtcome : Outcome c s r c' := perform_outcome c s
  refine ⟨houtcome.connection, fun e hr hkeep he => ?_, fun e hr => ?_, fun m hm => ?_,
    fun hc h => run_without hc h⟩
  · rw [hr] at houtcome hkeep
    exact houtcome.refusal hkeep he
  · rw [hr] at houtcome
    exact houtcome.protocol
  · have hrefused (e : FrameError) (hf : (s.codec c.codec).frame (.command m) = .error e) :
        r = .failed (.protocol e) := by
      have hperform : r = (Reply.of .sent (c.sendBy (s.codec c.codec) m)).1 :=
        congrArg Prod.fst (perform_message hm)
      rw [hperform, sendBy, hf]
      rfl
    exact ⟨fun e he => hrefused e (Codec.frame_of_refused he),
      fun p hp hlong => hrefused _ (Codec.frame_of_oversized hp hlong)⟩

end Client

end CameraChannel
