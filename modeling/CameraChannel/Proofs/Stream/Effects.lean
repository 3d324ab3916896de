import CameraChannel.Proofs.Frame.RoundTrip
import CameraChannel.Stream.Client

/-!
What one step of a client does to its stream: the bytes taken, the flushes and shutdowns asked for,
and whether the stream is kept.
-/
namespace CameraChannel

/-- A write takes bytes from the front, and all of them when it is done. -/
theorem writeAll_taken (bs : Bytes) (a : Allowance) (es : List WriteEvent) :
    (writeAll bs a es).2.1 <+: bs ∧
      ((writeAll bs a es).1.isDone → (writeAll bs a es).2.1 = bs) := by
  fun_induction writeAll bs a es with
  | case1 => exact ⟨List.prefix_refl _, fun _ => rfl⟩
  | case2 bs a e es hb => exact ⟨List.nil_prefix, fun _ => (List.isEmpty_iff.1 hb).symm⟩
  | case3 => exact ⟨List.nil_prefix, fun h => by cases h⟩
  | case4 bs a es hb most hm r taken rest hr ih =>
    rw [hr] at ih
    obtain ⟨⟨more, hmore⟩, hd⟩ := ih
    refine ⟨⟨more, ?_⟩, fun h => ?_⟩
    · rw [List.append_assoc, hmore, List.take_append_drop]
    · exact (congrArg (bs.take most ++ ·) (hd h)).trans (List.take_append_drop most bs)
  | case5 bs a es hb f hf ih => exact ih
  | case6 => exact ⟨List.nil_prefix, fun h => by cases h⟩
  | case7 bs a es hb ms left hs ih => exact ih
  | case8 => exact ⟨List.nil_prefix, fun h => by cases h⟩
  | case9 => exact ⟨List.nil_prefix, fun h => by cases h⟩

/-- What both operations keep is kept by one after the other. -/
theorem Stream.andThen_keeps {α β : Type} {P : Stream → Prop} {first : Ending α × Stream}
    {second : α → Allowance → Stream → Ending β × Stream} (hfirst : P first.2)
    (hsecond : ∀ v a s, P s → P (second v a s).2) : P (andThen first second).2 := by
  obtain ⟨r, s⟩ := first
  cases r with
  | done v a => exact hsecond v a s hfirst
  | failed f => exact hfirst
  | unfinished => exact hfirst

namespace Client

namespace Step

/-- The command that a step is to send. -/
def message? : Step → Option Command
  | .send m => some m
  | .sendWith m _ => some m
  | .startStreaming device => some (.startStreaming device)
  | .connect _ => none
  | .close => none
  | .disconnect => none
  | .recv => none

/-- The options that a step sends with: its own, or those of the client. -/
def options (o : FrameOptions) : Step → FrameOptions
  | .sendWith _ own => own
  | _ => o

/-- The frame that a step is to send. -/
def frame? (o : FrameOptions) (s : Step) : Option Bytes :=
  s.message?.bind fun m => (Frame.encode (.command m) (s.options o)).toOption

end Step

namespace Reply

def isSent : Reply → Bool
  | .sent _ => true
  | _ => false

/-- Whether the stream, and no refusal, made a step fail. -/
def isBroken : Reply → Bool
  | .failed (.io _) => true
  | .failed (.timeout _) => true
  | _ => false

end Reply

/-- What a step may do to a client and its stream: leave the wire alone, put a whole frame on it,
break off in a frame and let the stream go, or flush and shut it down and let it go. -/
inductive Effect (c : Client) : Step → Reply → Client → Prop where
  | quiet {s : Step} {r : Reply} {c' : Client} (unsent : r.isSent = false)
      (unbroken : r.isBroken = true → s.message? = none)
      (taken : c'.stream.taken = c.stream.taken) (controls : c'.stream.controls = c.stream.controls)
      (kept : c'.connected = true → c.connected = true) : Effect c s r c'
  | sent {s : Step} {w : Bytes} {c' : Client} (held : c.connected = true)
      (frame : s.frame? c.codec.options = some w)
      (fits : w.length ≤ Header.size + c.codec.ceiling)
      (taken : c'.stream.taken = c.stream.taken ++ w)
      (controls : c'.stream.controls = c.stream.controls ++ [(.flush, true)])
      (kept : c'.connected = true) : Effect c s (.sent w.length) c'
  | broken {s : Step} {e : ClientError} {w p : Bytes} {c' : Client} {tried : List (Control × Bool)}
      (held : c.connected = true) (fails : (Reply.failed e).isBroken = true)
      (frame : s.frame? c.codec.options = some w)
      (fits : w.length ≤ Header.size + c.codec.ceiling) (part : p <+: w)
      (taken : c'.stream.taken = c.stream.taken ++ p)
      (controls : c'.stream.controls = c.stream.controls ++ tried)
      (flushes : tried = [] ∨ tried = [(.flush, false)])
      (gone : c'.connected = false) : Effect c s (.failed e) c'
  | closed {r : Reply} {c' : Client} {tried : List (Control × Bool)}
      (held : c.connected = true) (unsent : r.isSent = false)
      (taken : c'.stream.taken = c.stream.taken)
      (controls : c'.stream.controls = c.stream.controls ++ tried)
      (flushes : tried = [(.flush, false)] ∨ ∃ ok, tried = [(.flush, true), (.shutdown, ok)])
      (gone : c'.connected = false) : Effect c .close r c'

variable {c : Client} {s : Step}

theorem connect_unaddressed (h : c.target = none) (dial : Dial) :
    c.connect dial = (.error (.connectionFailed "<stream>" "no address configured"), c) := by
  rw [connect, h]

theorem close_released (h : c.connected = false) : c.close = (.ok (), c) := by
  rw [close, if_pos (by simp [h])]

theorem writeFrame_released (h : c.connected = false) (w : Bytes) :
    c.writeFrame w = (.error .notConnected, c) := by
  rw [writeFrame, if_pos (by simp [h])]

theorem recv_released (h : c.connected = false) : c.recv = (.error .notConnected, c) := by
  rw [recv, if_pos (by simp [h])]

theorem writeFrame_effect {w : Bytes} (hw : s.frame? c.codec.options = some w)
    (hfit : w.length ≤ Header.size + c.codec.ceiling) :
    Effect c s (Reply.of .sent (c.writeFrame w)).1 (Reply.of .sent (c.writeFrame w)).2 := by
  cases hc : c.connected with
  | false =>
    rw [writeFrame_released hc]
    exact .quiet rfl nofun rfl rfl id
  | true =>
    have hp := writeAll_taken w (some c.timeouts.write) c.stream.writes
    rw [writeFrame, Stream.write]
    simp only [hc]
    cases hr : writeAll w (some c.timeouts.write) c.stream.writes with
    | mk r rest =>
      rw [hr] at hp
      cases r with
      | done u a =>
        -- all is taken, so what is left to fail is the flush
        obtain rfl : rest.1 = w := hp.2 rfl
        simp only [Stream.andThen, Stream.flush]
        cases (control a c.stream.flushes).1 with
        | done v b => exact .sent hc hw hfit rfl rfl rfl
        | failed f => exact .broken hc rfl hw hfit hp.1 rfl rfl (.inr rfl) rfl
        | unfinished => exact .broken hc rfl hw hfit hp.1 rfl rfl (.inr rfl) rfl
      | failed f => exact .broken hc rfl hw hfit hp.1 rfl (List.append_nil _).symm (.inl rfl) rfl
      | unfinished => exact .broken hc rfl hw hfit hp.1 rfl (List.append_nil _).symm (.inl rfl) rfl

theorem sendBy_effect {k : Codec} {m : Command} (hk : k.ceiling = c.codec.ceiling)
    (hs : s.frame? c.codec.options = (Frame.encode (.command m) k.options).toOption) :
    Effect c s (Reply.of .sent (c.sendBy k m)).1 (Reply.of .sent (c.sendBy k m)).2 := by
  rw [sendBy]
  cases hf : k.frame (.command m) with
  | error e => exact .quiet rfl nofun rfl rfl id
  | ok w =>
    obtain ⟨he, hfit⟩ := Codec.encode_of_frame hf
    refine writeFrame_effect ?_ (hk ▸ hfit)
    rw [hs, he]
    rfl

theorem Reply.of_unsent {α : Type} {f : α → Reply} (hf : ∀ a, (f a).isSent = false)
    (r : Except ClientError α × Client) : (Reply.of f r).1.isSent = false := by
  obtain ⟨r, c⟩ := r
  cases r with
  | ok a => exact hf a
  | error e => rfl

theorem Reply.of_client {α : Type} (f : α → Reply) (r : Except ClientError α × Client) :
    (Reply.of f r).2 = r.2 := by
  obtain ⟨r, c⟩ := r
  cases r <;> rfl

theorem close_effect (c : Client) :
    Effect c .close (Reply.of (fun _ => .ok) c.close).1 (Reply.of (fun _ => .ok) c.close).2 := by
  have hu := Reply.of_unsent (f := fun _ : Unit => .ok) (fun _ => rfl) c.close
  rw [Reply.of_client]
  cases hc : c.connected with
  | false =>
    rw [close_released hc]
    exact .quiet rfl nofun rfl rfl id
  | true =>
    rw [close] at hu ⊢
    simp only [hc, Stream.andThen, Stream.flush, Stream.shutdown] at hu ⊢
    cases hf : (control (some c.timeouts.write) c.stream.flushes).1 with
    | done v b =>
      rw [hf] at hu
      exact .closed hc hu rfl (List.append_assoc _ _ _) (.inr ⟨_, rfl⟩) rfl
    | failed f =>
      rw [hf] at hu
      exact .closed hc hu rfl rfl (.inl rfl) rfl
    | unfinished =>
      rw [hf] at hu
      exact .closed hc hu rfl rfl (.inl rfl) rfl

/-- Reading leaves what was taken and what was asked for. -/
theorem readFrame_taken (s : Stream) (ceiling : Nat) (a : Allowance) :
    (readFrame s ceiling a).2.taken = s.taken ∧
      (readFrame s ceiling a).2.controls = s.controls := by
  rw [readFrame]
  apply Stream.andThen_keeps (P := fun t => t.taken = s.taken ∧ t.controls = s.controls)
  · exact ⟨rfl, rfl⟩
  intro bs left t ht
  split
  · exact ht
  · split
    · exact ht
    · exact Stream.andThen_keeps (P := fun t => t.taken = s.taken ∧ t.controls = s.controls) ht
        fun _ _ _ h => h

theorem recv_effect (c : Client) :
    Effect c .recv (Reply.of .received c.recv).1 (Reply.of .received c.recv).2 := by
  have hu := Reply.of_unsent (f := .received) (fun _ => rfl) c.recv
  rw [Reply.of_client]
  cases hc : c.connected with
  | false =>
    rw [recv_released hc]
    exact .quiet rfl nofun rfl rfl id
  | true =>
    obtain ⟨ht, hk⟩ := readFrame_taken c.stream c.codec.ceiling (some c.timeouts.read)
    have hs : c.recv.2.stream =
        (readFrame c.stream c.codec.ceiling (some c.timeouts.read)).2 := by
      rw [recv, if_neg (by simp [hc])]
      dsimp only
      split <;> rfl
    exact .quiet hu (fun _ => rfl) (hs ▸ ht) (hs ▸ hk) fun _ => hc

/-- What a step of a client without an address does. -/
theorem perform_effect (h : c.target = none) (s : Step) :
    Effect c s (c.perform s).1 (c.perform s).2 := by
  cases s with
  | connect dial =>
    rw [perform, connect_unaddressed h]
    exact .quiet rfl nofun rfl rfl id
  | close => exact close_effect c
  | disconnect => exact .quiet rfl nofun rfl rfl fun h => by cases h
  | send m => exact sendBy_effect rfl rfl
  | sendWith m o => exact sendBy_effect rfl rfl
  | startStreaming device => exact sendBy_effect rfl rfl
  | recv => exact recv_effect c

theorem writeFrame_keeps (c : Client) (w : Bytes) :
    (c.writeFrame w).2.target = c.target ∧ (c.writeFrame w).2.codec = c.codec := by
  rw [writeFrame]
  split
  · exact ⟨rfl, rfl⟩
  · dsimp only
    split <;> exact ⟨rfl, rfl⟩

theorem sendBy_keeps (c : Client) (k : Codec) (m : Command) :
    (c.sendBy k m).2.target = c.target ∧ (c.sendBy k m).2.codec = c.codec := by
  rw [sendBy]
  split
  · exact ⟨rfl, rfl⟩
  · exact writeFrame_keeps c _

/-- No step changes the options or the ceiling of a client. -/
theorem perform_keeps (h : c.target = none) (s : Step) :
    (c.perform s).2.target = none ∧ (c.perform s).2.codec = c.codec := by
  cases s with
  | connect dial =>
    rw [perform, connect_unaddressed h]
    exact ⟨h, rfl⟩
  | close =>
    rw [perform, Reply.of_client, close]
    split
    · exact ⟨h, rfl⟩
    · exact ⟨h, rfl⟩
  | disconnect => exact ⟨h, rfl⟩
  | send m =>
    rw [perform, Reply.of_client, ← h]
    exact sendBy_keeps c c.codec m
  | sendWith m o =>
    rw [perform, Reply.of_client, ← h]
    exact sendBy_keeps c { c.codec with options := o } m
  | startStreaming device =>
    rw [perform, Reply.of_client, ← h]
    exact sendBy_keeps c c.codec (.startStreaming device)
  | recv =>
    rw [perform, Reply.of_client, recv]
    split
    · exact ⟨h, rfl⟩
    · dsimp only
      split <;> exact ⟨h, rfl⟩

theorem sendBy_released (hc : c.connected = false) (k : Codec) (m : Command) :
    (c.sendBy k m).2 = c := by
  rw [sendBy]
  split
  · rfl
  · rw [writeFrame_released hc]

/-- A client without an address stays as it is once its stream was let go. -/
theorem perform_released (h : c.target = none) (hc : c.connected = false) (s : Step) :
    (c.perform s).2 = c := by
  cases s with
  | connect dial => rw [perform, Reply.of_client, connect_unaddressed h]
  | close => rw [perform, Reply.of_client, close_released hc]
  | disconnect =>
    obtain ⟨target, timeouts, codec, stream, connected⟩ := c
    exact congrArg _ hc.symm
  | send m => exact (Reply.of_client _ _).trans (sendBy_released hc c.codec m)
  | sendWith m o => exact (Reply.of_client _ _).trans (sendBy_released hc _ m)
  | startStreaming device => exact (Reply.of_client _ _).trans (sendBy_released hc c.codec _)
  | recv => rw [perform, Reply.of_client, recv_released hc]

/-- Of all steps only closing asks for a shutdown. -/
theorem Effect.shutdowns {r : Reply} {c' : Client} (h : Effect c s r c') (hs : s ≠ .close) :
    ∃ tried, c'.stream.controls = c.stream.controls ++ tried ∧ ∀ a ∈ tried, a.1 = .flush := by
  cases h with
  | quiet unsent unbroken taken controls => exact ⟨[], by rw [controls, List.append_nil], by simp⟩
  | sent held frame fits taken controls => exact ⟨_, controls, by simp⟩
  | broken held fails frame fits part taken controls flushes =>
    refine ⟨_, controls, ?_⟩
    obtain rfl | rfl := flushes
    · simp
    · simp
  | closed => exact absurd rfl hs

theorem Effect.sent_taken {n : Nat} {c' : Client} (h : Effect c s (.sent n) c') :
    ∃ w, s.frame? c.codec.options = some w ∧ n = w.length ∧
      c'.stream.taken = c.stream.taken ++ w := by
  cases h with
  | quiet unsent => cases unsent
  | sent held frame fits taken => exact ⟨_, frame, rfl, taken⟩
  | closed held unsent => cases unsent

theorem Effect.refused_taken {e : ClientError} {c' : Client} (h : Effect c s (.failed e) c')
    (he : (Reply.failed e).isBroken = false) : c'.stream.taken = c.stream.taken := by
  cases h with
  | quiet unsent unbroken taken => exact taken
  | broken held fails =>
    rw [he] at fails
    cases fails
  | closed held unsent taken => exact taken

end Client

end CameraChannel
