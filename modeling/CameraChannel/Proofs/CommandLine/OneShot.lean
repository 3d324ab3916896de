import CameraChannel.Proofs.CommandLine.Offline
import CameraChannel.Proofs.Frame.Rendering
import CameraChannel.Proofs.Stream.Limits

/-!
A command sent over a connection of its own. Main statement: the peer gets the frame that encoding
prints, or a part of it when the stream fails, or nothing when the command is refused, and then the
end of the stream; what is told is how the sending went.
-/
namespace CameraChannel

namespace CommandLine.Offline

/-- A run that went well and shows a frame in hex, alone or as a member of an object. -/
def Shows (t : Transcript) (w : Bytes) : Format → Prop
  | .text => t.exitCode = 0 ∧ t.out = Hex.text w ++ "\n"
  | .json => t.exitCode = 0 ∧ ∃ v : Json, t.out = v.text .compact ++ "\n" ∧
      v.member? "frame" = some (.string (Hex.text w))

theorem encode_shows (g : Globals) {c : Command} {o : FrameOptions} {w : Bytes}
    (h : Frame.encode (.command c) o = .ok w) : Shows (encode g c o) w g.format := by
  cases hf : g.format with
  | text => exact encode_taken hf h
  | json =>
    rw [encode, h, hf]
    refine ⟨rfl, _, out_outLine _, ?_⟩
    rw [Json.member?_canonical]
    rfl

end CommandLine.Offline

namespace Timed

variable {α : Type} {f : Timed α} {s : Stream} {w : Bytes}

/-- An operation is done under a limit when it is done without one and its delays fit in. -/
theorem Regular.done_iff (h : Regular f s) (limit : Nat) :
    (f (some limit) s).1.isDone = true ↔ (f none s).1.isDone = true ∧ f.time s ≤ limit := by
  obtain ⟨d, r, s', h⟩ := h
  rw [h.time_eq, h.unlimited]
  cases r with
  | none =>
    rw [h.late limit (.inl rfl)]
    simp [Ending.isDone, Ending.of]
  | some r =>
    by_cases hd : d ≤ limit
    · rw [h.inTime limit rfl hd, Ending.isDone_of]
      simp [hd]
    · rw [h.late limit (.inr (by omega))]
      simp [Ending.isDone, hd]

/-- A frame is done with when it was written and the flush behind it is done. -/
theorem write_of_put {a : Allowance} (h : (put w a s).1.isDone = true) :
    (s.write w a).1.isDone = true := by
  rw [put] at h
  generalize s.write w a = first at h ⊢
  obtain ⟨r, t⟩ := first
  cases r with
  | done _ _ => rfl
  | failed _ => exact h
  | unfinished => exact h

/-- A socket has nothing to flush. -/
theorem put_unbuffered (h : s.flushes = []) (w : Bytes) (a : Allowance) :
    (put w a s).1.isDone = (s.write w a).1.isDone := by
  have hf : (s.write w a).2.flushes = [] := h
  rw [put]
  generalize s.write w a = first at hf ⊢
  obtain ⟨r, t⟩ := first
  cases r with
  | done _ left =>
    change (t.flush left).1.isDone = true
    rw [Stream.flush, show t.flushes = [] from hf]
    rfl
  | failed _ => rfl
  | unfinished => rfl

end Timed

namespace Client

variable {c : Client} {w : Bytes}

/-- What the peer can read: the bytes that the stream has taken, and its end once it was let go. -/
def heard (c : Client) : List ReadEvent :=
  leftover c.stream.taken (if c.connected then [.never] else [.finish])

theorem connect_cases (c : Client) (dial : Dial) :
    (∃ e, c.connect dial = (.error e, c)) ∨
    ∃ s, c.connect dial = (.ok (), { c with stream := s, connected := true }) := by
  rw [connect]
  split
  · exact .inl ⟨_, rfl⟩
  split
  · exact .inr ⟨_, rfl⟩
  · exact .inl ⟨_, rfl⟩
  · exact .inl ⟨_, rfl⟩
  split
  · exact .inl ⟨_, rfl⟩
  · exact .inr ⟨_, rfl⟩

/-- A close takes nothing more, and the stream is let go. -/
theorem close_released_taken (c : Client) :
    c.close.2.connected = false ∧ c.close.2.stream.taken = c.stream.taken := by
  cases hc : c.connected with
  | false =>
    rw [close_released hc]
    exact ⟨hc, rfl⟩
  | true =>
    rw [close, if_neg (by simp [hc])]
    exact ⟨rfl, Stream.andThen_keeps (P := fun t => t.taken = c.stream.taken) rfl fun _ _ _ h => h⟩

theorem heard_close (c : Client) : c.close.2.heard = leftover c.stream.taken [.finish] := by
  obtain ⟨hconnected, htaken⟩ := c.close_released_taken
  rw [heard, hconnected, htaken]
  rfl

/-- A frame is written when the stream takes it and is flushed in time. -/
theorem writeFrame_eq_ok (hc : c.connected = true) {n : Nat} : (c.writeFrame w).1 = .ok n ↔
    n = w.length ∧ (Timed.put w (some c.timeouts.write) c.stream).1.isDone = true := by
  rw [writeFrame, if_neg (by simp [hc]), Timed.put]
  dsimp only
  cases Stream.andThen (c.stream.write w (some c.timeouts.write)) fun _ a s => s.flush a with
  | mk r t => cases r <;> simp [Ending.isDone, eq_comm]

theorem writeFrame_taken (hc : c.connected = true) (w : Bytes) :
    (c.writeFrame w).2.stream.taken =
      c.stream.taken ++ (writeAll w (some c.timeouts.write) c.stream.writes).2.1 := by
  rw [← put_taken, writeFrame, if_neg (by simp [hc]), Timed.put]
  dsimp only
  cases Stream.andThen (c.stream.write w (some c.timeouts.write)) fun _ a s => s.flush a with
  | mk r t => cases r <;> rfl

/-- A frame that is written over a fresh stream, and what the peer can read when it was closed. -/
theorem writeFrame_heard (hc : c.connected = true) (ht : c.stream.taken = []) (hw : w ≠ []) :
    (∀ n, (c.writeFrame w).1 = .ok n →
      n = w.length ∧ (c.writeFrame w).2.close.2.heard = [.data w, .finish]) ∧
    ∃ part, part <+: w ∧ (c.writeFrame w).2.close.2.heard = leftover part [.finish] := by
  obtain ⟨hpart, hall⟩ := writeAll_taken w (some c.timeouts.write) c.stream.writes
  have hheard := heard_close (c.writeFrame w).2
  rw [writeFrame_taken hc, ht, List.nil_append] at hheard
  refine ⟨fun n hn => ?_, _, hpart, hheard⟩
  obtain ⟨hlen, hdone⟩ := (writeFrame_eq_ok hc).1 hn
  rw [hheard, hall (Timed.write_of_put hdone), leftover, if_neg (by simpa using hw)]
  exact ⟨hlen, rfl⟩

/-- When a frame is written in time, with the flush and, on a socket, without it. -/
theorem writeFrame_inTime (hc : c.connected = true) :
    ((c.writeFrame w).1 = .ok w.length ↔ (Timed.put w none c.stream).1.isDone = true ∧
      (Timed.put w).time c.stream ≤ c.timeouts.write) ∧
    (c.stream.flushes = [] →
      ((c.writeFrame w).1 = .ok w.length ↔ (c.stream.write w none).1.isDone = true ∧
        Timed.time (fun a s => s.write w a) c.stream ≤ c.timeouts.write)) := by
  rw [writeFrame_eq_ok hc, and_iff_right rfl]
  refine ⟨(Timed.regular_put w c.stream).done_iff _, fun hf => ?_⟩
  rw [Timed.put_unbuffered hf]
  exact (Timed.regular_write w c.stream).done_iff _

theorem exists_payload (m : Command) (s : Style) :
    (∃ p, Frame.encodePayload (.command m) s = .ok p) ↔ m.Unreserved := by
  constructor
  · rintro ⟨p, hp⟩
    cases hd : m.document with
    | ok v => exact Command.unreserved_of_document hd
    | error r => cases (Frame.encodePayload_of_error (m := .command m) hd s).symm.trans hp
  · intro h
    exact ⟨_, Frame.encodePayload_command h s⟩

section Sending

variable {m : Command} {o : FrameOptions} {p : Bytes}

/-- A command that is refused over a fresh stream leaves the end of the stream only. -/
theorem sendWith_refused {e : FrameError} (ht : c.stream.taken = [])
    (h : { c.codec with options := o }.frame (.command m) = .error e) :
    (c.sendWith m o).1 = .error (.protocol e) ∧ (c.sendWith m o).2.close.2.heard = [.finish] := by
  have hsend : c.sendWith m o = (.error (.protocol e), c) := by rw [sendWith, sendBy, h]
  rw [hsend, heard_close, ht]
  exact ⟨rfl, rfl⟩

theorem sendWith_oversized (ht : c.stream.taken = [])
    (hp : Frame.encodePayload (.command m) o.style = .ok p) (hlarge : c.codec.ceiling < p.length) :
    (c.sendWith m o).1 = .error (.protocol (.tooLarge p.length c.codec.ceiling)) ∧
      (c.sendWith m o).2.close.2.heard = [.finish] := by
  have hframe := Codec.frame_of_oversized (k := { c.codec with options := o }) hp (.inl hlarge)
  rw [if_pos hlarge] at hframe
  exact sendWith_refused ht hframe

/-- A command within the ceiling is written as the frame that is encoded without a client. -/
theorem sendWith_fits (hp : Frame.encodePayload (.command m) o.style = .ok p)
    (hceiling : p.length ≤ c.codec.ceiling) (hlimit : p.length ≤ Frame.lengthLimit) :
    ∃ w, Frame.encode (.command m) o = .ok w ∧ w ≠ [] ∧ c.sendWith m o = c.writeFrame w := by
  refine ⟨(Frame.rawFrame p o).toBytes, ?_, ?_, ?_⟩
  · rw [Frame.encode_of_payload hp]
    exact Frame.enclose_fits hlimit o
  · refine List.ne_nil_of_length_pos ?_
    rw [RawFrame.length_toBytes, Header.size]
    omega
  · rw [sendWith, sendBy,
      Codec.frame_of_payload (k := { c.codec with options := o }) hp hceiling hlimit]

end Sending

/-- A command is sent once over a connection of its own. When the connection fails, that is the
result, whatever the command is. Over one that was made the result is that of the sending alone, and
the stream is let go in any case. A command that is refused, or whose payload is above 16 MiB, gives
that error and leaves nothing but the end of the stream. Any other is the frame that encoding shows
for it. It is sent exactly when the stream takes all of it and is flushed, with all delays within
the time for writing; on a socket, which has nothing to flush, when it takes all of it in that time.
Then the peer of a new connection gets this frame and the end of the stream, and otherwise a part of
the frame and the end. -/
theorem sendOnce_exact (host : String) (port : UInt16) (limits : Timeouts)
    (dial : Dial) (m : Command) (o : FrameOptions) :
    let c : Client := { Client.ofAddress host port with timeouts := limits }
    let reached := (c.connect dial).2
    let sent := (c.sendOnce dial m o).1
    let after := (c.sendOnce dial m o).2
    (∀ e, (c.connect dial).1 = .error e → sent = .error e ∧ after = c) ∧
    ((c.connect dial).1 = .ok () →
      sent = (reached.sendWith m o).1 ∧ after.connected = false ∧
      ((∃ p, Frame.encodePayload (.command m) o.style = .ok p) ↔ m.Unreserved) ∧
      (reached.stream.taken = [] →
        (∀ e, Frame.encodePayload (.command m) o.style = .error e →
          sent = .error (.protocol e) ∧ after.heard = [.finish]) ∧
        ∀ p, Frame.encodePayload (.command m) o.style = .ok p →
          (16777216 < p.length →
            sent = .error (.protocol (.tooLarge p.length 16777216)) ∧ after.heard = [.finish]) ∧
          (p.length ≤ 16777216 → ∃ w, Frame.encode (.command m) o = .ok w ∧
            (∀ (machine : CommandLine.Machine) g s, CommandLine.Offline.Shows
              (machine.perform g s (.encode m o)).1 w g.format) ∧
            (sent = .ok w.length ↔ (Timed.put w none reached.stream).1.isDone = true ∧
              (Timed.put w).time reached.stream ≤ limits.write) ∧
            (reached.stream.flushes = [] →
              (sent = .ok w.length ↔ (reached.stream.write w none).1.isDone = true ∧
                Timed.time (fun a s => s.write w a) reached.stream ≤ limits.write)) ∧
            (∀ n, sent = .ok n → n = w.length ∧ after.heard = [.data w, .finish]) ∧
            ∃ part, part <+: w ∧ after.heard = leftover part [.finish]))) := by
  intro c reached sent after
  obtain ⟨e, hconnect⟩ | ⟨s, hconnect⟩ := c.connect_cases dial
  · have honce : c.sendOnce dial m o = (.error e, c) := by rw [sendOnce, hconnect]
    have hsent : sent = .error e := congrArg Prod.fst honce
    have hafter : after = c := congrArg Prod.snd honce
    rw [hconnect]
    exact ⟨fun e' he => ⟨hsent.trans (congrArg _ (Except.error.inj he)), hafter⟩, nofun⟩
  · -- the client as it is with its connection
    obtain ⟨k, hk⟩ : ∃ k : Client, k = { c with stream := s, connected := true } := ⟨_, rfl⟩
    have hconnected : k.connected = true := hk ▸ rfl
    have hcodec : k.codec = {} := hk ▸ rfl
    have hlimits : k.timeouts = limits := hk ▸ rfl
    rw [← hk] at hconnect
    have honce : c.sendOnce dial m o = ((k.sendWith m o).1, (k.sendWith m o).2.close.2) := by
      rw [sendOnce, hconnect]
    have hreached : reached = k := congrArg Prod.snd hconnect
    have hsent : sent = (k.sendWith m o).1 := by
      change (c.sendOnce dial m o).1 = _
      rw [honce]
    have hafter : after = (k.sendWith m o).2.close.2 := by
      change (c.sendOnce dial m o).2 = _
      rw [honce]
    rw [hconnect, hreached, hsent, hafter]
    refine ⟨nofun, fun _ => ⟨rfl, (close_released_taken _).1, exists_payload m o.style,
      fun htaken => ⟨fun e he => sendWith_refused htaken (Codec.frame_of_refused he),
        fun p hp => ⟨fun hlarge => ?_, fun hsmall => ?_⟩⟩⟩⟩
    · obtain ⟨hresult, hend⟩ := sendWith_oversized htaken hp (c := k) (hcodec ▸ hlarge)
      exact ⟨hresult.trans (by rw [hcodec]), hend⟩
    · have hlimit : p.length ≤ Frame.lengthLimit := Nat.le_trans hsmall (by decide)
      obtain ⟨w, hencode, hw, hsend⟩ := sendWith_fits (c := k) hp (hcodec ▸ hsmall) hlimit
      obtain ⟨hall, hpart⟩ := writeFrame_heard hconnected htaken hw
      obtain ⟨hflushed, hsocket⟩ := writeFrame_inTime (w := w) hconnected
      rw [hlimits] at hflushed hsocket
      rw [hsend]
      exact ⟨w, hencode, fun machine g s => CommandLine.Offline.encode_shows g hencode, hflushed,
        hsocket, hall, hpart⟩

/-- A shutdown that fails is not told. -/
example : ((Client.ofAddress "camera" 6123).sendOnce
    (.opened { shutdowns := [.failure { reason := "reset" }] }) { code := 1 } {}).1 = .ok 28 := rfl

end Client

end CameraChannel
