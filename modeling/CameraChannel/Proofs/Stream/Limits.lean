import CameraChannel.Proofs.Stream.Sending
import CameraChannel.Proofs.Stream.Waiting

/-!
Operations under a time limit. A limit is not noticed when all delays of an operation fit into it
together; when they do not, the operation times out, the stream is let go, and of what was to be
written the stream has taken what it took before that time. Main statement: `Client.limit_exact`.
-/
namespace CameraChannel

/-- The pieces that a write takes when it has no limit, each with the time up to which it waits. -/
def takes (bs : Bytes) (t : Nat) : List WriteEvent → List (Nat × Bytes)
  | [] => [(t, bs)]
  | e :: es =>
    if bs.isEmpty then []
    else
      match e with
      | .accept most => if most = 0 then [] else (t, bs.take most) :: takes (bs.drop most) t es
      | .failure f => if f.kind = .interrupted then takes bs t es else []
      | .delay ms => takes bs (t + ms) es
      | .never => []

/-- The bytes that are taken when the clock shows such a time. -/
def bytesWhen (p : Nat → Bool) (pieces : List (Nat × Bytes)) : Bytes :=
  (pieces.filter fun x => p x.1).flatMap (·.2)

theorem le_of_mem_takes {bs : Bytes} {t : Nat} {es : List WriteEvent} {x : Nat × Bytes}
    (h : x ∈ takes bs t es) : t ≤ x.1 := by
  fun_induction takes bs t es with
  | case1 bs t =>
    rw [List.mem_singleton.1 h]
  | case2 => cases h
  | case3 => cases h
  | case4 bs t es hb most hm ih =>
    obtain rfl | h := List.mem_cons.1 h
    · exact Nat.le_refl _
    · exact ih h
  | case5 bs t es hb f hf ih => exact ih h
  | case6 => cases h
  | case7 bs t es hb ms ih => exact Nat.le_trans (Nat.le_add_right t ms) (ih h)
  | case8 => cases h

/-- The pieces are those that a write takes. -/
theorem writeAll_takes (bs : Bytes) (t : Nat) (es : List WriteEvent) :
    (writeAll bs none es).2.1 = (takes bs t es).flatMap (·.2) := by
  fun_induction takes bs t es with
  | case1 bs t => simp [writeAll]
  | case2 bs t e es hb => simp [writeAll, hb]
  | case3 bs t es hb => simp [writeAll, hb]
  | case4 bs t es hb most hm ih => simp [writeAll, hb, hm, ih]
  | case5 bs t es hb f hf ih => simp [writeAll, hb, hf, ih]
  | case6 bs t es hb f hf => simp [writeAll, hb, hf]
  | case7 bs t es hb ms ih => simp [writeAll, hb, ih, Allowance.spend]
  | case8 bs t es hb => simp [writeAll, hb]

section Pieces

variable {p : Nat → Bool} {t limit : Nat} {bs : Bytes} {pieces : List (Nat × Bytes)}

theorem bytesWhen_cons_pos (h : p t = true) :
    bytesWhen p ((t, bs) :: pieces) = bs ++ bytesWhen p pieces := by
  simp [bytesWhen, h]

theorem bytesWhen_cons_neg (h : p t = false) :
    bytesWhen p ((t, bs) :: pieces) = bytesWhen p pieces := by
  simp [bytesWhen, h]

theorem bytesWhen_none (h : ∀ x ∈ pieces, p x.1 = false) : bytesWhen p pieces = [] := by
  rw [bytesWhen, List.filter_eq_nil_iff.2 fun x hx => by simp [h x hx]]
  rfl

/-- What is taken before a time comes first, and then what is taken at that time. -/
theorem bytesWhen_append (h : t ≤ limit) (bs : Bytes) (later : ∀ x ∈ pieces, t ≤ x.1) :
    bytesWhen (· < limit) ((t, bs) :: pieces) ++ bytesWhen (· = limit) ((t, bs) :: pieces) =
      bs ++ (bytesWhen (· < limit) pieces ++ bytesWhen (· = limit) pieces) := by
  obtain hlt | rfl := Nat.lt_or_eq_of_le h
  · rw [bytesWhen_cons_pos (by simpa using hlt),
      bytesWhen_cons_neg (by simpa using Nat.ne_of_lt hlt), List.append_assoc]
  · rw [bytesWhen_cons_neg (by simp), bytesWhen_cons_pos (by simp),
      bytesWhen_none fun x hx => by simpa using later x hx]
    rfl

/-- A write under a limit takes what it would take up to that time. -/
theorem writeAll_limited {es : List WriteEvent} (h : t ≤ limit) :
    (writeAll bs (some (limit - t)) es).2.1 =
      bytesWhen (· < limit) (takes bs t es) ++ bytesWhen (· = limit) (takes bs t es) := by
  fun_induction takes bs t es with
  | case1 bs t =>
    rw [bytesWhen_append h bs (by simp)]
    exact (List.append_nil bs).symm
  | case2 bs t e es hb => simp [writeAll, hb, bytesWhen]
  | case3 bs t es hb =>
    rw [writeAll, if_neg hb]
    rfl
  | case4 bs t es hb most hm ih =>
    rw [writeAll, if_neg hb, bytesWhen_append h _ fun x hx => le_of_mem_takes hx, ← ih h]
    simp only [if_neg hm]
  | case5 bs t es hb f hf ih =>
    rw [writeAll, if_neg hb, ← ih h]
    simp only [if_pos hf]
  | case6 bs t es hb f hf =>
    rw [writeAll, if_neg hb]
    simp only [if_neg hf]
    rfl
  | case7 bs t es hb ms ih =>
    rw [writeAll, if_neg hb]
    by_cases hms : ms ≤ limit - t
    · simp only [Allowance.spend_within hms, Nat.sub_sub]
      exact ih (by omega)
    · simp only [Allowance.spend_over hms]
      -- all that follows waits for longer than there is time
      have hover : ∀ x ∈ takes bs (t + ms) es, limit < x.1 := fun x hx =>
        Nat.lt_of_lt_of_le (by omega) (le_of_mem_takes hx)
      rw [bytesWhen_none fun x hx => by simpa using Nat.le_of_lt (hover x hx),
        bytesWhen_none fun x hx => by simpa using Nat.ne_of_gt (hover x hx)]
      rfl
  | case8 bs t es hb =>
    rw [writeAll, if_neg hb]
    rfl

end Pieces

namespace Client

/-- The frame that a step is to write. -/
def Step.written (k : Codec) (s : Step) : Option Bytes :=
  s.message?.bind fun m => ((s.codec k).frame (.command m)).toOption

/-- The operation that a step is under a time limit, and the limit. -/
def Step.limit? (t : Timeouts) : Step → Option (Operation × Nat)
  | .send _ => some (.write, t.write)
  | .sendWith _ _ => some (.write, t.write)
  | .startStreaming _ => some (.write, t.write)
  | .recv => some (.read, t.read)
  | .close => some (.close, t.write)
  | .connect _ => none
  | .disconnect => none

/-- The delays that a step meets on a stream when it has no limit, together. -/
def Step.time (k : Codec) (t : Stream) : Step → ℕ∞
  | .recv => (Timed.take k.ceiling).time t
  | .close => Timed.finish.time t
  | s => ((s.written k).map fun w => (Timed.put w).time t).getD 0

/-- The same for a client, which meets none without a stream. -/
def duration (c : Client) (s : Step) : ℕ∞ := if c.connected then s.time c.codec c.stream else 0

/-- What a step puts on the wire when it has no limit, in pieces. -/
def pieces (c : Client) (s : Step) : List (Nat × Bytes) :=
  if c.connected then ((s.written c.codec).map fun w => takes w 0 c.stream.writes).getD [] else []

/-- The client with a stream that has no delays. -/
def prompt (c : Client) : Client := { c with stream := c.stream.prompt }

/-- What receiving is answered, and whether the stream is kept. -/
def recvAnswer : Option (Except Failure (Except FrameError RawFrame)) → Reply × Bool
  | some (.ok (.ok raw)) =>
    match raw.entry with
    | .ok f => (.received f, true)
    | .error e => (.failed (.protocol e), true)
  | some (.ok (.error e)) => (.failed (.protocol e), false)
  | some (.error f) =>
    (.failed (if f.kind = .unexpectedEnd then .closed else .io f.reason), false)
  | none => (.failed (.timeout .read), false)

def sendAnswer (n : Nat) : Option (Except Failure Unit) → Reply × Bool
  | some (.ok _) => (.sent n, true)
  | some (.error f) => (.failed (.io f.reason), false)
  | none => (.failed (.timeout .write), false)

def closeAnswer : Option (Except Failure Unit) → Reply × Bool
  | some (.ok _) => (.ok, false)
  | some (.error f) => (.failed (.io f.reason), false)
  | none => (.failed (.timeout .close), false)

variable {α : Type} {c : Client} {s : Step} {op : Operation} {limit : Nat} {f : Timed α}
  {answer : Option (Except Failure α) → Reply × Bool}

/-- A step is an operation on the stream under a limit, and it is answered by what that comes to. -/
structure Bounded (c : Client) (s : Step) (op : Operation) (limit : Nat) (f : Timed α)
    (answer : Option (Except Failure α) → Reply × Bool) : Prop where
  perform : ∀ t, ({ c with stream := t } : Client).perform s =
    ((answer (f (some limit) t).1.value?).1,
      { c with
        stream := (f (some limit) t).2
        connected := (answer (f (some limit) t).1.value?).2 })
  timeout : answer none = (.failed (.timeout op), false)

theorem bounded_recv (hc : c.connected = true) :
    Bounded c .recv .read c.timeouts.read (Timed.take c.codec.ceiling) recvAnswer := by
  refine ⟨fun t => ?_, rfl⟩
  rw [perform, recv, if_neg (by simp [hc]), Timed.take]
  cases readFrame t c.codec.ceiling (some c.timeouts.read) with
  | mk r t' =>
    cases r with
    | done found left =>
      cases found with
      | ok raw =>
        simp only [Ending.value?, recvAnswer]
        cases raw.entry <;> simp [Except.mapError, Reply.of, hc]
      | error e => rfl
    | failed f => rfl
    | unfinished => rfl

theorem bounded_close (hc : c.connected = true) :
    Bounded c .close .close c.timeouts.write Timed.finish closeAnswer := by
  refine ⟨fun t => ?_, rfl⟩
  rw [perform, close, if_neg (by simp [hc]), Timed.finish]
  dsimp only
  cases Stream.andThen (t.flush (some c.timeouts.write)) fun _ a s => s.shutdown a with
  | mk r t' => cases r <;> rfl

theorem bounded_send {m : Command} {w : Bytes} (h : s.message? = some m)
    (hf : (s.codec c.codec).frame (.command m) = .ok w) (hc : c.connected = true) :
    Bounded c s .write c.timeouts.write (Timed.put w) (sendAnswer w.length) := by
  refine ⟨fun t => ?_, rfl⟩
  rw [perform_framed (c := { c with stream := t }) h hf, writeFrame, if_neg (by simp [hc]),
    Timed.put]
  dsimp only
  cases Stream.andThen (t.write w (some c.timeouts.write)) fun _ a s => s.flush a with
  | mk r t' => cases r <;> simp [Reply.of, Ending.value?, sendAnswer, release, hc]

theorem Step.of_written {m : Command} (h : s.message? = some m) (k : Codec) (t : Stream) :
    (∀ limits, s.limit? limits = some (.write, limits.write)) ∧
      s.time k t = ((s.written k).map fun w => (Timed.put w).time t).getD 0 := by
  cases s with
  | send m => exact ⟨fun _ => rfl, rfl⟩
  | sendWith m o => exact ⟨fun _ => rfl, rfl⟩
  | startStreaming device => exact ⟨fun _ => rfl, rfl⟩
  | connect dial => cases h
  | close => cases h
  | disconnect => cases h
  | recv => cases h

/-- What a write has taken, under a limit or none. -/
theorem put_taken (w : Bytes) (a : Allowance) (t : Stream) :
    (Timed.put w a t).2.taken = t.taken ++ (writeAll w a t.writes).2.1 :=
  Stream.andThen_keeps (P := fun u => u.taken = _) rfl fun _ _ _ h => h

/-- A step that leaves the stream alone and is answered at once, whatever the stream. -/
def Idle (c : Client) (s : Step) : Prop :=
  ∃ r, ∀ t, ({ c with stream := t } : Client).perform s = (r, { c with stream := t })

/-- Without a stream a step under a limit is idle. -/
theorem idle_released (h : s.limit? c.timeouts = some (op, limit)) (hc : c.connected = false) :
    c.Idle s := by
  have send {s : Step} {m : Command} (h : s.message? = some m) : c.Idle s := by
    cases hf : (s.codec c.codec).frame (.command m) with
    | error e => exact ⟨_, fun t => perform_refused h hf⟩
    | ok w =>
      refine ⟨.failed .notConnected, fun t => ?_⟩
      rw [perform_framed (c := { c with stream := t }) h hf,
        writeFrame_released (c := { c with stream := t }) hc]
      rfl
  cases s with
  | send m => exact send rfl
  | sendWith m o => exact send rfl
  | startStreaming device => exact send rfl
  | recv => exact ⟨.failed .notConnected, fun t => by
      rw [perform, recv_released (c := { c with stream := t }) hc]
      rfl⟩
  | close => exact ⟨.ok, fun t => by
      rw [perform, close_released (c := { c with stream := t }) hc]
      rfl⟩
  | connect dial => cases h
  | disconnect => cases h

/-- A step under a limit is idle, or it is an operation on the stream. -/
inductive Limited (c : Client) (s : Step) (op : Operation) (limit : Nat) : Prop where
  | idle (idle : c.Idle s) (duration : c.duration s = 0) (pieces : c.pieces s = []) :
      Limited c s op limit
  | bounded {α : Type} {f : Timed α} {answer : Option (Except Failure α) → Reply × Bool}
      (bounded : Bounded c s op limit f answer) (regular : f.Regular c.stream)
      (duration : c.duration s = f.time c.stream)
      (unlimited : (f none c.stream).2.taken = c.stream.taken ++ (c.pieces s).flatMap (·.2))
      (taken : (f (some limit) c.stream).2.taken = c.stream.taken ++
        (bytesWhen (· < limit) (c.pieces s) ++ bytesWhen (· = limit) (c.pieces s))) :
      Limited c s op limit

theorem limited_send {m : Command} (hm : s.message? = some m)
    (h : s.limit? c.timeouts = some (op, limit)) (hc : c.connected = true) :
    Limited c s op limit := by
  obtain ⟨hl, ht⟩ := Step.of_written hm c.codec c.stream
  rw [hl] at h
  cases h
  have hd : c.duration s = s.time c.codec c.stream := if_pos hc
  have hp : c.pieces s = _ := if_pos hc
  rw [ht] at hd
  rw [Step.written, hm, Option.bind_some] at hd hp
  cases hf : (s.codec c.codec).frame (.command m) with
  | error e =>
    rw [hf] at hd hp
    exact .idle ⟨_, fun t => perform_refused hm hf⟩ hd hp
  | ok w =>
    rw [hf] at hd hp
    refine .bounded (bounded_send hm hf hc) (Timed.regular_put w _) hd ?_ ?_
    · rw [put_taken, hp, writeAll_takes w 0]
      rfl
    · rw [put_taken, hp]
      exact congrArg _ (writeAll_limited (Nat.zero_le _))

theorem limited (h : s.limit? c.timeouts = some (op, limit)) : Limited c s op limit := by
  cases hc : c.connected with
  | false => exact .idle (idle_released h hc) (if_neg (by simp [hc])) (if_neg (by simp [hc]))
  | true =>
    cases s with
    | send m => exact limited_send rfl h hc
    | sendWith m o => exact limited_send rfl h hc
    | startStreaming device => exact limited_send rfl h hc
    | recv =>
      cases h
      have hp : c.pieces .recv = [] := if_pos hc
      have ht (a : Allowance) :
          (Timed.take c.codec.ceiling a c.stream).2.taken = c.stream.taken ++ [] := by
        rw [Timed.take, (readFrame_taken _ _ _).1, List.append_nil]
      exact .bounded (bounded_recv hc) (Timed.regular_take _ _) (if_pos hc) (hp ▸ ht _) (hp ▸ ht _)
    | close =>
      cases h
      have hp : c.pieces .close = [] := if_pos hc
      have ht (a : Allowance) : (Timed.finish a c.stream).2.taken = c.stream.taken ++ [] :=
        Stream.andThen_keeps (P := fun u => u.taken = _) (List.append_nil _).symm fun _ _ _ h => h
      exact .bounded (bounded_close hc) (Timed.regular_finish _) (if_pos hc) (hp ▸ ht _) (hp ▸ ht _)
    | connect dial => cases h
    | disconnect => cases h

/-- The limit of a step counts against all delays that it meets together, however many there are and
whatever is read, written, flushed or shut down between them. As long as they are less, the step is
answered as without any delay, and leaves the client and its stream, what is still to be read from
it and what it has taken, as it would without them; all pieces were taken. When they are more, or
the step would never end, it times out, the stream is let go, and the stream has taken the pieces
before that time, and a part or all of those just then. -/
theorem limit_exact (h : s.limit? c.timeouts = some (op, limit)) :
    (c.duration s < limit →
      c.prompt.perform s = ((c.perform s).1, (c.perform s).2.prompt) ∧
      (c.perform s).2.stream.taken = c.stream.taken ++ (c.pieces s).flatMap (·.2)) ∧
    (limit < c.duration s →
      (c.perform s).1 = .failed (.timeout op) ∧ (c.perform s).2.connected = false ∧
      ∃ tie, tie <+: bytesWhen (· = limit) (c.pieces s) ∧
        (c.perform s).2.stream.taken =
          c.stream.taken ++ bytesWhen (· < limit) (c.pieces s) ++ tie) := by
  cases limited h with
  | idle idle duration pieces =>
    obtain ⟨r, hr⟩ := idle
    have hc : c.perform s = (r, c) := hr c.stream
    rw [hc, duration, pieces]
    exact ⟨fun _ => ⟨hr c.stream.prompt, (List.append_nil _).symm⟩, fun hlt => absurd hlt (by simp)⟩
  | @bounded α f answer bounded regular duration unlimited taken =>
    have hc := bounded.perform c.stream
    change c.perform s = _ at hc
    rw [duration, hc]
    refine ⟨fun hlt => ?_, fun hlt => ?_⟩
    · obtain ⟨hvalue, hstream, hsame⟩ := regular.unnoticed hlt
      refine ⟨?_, by rw [hsame, unlimited]⟩
      rw [prompt, bounded.perform, hvalue, hstream]
      rfl
    · rw [regular.beyond hlt, bounded.timeout]
      exact ⟨rfl, rfl, _, List.prefix_refl _, by rw [taken, List.append_assoc]⟩

/-- A client with 100 milliseconds for each operation, and a peer that never waits so long at
once. -/
def hurried : Client where
  timeouts := { write := 100, read := 100 }
  stream := {
    reads := [.delay 60, .data (List.replicate 10 0), .delay 30, .data (List.replicate 8 0)]
    writes := [.delay 60, .accept 2, .delay 60] }
  connected := true

theorem limit_exact_hurried :
    hurried.duration .recv = 90 ∧
    hurried.prompt.perform .recv = ((hurried.perform .recv).1, (hurried.perform .recv).2.prompt) ∧
    hurried.duration (.startStreaming "deadbeef") = 120 ∧
    (hurried.perform (.startStreaming "deadbeef")).1 = .failed (.timeout .write) ∧
    (hurried.perform (.startStreaming "deadbeef")).2.stream.taken = [33, 0] := by
  have hread : hurried.duration .recv = ((90 : Nat) : ℕ∞) := rfl
  have hwrite : hurried.duration (.startStreaming "deadbeef") = ((120 : Nat) : ℕ∞) := rfl
  have hbefore : bytesWhen (· < 100) (hurried.pieces (.startStreaming "deadbeef")) = [33, 0] := rfl
  have hthen : bytesWhen (· = 100) (hurried.pieces (.startStreaming "deadbeef")) = [] := rfl
  have hlimits : Step.limit? hurried.timeouts .recv = some (.read, 100) ∧
      Step.limit? hurried.timeouts (.startStreaming "deadbeef") = some (.write, 100) := ⟨rfl, rfl⟩
  have within := (limit_exact (c := hurried) hlimits.1).1
  have beyond := (limit_exact (c := hurried) hlimits.2).2
  rw [hread] at within
  rw [hwrite] at beyond
  obtain ⟨hreply, -, tie, htie, htaken⟩ := beyond (Nat.cast_lt.2 (by decide))
  refine ⟨hread, (within (Nat.cast_lt.2 (by decide))).1, hwrite, hreply, ?_⟩
  rw [hthen, List.prefix_nil] at htie
  rw [htaken, htie, hbefore]
  rfl

end Client

end CameraChannel
