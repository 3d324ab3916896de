import CameraChannel.Frame.Buffered
import CameraChannel.Proofs.Frame.Batches
import CameraChannel.Proofs.Frame.RoundTrip

/-!
Bytes on a shared buffer. Main statement: over any run, what was taken off and what is held make up
what was appended; only whole frames are taken off, and a header above the ceiling stops that until
the ceiling is raised, and changes nothing else.
-/
namespace CameraChannel.Buffered

variable {b b' : Buffered} {s : Step} {r : Reply}

/-- Whether a step may take an entry off the buffer. -/
def Step.takes : Step → Bool
  | .decode => true
  | .decodeEnd => true
  | _ => false

/-- What a step may do: append bytes or a frame, take one whole frame off the front, set the codec
anew, or leave all as it is. -/
inductive Effect (b : Buffered) : Step → Reply → Buffered → Prop where
  | fed (bs : Bytes) : Effect b (.feed bs) .done { b with buffer := b.buffer ++ bs }
  | encoded {m : Content} {w : Bytes} (frame : Frame.encode m b.codec.options = .ok w) :
      Effect b (.encode m) .done { b with buffer := b.buffer ++ w }
  | refused (m : Content) (e : FrameError) : Effect b (.encode m) (.failed (.protocol e)) b
  | taken {s : Step} {w : RawFrame} {rest : Bytes} (takes : s.takes = true) (sized : w.Sized)
      (front : b.buffer = w.toBytes ++ rest) :
      Effect b s (.item (some w.entry)) { b with buffer := rest }
  | waiting {s : Step} (takes : s.takes = true) : Effect b s (.item none) b
  | failed {s : Step} (takes : s.takes = true) (e : StreamError) : Effect b s (.failed e) b
  | ceilingSet (n : Nat) : Effect b (.setCeiling n) .done { b with codec.ceiling := n }
  | optionsSet (o : FrameOptions) : Effect b (.setOptions o) .done { b with codec.options := o }

theorem takeOff_effect (takes : s.takes = true)
    {found : Except StreamError (Option (Entry × Bytes))}
    (h : ∀ e rest, found = .ok (some (e, rest)) → b.codec.decode b.buffer = .ok (some (e, rest))) :
    Effect b s (b.takeOff found).1 (b.takeOff found).2 := by
  cases found with
  | error e => exact .failed takes e
  | ok found =>
    cases found with
    | none => exact .waiting takes
    | some v =>
      obtain ⟨e, rest⟩ := v
      obtain ⟨w, hs, -, hb, rfl⟩ := Codec.frame_of_decode (h e rest rfl)
      exact .taken takes hs hb

theorem decode_of_decodeEnd {c : Codec} {d rest : Bytes} {e : Entry}
    (h : c.decodeEnd d = .ok (some (e, rest))) : c.decode d = .ok (some (e, rest)) := by
  rw [Codec.decodeEnd] at h
  split at h
  · cases h
  · next hd =>
    cases h
    exact hd
  · split at h <;> cases h

theorem perform_effect (b : Buffered) (s : Step) : Effect b s (b.perform s).1 (b.perform s).2 := by
  cases s with
  | feed bs => exact .fed bs
  | encode m =>
    rw [perform, Codec.encode]
    cases hf : b.codec.frame m with
    | error e => exact .refused m e
    | ok w => exact .encoded (Codec.encode_of_frame hf).1
  | decode =>
    apply takeOff_effect rfl
    intro e rest h
    cases hd : b.codec.decode b.buffer with
    | error e =>
      rw [hd] at h
      cases h
    | ok found =>
      rw [hd] at h
      cases h
      rfl
  | decodeEnd => exact takeOff_effect rfl fun e rest => decode_of_decodeEnd
  | setCeiling n => exact .ceilingSet n
  | setOptions o => exact .optionsSet o

/-- What a step appends: the bytes fed, or the frame of what was encoded. -/
def added (o : FrameOptions) : Step → Reply → Bytes
  | .feed bs, _ => bs
  | .encode m, .done => (Frame.encode m o).toOption.getD []
  | _, _ => []

/-- The bytes at the front by which decoding makes a buffer shorter. -/
def removed (s : Step) (before after : Bytes) : Bytes :=
  if s.takes then before.take (before.length - after.length) else []

theorem added_of_takes (takes : s.takes = true) (o : FrameOptions) (r : Reply) :
    added o s r = [] := by
  cases s with
  | feed bs => cases takes
  | encode m => cases takes
  | decode => rfl
  | decodeEnd => rfl
  | setCeiling n => cases takes
  | setOptions o => cases takes

theorem removed_of_takes (takes : s.takes = true) (front back : Bytes) :
    removed s (front ++ back) back = front := by
  rw [removed, if_pos takes, List.length_append, Nat.add_sub_cancel, List.take_left]

/-- A step moves bytes to the back and off the front, and does no more to them. -/
theorem Effect.conserves (h : Effect b s r b') :
    removed s b.buffer b'.buffer ++ b'.buffer = b.buffer ++ added b.codec.options s r := by
  have kept (takes : s.takes = true) : removed s b.buffer b.buffer ++ b.buffer =
      b.buffer ++ added b.codec.options s r := by
    rw [added_of_takes takes, List.append_nil]
    exact congrArg (· ++ b.buffer) (removed_of_takes takes [] b.buffer)
  cases h with
  | fed bs => rfl
  | encoded frame =>
    rw [added, frame]
    rfl
  | refused m e => exact (List.append_nil _).symm
  | taken takes sized front =>
    rw [added_of_takes takes, List.append_nil, front, removed_of_takes takes]
  | waiting takes => exact kept takes
  | failed takes e => exact kept takes
  | ceilingSet n => exact (List.append_nil _).symm
  | optionsSet o => exact (List.append_nil _).symm

/-- The buffer and its codec after some steps. -/
def run (b : Buffered) : List Step → Buffered
  | [] => b
  | s :: steps => run (b.perform s).2 steps

/-- All that some steps append, in order. -/
def appended (b : Buffered) : List Step → Bytes
  | [] => []
  | s :: steps =>
    added b.codec.options s (b.perform s).1 ++ appended (b.perform s).2 steps

/-- All that some steps take off, in order. -/
def takenOff (b : Buffered) : List Step → Bytes
  | [] => []
  | s :: steps => removed s b.buffer (b.perform s).2.buffer ++ takenOff (b.perform s).2 steps

theorem run_conserves (b : Buffered) (steps : List Step) :
    b.takenOff steps ++ (b.run steps).buffer = b.buffer ++ b.appended steps := by
  induction steps generalizing b with
  | nil => exact (List.append_nil _).symm
  | cons s steps ih =>
    rw [takenOff, run, appended, List.append_assoc, ih, ← List.append_assoc,
      (perform_effect b s).conserves, List.append_assoc]

/-- A header that announces more than the ceiling stands at the front. -/
def Blocked (b : Buffered) (h : Header) : Prop :=
  b.codec.ceiling < h.length.toNat ∧ ∃ tail, b.buffer = h.toBytes ++ tail

/-- Whether a step leaves the ceiling below a length. -/
def Step.Below (n : Nat) : Step → Prop
  | .setCeiling m => m < n
  | _ => True

variable {h : Header}

theorem Blocked.decode (hb : b.Blocked h) :
    b.codec.decode b.buffer = .error (.tooLarge h.length.toNat b.codec.ceiling) := by
  obtain ⟨hc, tail, ht⟩ := hb
  exact Codec.decode_eq_error.2 ⟨h, tail, ht, hc, rfl⟩

/-- What both ways of decoding do with what the codec finds, unless it waits for more. -/
theorem perform_takes (takes : s.takes = true) :
    (∀ e, b.codec.decode b.buffer = .error e → b.perform s = (.failed (.protocol e), b)) ∧
    (∀ e rest, b.codec.decode b.buffer = .ok (some (e, rest)) →
      b.perform s = (.item (some e), { b with buffer := rest })) := by
  cases s with
  | decode =>
    refine ⟨fun e h => ?_, fun e rest h => ?_⟩
    · rw [perform, h]
      rfl
    · rw [perform, h]
      rfl
  | decodeEnd =>
    refine ⟨fun e h => ?_, fun e rest h => ?_⟩
    · rw [perform, Codec.decodeEnd, h]
      rfl
    · rw [perform, Codec.decodeEnd, h]
      rfl
  | feed bs => cases takes
  | encode m => cases takes
  | setCeiling n => cases takes
  | setOptions o => cases takes

/-- In front of such a header nothing is taken off. -/
theorem Blocked.stuck (hb : b.Blocked h) (takes : s.takes = true) :
    b.perform s = (.failed (.protocol (.tooLarge h.length.toNat b.codec.ceiling)), b) :=
  (perform_takes takes).1 _ hb.decode

/-- A whole frame within the ceiling is taken off the front. -/
theorem perform_frame (takes : s.takes = true) {w : RawFrame} {rest : Bytes} (sized : w.Sized)
    (within : w.payload.length ≤ b.codec.ceiling) (front : b.buffer = w.toBytes ++ rest) :
    b.perform s = (.item (some w.entry), { b with buffer := rest }) := by
  apply (perform_takes takes).2
  rw [front]
  exact Codec.decode_frame sized within rest

theorem Blocked.perform (hb : b.Blocked h) (hs : s.Below h.length.toNat) :
    (b.perform s).2.Blocked h := by
  obtain ⟨hc, tail, ht⟩ := id hb
  cases s with
  | feed bs => exact ⟨hc, tail ++ bs, by rw [Buffered.perform, ht, List.append_assoc]⟩
  | encode m =>
    rw [Buffered.perform, Codec.encode]
    cases b.codec.frame m with
    | error e => exact hb
    | ok w => exact ⟨hc, tail ++ w, by simp [Except.map, ht]⟩
  | decode =>
    rw [hb.stuck rfl]
    exact hb
  | decodeEnd =>
    rw [hb.stuck rfl]
    exact hb
  | setCeiling n => exact ⟨hs, tail, ht⟩
  | setOptions o => exact hb

/-- As long as the ceiling stays below, nothing is taken off, and a run goes as if that had never
been tried. -/
theorem Blocked.run (hb : b.Blocked h) {steps : List Step}
    (below : ∀ s ∈ steps, s.Below h.length.toNat) :
    (b.run steps).Blocked h ∧ b.takenOff steps = [] ∧
      b.run steps = b.run (steps.filter fun s => !s.takes) := by
  induction steps generalizing b with
  | nil => exact ⟨hb, rfl, rfl⟩
  | cons s steps ih =>
    obtain ⟨hblocked, hoff, hrun⟩ := ih (hb.perform (below s List.mem_cons_self)) fun t ht =>
      below t (List.mem_cons_of_mem _ ht)
    rw [Buffered.run, takenOff, hoff, List.append_nil, List.filter_cons, removed]
    cases takes : s.takes with
    | true =>
      rw [hb.stuck takes] at hblocked hrun ⊢
      exact ⟨hblocked, by simp, hrun⟩
    | false => exact ⟨hblocked, rfl, hrun⟩

/-- Over any run on a buffer that was empty, what was taken off and what is held are the bytes and
frames appended, in order. The next decoding takes one whole frame off and gives its entry, or
leaves all as it is, and so does an encoding that fails. In front of a header that announces more
than the ceiling, whatever is done, decoding fails at this header until the ceiling is raised to
what it announces; then all is as if nothing had been tried, and the frame is decoded. -/
theorem bytes_conserved (c : Codec) (steps : List Step) :
    let start : Buffered := { codec := c }
    let b := start.run steps
    start.takenOff steps ++ b.buffer = start.appended steps ∧
    (∀ s : Step, s.takes = true →
      (∃ (w : RawFrame) (rest : Bytes), w.header.length.toNat = w.payload.length ∧
        w.toBytes.length = 18 + w.header.length.toNat ∧ b.buffer = w.toBytes ++ rest ∧
        b.perform s = (.item (some w.entry), { b with buffer := rest })) ∨
      b.perform s = (.item none, b) ∨ ∃ e, b.perform s = (.failed e, b)) ∧
    (∀ m e, (b.perform (.encode m)).1 = .failed e → (b.perform (.encode m)).2 = b) ∧
    ∀ (h : Header) (tail : Bytes), b.buffer = h.toBytes ++ tail → b.codec.ceiling < h.length.toNat →
      ∀ more : List Step, (∀ s ∈ more, s.Below h.length.toNat) →
        let b' := b.run more
        (∀ s : Step, s.takes = true → b'.perform s =
          (.failed (.protocol (.tooLarge h.length.toNat b'.codec.ceiling)), b')) ∧
        ∀ limit, h.length.toNat ≤ limit →
          let raised := (b'.perform (.setCeiling limit)).2
          raised = ((b.run (more.filter fun s => !s.takes)).perform (.setCeiling limit)).2 ∧
          raised.buffer = b.buffer ++ b.appended more ∧
          ∀ (w : RawFrame) (rest : Bytes), w.header = h → w.Sized →
            raised.buffer = w.toBytes ++ rest → ∀ s : Step, s.takes = true →
              raised.perform s = (.item (some w.entry), { raised with buffer := rest }) := by
  intro start b
  refine ⟨run_conserves start steps, fun s takes => ?_, fun m e he => ?_,
    fun h tail front above more below => ?_⟩
  · have heff := perform_effect b s
    rw [← Prod.eta (b.perform s)]
    generalize (b.perform s).1 = r at heff ⊢
    generalize (b.perform s).2 = b' at heff ⊢
    cases heff with
    | @taken s w rest takes sized front =>
      have hlen : w.toBytes.length = 18 + w.header.length.toNat := sized.frameLength.symm
      exact .inl ⟨w, rest, sized, hlen, front, rfl⟩
    | waiting => exact .inr (.inl rfl)
    | failed takes e => exact .inr (.inr ⟨e, rfl⟩)
    | fed bs => cases takes
    | encoded frame => cases takes
    | refused m e => cases takes
    | ceilingSet n => cases takes
    | optionsSet o => cases takes
  · have heff := perform_effect b (.encode m)
    generalize (b.perform (.encode m)).1 = r at he heff
    generalize (b.perform (.encode m)).2 = b' at heff ⊢
    cases heff with
    | encoded frame => cases he
    | refused m e => rfl
    | taken takes => cases takes
    | waiting takes => cases takes
    | failed takes => cases takes
  · have hb : b.Blocked h := ⟨above, tail, front⟩
    obtain ⟨hblocked, hoff, hrun⟩ := hb.run below
    refine ⟨fun s takes => hblocked.stuck takes, fun limit hlimit => ⟨?_, ?_, ?_⟩⟩
    · rw [← hrun]
    · have hbytes := run_conserves b more
      rw [hoff] at hbytes
      exact hbytes
    · rintro w rest rfl sized hfront s takes
      have within : w.payload.length ≤ limit := by
        rw [← show w.header.length.toNat = w.payload.length from sized]
        exact hlimit
      exact perform_frame takes sized within hfront

end CameraChannel.Buffered
