import CameraChannel.Proofs.Stream.Receiving
import CameraChannel.Proofs.Stream.Wire

/-!
From a client's stream to a receiver. Main statement: however the bytes taken are cut, the receiver
gives out the commands sent, each with its own header, and tells whether one more was begun.
-/
namespace CameraChannel

open ReadEvent (arrivals)

namespace Receiver

/-- The frames `ws` are before a receiver, then the bytes `p` of an unfinished one, and no
failure. -/
structure Expects (r : Receiver) (ws : List RawFrame) (p : Bytes) : Prop where
  fits : ∀ w ∈ ws, w.Fits r.codec.ceiling
  bytes : r.buffer ++ arrivals r.reads = RawFrame.wire ws ++ p
  quiet : ReadEvent.signals r.reads = []
  unfinished : r.codec.decode p = .ok none

/-- However data is cut into chunks, it is expected as a whole. -/
theorem expects_chunks {k : Codec} {chunks : List Bytes} {ws : List RawFrame} {p : Bytes}
    (hne : ∀ bs ∈ chunks, bs ≠ []) (hfit : ∀ w ∈ ws, w.Fits k.ceiling)
    (hcut : chunks.flatten = RawFrame.wire ws ++ p) (hp : k.decode p = .ok none) :
    Expects { codec := k, reads := chunks.map .data } ws p where
  fits := hfit
  bytes := by
    rw [arrivals, ReadEvent.pieces_data hne, Piece.bytes_data]
    exact hcut
  quiet := by rw [ReadEvent.signals, ReadEvent.pieces_data hne, Piece.signals_data]
  unfinished := hp

/-- What a receiver tells at the end of a stream when it holds `p`. -/
def ending (p : Bytes) : Item :=
  if p = [] then .finished else .failed (.truncated p.length)

variable {r r' : Receiver} {ws us : List RawFrame} {p : Bytes} {used : List Piece} {f : Frame}

theorem Expects.passed (h : r.Expects ws p) (hp : Passed r r' us used) :
    ∃ vs, ws = us ++ vs ∧ r'.Expects vs p ∧ Piece.signals used = [] := by
  have hahead := hp.ahead
  rw [h.bytes] at hahead
  obtain ⟨vs, rfl, hbytes⟩ := RawFrame.wire_cancel hp.fits h.fits h.unfinished hahead.symm
  have hquiet := h.quiet
  rw [ReadEvent.signals, hp.read, Piece.signals_append] at hquiet
  obtain ⟨hused, hrest⟩ := List.append_eq_nil_iff.1 hquiet
  refine ⟨vs, rfl, ⟨?_, hbytes, hrest, ?_⟩, hused⟩
  · intro v hv
    rw [hp.codec]
    exact h.fits v (List.mem_append_right _ hv)
  · rw [hp.codec]
    exact h.unfinished

theorem Expects.decode (h : r.Expects ws p) :
    (ws = [] ∧ r.codec.decode (r.buffer ++ arrivals r.reads) = .ok none) ∨
      ∃ e, r.codec.decode (r.buffer ++ arrivals r.reads) = .ok (some e) := by
  rw [h.bytes]
  cases ws with
  | nil => exact .inl ⟨rfl, h.unfinished⟩
  | cons w ws =>
    have hfit := h.fits w List.mem_cons_self
    rw [RawFrame.wire_cons, List.append_assoc]
    exact .inr ⟨_, Codec.decode_frame hfit.sized hfit.within _⟩

/-- A call that gives no frame finds none, and tells what it holds. -/
theorem Expects.ended {i : Item} (h : r.Expects ws p) (hi : i.frame? = none) (hl : i.Leaves r)
    (hm : i.Reports used r) (hs : Piece.signals used = []) : ws = [] ∧ i = ending p := by
  have hsignal : i.signal? = none ∨ i.signal? = some .ended ∧ r.reads = [] := by
    obtain hm | ⟨-, hm⟩ := hm
    · rw [hs] at hm
      cases hi : i.signal? with
      | none => exact .inl rfl
      | some s => rw [hi] at hm; cases hm
    · exact .inr hm
  have hdecode := h.decode
  obtain hnone | ⟨hsome, hover⟩ := hsignal
  · cases i with
    | frame f => cases hi
    | finished => cases hnone
    | failed e =>
      cases e with
      | io reason => cases hnone
      | protocol e =>
        have he := Codec.decode_append_error hl (arrivals r.reads)
        obtain ⟨-, hd⟩ | ⟨e, hd⟩ := hdecode
        · cases he.symm.trans hd
        · cases he.symm.trans hd
      | truncated n => cases hnone
    | waiting =>
      obtain ⟨-, later, hr⟩ := hl
      have hquiet := h.quiet
      rw [hr] at hquiet
      cases hquiet
  · have hbytes := h.bytes
    rw [hover, ReadEvent.arrivals_nil, List.append_nil] at hdecode hbytes
    have hws : r.codec.decode r.buffer = .ok none → ws = [] := by
      intro hn
      obtain ⟨hw, -⟩ | ⟨e, hd⟩ := hdecode
      · exact hw
      · cases hn.symm.trans hd
    cases i with
    | frame f => cases hi
    | finished =>
      have hb : r.buffer = [] := hl
      obtain rfl := hws (by rw [hb]; rfl)
      have hp : p = [] := hbytes.symm.trans hb
      exact ⟨rfl, (if_pos hp).symm⟩
    | failed e =>
      cases e with
      | io reason => cases hsome
      | protocol e => cases hsome
      | truncated n =>
        obtain ⟨hn, hne, rfl⟩ := hl
        obtain rfl := hws hn
        have hp : r.buffer = p := hbytes
        rw [hp] at hne ⊢
        exact ⟨rfl, (if_neg hne).symm⟩
    | waiting => cases hsome

theorem next_expected {w : RawFrame} (h : r.Expects (w :: ws) p) (hw : w.entry = .ok f) :
    r.next.1 = .frame f ∧ r.next.2.Expects ws p ∧ r.next.2.malformed = r.malformed := by
  obtain ⟨us, used, hp, ht, hm, hl⟩ := next_passed r
  obtain ⟨vs, hsplit, hrest, hs⟩ := h.passed hp
  have hfirst : ∀ us' : List RawFrame, Entry.frames ((w :: us').map RawFrame.entry) ≠ [] := by
    intro us'
    rw [List.map_cons, hw, Entry.frames_ok]
    exact List.cons_ne_nil _ _
  cases hi : r.next.1.frame? with
  | none =>
    have hnone := ht.frames
    rw [hi] at hnone
    cases us with
    | nil =>
      obtain rfl : w :: ws = vs := hsplit
      cases (hrest.ended hi hl hm hs).1
    | cons u us =>
      obtain ⟨rfl, -⟩ := List.cons_eq_cons.1 hsplit
      exact absurd hnone (hfirst us)
  | some g =>
    have hg := Item.eq_frame hi
    rw [hg] at ht
    obtain ⟨us', w', rfl, hu, hw'⟩ := ht
    cases us' with
    | nil =>
      obtain ⟨rfl, rfl⟩ := List.cons_eq_cons.1 hsplit
      rw [hw] at hw'
      cases hw'
      refine ⟨hg, hrest, hp.malformed.trans ?_⟩
      rw [List.nil_append, List.map_singleton, hw, Entry.refused_ok]
      rfl
    | cons u us' =>
      obtain ⟨rfl, -⟩ := List.cons_eq_cons.1 hsplit
      exact absurd hu (hfirst us')

theorem next_ending (h : r.Expects [] p) :
    r.next.1 = ending p ∧ r.next.2.Expects [] p ∧ r.next.2.malformed = r.malformed := by
  obtain ⟨us, used, hp, ht, hm, hl⟩ := next_passed r
  obtain ⟨vs, hsplit, hrest, hs⟩ := h.passed hp
  obtain ⟨rfl, rfl⟩ := List.nil_eq_append_iff.1 hsplit
  have hnone : r.next.1.frame? = none := by
    cases hi : r.next.1.frame? with
    | none => rfl
    | some f =>
      have hf := ht.frames
      rw [hi] at hf
      cases hf
  exact ⟨(hrest.ended hnone hl hm hs).2, hrest, hp.malformed⟩

/-- The calls of a receiver that expects good frames: these in order, then the same ending again and
again. -/
theorem Expects.calls {fs : List Frame} (h : r.Expects ws p)
    (hf : ws.map RawFrame.entry = fs.map .ok) (n : Nat) :
    (r.calls n).1 = (fs.take n).map .frame ++ List.replicate (n - fs.length) (ending p) ∧
      (calls n r).2.malformed = r.malformed := by
  induction n generalizing r ws fs with
  | zero => simp [calls]
  | succ n ih =>
    cases ws with
    | nil =>
      obtain rfl : fs = [] := List.map_eq_nil_iff.1 hf.symm
      obtain ⟨hi, hrest, hm⟩ := next_ending h
      obtain ⟨hitems, hcount⟩ := ih hrest hf
      rw [calls]
      refine ⟨?_, hcount.trans hm⟩
      rw [hi, hitems]
      simp [List.replicate_succ]
    | cons w ws =>
      cases fs with
      | nil => cases hf
      | cons f fs =>
        obtain ⟨hw, hf⟩ := List.cons_eq_cons.1 hf
        obtain ⟨hi, hrest, hm⟩ := next_expected h hw
        obtain ⟨hitems, hcount⟩ := ih hrest hf
        rw [calls]
        refine ⟨?_, hcount.trans hm⟩
        rw [hi, hitems]
        simp

end Receiver

/-- A command whose numbers are integers, and that is not nested too deep to be read. -/
def Command.Readable (m : Command) : Prop :=
  Json.Integral m.extra.toJson ∧ (Json.object m.members).nesting ≤ 127

namespace Client

variable {c : Client} {o : FrameOptions} {ceiling : Nat}

/-- The frame that a receiver is to make of what a step sends. -/
def Step.delivery? (o : FrameOptions) (s : Step) : Option Frame :=
  s.message?.map fun m =>
    ⟨.forPayload (UInt32.ofNat (m.payload (s.options o).style).length) (s.options o), m⟩

/-- The bytes `w` of a step are a frame within the ceiling, which is read as it was sent. -/
def Carries (o : FrameOptions) (ceiling : Nat) (s : Step) (w : Bytes) : Prop :=
  ∃ x : RawFrame, x.toBytes = w ∧ x.Fits ceiling ∧ ∃ d, s.delivery? o = some d ∧ x.entry = .ok d

theorem Step.carries {s : Step} {w : Bytes} (hs : ∀ m, s.message? = some m → m.Readable)
    (hw : s.frame? o = some w) (hfit : w.length ≤ Header.size + ceiling) :
    Carries o ceiling s w := by
  rw [frame?] at hw
  cases hm : s.message? with
  | none =>
    rw [hm] at hw
    cases hw
  | some m =>
    simp only [hm, Option.bind_some] at hw
    cases he : Frame.encode (.command m) (s.options o) with
    | error e =>
      rw [he] at hw
      cases hw
    | ok w' =>
      rw [he] at hw
      obtain rfl : w' = w := Option.some.inj hw
      obtain ⟨hu, hsized, rfl⟩ := Frame.rawFrame_of_encode he
      obtain ⟨hi, hn⟩ := hs m hm
      rw [RawFrame.length_toBytes] at hfit
      have hwithin := Nat.le_of_add_le_add_left hfit
      refine ⟨_, rfl, ⟨hsized, hwithin⟩, _, ?_, RawFrame.entry_taken hu hi hn _ _⟩
      rw [delivery?, hm]
      rfl

theorem Effect.carries {s : Step} {r : Reply} {c' : Client} (h : Effect c s r c')
    (hs : ∀ m, s.message? = some m → m.Readable) :
    (r.isSent = true → ∃ w, s.frame? c.codec.options = some w ∧
      Carries c.codec.options c.codec.ceiling s w) ∧
    (r.isBroken = true → ∀ w, s.frame? c.codec.options = some w →
      Carries c.codec.options c.codec.ceiling s w) := by
  cases h with
  | quiet unsent unbroken =>
    refine ⟨fun hr => ?_, fun hr w hw => ?_⟩
    · rw [unsent] at hr
      cases hr
    · rw [Step.frame?, unbroken hr] at hw
      cases hw
  | sent held frame fits => exact ⟨fun _ => ⟨_, frame, Step.carries hs frame fits⟩, nofun⟩
  | broken held fails frame fits =>
    refine ⟨nofun, fun _ w hw => ?_⟩
    rw [frame] at hw
    cases hw
    exact Step.carries hs frame fits
  | closed held unsent =>
    refine ⟨fun hr => ?_, nofun⟩
    rw [unsent] at hr
    cases hr

theorem history_carries (h : c.target = none) {steps : List Step}
    (readable : ∀ s ∈ steps, ∀ m, s.message? = some m → m.Readable) :
    ∀ e ∈ c.history steps,
      (e.2.isSent = true → ∃ w, e.1.frame? c.codec.options = some w ∧
        Carries c.codec.options c.codec.ceiling e.1 w) ∧
      (e.2.isBroken = true → ∀ w, e.1.frame? c.codec.options = some w →
        Carries c.codec.options c.codec.ceiling e.1 w) := by
  induction steps generalizing c with
  | nil => simp [history]
  | cons s steps ih =>
    obtain ⟨ht, hk⟩ := perform_keeps h s
    have hrest := ih ht fun t hmem => readable t (List.mem_cons_of_mem _ hmem)
    rw [hk] at hrest
    intro e he
    obtain rfl | he := List.mem_cons.1 he
    · exact (perform_effect h s).carries (readable s List.mem_cons_self)
    · exact hrest e he

/-- The frames of the sends that went well, as the wire carries them. -/
theorem sent_wire {h : List (Step × Reply)} (hc : ∀ e ∈ h, e.2.isSent = true →
    ∃ w, e.1.frame? o = some w ∧ Carries o ceiling e.1 w) :
    ∃ ws, (∀ w ∈ ws, RawFrame.Fits ceiling w) ∧
      (sent (Step.frame? o) h).flatten = RawFrame.wire ws ∧
      ws.map RawFrame.entry = (sent (Step.delivery? o) h).map .ok ∧
      ws.length = h.countP fun e => e.2.isSent := by
  induction h with
  | nil => exact ⟨[], by simp, rfl, rfl, rfl⟩
  | cons e h ih =>
    obtain ⟨s, r⟩ := e
    obtain ⟨ws, hfit, hwire, hentry, hcount⟩ := ih fun e he => hc e (List.mem_cons_of_mem _ he)
    cases hr : r.isSent with
    | false =>
      refine ⟨ws, hfit, ?_, ?_, ?_⟩
      · rw [sent_unsent hr, hwire]
      · rw [sent_unsent hr, hentry]
      · rw [hcount, List.countP_cons_of_neg (by simp [hr])]
    | true =>
      obtain ⟨w, hw, x, rfl, hx, d, hd, he⟩ := hc (s, r) List.mem_cons_self hr
      have hframe : s.frame? o = some x.toBytes := hw
      have hdelivery : s.delivery? o = some d := hd
      refine ⟨x :: ws, ?_, ?_, ?_, ?_⟩
      · intro v hv
        obtain rfl | hv := List.mem_cons.1 hv
        · exact hx
        · exact hfit v hv
      · simp [sent_cons, hr, hframe, hwire]
      · simp [sent_cons, hr, hdelivery, he, hentry]
      · rw [List.length_cons, hcount, List.countP_cons_of_pos (by simp [hr])]

/-- The bytes taken over a run, as frames that are read as they were sent and a part of one more. -/
theorem run_carries (ht : c.target = none) (hs : c.stream.taken = []) {steps : List Step}
    (readable : ∀ s ∈ steps, ∀ m, s.message? = some m → m.Readable) :
    ∃ ws p, (∀ w ∈ ws, RawFrame.Fits c.codec.ceiling w) ∧
      (c.run steps).stream.taken = RawFrame.wire ws ++ p ∧
      (sent (Step.frame? c.codec.options) (c.history steps)).flatten = RawFrame.wire ws ∧
      ws.map RawFrame.entry = (sent (Step.delivery? c.codec.options) (c.history steps)).map .ok ∧
      ws.length = ((c.history steps).countP fun e => e.2.isSent) ∧
      (broken Step.message? (c.history steps)).length ≤ 1 ∧
      (p = [] ∨ ∃ s w, BreaksOff (c.history steps) s ∧ s.frame? c.codec.options = some w ∧
        p <+: w ∧ Carries c.codec.options c.codec.ceiling s w) := by
  obtain ⟨p, htaken, hp⟩ := run_taken ht steps
  have hcarries := history_carries ht readable
  obtain ⟨ws, hfit, hwire, hentry, hcount⟩ := sent_wire fun e he => (hcarries e he).1
  rw [hs, hwire, List.nil_append] at htaken
  refine ⟨ws, p, hfit, htaken, hwire, hentry, hcount, ?_⟩
  obtain ⟨hnone, hp⟩ | ⟨-, s, w, hbreak, hw, hpart⟩ := hp
  · exact ⟨by simp [hnone], .inl hp⟩
  · obtain ⟨before, reply, after, hsplit, hr, -⟩ := id hbreak
    have hmem : (s, reply) ∈ c.history steps := by simp [hsplit]
    exact ⟨hbreak.once, .inr ⟨s, w, hbreak, hw, hpart, (hcarries _ hmem).2 hr w hw⟩⟩

/-- A receiver at the far end of what a client leaves on its stream gives out one frame for each
send that went well, in order, with the header of its own call; then the frame of the one send that
failed on the stream, if that was taken whole; and it ends between frames, or tells how much it
holds of one more. -/
theorem received_after_run (timeouts : Timeouts) (codec : Codec) (reads : List ReadEvent)
    (writes : List WriteEvent) (flushes shutdowns : List ControlEvent) (far : FrameOptions)
    (steps : List Step) (chunks : List Bytes)
    (readable : ∀ s ∈ steps, ∀ m, s.message? = some m → m.Readable)
    (nonempty : ∀ bs ∈ chunks, bs ≠ [])
    (cut : chunks.flatten =
      ((fresh timeouts codec reads writes flushes shutdowns).run steps).stream.taken) :
    let h := (fresh timeouts codec reads writes flushes shutdowns).history steps
    let r : Receiver := { codec := { codec with options := far }, reads := chunks.map .data }
    let delivered := sent (Step.delivery? codec.options) h
    delivered.length = (h.countP fun e => e.2.isSent) ∧ (broken Step.message? h).length ≤ 1 ∧
    ∃ p frames last, chunks.flatten = (sent (Step.frame? codec.options) h).flatten ++ p ∧
      (∀ n, (r.calls n).1 = (frames.take n).map .frame ++ List.replicate (n - frames.length) last ∧
        (r.calls n).2.malformed = 0) ∧
      (p = [] ∧ frames = delivered ∧ last = .finished ∨
        ∃ s w d, BreaksOff h s ∧ s.frame? codec.options = some w ∧
          s.delivery? codec.options = some d ∧ p <+: w ∧ p ≠ [] ∧
          (p = w ∧ frames = delivered ++ [d] ∧ last = .finished ∨
            p ≠ w ∧ frames = delivered ∧ last = .failed (.truncated p.length))) := by
  have ht : (fresh timeouts codec reads writes flushes shutdowns).target = none := rfl
  have hk : (fresh timeouts codec reads writes flushes shutdowns).codec = codec := rfl
  have hs : (fresh timeouts codec reads writes flushes shutdowns).stream.taken = [] := rfl
  generalize fresh timeouts codec reads writes flushes shutdowns = c at cut ht hk hs ⊢
  subst hk
  intro h r delivered
  obtain ⟨ws, p, hfit, hwire, hsent, hentry, hcount, hone, hp⟩ := run_carries ht hs readable
  rw [← cut] at hwire
  have hlength : delivered.length = h.countP fun e => e.2.isSent := by
    have hlen := congrArg List.length hentry
    rw [List.length_map, List.length_map, hcount] at hlen
    exact hlen.symm
  have hcalls (us : List RawFrame) (q : Bytes) {fs : List Frame}
      (hfits : ∀ w ∈ us, w.Fits c.codec.ceiling) (hcut : chunks.flatten = RawFrame.wire us ++ q)
      (hq : c.codec.decode q = .ok none) (hread : us.map RawFrame.entry = fs.map .ok) (n : Nat) :
      (r.calls n).1 = (fs.take n).map .frame ++
          List.replicate (n - fs.length) (Receiver.ending q) ∧ (r.calls n).2.malformed = 0 :=
    (Receiver.expects_chunks (k := { c.codec with options := far }) nonempty hfits hcut hq).calls
      hread n
  refine ⟨hlength, hone, p, ?_⟩
  rw [hsent]
  by_cases hempty : p = []
  · refine ⟨delivered, .finished, hwire, ?_, .inl ⟨hempty, rfl, rfl⟩⟩
    rw [hempty] at hwire
    exact hcalls ws [] hfit hwire rfl hentry
  obtain hnone | ⟨s, w, hbreak, hw, hpart, x, rfl, hx, d, hd, he⟩ := hp
  · exact absurd hnone hempty
  by_cases hwhole : p = x.toBytes
  · refine ⟨delivered ++ [d], .finished, hwire, ?_, .inr ⟨s, x.toBytes, d, hbreak, hw, hd, hpart,
      hempty, .inl ⟨hwhole, rfl, rfl⟩⟩⟩
    apply hcalls (ws ++ [x]) []
    · intro v hv
      obtain hv | hv := List.mem_append.1 hv
      · exact hfit v hv
      · rw [List.mem_singleton.1 hv]
        exact hx
    · simp [hwire, hwhole]
    · rfl
    · simp [hentry, he, delivered, h]
  · refine ⟨delivered, .failed (.truncated p.length), hwire, ?_, .inr ⟨s, x.toBytes, d, hbreak, hw,
      hd, hpart, hempty, .inr ⟨hwhole, rfl, rfl⟩⟩⟩
    have hend : Receiver.ending p = .failed (.truncated p.length) := if_neg hempty
    rw [← hend]
    exact hcalls ws p hfit hwire (Codec.decode_part hx.sized hx.within hpart hwhole) hentry

/-- A second send whose stream fails after twenty bytes. -/
def brokenSends : List Step :=
  [.startStreaming "deadbeef",
    .sendWith ((Command.startStreaming "deadbeef").withField "seq" (.ofNat 12))
      { packageId := 7, style := .spaced },
    .close]

def brokenWrites : List WriteEvent := [.accept 1000, .accept 20, .failure { reason := "reset" }]

def brokenWire : Bytes := ((fresh {} {} [] brokenWrites [] []).run brokenSends).stream.taken

theorem received_after_broken_send :
    (∀ s ∈ brokenSends, ∀ m, s.message? = some m → m.Readable) ∧
    (∀ bs ∈ [brokenWire.take 7, brokenWire.drop 7], bs ≠ []) ∧
    [brokenWire.take 7, brokenWire.drop 7].flatten = brokenWire ∧
    ∃ (frames : List Frame) (last : Receiver.Item), 1 ≤ frames.length ∧ ∀ n,
      (Receiver.calls n { reads := [brokenWire.take 7, brokenWire.drop 7].map .data }).1 =
        (frames.take n).map .frame ++ List.replicate (n - frames.length) last := by
  have readable : ∀ s ∈ brokenSends, ∀ m, s.message? = some m → m.Readable := by
    intro s hs m hm
    obtain rfl | hs := List.mem_cons.1 hs
    · cases hm
      exact ⟨.object nofun, by decide +kernel⟩
    obtain rfl | hs := List.mem_cons.1 hs
    · cases hm
      refine ⟨.object fun m hm => ?_, by decide +kernel⟩
      rw [List.mem_singleton.1 hm]
      exact .integer _
    obtain rfl := List.mem_singleton.1 hs
    cases hm
  have nonempty : ∀ bs ∈ [brokenWire.take 7, brokenWire.drop 7], bs ≠ [] := by decide +kernel
  have cut : [brokenWire.take 7, brokenWire.drop 7].flatten = brokenWire := by simp
  obtain ⟨hlen, -, p, frames, last, -, hcalls, hlast⟩ :=
    received_after_run {} {} [] brokenWrites [] [] {} brokenSends _ readable nonempty cut
  refine ⟨readable, nonempty, cut, frames, last, ?_, fun n => (hcalls n).1⟩
  have hone : 1 ≤ (sent (Step.delivery? {})
      ((fresh {} {} [] brokenWrites [] []).history brokenSends)).length := by
    rw [hlen]
    decide +kernel
  obtain ⟨-, rfl, -⟩ | ⟨s, w, d, -, -, -, -, -, ⟨-, rfl, -⟩ | ⟨-, rfl, -⟩⟩ := hlast
  · exact hone
  · rw [List.length_append]
    exact Nat.le_trans hone (Nat.le_add_right _ _)
  · exact hone

end Client

end CameraChannel
