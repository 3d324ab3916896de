import CameraChannel.Proofs.Frame.Batches
import CameraChannel.Proofs.Stream.Release
import CameraChannel.Proofs.Stream.Timing

/-!
What a client receives of a delivery. Main statement: as long as every frame comes in time,
receiving gives what a codec decodes of the data, one for one; then it tells why there is no more,
and that there is no connection.
-/
namespace CameraChannel

open ReadEvent (arrivals waits)

/-- The bytes to wait for until it is settled what stands in front: the whole frame, but only the
header where that is cut off or announces too much. -/
def Codec.reach (k : Codec) (d : Bytes) : Nat :=
  match Header.read? d with
  | some (h, _) => if k.ceiling < h.length.toNat then Header.size else h.frameLength
  | none => Header.size

theorem Codec.reach_toBytes (k : Codec) (h : Header) (rest : Bytes) :
    k.reach (h.toBytes ++ rest) =
      if k.ceiling < h.length.toNat then Header.size else h.frameLength := by
  rw [reach, Header.read?_toBytes]

/-- Of a codec's settings only the ceiling matters for decoding. -/
theorem Codec.decode_congr {k k' : Codec} (h : k.ceiling = k'.ceiling) : k.decode = k'.decode := by
  funext d
  rw [decode, decode, h]

theorem Codec.run_congr {k k' : Codec} (h : k.ceiling = k'.ceiling) (d : Bytes) :
    k.run d = k'.run d := by
  fun_induction run k d with
  | case1 d e hd => exact (run_error (by rw [← decode_congr h, hd])).symm
  | case2 d hd => exact (run_none (by rw [← decode_congr h, hd])).symm
  | case3 d e rest hd later ih => rw [run_some (by rw [← decode_congr h, hd]), ← ih]

/-- Wherever the next frame starts in a delivery, what is waited for comes within a limit. -/
def Timely (k : Codec) (limit : Nat) (es : List ReadEvent) : Prop :=
  ∀ (us : List RawFrame) (d : Bytes), (∀ u ∈ us, u.Fits k.ceiling) →
    arrivals es = RawFrame.wire us ++ d →
    (((waits es).drop (RawFrame.wire us).length).take (k.reach d)).sum < limit

variable {k : Codec} {limit : Nat} {es es' tail : List ReadEvent}

/-- A delivery is timely if all that is waited for in it comes within the limit. -/
theorem timely_of_total (h : (waits es).sum < limit) : Timely k limit es := by
  intro us d _ _
  have hsub := (List.take_sublist (k.reach d) _).trans
    (List.drop_sublist (RawFrame.wire us).length (waits es))
  exact Nat.lt_of_le_of_lt (hsub.sum_le_sum fun _ _ => Nat.zero_le _) h

theorem Timely.front (h : Timely k limit es) :
    ((waits es).take (k.reach (arrivals es))).sum < limit :=
  h [] (arrivals es) (by simp) rfl

/-- Behind a frame a delivery is as timely as it was. -/
theorem Timely.behind {w : RawFrame} (h : Timely k limit es) (hw : w.Fits k.ceiling)
    (harrive : arrivals es = w.toBytes ++ arrivals es')
    (hwait : waits es' = (waits es).drop w.toBytes.length) : Timely k limit es' := by
  intro us d hu hd
  have hfit : ∀ u ∈ w :: us, u.Fits k.ceiling := by
    intro u hmem
    obtain rfl | hmem := List.mem_cons.1 hmem
    · exact hw
    · exact hu u hmem
  have hsum := h (w :: us) d hfit (by rw [harrive, hd, RawFrame.wire_cons, List.append_assoc])
  rw [RawFrame.wire_cons, List.length_append, ← List.drop_drop] at hsum
  rw [hwait]
  exact hsum

namespace Client

variable {t : Stream} {h : Header} {rest : Bytes} {left ceiling : Nat}

/-- The header is read first, and decides whether the payload is. -/
theorem readFrame_header (ceiling : Nat) (hs : t.reads = es ++ tail)
    (hd : ∀ e ∈ es, e.isDelivery = true) (ha : arrivals es = h.toBytes ++ rest)
    (ht : ((waits es).take Header.size).sum ≤ left) :
    ∃ es', (∀ e ∈ es', e.isDelivery = true) ∧ arrivals es' = rest ∧
      waits es' = (waits es).drop Header.size ∧
      readFrame t ceiling (some left) =
        if ceiling < h.length.toNat then
          (.done (.error (.tooLarge h.length.toNat ceiling))
            (some (left - ((waits es).take Header.size).sum)), { t with reads := es' ++ tail })
        else
          Stream.andThen (({ t with reads := es' ++ tail } : Stream).read h.length.toNat
            (some (left - ((waits es).take Header.size).sum))) fun payload a s =>
              (.done (.ok ⟨h, payload⟩) a, s) := by
  have hn : Header.size ≤ (arrivals es).length := by
    rw [ha, List.length_append, Header.length_toBytes]
    exact Nat.le_add_right _ _
  obtain ⟨es', hread, hd', harrive, hwait⟩ := readExactly_enough tail hd hn ht
  rw [ha, ← h.length_toBytes, List.take_left] at hread
  rw [ha, ← h.length_toBytes, List.drop_left] at harrive
  have hheader := Header.read?_toBytes h []
  rw [List.append_nil] at hheader
  refine ⟨es', hd', harrive, hwait, ?_⟩
  rw [readFrame, Stream.read, hs, ← h.length_toBytes, hread]
  simp only [Stream.andThen, Frame.readHeader, hheader]

theorem readFrame_whole {w : RawFrame} (hs : t.reads = es ++ tail)
    (hd : ∀ e ∈ es, e.isDelivery = true) (ha : arrivals es = w.toBytes ++ rest)
    (hw : w.Fits ceiling) (ht : ((waits es).take w.toBytes.length).sum ≤ left) :
    ∃ es', (∀ e ∈ es', e.isDelivery = true) ∧ arrivals es' = rest ∧
      waits es' = (waits es).drop w.toBytes.length ∧
      ∃ b, readFrame t ceiling (some left) =
        (.done (.ok w) b, { t with reads := es' ++ tail }) := by
  have hlen : w.header.length.toNat = w.payload.length := hw.sized
  have hwithin := hw.within
  rw [RawFrame.length_toBytes, List.take_add, List.sum_append_nat] at ht
  rw [RawFrame.toBytes, List.append_assoc] at ha
  obtain ⟨es₁, hd₁, harrive₁, hwait₁, hread₁⟩ :=
    readFrame_header ceiling hs hd ha (Nat.le_trans (Nat.le_add_right _ _) ht)
  have hn : w.payload.length ≤ (arrivals es₁).length := by
    rw [harrive₁, List.length_append]
    exact Nat.le_add_right _ _
  rw [← hwait₁] at ht
  obtain ⟨es₂, hread₂, hd₂, harrive₂, hwait₂⟩ := readExactly_enough tail hd₁ hn
    (Nat.le_sub_of_add_le' ht)
  refine ⟨es₂, hd₂, ?_, ?_, ?_⟩
  · rw [harrive₂, harrive₁, List.drop_left]
  · rw [hwait₂, hwait₁, List.drop_drop, RawFrame.length_toBytes]
  · rw [hread₁, if_neg (by omega), hlen, Stream.read, hread₂, harrive₁, List.take_left]
    exact ⟨_, rfl⟩

/-- What is no whole frame when the stream ends gives no frame. -/
theorem readFrame_short {c : Codec} (hs : t.reads = es ++ tail)
    (hd : ∀ e ∈ es, e.isDelivery = true) (ends : ReadEvent.Ends tail)
    (hnone : c.decode (arrivals es) = .ok none)
    (ht : ((waits es).take (c.reach (arrivals es))).sum ≤ left) :
    ∃ t', readFrame t c.ceiling (some left) = (.failed .ended, t') := by
  obtain hshort | ⟨h, rest, ha, hc, hl⟩ := Codec.decode_eq_none.1 hnone
  · rw [Codec.reach, Header.read?_eq_none.2 hshort] at ht
    obtain ⟨es', hread⟩ := readExactly_short hd ends hshort ht
    exact ⟨{ t with reads := es' }, by rw [readFrame, Stream.read, hs, hread]; rfl⟩
  · rw [ha, Codec.reach_toBytes, if_neg (Nat.not_lt_of_le hc), Header.frameLength, List.take_add,
      List.sum_append_nat] at ht
    obtain ⟨es₁, hd₁, harrive₁, hwait₁, hread₁⟩ :=
      readFrame_header c.ceiling hs hd ha (Nat.le_trans (Nat.le_add_right _ _) ht)
    rw [← hwait₁] at ht
    have hn : (arrivals es₁).length < h.length.toNat := by
      rw [harrive₁]
      exact hl
    obtain ⟨es₂, hread₂⟩ := readExactly_short hd₁ ends hn (Nat.le_sub_of_add_le' ht)
    refine ⟨{ t with reads := es₂ }, ?_⟩
    rw [hread₁, if_neg (Nat.not_lt_of_le hc), Stream.read, hread₂]
    rfl

/-- A client with a stream on which a delivery comes in time, and then the end. -/
structure Awaits (c : Client) (es tail : List ReadEvent) : Prop where
  held : c.connected = true
  reads : c.stream.reads = es ++ tail
  delivery : ∀ e ∈ es, e.isDelivery = true
  ends : ReadEvent.Ends tail
  timely : Timely c.codec c.timeouts.read es

/-- What receiving tells of an entry. -/
def Reply.ofEntry : Entry → Reply
  | .ok f => .received f
  | .error e => .failed (.protocol e)

/-- What receiving tells where decoding stops. -/
def verdict (k : Codec) (d : Bytes) : Reply :=
  match k.decode d with
  | .error e => .failed (.protocol e)
  | .ok _ => .failed .closed

variable {c : Client}

theorem Reply.of_entry (e : Entry) (c : Client) :
    Reply.of .received (e.mapError .protocol, c) = (Reply.ofEntry e, c) := by
  cases e <;> rfl

/-- A frame that the codec takes off is received, and the rest is awaited. -/
theorem Awaits.entry {e : Entry} (h : c.Awaits es tail)
    (hd : c.codec.decode (arrivals es) = .ok (some (e, rest))) :
    ∃ (w : RawFrame) (es' : List ReadEvent), w.entry = e ∧ arrivals es = w.toBytes ++ rest ∧
      arrivals es' = rest ∧ (c.perform .recv).1 = Reply.ofEntry e ∧
      (c.perform .recv).2.Awaits es' tail ∧ (c.perform .recv).2.codec = c.codec := by
  obtain ⟨w, hs, hc, ha, rfl⟩ := Codec.frame_of_decode hd
  have hsum := h.timely.front
  have hlen : w.header.length.toNat = w.payload.length := hs
  rw [ha, RawFrame.toBytes, List.append_assoc, Codec.reach_toBytes, if_neg (by omega),
    hs.frameLength] at hsum
  obtain ⟨es', hd', harrive, hwait, b, hread⟩ :=
    readFrame_whole h.reads h.delivery ha ⟨hs, hc⟩ (Nat.le_of_lt hsum)
  have hperform : c.perform .recv =
      (Reply.ofEntry w.entry, { c with stream := { c.stream with reads := es' ++ tail } }) := by
    rw [perform, recv, if_neg (by simp [h.held]), hread]
    exact Reply.of_entry _ _
  rw [hperform]
  refine ⟨w, es', rfl, ha, harrive, rfl, ⟨h.held, rfl, hd', h.ends, ?_⟩, rfl⟩
  exact h.timely.behind ⟨hs, hc⟩ (by rw [ha, harrive]) hwait

/-- Where the codec stops, receiving tells why and lets the stream go. Of a frame that announces too
much no more than the header was read. -/
theorem Awaits.stop (h : c.Awaits es tail)
    (hd : c.codec.decode (arrivals es) = .ok none ∨ ∃ e, c.codec.decode (arrivals es) = .error e) :
    (c.perform .recv).1 = verdict c.codec (arrivals es) ∧ (c.perform .recv).2.connected = false ∧
      ∀ e, c.codec.decode (arrivals es) = .error e → ∃ (hdr : Header) (es' : List ReadEvent),
        arrivals es = hdr.toBytes ++ arrivals es' ∧
        (c.perform .recv).2.stream.reads = es' ++ tail := by
  have hsum := h.timely.front
  obtain hnone | ⟨e, he⟩ := hd
  · obtain ⟨t', hread⟩ := readFrame_short h.reads h.delivery h.ends hnone (Nat.le_of_lt hsum)
    rw [perform, recv, if_neg (by simp [h.held]), hread, verdict, hnone]
    exact ⟨rfl, rfl, by simp⟩
  · obtain ⟨hdr, rest, ha, hc, rfl⟩ := Codec.decode_eq_error.1 he
    rw [ha, Codec.reach_toBytes, if_pos hc] at hsum
    obtain ⟨es', -, harrive, -, hread⟩ := readFrame_header c.codec.ceiling h.reads
      h.delivery ha (Nat.le_of_lt hsum)
    rw [if_pos hc] at hread
    rw [perform, recv, if_neg (by simp [h.held]), hread, verdict, he]
    exact ⟨rfl, rfl, fun _ _ => ⟨hdr, es', by rw [ha, harrive], rfl⟩⟩

/-- Steps in between that keep the connection leave the delivery as it is. -/
theorem Awaits.aside {s : Step} (h : c.Awaits es tail) (hne : s ≠ .recv)
    (hr : s.releases (c.perform s).1 = false) (hs : s.connects (c.perform s).1 = false) :
    (c.perform s).2.Awaits es tail ∧ (c.perform s).2.codec = c.codec := by
  obtain ⟨t, hreads, hsame⟩ := (perform_outcome c s).unread hne hr hs
  rw [hsame]
  exact ⟨⟨h.held, hreads.trans h.reads, h.delivery, h.ends, h.timely⟩, rfl⟩

/-- The answers to the steps that receive. -/
def receipts (h : List (Step × Reply)) : List Reply :=
  h.filterMap fun e =>
    match e.1 with
    | .recv => some e.2
    | _ => none

theorem receipts_aside {s : Step} (hs : s ≠ .recv) (r : Reply) (h : List (Step × Reply)) :
    receipts ((s, r) :: h) = receipts h := by
  cases s with
  | recv => exact absurd rfl hs
  | connect dial => rfl
  | close => rfl
  | disconnect => rfl
  | send m => rfl
  | sendWith m o => rfl
  | startStreaming device => rfl

theorem receipts_without {h : List (Step × Reply)}
    (hn : ∀ e ∈ h, e.1 = .recv → e.2 = .failed .notConnected) :
    receipts h = List.replicate (receipts h).length (.failed .notConnected) := by
  apply List.eq_replicate_iff.2
  refine ⟨rfl, fun r hr => ?_⟩
  obtain ⟨⟨s, r'⟩, he, hr⟩ := List.mem_filterMap.1 hr
  cases s <;> cases hr
  exact hn _ he rfl

/-- A client that received all there was finds no connection from then on. -/
theorem receipts_behind (hc : c.connected = false) {steps : List Step}
    (kept : ∀ e ∈ c.history steps, e.1 = .recv ∨
      e.1.releases e.2 = false ∧ e.1.connects e.2 = false) :
    c.run steps = c ∧ receipts (c.history steps) =
      List.replicate (receipts (c.history steps)).length (.failed .notConnected) := by
  have unopened : ∀ e ∈ c.history steps, e.1.connects e.2 = false := by
    rintro ⟨s, r⟩ he
    obtain hs | ⟨-, hs⟩ := kept _ he
    · obtain rfl : s = .recv := hs
      rfl
    · exact hs
  obtain ⟨hrun, hanswers⟩ := run_without hc unopened
  exact ⟨hrun, receipts_without fun e he => (hanswers e he).1⟩

/-- What was received of a delivery, by what the codec `k` decodes of it, and what is left then. -/
structure Received (k : Codec) (es tail : List ReadEvent) (replies : List Reply) (c : Client) :
    Prop where
  answers : replies <+: (k.run (arrivals es)).1.map Reply.ofEntry ++
    verdict k (k.run (arrivals es)).2 :: List.replicate replies.length (.failed .notConnected)
  within : replies.length ≤ (k.run (arrivals es)).1.length → c.connected = true ∧
    ∃ (ws : List RawFrame) (es' : List ReadEvent),
      ws.map RawFrame.entry = (k.run (arrivals es)).1.take replies.length ∧
      arrivals es = RawFrame.wire ws ++ arrivals es' ∧ c.stream.reads = es' ++ tail
  beyond : (k.run (arrivals es)).1.length < replies.length → c.connected = false ∧
    ∀ e, k.decode (k.run (arrivals es)).2 = .error e →
      ∃ (h : Header) (es' : List ReadEvent), (k.run (arrivals es)).2 = h.toBytes ++ arrivals es' ∧
        c.stream.reads = es' ++ tail

theorem Received.entry {e : Entry} {w : RawFrame} {replies : List Reply} {k : Codec}
    (h : Received k es' tail replies c) (hd : k.decode (arrivals es) = .ok (some (e, arrivals es')))
    (hw : w.entry = e) (ha : arrivals es = w.toBytes ++ arrivals es') :
    Received k es tail (Reply.ofEntry e :: replies) c := by
  have hrun := Codec.run_some hd
  obtain ⟨answers, within, beyond⟩ := h
  constructor
  · rw [hrun, List.length_cons, List.replicate_succ', ← List.cons_append, ← List.append_assoc]
    exact ((List.prefix_cons_inj _).2 answers).trans (List.prefix_append _ _)
  · rw [hrun]
    intro hle
    obtain ⟨hc, ws, es'', hws, hbytes, hreads⟩ := within (Nat.le_of_succ_le_succ hle)
    refine ⟨hc, w :: ws, es'', ?_, ?_, hreads⟩
    · rw [List.map_cons, hw, hws]
      rfl
    · rw [ha, hbytes, RawFrame.wire_cons, List.append_assoc]
  · rw [hrun]
    intro hlt
    exact beyond (Nat.lt_of_succ_lt_succ hlt)

theorem Awaits.stopped (h : c.Awaits es tail)
    (hd : c.codec.decode (arrivals es) = .ok none ∨ ∃ e, c.codec.decode (arrivals es) = .error e)
    {steps : List Step} (kept : ∀ e ∈ (c.perform .recv).2.history steps, e.1 = .recv ∨
      e.1.releases e.2 = false ∧ e.1.connects e.2 = false) :
    Received c.codec es tail
      ((c.perform .recv).1 :: receipts ((c.perform .recv).2.history steps))
      ((c.perform .recv).2.run steps) := by
  have hrun : c.codec.run (arrivals es) = ([], arrivals es) := by
    obtain hnone | ⟨e, he⟩ := hd
    · exact Codec.run_none hnone
    · exact Codec.run_error he
  obtain ⟨hreply, hc, hread⟩ := h.stop hd
  obtain ⟨hsame, hrest⟩ := receipts_behind hc kept
  rw [hsame, hreply]
  constructor
  · rw [hrun, List.length_cons, List.replicate_succ', ← hrest]
    exact (List.prefix_cons_inj _).2 (List.prefix_append _ _)
  · rw [hrun]
    intro hle
    exact absurd hle (Nat.not_succ_le_zero _)
  · rw [hrun]
    exact fun _ => ⟨hc, hread⟩

theorem Awaits.received (h : c.Awaits es tail) {steps : List Step}
    (kept : ∀ e ∈ c.history steps, e.1 = .recv ∨
      e.1.releases e.2 = false ∧ e.1.connects e.2 = false) :
    Received c.codec es tail (receipts (c.history steps)) (c.run steps) := by
  induction steps generalizing c es with
  | nil =>
    refine ⟨List.nil_prefix, fun _ => ⟨h.held, [], es, rfl, rfl, h.reads⟩, fun hlt => ?_⟩
    exact absurd hlt (Nat.not_lt_zero _)
  | cons s steps ih =>
    have hlater : ∀ e ∈ (c.perform s).2.history steps, e.1 = .recv ∨
        e.1.releases e.2 = false ∧ e.1.connects e.2 = false :=
      fun e he => kept e (List.mem_cons_of_mem _ he)
    rw [history, run]
    by_cases hs : s = .recv
    · subst hs
      cases hd : c.codec.decode (arrivals es) with
      | ok found =>
        cases found with
        | none => exact h.stopped (.inl hd) hlater
        | some v =>
          obtain ⟨e, rest⟩ := v
          obtain ⟨w, es', hw, ha, rfl, hreply, hawait, hcodec⟩ := h.entry hd
          have hrest := ih hawait hlater
          rw [hcodec] at hrest
          have hreceived := hrest.entry hd hw ha
          rw [← hreply] at hreceived
          exact hreceived
      | error e => exact h.stopped (.inr ⟨e, hd⟩) hlater
    · obtain ⟨hr, hopen⟩ := (kept _ List.mem_cons_self).resolve_left hs
      obtain ⟨hawait, hcodec⟩ := h.aside hs hr hopen
      have hrest := ih hawait hlater
      rw [hcodec] at hrest
      rw [receipts_aside hs]
      exact hrest

/-- Receiving agrees with decoding. Of a delivery whose frames come in time, however it is cut and
whatever is sent in between, the answers are the entries that any codec under the client's ceiling
decodes of the data, then why it stops, and from then on that there is no connection. The connection
is kept up to the last entry, and the next frame is read from its start; of a frame that announces
too much the header is read and no more. -/
theorem receipts_agree (c : Client) (k : Codec) (steps : List Step) (es tail : List ReadEvent)
    (held : c.connected = true) (reads : c.stream.reads = es ++ tail)
    (delivery : ∀ e ∈ es, e.isDelivery = true) (ends : ReadEvent.Ends tail)
    (timely : Timely c.codec c.timeouts.read es) (ceiling : k.ceiling = c.codec.ceiling)
    (kept : ∀ e ∈ c.history steps, e.1 = .recv ∨
      e.1.releases e.2 = false ∧ e.1.connects e.2 = false) :
    let items := (k.run (arrivals es)).1
    let rest := (k.run (arrivals es)).2
    let replies := receipts (c.history steps)
    let n := replies.length
    replies <+: items.map Reply.ofEntry ++
      verdict k rest :: List.replicate n (.failed .notConnected) ∧
    (n ≤ items.length → (c.run steps).connected = true ∧
      ∃ (ws : List RawFrame) (es' : List ReadEvent), ws.map RawFrame.entry = items.take n ∧
        arrivals es = RawFrame.wire ws ++ arrivals es' ∧
        (c.run steps).stream.reads = es' ++ tail) ∧
    (items.length < n → (c.run steps).connected = false ∧
      ∀ e, k.decode rest = .error e → ∃ (h : Header) (es' : List ReadEvent),
        rest = h.toBytes ++ arrivals es' ∧ (c.run steps).stream.reads = es' ++ tail) := by
  intro items rest replies n
  have hdecode := Codec.decode_congr ceiling
  obtain ⟨answers, within, beyond⟩ := Awaits.received ⟨held, reads, delivery, ends, timely⟩ kept
  rw [← Codec.run_congr ceiling] at answers within beyond
  rw [verdict, ← hdecode] at answers
  rw [← hdecode] at beyond
  exact ⟨answers, within, beyond⟩

/-- A command and a payload that is none, then a header that announces more than fits. -/
def mixedFrames : List RawFrame :=
  [Frame.rawFrame ((Command.startStreaming "deadbeef").payload .compact) {},
    Frame.rawFrame [0x7b] { packageId := 3 }]

def mixedWire : Bytes :=
  RawFrame.wire mixedFrames ++ (Header.forPayload 65 {}).toBytes ++ [1, 2, 3]

/-- Cut within the first header. -/
def mixedDelivery : List ReadEvent :=
  [.delay 3, .data (mixedWire.take 5), .delay 4, .data (mixedWire.drop 5)]

def mixedClient : Client :=
  fresh { read := 30 } { ceiling := 64 } mixedDelivery [] [] []

def mixedSteps : List Step := [.recv, .startStreaming "deadbeef", .recv, .recv, .recv]

theorem receipts_agree_mixed :
    mixedClient.connected = true ∧ mixedClient.stream.reads = mixedDelivery ++ [] ∧
    (∀ e ∈ mixedDelivery, e.isDelivery = true) ∧ ReadEvent.Ends [] ∧
    Timely mixedClient.codec mixedClient.timeouts.read mixedDelivery ∧
    (∀ e ∈ mixedClient.history mixedSteps, e.1 = .recv ∨
      e.1.releases e.2 = false ∧ e.1.connects e.2 = false) ∧
    Entry.refused (mixedFrames.map RawFrame.entry) = 1 ∧
    receipts (mixedClient.history mixedSteps) =
      mixedFrames.map (fun w => Reply.ofEntry w.entry) ++
        [.failed (.protocol (.tooLarge 65 64)), .failed .notConnected] ∧
    (mixedClient.run mixedSteps).connected = false := by
  have delivery : ∀ e ∈ mixedDelivery, e.isDelivery = true := by decide +kernel
  have timely : Timely mixedClient.codec mixedClient.timeouts.read mixedDelivery :=
    timely_of_total (by decide +kernel)
  have kept : ∀ e ∈ mixedClient.history mixedSteps, e.1 = .recv ∨
      e.1.releases e.2 = false ∧ e.1.connects e.2 = false := by
    intro e he
    obtain rfl | he := List.mem_cons.1 he
    · exact .inl rfl
    obtain rfl | he := List.mem_cons.1 he
    · exact .inr ⟨by decide +kernel, rfl⟩
    obtain rfl | he := List.mem_cons.1 he
    · exact .inl rfl
    obtain rfl | he := List.mem_cons.1 he
    · exact .inl rfl
    obtain rfl := List.mem_singleton.1 he
    exact .inl rfl
  have whole : ∀ w ∈ mixedFrames, w.Fits mixedClient.codec.ceiling := by
    intro w hw
    obtain rfl | hw := List.mem_cons.1 hw
    · exact ⟨Frame.rawFrame_sized (by decide +kernel) _, by decide +kernel⟩
    obtain rfl := List.mem_singleton.1 hw
    exact ⟨Frame.rawFrame_sized (by decide +kernel) _, by decide +kernel⟩
  have arrived : arrivals mixedDelivery =
      RawFrame.wire mixedFrames ++ ((Header.forPayload 65 {}).toBytes ++ [1, 2, 3]) := by
    decide +kernel
  have stop : mixedClient.codec.decode ((Header.forPayload 65 {}).toBytes ++ [1, 2, 3]) =
      .error (.tooLarge 65 64) :=
    Codec.decode_eq_error.2 ⟨_, _, rfl, by decide, rfl⟩
  have decoded : mixedClient.codec.run (arrivals mixedDelivery) =
      (mixedFrames.map RawFrame.entry, (Header.forPayload 65 {}).toBytes ++ [1, 2, 3]) := by
    rw [arrived, Codec.run_wire whole, Codec.run_error stop, List.append_nil]
  obtain ⟨hanswers, -, hbeyond⟩ := receipts_agree mixedClient mixedClient.codec mixedSteps
    mixedDelivery [] rfl (List.append_nil _).symm delivery (.inl rfl) timely rfl kept
  rw [decoded] at hanswers hbeyond
  refine ⟨rfl, (List.append_nil _).symm, delivery, .inl rfl, timely, kept, ?_, ?_, ?_⟩
  · decide +kernel
  · rw [List.prefix_iff_eq_take.1 hanswers, verdict, stop]
    rfl
  · exact (hbeyond (by decide +kernel)).1

end Client

end CameraChannel
