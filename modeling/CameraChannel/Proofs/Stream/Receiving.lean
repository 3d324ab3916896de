import CameraChannel.Proofs.Frame.Batches
import CameraChannel.Proofs.Stream.Arrivals
import CameraChannel.Stream.Receiver

/-!
Receivers under any delivery. What was read and what is held are compared with the frames taken off
them, for one call and for runs of calls. Main statement: the frames given out are those of the data
in order, wherever it is cut, and failures and ends of the stream cost nothing.
-/
namespace CameraChannel

open ReadEvent (pieces arrivals)

namespace Receiver

namespace Item

def frame? : Item → Option Frame
  | .frame f => some f
  | .finished => none
  | .failed _ => none
  | .waiting => none

theorem eq_frame {i : Item} {f : Frame} (h : i.frame? = some f) : i = .frame f := by
  cases i <;> cases h
  rfl

/-- The read that an item reports. -/
def signal? : Item → Option Signal
  | .frame _ => none
  | .finished => some .ended
  | .failed (.io reason) => some (.failed reason)
  | .failed (.protocol _) => none
  | .failed (.truncated _) => some .ended
  | .waiting => none

/-- What an item says of the receiver that it leaves behind. -/
def Leaves (r : Receiver) : Item → Prop
  | .frame _ => True
  | .finished => r.buffer = []
  | .failed (.io _) => r.codec.decode r.buffer = .ok none
  | .failed (.protocol e) => r.codec.decode r.buffer = .error e
  | .failed (.truncated n) =>
    r.codec.decode r.buffer = .ok none ∧ r.buffer ≠ [] ∧ n = r.buffer.length
  | .waiting => r.codec.decode r.buffer = .ok none ∧ ∃ later, r.reads = .never :: later

def frames (items : List Item) : List Frame := items.filterMap frame?

def signals (items : List Item) : List Signal := items.filterMap signal?

theorem frames_concat (items : List Item) (i : Item) :
    frames (items ++ [i]) = frames items ++ i.frame?.toList := by
  cases h : i.frame? <;> simp [frames, h]

theorem signals_concat (items : List Item) (i : Item) :
    signals (items ++ [i]) = signals items ++ i.signal?.toList := by
  cases h : i.signal? <;> simp [signals, h]

end Item

/-- What lies between two states of a receiver: `used` was read, and the frames `ws` were taken off
the front of what was held and of the data that came. -/
structure Passed (r r' : Receiver) (ws : List RawFrame) (used : List Piece) : Prop where
  codec : r'.codec = r.codec
  fits : ∀ w ∈ ws, w.Fits r.codec.ceiling
  read : pieces r.reads = used ++ pieces r'.reads
  kept : r.buffer ++ Piece.bytes used = RawFrame.wire ws ++ r'.buffer
  malformed : r'.malformed = r.malformed + Entry.refused (ws.map RawFrame.entry)

/-- The entries still to come, of what is held and of what is not yet read. -/
def pending (r : Receiver) : List Entry :=
  Batch.entriesWithin r.codec.ceiling (r.buffer ++ arrivals r.reads)

namespace Passed

variable {r r' r'' : Receiver} {ws ws' : List RawFrame} {used used' : List Piece}

theorem refl (r : Receiver) : Passed r r [] [] where
  codec := rfl
  fits := by simp
  read := rfl
  kept := List.append_nil _
  malformed := rfl

theorem trans (h : Passed r r' ws used) (h' : Passed r' r'' ws' used') :
    Passed r r'' (ws ++ ws') (used ++ used') where
  codec := h'.codec.trans h.codec
  fits := by
    intro w hw
    obtain hw | hw := List.mem_append.1 hw
    · exact h.fits w hw
    · rw [← h.codec]
      exact h'.fits w hw
  read := by rw [h.read, h'.read, List.append_assoc]
  kept := by
    rw [Piece.bytes_append, ← List.append_assoc, h.kept, List.append_assoc, h'.kept,
      RawFrame.wire_append, List.append_assoc]
  malformed := by
    rw [h'.malformed, h.malformed, List.map_append, Entry.refused_append, Nat.add_assoc]

theorem data {bs : Bytes} {rest : List ReadEvent} (h : Passed r r' ws used)
    (hr : pieces r'.reads = bs.map .byte ++ pieces rest) :
    Passed r { r' with reads := rest, buffer := r'.buffer ++ bs } ws (used ++ bs.map .byte) where
  codec := h.codec
  fits := h.fits
  read := by rw [h.read, hr, List.append_assoc]
  kept := by rw [Piece.bytes_append, Piece.bytes_data, ← List.append_assoc, h.kept,
    List.append_assoc]
  malformed := h.malformed

theorem signal {s : Signal} {rest : List ReadEvent} (h : Passed r r' ws used)
    (hr : pieces r'.reads = .signal s :: pieces rest) :
    Passed r { r' with reads := rest } ws (used ++ [.signal s]) where
  codec := h.codec
  fits := h.fits
  read := by rw [h.read, hr, List.append_assoc]; rfl
  kept := by
    rw [Piece.bytes_append, ← h.kept]
    exact congrArg (r.buffer ++ ·) (List.append_nil _)
  malformed := h.malformed

theorem silent {rest : List ReadEvent} (h : Passed r r' ws used)
    (hr : pieces r'.reads = pieces rest) : Passed r { r' with reads := rest } ws used where
  codec := h.codec
  fits := h.fits
  read := by rw [h.read, hr]
  kept := h.kept
  malformed := h.malformed

theorem ahead (h : Passed r r' ws used) :
    r.buffer ++ arrivals r.reads = RawFrame.wire ws ++ (r'.buffer ++ arrivals r'.reads) := by
  rw [arrivals, h.read, Piece.bytes_append, ← List.append_assoc, h.kept, List.append_assoc,
    arrivals]

theorem pending (h : Passed r r' ws used) :
    r.pending = ws.map RawFrame.entry ++ r'.pending := by
  rw [Receiver.pending, Receiver.pending, h.ahead, Batch.entriesWithin_wire h.fits, h.codec]

end Passed

/-- Why a drain stopped, by the frames that it took and the bytes that it left. -/
def Stop.Explains (c : Codec) (ws : List RawFrame) (rest : Bytes) : Stop → Prop
  | .frame f => ∃ us w, ws = us ++ [w] ∧ Entry.frames (us.map RawFrame.entry) = [] ∧ w.entry = .ok f
  | .oversized e => Entry.frames (ws.map RawFrame.entry) = [] ∧ c.decode rest = .error e
  | .wanting => Entry.frames (ws.map RawFrame.entry) = [] ∧ c.decode rest = .ok none

theorem drain_taken (c : Codec) (buffer : Bytes) :
    ∃ ws : List RawFrame, (∀ w ∈ ws, w.Fits c.ceiling) ∧
      buffer = RawFrame.wire ws ++ (drain c buffer).rest ∧
      (drain c buffer).skipped = Entry.refused (ws.map RawFrame.entry) ∧
      (drain c buffer).stop.Explains c ws (drain c buffer).rest := by
  fun_induction drain c buffer with
  | case1 buffer e h => exact ⟨[], by simp, rfl, rfl, rfl, h⟩
  | case2 buffer h => exact ⟨[], by simp, rfl, rfl, rfl, h⟩
  | case3 buffer f rest h =>
    obtain ⟨w, hs, hc, rfl, he⟩ := Codec.frame_of_decode h
    refine ⟨[w], ?_, ?_, ?_, [], w, rfl, rfl, he.symm⟩
    · intro v hv
      rw [List.mem_singleton.1 hv]
      exact ⟨hs, hc⟩
    · simp
    · simp [← he]
  | case4 buffer e rest h d ih =>
    obtain ⟨w, hs, hc, rfl, he⟩ := Codec.frame_of_decode h
    obtain ⟨ws, hf, hb, hk, hx⟩ := ih
    refine ⟨w :: ws, ?_, ?_, ?_, ?_⟩
    · intro v hv
      obtain rfl | hv := List.mem_cons.1 hv
      · exact ⟨hs, hc⟩
      · exact hf v hv
    · rw [RawFrame.wire_cons, List.append_assoc, ← hb]
    · rw [List.map_cons, ← he, Entry.refused_error, hk]
    · have hskip : ∀ us : List RawFrame,
          Entry.frames ((w :: us).map RawFrame.entry) = Entry.frames (us.map RawFrame.entry) := by
        intro us
        rw [List.map_cons, ← he, Entry.frames_error]
      change d.stop.Explains c (w :: ws) d.rest
      cases hstop : d.stop with
      | frame f =>
        rw [hstop] at hx
        obtain ⟨us, v, rfl, hu, hv⟩ := hx
        exact ⟨w :: us, v, rfl, (hskip us).trans hu, hv⟩
      | oversized e =>
        rw [hstop] at hx
        exact ⟨(hskip ws).trans hx.1, hx.2⟩
      | wanting =>
        rw [hstop] at hx
        exact ⟨(hskip ws).trans hx.1, hx.2⟩

/-- A receiver with its buffer drained. -/
def drained (r : Receiver) : Receiver :=
  { r with
    buffer := (drain r.codec r.buffer).rest
    malformed := r.malformed + (drain r.codec r.buffer).skipped }

theorem drained_passed (r : Receiver) :
    ∃ ws, Passed r r.drained ws [] ∧
      (drain r.codec r.buffer).stop.Explains r.codec ws r.drained.buffer := by
  obtain ⟨ws, hf, hb, hk, hx⟩ := drain_taken r.codec r.buffer
  refine ⟨ws, ⟨rfl, hf, rfl, ?_, ?_⟩, hx⟩
  · exact (List.append_nil _).trans hb
  · rw [← hk]
    rfl

theorem wanting_passed {r : Receiver} (h : (drain r.codec r.buffer).stop = .wanting) :
    ∃ ws, Passed r r.drained ws [] ∧ Entry.frames (ws.map RawFrame.entry) = [] ∧
      r.codec.decode r.drained.buffer = .ok none := by
  obtain ⟨ws, hp, hx⟩ := r.drained_passed
  rw [h] at hx
  exact ⟨ws, hp, hx⟩

/-- The frames taken for an item: only the last of them is read, and only for a frame. -/
def Item.Takes (ws : List RawFrame) : Item → Prop
  | .frame f => ∃ us w, ws = us ++ [w] ∧ Entry.frames (us.map RawFrame.entry) = [] ∧ w.entry = .ok f
  | .finished => Entry.frames (ws.map RawFrame.entry) = []
  | .failed _ => Entry.frames (ws.map RawFrame.entry) = []
  | .waiting => Entry.frames (ws.map RawFrame.entry) = []

theorem Item.Takes.append {us ws : List RawFrame} {i : Item}
    (hu : Entry.frames (us.map RawFrame.entry) = []) (h : i.Takes ws) : i.Takes (us ++ ws) := by
  have hskip : ∀ vs : List RawFrame,
      Entry.frames ((us ++ vs).map RawFrame.entry) = Entry.frames (vs.map RawFrame.entry) := by
    intro vs
    rw [List.map_append, Entry.frames_append, hu, List.nil_append]
  cases i with
  | frame f =>
    obtain ⟨vs, w, rfl, hv, hw⟩ := h
    exact ⟨us ++ vs, w, (List.append_assoc _ _ _).symm, (hskip vs).trans hv, hw⟩
  | finished => exact (hskip ws).trans h
  | failed e => exact (hskip ws).trans h
  | waiting => exact (hskip ws).trans h

theorem Item.Takes.frames {ws : List RawFrame} {i : Item} (h : i.Takes ws) :
    Entry.frames (ws.map RawFrame.entry) = i.frame?.toList := by
  cases i with
  | frame f =>
    obtain ⟨us, w, rfl, hu, hw⟩ := h
    simp [hu, hw, Item.frame?]
  | finished => exact h
  | failed e => exact h
  | waiting => exact h

/-- At the end of the stream a drained receiver tells what it holds, and stays as it is. -/
theorem atEnd_drained {r : Receiver} {ws : List RawFrame}
    (hw : Entry.frames (ws.map RawFrame.entry) = []) (h : r.codec.decode r.buffer = .ok none) :
    ∃ i, r.atEnd = (i, r) ∧ i.Takes ws ∧ i.signal? = some .ended ∧ i.Leaves r := by
  rw [atEnd, Codec.decodeEnd, h]
  by_cases hn : r.buffer = []
  · rw [hn]
    exact ⟨.finished, rfl, hw, rfl, hn⟩
  · rw [if_neg (by simpa using hn)]
    exact ⟨.failed (.truncated r.buffer.length), rfl, hw, rfl, h, hn, rfl⟩

/-- What an item tells of the pieces used for it. A script that is over ends again and again. -/
def Item.Reports (used : List Piece) (r : Receiver) (i : Item) : Prop :=
  Piece.signals used = i.signal?.toList ∨
    Piece.signals used = [] ∧ i.signal? = some .ended ∧ r.reads = []

/-- One call takes frames off up to the first that can be read, and reads no further than it
must. -/
theorem next_passed (r : Receiver) : ∃ ws used, Passed r r.next.2 ws used ∧
    r.next.1.Takes ws ∧ r.next.1.Reports used r.next.2 ∧ r.next.1.Leaves r.next.2 := by
  fun_induction next r with
  | case1 r d r₁ f hs =>
    obtain ⟨ws, hp, hx⟩ := r.drained_passed
    have hstop : (drain r.codec r.buffer).stop = .frame f := hs
    rw [hstop] at hx
    exact ⟨ws, [], hp, hx, .inl rfl, trivial⟩
  | case2 r d r₁ e hs =>
    obtain ⟨ws, hp, hx⟩ := r.drained_passed
    have hstop : (drain r.codec r.buffer).stop = .oversized e := hs
    rw [hstop] at hx
    exact ⟨ws, [], hp, hx.1, .inl rfl, hx.2⟩
  | case3 r d r₁ hs f reads hr =>
    obtain ⟨ws, hp, hx⟩ := wanting_passed hs
    exact ⟨ws, _, hp.signal (readSome_failed hr), hx.1, .inl rfl, hx.2⟩
  | case4 r d r₁ hs reads hr =>
    obtain ⟨ws, hp, hx⟩ := wanting_passed hs
    obtain ⟨hsame, hn⟩ := readSome_unfinished hr
    exact ⟨ws, [], hp.silent hsame, hx.1, .inl rfl, hx.2, hn⟩
  | case5 r d r₁ hs bs a reads hr hb =>
    obtain ⟨ws, hp, hx⟩ := wanting_passed hs
    obtain rfl := List.isEmpty_iff.1 hb
    obtain ⟨i, he, ht, hsig, hl⟩ := atEnd_drained (r := { r.drained with reads }) hx.1 hx.2
    have hend : atEnd { r₁ with reads } = (i, { r₁ with reads }) := he
    rw [hend]
    obtain h | ⟨h, rfl⟩ := readSome_end hr
    · exact ⟨ws, _, hp.signal h, ht, .inl (by rw [hsig]; rfl), hl⟩
    · exact ⟨ws, [], hp.silent h, ht, .inr ⟨rfl, hsig, rfl⟩, hl⟩
  | case6 r d r₁ hs bs a reads hr hb ih =>
    -- what the drain took holds no good frame, so the item takes it along
    obtain ⟨ws, hp, hx⟩ := wanting_passed hs
    have hne : bs ≠ [] := by simpa using hb
    obtain ⟨vs, used, hq, ht, hm, hl⟩ := ih
    refine ⟨ws ++ vs, _, (hp.data (readSome_data hr hne)).trans hq, ht.append hx.1, ?_, hl⟩
    simpa [Item.Reports] using hm

theorem atEnd_reads (r : Receiver) : r.atEnd.2.reads = r.reads := by
  rw [atEnd]
  split <;> rfl

theorem next_over {r : Receiver} (h : r.reads = []) : r.next.2.reads = [] := by
  fun_induction next r with
  | case1 => exact h
  | case2 => exact h
  | case3 r d r₁ hs f reads hr => rw [h] at hr; cases hr
  | case4 r d r₁ hs reads hr => rw [h] at hr; cases hr
  | case5 r d r₁ hs bs a reads hr hb =>
    rw [h] at hr
    cases hr
    exact atEnd_reads _
  | case6 r d r₁ hs bs a reads hr hb ih =>
    rw [h] at hr
    cases hr
    exact absurd rfl hb

theorem drain_of_error {c : Codec} {buffer : Bytes} {e : FrameError}
    (h : c.decode buffer = .error e) : drain c buffer = ⟨.oversized e, 0, buffer⟩ := by
  rw [drain]
  split
  · next h' => cases h.symm.trans h'; rfl
  · next h' => cases h.symm.trans h'
  · next h' => cases h.symm.trans h'
  · next h' => cases h.symm.trans h'

theorem next_of_error {r : Receiver} {e : FrameError} (h : r.codec.decode r.buffer = .error e) :
    r.next = (.failed (.protocol e), r) := by
  rw [next, drain_of_error h]
  rfl

/-- When a call gives no frame, none is pending in what is held. -/
theorem Item.Leaves.held {r : Receiver} {i : Item} (h : i.Leaves r) (hi : i.frame? = none) :
    Batch.entriesWithin r.codec.ceiling r.buffer = [] := by
  cases i with
  | frame f => cases hi
  | finished =>
    have hb : r.buffer = [] := h
    rw [hb]
    exact Codec.entriesWithin_of_none rfl
  | failed e =>
    cases e with
    | io reason => exact Codec.entriesWithin_of_none h
    | protocol e => simpa using Codec.entriesWithin_of_error h []
    | truncated n => exact Codec.entriesWithin_of_none h.1
  | waiting => exact Codec.entriesWithin_of_none h.1

/-- When a call gives neither a frame nor a read, none is pending at all. -/
theorem Item.Leaves.stuck {r : Receiver} {i : Item} (h : i.Leaves r) (hi : i.frame? = none)
    (hs : i.signal? = none) : r.pending = [] := by
  cases i with
  | frame f => cases hi
  | finished => cases hs
  | failed e =>
    cases e with
    | io reason => cases hs
    | protocol e => exact Codec.entriesWithin_of_error h _
    | truncated n => cases hs
  | waiting =>
    obtain ⟨hd, later, hr⟩ := h
    rw [pending, hr, ReadEvent.arrivals_never, List.append_nil]
    exact Codec.entriesWithin_of_none hd

theorem next_pending (r : Receiver) :
    Entry.frames r.pending = r.next.1.frame?.toList ++ Entry.frames r.next.2.pending := by
  obtain ⟨ws, used, hp, ht, -, -⟩ := next_passed r
  rw [hp.pending, Entry.frames_append, ht.frames]

/-- As long as a frame is pending, a call brings the receiver on, by a frame or by a read without
data. -/
theorem next_progress (r : Receiver) : Entry.frames r.next.2.pending = [] ∨
    (Entry.frames r.next.2.pending).length + (ReadEvent.signals r.next.2.reads).length <
      (Entry.frames r.pending).length + (ReadEvent.signals r.reads).length := by
  obtain ⟨ws, used, hp, ht, hm, hl⟩ := next_passed r
  have hframes := congrArg List.length (next_pending r)
  have hsignals := congrArg List.length (congrArg Piece.signals hp.read)
  rw [Piece.signals_append, List.length_append] at hsignals
  rw [List.length_append] at hframes
  simp only [ReadEvent.signals]
  cases hi : r.next.1.frame? with
  | some f =>
    rw [hi] at hframes
    simp only [Option.toList_some, List.length_cons, List.length_nil] at hframes
    exact .inr (by omega)
  | none =>
    obtain hm | ⟨-, -, hr⟩ := hm
    · cases hs : r.next.1.signal? with
      | some s =>
        rw [hm, hs, Option.toList_some, List.length_cons, List.length_nil] at hsignals
        exact .inr (by omega)
      | none =>
        rw [hl.stuck hi hs]
        exact .inl rfl
    · have hover : r.next.2.pending = [] := by
        rw [pending, hr, ReadEvent.arrivals_nil, List.append_nil]
        exact hl.held hi
      rw [hover]
      exact .inl rfl

/-- The items of `n` calls, and the receiver after them. -/
def calls : Nat → Receiver → List Item × Receiver
  | 0, r => ([], r)
  | n + 1, r =>
    let later := calls n r.next.2
    (r.next.1 :: later.1, later.2)

theorem calls_succ (n : Nat) (r : Receiver) :
    calls (n + 1) r = ((calls n r).1 ++ [(calls n r).2.next.1], (calls n r).2.next.2) := by
  induction n generalizing r with
  | zero => rfl
  | succ n ih => rw [calls, ih r.next.2]; rfl

theorem calls_of_error {r : Receiver} {e : FrameError} (h : r.codec.decode r.buffer = .error e)
    (n : Nat) : calls n r = (List.replicate n (.failed (.protocol e)), r) := by
  induction n with
  | zero => rfl
  | succ n ih => rw [calls, next_of_error h, ih]; rfl

theorem calls_passed (n : Nat) (r : Receiver) : ∃ ws used, Passed r (calls n r).2 ws used ∧
    Item.frames (calls n r).1 = Entry.frames (ws.map RawFrame.entry) ∧
    ∃ k, Item.signals (calls n r).1 = Piece.signals used ++ List.replicate k .ended ∧
      (k = 0 ∨ (calls n r).2.reads = []) := by
  induction n with
  | zero => exact ⟨[], [], .refl r, rfl, 0, rfl, .inl rfl⟩
  | succ n ih =>
    obtain ⟨ws, used, hp, hf, k, hk, hover⟩ := ih
    obtain ⟨us, used', hq, ht, hm, -⟩ := next_passed (calls n r).2
    rw [calls_succ]
    refine ⟨ws ++ us, used ++ used', hp.trans hq, ?_, ?_⟩
    · rw [Item.frames_concat, List.map_append, Entry.frames_append, ht.frames, hf]
    · rw [Item.signals_concat, hk, Piece.signals_append]
      obtain hm | ⟨hm, hs, hr⟩ := hm
      · obtain rfl | hover := hover
        · exact ⟨0, by simp [hm], .inl rfl⟩
        · -- nothing is left to read, so this call can only have given a frame
          have hnone := hq.read
          rw [hover, ReadEvent.pieces] at hnone
          rw [(List.append_eq_nil_iff.1 hnone.symm).1] at hm ⊢
          exact ⟨k, by simp [← hm, Piece.signals], .inr (next_over hover)⟩
      · exact ⟨k + 1, by simp [hm, hs, List.replicate_succ'], .inr hr⟩

theorem calls_progress (n : Nat) (r : Receiver) : Entry.frames (calls n r).2.pending = [] ∨
    (Entry.frames (calls n r).2.pending).length +
        (ReadEvent.signals (calls n r).2.reads).length + n ≤
      (Entry.frames r.pending).length + (ReadEvent.signals r.reads).length := by
  induction n with
  | zero => exact .inr (Nat.le_refl _)
  | succ n ih =>
    simp only [calls_succ]
    obtain ih | ih := ih
    · have hp := next_pending (calls n r).2
      rw [ih] at hp
      exact .inl (List.append_eq_nil_iff.1 hp.symm).2
    · exact (next_progress (calls n r).2).imp_right fun h => by omega

theorem calls_last {n : Nat} {r : Receiver} {earlier : List Item} {i : Item}
    (h : (calls n r).1 = earlier ++ [i]) : ∃ m, earlier = (calls m r).1 ∧
      i = (calls m r).2.next.1 ∧ (calls n r).2 = (calls m r).2.next.2 := by
  cases n with
  | zero => exact absurd h (by simp [calls])
  | succ m =>
    rw [calls_succ] at h ⊢
    obtain ⟨he, hi⟩ := List.append_inj' h rfl
    exact ⟨m, he.symm, (List.singleton_inj.1 hi).symm, rfl⟩

/-- What a receiver has given out after any calls on any script: the frames of the data in order and
once each, up to a header above the ceiling, and with each of them the count of those refused before
it; every failed read and every end of the stream once and in its place; and no byte is lost, since
the frames taken off, what is held and what is still to come make up the data. After enough calls no
frame is left, and a header above the ceiling stops the receiver for good. -/
theorem calls_deliver (c : Codec) (reads : List ReadEvent) (n : Nat) :
    let items := (calls n { codec := c, reads }).1
    let r := (calls n { codec := c, reads }).2
    let all := Batch.entriesWithin c.ceiling (arrivals reads)
    (∃ ws used k, Passed { codec := c, reads } r ws used ∧
      all = ws.map RawFrame.entry ++ r.pending ∧
      Item.frames items = Entry.frames (ws.map RawFrame.entry) ∧
      Item.signals items = Piece.signals used ++ List.replicate k .ended ∧
      (k = 0 ∨ r.reads = [])) ∧
    (∀ earlier f, items = earlier ++ [.frame f] → ∃ before,
      all = before ++ .ok f :: r.pending ∧ Item.frames earlier = Entry.frames before ∧
        r.malformed = Entry.refused before) ∧
    (∀ earlier i, items = earlier ++ [i] → i.Leaves r) ∧
    ((Entry.frames all).length + (ReadEvent.signals reads).length ≤ n →
      Item.frames items = Entry.frames all) ∧
    (∀ h rest, r.buffer = Header.toBytes h ++ rest → c.ceiling < h.length.toNat → ∀ k,
      calls k r =
        (List.replicate k (.failed (.protocol (.tooLarge h.length.toNat c.ceiling))), r)) := by
  intro items r all
  obtain ⟨ws, used, hp, hf, k, hk, hover⟩ := calls_passed n { codec := c, reads }
  have hall : all = ws.map RawFrame.entry ++ r.pending := hp.pending
  refine ⟨⟨ws, used, k, hp, hall, hf, hk, hover⟩, fun earlier f he => ?_, fun earlier i he => ?_,
    fun hn => ?_, fun h rest hb hc => ?_⟩
  · -- the last frame taken is the one given; those before it were taken in the calls before
    obtain ⟨m, rfl, hi, hr⟩ := calls_last he
    obtain ⟨ws, used, hp, hf, -⟩ := calls_passed m { codec := c, reads }
    obtain ⟨us, used', hq, ht, -⟩ := next_passed (calls m { codec := c, reads }).2
    rw [← hi] at ht
    rw [← hr] at hq
    obtain ⟨us, w, rfl, hu, hw⟩ := ht
    have hthrough := hp.trans hq
    have hentries : (ws ++ (us ++ [w])).map RawFrame.entry =
        (ws ++ us).map RawFrame.entry ++ [.ok f] := by
      rw [← List.append_assoc, List.map_append, List.map_singleton, hw]
    have hpending : all = _ ++ r.pending := hthrough.pending
    have hmalformed : r.malformed = 0 + _ := hthrough.malformed
    rw [hentries] at hpending hmalformed
    refine ⟨(ws ++ us).map RawFrame.entry, ?_, ?_, ?_⟩
    · rw [hpending, List.append_assoc]
      rfl
    · rw [List.map_append, Entry.frames_append, hu, hf, List.append_nil]
    · rw [hmalformed, Entry.refused_append, Entry.refused_ok, Entry.refused_nil, Nat.zero_add,
        Nat.add_zero]
  · obtain ⟨m, rfl, rfl, hr⟩ := calls_last he
    obtain ⟨-, -, -, -, -, hl⟩ := next_passed (calls m { codec := c, reads }).2
    rw [← hr] at hl
    exact hl
  · have hnone : Entry.frames r.pending = [] := by
      obtain h | h := calls_progress n { codec := c, reads }
      · exact h
      · apply List.eq_nil_of_length_eq_zero
        change (Entry.frames r.pending).length + (ReadEvent.signals r.reads).length + n ≤
          (Entry.frames all).length + (ReadEvent.signals reads).length at h
        omega
    have hframes : Item.frames items = Entry.frames (ws.map RawFrame.entry) := hf
    rw [hframes, hall, Entry.frames_append, hnone, List.append_nil]
  · have hcodec : r.codec = c := hp.codec
    have hd : r.codec.decode r.buffer = .error (.tooLarge h.length.toNat c.ceiling) := by
      rw [hcodec, hb]
      exact Codec.decode_eq_error.2 ⟨h, rest, rfl, hc, rfl⟩
    exact calls_of_error hd

end Receiver

end CameraChannel
