import CameraChannel.Proofs.Command.Evaluation
import CameraChannel.Proofs.Stream.Receiving
import CameraChannel.Stream.Listener

/-!
What a listener hears of connections that are served one after another. Main statement: of each one
it reports the frames of the bytes that came before its first end or failure, and whatever they were
the next one is served.
-/
namespace CameraChannel

open ReadEvent (pieces)

/-- The bytes before the first end, failure or silence. -/
def Piece.heard (ps : List Piece) : Bytes := Piece.bytes (ps.takeWhile fun p => p.byte?.isSome)

@[simp] theorem Piece.heard_data (bs : Bytes) (ps : List Piece) :
    heard (bs.map .byte ++ ps) = bs ++ heard ps := by
  induction bs with
  | nil => rfl
  | cons b bs ih => exact congrArg (b :: ·) ih

theorem Piece.signals_signals (ss : List Signal) : signals (ss.map .signal) = ss := by
  induction ss with
  | nil => rfl
  | cons s ss ih => exact congrArg (s :: ·) ih

@[simp] theorem Piece.bytes_signals (ss : List Signal) : bytes (ss.map .signal) = [] := by
  induction ss with
  | nil => rfl
  | cons s ss ih => exact ih

/-- What is heard of a connection. -/
def ReadEvent.heard (es : List ReadEvent) : Bytes := Piece.heard (pieces es)

/-- A connection on which a listener waits without end: it is silent before it ends or fails, and no
header above the ceiling came before that. -/
def Codec.WaitsOn (c : Codec) (buffer : Bytes) (ps : List Piece) : Prop :=
  (Piece.signals ps).head? = some .silent ∧
    c.decode (c.run (buffer ++ Piece.heard ps)).2 = .ok none

namespace Codec

variable {c : Codec} {buffer buffer' bs : Bytes} {ws : List RawFrame} {ps : List Piece}

/-- The frames of what is held and of what is heard behind it. -/
def heardFrames (c : Codec) (buffer : Bytes) (ps : List Piece) : List Frame :=
  Entry.frames (Batch.entriesWithin c.ceiling (buffer ++ Piece.heard ps))

theorem heardFrames_quiet (h : Piece.heard ps = [])
    (hb : Batch.entriesWithin c.ceiling buffer = []) : c.heardFrames buffer ps = [] := by
  rw [heardFrames, h, List.append_nil, hb]
  rfl

/-- Frames taken off the front of what is held and heard leave the others and the waiting to what is
behind them. -/
theorem heard_passed (hw : ∀ w ∈ ws, w.Fits c.ceiling)
    (hk : buffer ++ bs = RawFrame.wire ws ++ buffer') (ps : List Piece) :
    c.heardFrames buffer (bs.map .byte ++ ps) =
      Entry.frames (ws.map RawFrame.entry) ++ c.heardFrames buffer' ps ∧
    (c.WaitsOn buffer (bs.map .byte ++ ps) ↔ c.WaitsOn buffer' ps) := by
  have hahead : buffer ++ Piece.heard (bs.map .byte ++ ps) =
      RawFrame.wire ws ++ (buffer' ++ Piece.heard ps) := by
    rw [Piece.heard_data, ← List.append_assoc, hk, List.append_assoc]
  constructor
  · rw [heardFrames, hahead, Batch.entriesWithin_wire hw, Entry.frames_append, heardFrames]
  · rw [WaitsOn, WaitsOn, hahead, run_wire hw, Piece.signals_append, Piece.signals_data,
      List.nil_append]

/-- Nothing that is heard makes a header above the ceiling another. -/
theorem heard_error {e : FrameError} (h : c.decode buffer = .error e) (ps : List Piece) :
    c.heardFrames buffer ps = [] ∧ ¬c.WaitsOn buffer ps := by
  constructor
  · rw [heardFrames, entriesWithin_of_error h]
    rfl
  · rintro ⟨-, hwait⟩
    have hstuck := decode_append_error h (Piece.heard ps)
    rw [run_error hstuck, hstuck] at hwait
    cases hwait

end Codec

namespace Receiver

/-- No byte is read in one call behind an end or a failure. -/
theorem next_reads (r : Receiver) : ∃ (bs : Bytes) (ss : List Signal),
    pieces r.reads = bs.map .byte ++ (ss.map .signal ++ pieces r.next.2.reads) := by
  fun_induction next r with
  | case1 => exact ⟨[], [], rfl⟩
  | case2 => exact ⟨[], [], rfl⟩
  | case3 r d r₁ hs f reads hr => exact ⟨[], [_], readSome_failed hr⟩
  | case4 r d r₁ hs reads hr => exact ⟨[], [], (readSome_unfinished hr).1⟩
  | case5 r d r₁ hs bs a reads hr hb =>
    obtain rfl := List.isEmpty_iff.1 hb
    rw [atEnd_reads]
    obtain h | ⟨h, rfl⟩ := readSome_end hr
    · exact ⟨[], [_], h⟩
    · exact ⟨[], [], h⟩
  | case6 r d r₁ hs bs a reads hr hb ih =>
    obtain ⟨more, ss, ih⟩ := ih
    have hne : bs ≠ [] := by simpa using hb
    refine ⟨bs ++ more, ss, ?_⟩
    rw [readSome_data hr hne, List.map_append, List.append_assoc]
    exact congrArg _ ih

/-- What was heard before one call is its frame and what is heard behind it: the end or failure that
it met, if any, and all that is not read. -/
theorem next_heard (r : Receiver) : ∃ ss : List Signal,
    r.codec.heardFrames r.buffer (pieces r.reads) = r.next.1.frame?.toList ++
      r.codec.heardFrames r.next.2.buffer (ss.map .signal ++ pieces r.next.2.reads) ∧
    (r.codec.WaitsOn r.buffer (pieces r.reads) ↔
      r.codec.WaitsOn r.next.2.buffer (ss.map .signal ++ pieces r.next.2.reads)) ∧
    (ss = r.next.1.signal?.toList ∨
      ss = [] ∧ r.next.1.signal? = some .ended ∧ r.next.2.reads = []) ∧
    r.next.2.codec = r.codec ∧ r.next.1.Leaves r.next.2 := by
  obtain ⟨ws, used, hp, ht, hm, hl⟩ := next_passed r
  obtain ⟨bs, ss, hr⟩ := next_reads r
  have hused : used = bs.map .byte ++ ss.map .signal := by
    have hread := hp.read
    rw [hr, ← List.append_assoc] at hread
    exact (List.append_cancel_right hread).symm
  have hss : Piece.signals used = ss := by
    rw [hused, Piece.signals_append, Piece.signals_data, List.nil_append, Piece.signals_signals]
  have hkept : r.buffer ++ bs = RawFrame.wire ws ++ r.next.2.buffer := by
    have := hp.kept
    rwa [hused, Piece.bytes_append, Piece.bytes_data, Piece.bytes_signals, List.append_nil] at this
  rw [Item.Reports, hss] at hm
  obtain ⟨hframes, hwaits⟩ := Codec.heard_passed hp.fits hkept
    (ss.map .signal ++ pieces r.next.2.reads)
  rw [← hr] at hframes hwaits
  exact ⟨ss, by rw [hframes, ht.frames], hwaits, hm, hp.codec, hl⟩

variable {r : Receiver}

/-- A call that gives a frame leaves what was heard behind it. -/
theorem next_frame_heard {f : Frame} (h : r.next.1 = .frame f) :
    r.codec.heardFrames r.buffer (pieces r.reads) =
      f :: r.next.2.codec.heardFrames r.next.2.buffer (pieces r.next.2.reads) ∧
    (r.codec.WaitsOn r.buffer (pieces r.reads) ↔
      r.next.2.codec.WaitsOn r.next.2.buffer (pieces r.next.2.reads)) := by
  obtain ⟨ss, hframes, hwaits, hm, hcodec, -⟩ := next_heard r
  rw [h] at hframes hm
  have hss : ss = [] := by
    obtain hm | ⟨hm, -⟩ := hm <;> exact hm
  subst hss
  rw [hcodec]
  exact ⟨hframes, hwaits⟩

theorem Item.signal?_ne_silent {i : Item} {s : Signal} (h : i.signal? = some s) : s ≠ .silent := by
  rintro rfl
  cases i with
  | frame f => cases h
  | finished => cases h
  | failed e => cases e <;> cases h
  | waiting => cases h

/-- A call that gives no frame shows that there is none in what was heard; it waits only where the
connection does. -/
theorem next_stop_heard (h : r.next.1.frame? = none) :
    r.codec.heardFrames r.buffer (pieces r.reads) = [] ∧
    (r.codec.WaitsOn r.buffer (pieces r.reads) ↔ r.next.1 = .waiting) := by
  obtain ⟨ss, hframes, hwaits, hm, hcodec, hl⟩ := next_heard r
  have hheld := hl.held h
  rw [hcodec] at hheld
  rw [hframes, hwaits, h, Option.toList_none, List.nil_append]
  cases hsig : r.next.1.signal? with
  | some s =>
    have hs : s ≠ .silent := Item.signal?_ne_silent hsig
    have hwait : r.next.1 ≠ .waiting := by
      intro e
      rw [e] at hsig
      cases hsig
    rw [hsig] at hm
    obtain rfl | ⟨rfl, -, hover⟩ := hm
    · exact ⟨Codec.heardFrames_quiet rfl hheld,
        iff_of_false (fun hw => hs (Option.some.inj hw.1)) hwait⟩
    · rw [hover]
      exact ⟨Codec.heardFrames_quiet rfl hheld, iff_of_false (fun hw => by cases hw.1) hwait⟩
  | none =>
    have hss : ss = [] := by
      obtain rfl | ⟨rfl, -⟩ := hm
      · rw [hsig]
        rfl
      · rfl
    subst hss
    cases hi : r.next.1 with
    | frame f => rw [hi] at h; cases h
    | finished => rw [hi] at hsig; cases hsig
    | failed e =>
      cases e with
      | io reason => rw [hi] at hsig; cases hsig
      | truncated n => rw [hi] at hsig; cases hsig
      | protocol e =>
        rw [hi] at hl
        have hd : r.codec.decode r.next.2.buffer = .error e := hcodec ▸ hl
        obtain ⟨hnone, hwait⟩ := Codec.heard_error hd (pieces r.next.2.reads)
        exact ⟨hnone, iff_of_false hwait (by simp)⟩
    | waiting =>
      rw [hi] at hl
      obtain ⟨hd, later, hr⟩ := hl
      rw [hcodec] at hd
      rw [hr]
      refine ⟨Codec.heardFrames_quiet rfl hheld, iff_of_true ⟨rfl, ?_⟩ rfl⟩
      have hquiet : Piece.heard (pieces (.never :: later)) = [] := rfl
      rw [List.map_nil, List.nil_append, hquiet, List.append_nil, Codec.run_none hd, hd]

/-- The frames of a receiver are those of what it holds and of what is heard, and it ends by itself
unless the connection waits. -/
theorem frames_heard (r : Receiver) :
    r.frames.1 = r.codec.heardFrames r.buffer (pieces r.reads) ∧
    (r.frames.2 = true ↔ r.codec.WaitsOn r.buffer (pieces r.reads)) := by
  fun_induction frames r with
  | case1 r f r' h fs silent hlater ih =>
    have hf : r.next.1 = .frame f := congrArg Prod.fst h
    have hr : r.next.2 = r' := congrArg Prod.snd h
    obtain ⟨hframes, hwait⟩ := next_frame_heard hf
    rw [hr] at hframes hwait
    rw [hlater] at ih
    rw [hframes, hwait, ← ih.1, ← ih.2]
    exact ⟨rfl, Iff.rfl⟩
  | case2 r r' h =>
    have hi : r.next.1 = .waiting := congrArg Prod.fst h
    obtain ⟨hframes, hwait⟩ := next_stop_heard (r := r) (by rw [hi]; rfl)
    exact ⟨hframes.symm, iff_of_true rfl (hwait.2 hi)⟩
  | case3 r r' h =>
    have hi : r.next.1 = .finished := congrArg Prod.fst h
    obtain ⟨hframes, hwait⟩ := next_stop_heard (r := r) (by rw [hi]; rfl)
    rw [hwait, hi]
    exact ⟨hframes.symm, by simp⟩
  | case4 r e r' h =>
    have hi : r.next.1 = .failed e := congrArg Prod.fst h
    obtain ⟨hframes, hwait⟩ := next_stop_heard (r := r) (by rw [hi]; rfl)
    rw [hwait, hi]
    exact ⟨hframes.symm, by simp⟩

end Receiver

namespace Listener

variable {l : Listener} {peer : String} {reads : List ReadEvent}

/-- The frames of what is heard of a connection, up to the first header above the ceiling. -/
def heardFrames (l : Listener) (reads : List ReadEvent) : List Frame :=
  Entry.frames (Batch.entriesWithin l.codec.ceiling (ReadEvent.heard reads))

/-- A connection comes to its end for the listener: its reads end or fail before they stay silent,
or a header above the ceiling came before that. -/
def Over (l : Listener) (reads : List ReadEvent) : Prop :=
  (ReadEvent.signals reads).head? ≠ some .silent ∨
    ∃ e, l.codec.decode (l.codec.run (ReadEvent.heard reads)).2 = .error e

theorem waitsOn_iff : l.codec.WaitsOn [] (pieces reads) ↔ ¬l.Over reads := by
  obtain ⟨-, -, -, -, hstop⟩ := l.codec.run_taken (ReadEvent.heard reads)
  constructor
  · rintro ⟨hsilent, hwait⟩ (h | ⟨e, he⟩)
    · exact h hsilent
    · cases hwait.symm.trans he
  · intro h
    refine ⟨Classical.byContradiction fun hs => h (.inl hs), ?_⟩
    obtain hwait | herror := hstop
    · exact hwait
    · exact absurd (.inr herror) h

theorem run_over (h : l.Over reads) (rest : List Arrival) :
    l.run (.connection peer reads :: rest) =
      ((peer, l.heardFrames reads) :: (l.run rest).1, (l.run rest).2) := by
  obtain ⟨hframes, hwait⟩ := Receiver.frames_heard { codec := l.codec, reads }
  rw [waitsOn_iff] at hwait
  rw [run]
  split
  · next fs hfs =>
    rw [hfs] at hwait
    exact absurd h (hwait.1 rfl)
  · next fs hfs =>
    rw [hfs] at hframes
    have hfs' : fs = l.heardFrames reads := hframes
    rw [hfs']

theorem run_waiting (h : ¬l.Over reads) (rest : List Arrival) :
    l.run (.connection peer reads :: rest) = ([(peer, l.heardFrames reads)], none) := by
  obtain ⟨hframes, hwait⟩ := Receiver.frames_heard { codec := l.codec, reads }
  rw [waitsOn_iff] at hwait
  rw [run]
  split
  · next fs hfs =>
    rw [hfs] at hframes
    have hfs' : fs = l.heardFrames reads := hframes
    rw [hfs']
  · next fs hfs =>
    rw [hfs] at hwait
    cases hwait.2 h

/-- Connections that come to their end, by themselves, by a failure or by a header above the
ceiling, are served one after another: each gives the frames of its own bytes, and then the listener
goes on as if it had not been there. Only a cancellation, a failing accept or a connection without
an end stops it. -/
theorem run_isolated (l : Listener) (conns : List (String × List ReadEvent)) (rest : List Arrival)
    (hover : ∀ c ∈ conns, l.Over c.2) :
    l.run (conns.map (fun c => .connection c.1 c.2) ++ rest) =
      (conns.map (fun c => (c.1, l.heardFrames c.2)) ++ (l.run rest).1, (l.run rest).2) ∧
    l.run [] = ([], none) ∧
    (∀ later, l.run (.cancelled :: later) = ([], none)) ∧
    (∀ reason later, l.run (.acceptFailed reason :: later) = ([], some reason)) ∧
    ∀ peer reads later, ¬l.Over reads →
      l.run (.connection peer reads :: later) = ([(peer, l.heardFrames reads)], none) := by
  refine ⟨?_, rfl, fun _ => rfl, fun _ _ => rfl, fun _ _ later h => run_waiting h later⟩
  induction conns with
  | nil => rfl
  | cons c conns ih =>
    rw [List.map_cons, List.cons_append, run_over (hover c (by simp)),
      ih fun x hx => hover x (by simp [hx])]
    rfl

/-- A payload in a frame of its own. -/
def packed (text : String) : Bytes :=
  { length := UInt32.ofNat (Utf8.ofString text).length : Header }.toBytes ++ Utf8.ofString text

/-- A peer whose first frame is no command and whose last one is cut off, one that announces too
much and stays silent, one that fails, and one that sends a command in two pieces. -/
def troubled : List (String × List ReadEvent) :=
  [("a", [.data (packed "[]" ++ packed "\x7b\"code\":3\x7d" ++ [1, 2]), .finish]),
    ("b", [.data { length := 65 : Header }.toBytes, .never]),
    ("c", [.failure { reason := "reset" }]),
    ("d", [.data ((packed "\x7b\"code\":4\x7d").take 20), .delay 5,
      .data ((packed "\x7b\"code\":4\x7d").drop 20)])]

/-- A listener that takes payloads of 64 bytes at most. -/
def small : Listener := { codec := { ceiling := 64 } }

theorem run_isolated_troubled :
    (∀ c ∈ troubled, small.Over c.2) ∧
    small.run (troubled.map (fun c => .connection c.1 c.2) ++ [.cancelled]) =
      ([("a", [⟨{ length := 10 }, { code := 3 }⟩]), ("b", []), ("c", []),
        ("d", [⟨{ length := 10 }, { code := 4 }⟩])], none) := by
  have hover : ∀ c ∈ troubled, small.Over c.2 := by
    intro c hc
    simp only [troubled, List.mem_cons, List.not_mem_nil, or_false] at hc
    obtain rfl | rfl | rfl | rfl := hc
    · have hs : (ReadEvent.signals troubled[0].2).head? ≠ some .silent := by decide +kernel
      exact .inl hs
    · have hrefused : (small.codec.decode
          (small.codec.run (ReadEvent.heard troubled[1].2)).2).isOk = false := by decide +kernel
      cases he : small.codec.decode (small.codec.run (ReadEvent.heard troubled[1].2)).2 with
      | error e => exact .inr ⟨e, he⟩
      | ok v =>
        rw [he] at hrefused
        cases hrefused
    · exact .inl fun h => by cases h
    · have hs : (ReadEvent.signals troubled[3].2).head? ≠ some .silent := by decide +kernel
      exact .inl hs
  have hheard : troubled.map (fun c => (c.1, small.heardFrames c.2)) =
      [("a", [⟨{ length := 10 }, { code := 3 }⟩]), ("b", []), ("c", []),
        ("d", [⟨{ length := 10 }, { code := 4 }⟩])] := by
    have ha : small.heardFrames troubled[0].2 = [⟨{ length := 10 }, { code := 3 }⟩] :=
      Frame.eq_of_sameAll (by decide +kernel)
    have hb : small.heardFrames troubled[1].2 = [] := Frame.eq_of_sameAll (by decide +kernel)
    have hc : small.heardFrames troubled[2].2 = [] := Frame.eq_of_sameAll (by decide +kernel)
    have hd : small.heardFrames troubled[3].2 = [⟨{ length := 10 }, { code := 4 }⟩] :=
      Frame.eq_of_sameAll (by decide +kernel)
    change [("a", small.heardFrames troubled[0].2), ("b", small.heardFrames troubled[1].2),
      ("c", small.heardFrames troubled[2].2), ("d", small.heardFrames troubled[3].2)] = _
    rw [ha, hb, hc, hd]
  obtain ⟨hrun, -⟩ := run_isolated small troubled [.cancelled] hover
  rw [hheard] at hrun
  exact ⟨hover, hrun⟩

end Listener

end CameraChannel
