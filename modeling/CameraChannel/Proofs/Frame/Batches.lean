import CameraChannel.Frame.Batch
import CameraChannel.Proofs.Frame.Decoding

/-!
Runs of whole frames on the wire, and what is decoded of them: all at once, or step by step under a
ceiling. The steps give the entries of the batch up to the first that announces more than the
ceiling.
-/
namespace CameraChannel

namespace Entry

/-- The payload length that the frame of an entry announces. -/
def announced : Entry → Nat
  | .ok f => f.header.length.toNat
  | .error (.malformed _ n) => n - Header.size
  | .error _ => 0

/-- The frames that were read. -/
def frames (es : List Entry) : List Frame := es.filterMap Except.toOption

/-- How many payloads were refused. -/
def refused (es : List Entry) : Nat := es.countP fun e => e.toOption.isNone

@[simp] theorem frames_nil : frames [] = [] := rfl

@[simp] theorem frames_ok (f : Frame) (es : List Entry) :
    frames (.ok f :: es) = f :: frames es := rfl

@[simp] theorem frames_error (e : FrameError) (es : List Entry) :
    frames (.error e :: es) = frames es := rfl

@[simp] theorem frames_append (es es' : List Entry) :
    frames (es ++ es') = frames es ++ frames es' :=
  List.filterMap_append

@[simp] theorem refused_nil : refused [] = 0 := rfl

@[simp] theorem refused_ok (f : Frame) (es : List Entry) : refused (.ok f :: es) = refused es :=
  List.countP_cons_of_neg (by simp [Except.toOption])

@[simp] theorem refused_error (e : FrameError) (es : List Entry) :
    refused (.error e :: es) = refused es + 1 :=
  List.countP_cons_of_pos rfl

@[simp] theorem refused_append (es es' : List Entry) :
    refused (es ++ es') = refused es + refused es' :=
  List.countP_append

end Entry

namespace RawFrame

theorem announced_entry (r : RawFrame) : Entry.announced r.entry = r.header.length.toNat := by
  rw [entry, Frame.parsePayload]
  cases Command.parse r.payload with
  | ok c => rfl
  | error e => exact Nat.add_sub_cancel_left Header.size r.header.length.toNat

/-- A complete frame whose payload stays within a ceiling. -/
structure Fits (ceiling : Nat) (r : RawFrame) : Prop where
  sized : r.Sized
  within : r.payload.length ≤ ceiling

/-- Frames one behind another. -/
def wire (ws : List RawFrame) : Bytes := ws.flatMap toBytes

@[simp] theorem wire_nil : wire [] = [] := rfl

@[simp] theorem wire_cons (w : RawFrame) (ws : List RawFrame) :
    wire (w :: ws) = w.toBytes ++ wire ws :=
  rfl

@[simp] theorem wire_append (ws ws' : List RawFrame) : wire (ws ++ ws') = wire ws ++ wire ws' :=
  List.flatMap_append

/-- Whole frames are taken off the front of others in one way only. -/
theorem wire_cancel {c : Codec} {us ws : List RawFrame} {d p : Bytes}
    (hu : ∀ u ∈ us, u.Fits c.ceiling) (hw : ∀ w ∈ ws, w.Fits c.ceiling)
    (hp : c.decode p = .ok none) (h : wire us ++ d = wire ws ++ p) :
    ∃ vs, ws = us ++ vs ∧ d = wire vs ++ p := by
  induction us generalizing ws with
  | nil => exact ⟨ws, rfl, h⟩
  | cons u us ih =>
    have hfit := hu u List.mem_cons_self
    rw [wire_cons, List.append_assoc] at h
    cases ws with
    | nil =>
      have hd := Codec.decode_frame hfit.sized hfit.within (wire us ++ d)
      rw [h, wire_nil, List.nil_append, hp] at hd
      cases hd
    | cons w ws =>
      rw [wire_cons, List.append_assoc] at h
      have hs := Frame.split_frame hfit.sized (wire us ++ d)
      rw [h, Frame.split_frame (hw w List.mem_cons_self).sized] at hs
      obtain ⟨rfl, he⟩ := Prod.mk.inj (Except.ok.inj hs)
      obtain ⟨vs, rfl, hd⟩ := ih (fun v hv => hu v (List.mem_cons_of_mem _ hv))
        (fun v hv => hw v (List.mem_cons_of_mem _ hv)) he.symm
      exact ⟨vs, rfl, hd⟩

end RawFrame

namespace Batch

variable {ceiling : Nat}

theorem decode_frame {r : RawFrame} (hs : r.Sized) (rest : Bytes) :
    decode (r.toBytes ++ rest) = ⟨r.entry :: (decode rest).entries, (decode rest).trailing⟩ := by
  rw [decode]
  split
  · next h => cases (Frame.split_frame hs rest).symm.trans h
  · next h => cases (Frame.split_frame hs rest).symm.trans h; rfl

theorem decode_of_error {d : Bytes} {e : FrameError} (h : Frame.split d = .error e) :
    decode d = ⟨[], d.length⟩ := by
  rw [decode]
  split
  · rfl
  · next h' => cases h.symm.trans h'

theorem decode_wire {ws : List RawFrame} (h : ∀ w ∈ ws, w.Sized) (rest : Bytes) :
    decode (RawFrame.wire ws ++ rest) =
      ⟨ws.map RawFrame.entry ++ (decode rest).entries, (decode rest).trailing⟩ := by
  induction ws with
  | nil => rfl
  | cons w ws ih =>
    rw [RawFrame.wire_cons, List.append_assoc, decode_frame (h w List.mem_cons_self),
      ih fun v hv => h v (List.mem_cons_of_mem _ hv)]
    rfl

/-- The entries of a byte string whose frames announce no more than a ceiling, up to the first that
does. -/
def entriesWithin (ceiling : Nat) (d : Bytes) : List Entry :=
  (decode d).entries.takeWhile fun e => e.announced ≤ ceiling

theorem entriesWithin_frame {r : RawFrame} (h : r.Fits ceiling) (rest : Bytes) :
    entriesWithin ceiling (r.toBytes ++ rest) = r.entry :: entriesWithin ceiling rest := by
  have hs : r.header.length.toNat = r.payload.length := h.sized
  have hc := h.within
  rw [entriesWithin, decode_frame h.sized, List.takeWhile_cons, RawFrame.announced_entry, hs,
    if_pos (decide_eq_true hc)]
  rfl

theorem entriesWithin_of_error {d : Bytes} {e : FrameError} (h : Frame.split d = .error e) :
    entriesWithin ceiling d = [] := by
  rw [entriesWithin, decode_of_error h]
  rfl

theorem entriesWithin_above {h : Header} (hc : ceiling < h.length.toNat) (rest : Bytes) :
    entriesWithin ceiling (h.toBytes ++ rest) = [] := by
  by_cases hl : rest.length < h.length.toNat
  · exact entriesWithin_of_error (Frame.split_short hl)
  · -- the frame is whole, and the first that is left out
    have hlen : (rest.take h.length.toNat).length = h.length.toNat := by
      rw [List.length_take, Nat.min_eq_left (by omega)]
    have hb := decode_frame (r := ⟨h, rest.take h.length.toNat⟩) hlen.symm
      (rest.drop h.length.toNat)
    rw [RawFrame.toBytes, List.append_assoc, List.take_append_drop] at hb
    rw [entriesWithin, hb, List.takeWhile_cons, RawFrame.announced_entry]
    simp [hc]

theorem entriesWithin_wire {ws : List RawFrame} (h : ∀ w ∈ ws, w.Fits ceiling) (rest : Bytes) :
    entriesWithin ceiling (RawFrame.wire ws ++ rest) =
      ws.map RawFrame.entry ++ entriesWithin ceiling rest := by
  induction ws with
  | nil => rfl
  | cons w ws ih =>
    rw [RawFrame.wire_cons, List.append_assoc, entriesWithin_frame (h w List.mem_cons_self),
      ih fun v hv => h v (List.mem_cons_of_mem _ hv)]
    rfl

end Batch

namespace Codec

variable {c : Codec} {d : Bytes}

/-- What is waited on does not start with a frame. -/
theorem split_of_none (h : c.decode d = .ok none) : ∃ e, Frame.split d = .error e := by
  obtain h | ⟨hd, rest, rfl, -, hl⟩ := decode_eq_none.1 h
  · exact ⟨_, Frame.split_headless h⟩
  · exact ⟨_, Frame.split_short hl⟩

theorem entriesWithin_of_none (h : c.decode d = .ok none) :
    Batch.entriesWithin c.ceiling d = [] := by
  obtain ⟨e, he⟩ := split_of_none h
  exact Batch.entriesWithin_of_error he

theorem entriesWithin_of_error {e : FrameError} (h : c.decode d = .error e) (more : Bytes) :
    Batch.entriesWithin c.ceiling (d ++ more) = [] := by
  obtain ⟨hd, rest, rfl, hc, -⟩ := decode_eq_error.1 h
  rw [List.append_assoc]
  exact Batch.entriesWithin_above hc _

theorem run_entries (c : Codec) (d : Bytes) : (c.run d).1 = Batch.entriesWithin c.ceiling d := by
  fun_induction run c d with
  | case1 d e h =>
    have hd := entriesWithin_of_error h []
    rw [List.append_nil] at hd
    exact hd.symm
  | case2 d h => exact (entriesWithin_of_none h).symm
  | case3 d e rest h later ih =>
    obtain ⟨r, hs, hc, rfl, rfl⟩ := frame_of_decode h
    rw [Batch.entriesWithin_frame ⟨hs, hc⟩, ← ih]

/-- Whole frames within the ceiling are decoded first, and then what follows them. -/
theorem run_wire {ws : List RawFrame} (h : ∀ w ∈ ws, w.Fits c.ceiling) (rest : Bytes) :
    c.run (RawFrame.wire ws ++ rest) =
      (ws.map RawFrame.entry ++ (c.run rest).1, (c.run rest).2) := by
  induction ws with
  | nil => rfl
  | cons w ws ih =>
    have hw := h w List.mem_cons_self
    rw [RawFrame.wire_cons, List.append_assoc, run_some (decode_frame hw.sized hw.within _),
      ih fun v hv => h v (List.mem_cons_of_mem _ hv)]
    rfl

/-- What decoding takes off are whole frames, and it stops where no more can be taken off. -/
theorem run_taken (c : Codec) (d : Bytes) :
    ∃ ws : List RawFrame, (∀ w ∈ ws, w.Fits c.ceiling) ∧ d = RawFrame.wire ws ++ (c.run d).2 ∧
      (c.run d).1 = ws.map RawFrame.entry ∧
      (c.decode (c.run d).2 = .ok none ∨ ∃ e, c.decode (c.run d).2 = .error e) := by
  fun_induction run c d with
  | case1 d e h => exact ⟨[], by simp, rfl, rfl, .inr ⟨e, h⟩⟩
  | case2 d h => exact ⟨[], by simp, rfl, rfl, .inl h⟩
  | case3 d e rest h later ih =>
    obtain ⟨w, hs, hc, rfl, rfl⟩ := frame_of_decode h
    obtain ⟨ws, hfit, hd, hitems, hstop⟩ := ih
    refine ⟨w :: ws, ?_, ?_, ?_, hstop⟩
    · intro v hv
      obtain rfl | hv := List.mem_cons.1 hv
      · exact ⟨hs, hc⟩
      · exact hfit v hv
    · rw [RawFrame.wire_cons, List.append_assoc, ← hd]
    · rw [List.map_cons, ← hitems]

/-- The end of the stream tells how much is held of an unfinished frame. -/
theorem decodeEnd_of_none (h : c.decode d = .ok none) :
    c.decodeEnd d = if d.length = 0 then .ok none else .error (.truncated d.length) := by
  rw [decodeEnd, h]
  cases d <;> rfl

/-- Decoding step by step gives the entries of the batch up to the first that announces more than
the ceiling, however the codec was set otherwise. It stops at a header above the ceiling if one
stands in front, and else holds exactly the bytes that trail in the batch. So a higher ceiling only
adds entries behind those of a lower one. -/
theorem run_agrees (c : Codec) (d : Bytes) :
    let items := (c.run d).1
    let rest := (c.run d).2
    let batch := Batch.decode d
    items = batch.entries.takeWhile (fun e => e.announced ≤ c.ceiling) ∧
    (∃ ws : List RawFrame, (∀ w ∈ ws, w.Sized) ∧ d = RawFrame.wire ws ++ rest ∧
      items = ws.map RawFrame.entry) ∧
    (∀ e, c.decode rest = .error e ↔ ∃ h tail, Header.read? rest = some (h, tail) ∧
      c.ceiling < h.length.toNat ∧ e = .tooLarge h.length.toNat c.ceiling) ∧
    ((∀ h tail, Header.read? rest = some (h, tail) → h.length.toNat ≤ c.ceiling) →
      c.decode rest = .ok none ∧ items = batch.entries ∧ rest.length = batch.trailing ∧
      c.decodeEnd rest =
        if batch.trailing = 0 then .ok none else .error (.truncated batch.trailing)) ∧
    ∀ c' : Codec, c.ceiling ≤ c'.ceiling → items <+: (c'.run d).1 := by
  intro items rest batch
  obtain ⟨ws, hfit, hd, hitems, hstop⟩ := run_taken c d
  have herror (e : FrameError) : c.decode rest = .error e ↔ ∃ h tail,
      Header.read? rest = some (h, tail) ∧ c.ceiling < h.length.toNat ∧
        e = .tooLarge h.length.toNat c.ceiling := by
    rw [decode_eq_error]
    constructor
    · rintro ⟨h, tail, hr, hc, he⟩
      exact ⟨h, tail, by rw [hr, Header.read?_toBytes], hc, he⟩
    · rintro ⟨h, tail, hr, hc, he⟩
      exact ⟨h, tail, Header.toBytes_of_read? hr, hc, he⟩
  refine ⟨run_entries c d, ⟨ws, fun w hw => (hfit w hw).sized, hd, hitems⟩, herror,
    fun hbelow => ?_, fun c' hc => ?_⟩
  · have hnone : c.decode rest = .ok none := by
      obtain hnone | ⟨e, he⟩ := hstop
      · exact hnone
      · obtain ⟨h, tail, hr, hc, -⟩ := (herror e).1 he
        exact absurd (hbelow h tail hr) (Nat.not_le_of_lt hc)
    obtain ⟨e, he⟩ := split_of_none hnone
    have hbatch : batch = ⟨items, rest.length⟩ := by
      have hb := Batch.decode_wire (fun w hw => (hfit w hw).sized) rest
      rw [← hd, Batch.decode_of_error he, List.append_nil, ← hitems] at hb
      exact hb
    rw [hbatch]
    exact ⟨hnone, rfl, rfl, decodeEnd_of_none hnone⟩
  · -- the frames taken under the lower ceiling are the first to be taken under the higher one
    have hfit' : ∀ w ∈ ws, w.Fits c'.ceiling := fun w hw =>
      ⟨(hfit w hw).sized, Nat.le_trans (hfit w hw).within hc⟩
    have hrun := congrArg Prod.fst (run_wire hfit' rest)
    rw [← hd] at hrun
    rw [hrun]
    exact ⟨(c'.run rest).1, congrArg (· ++ _) hitems⟩

end Codec

end CameraChannel
