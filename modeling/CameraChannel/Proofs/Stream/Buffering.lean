import CameraChannel.Proofs.Stream.Receiving

/-!
What a receiver holds while it works. A call is gone through step by step: it decodes, reads when
nothing can be decoded, and answers. Main statement: over any steps of any calls the buffer holds at
most one unfinished frame and what one read appends to it.
-/
namespace CameraChannel

/-- Less than a frame within the ceiling: where there is a header, it announces no more than the
ceiling and more than is there. -/
structure Codec.Unfinished (c : Codec) (buffer : Bytes) : Prop where
  short : buffer.length ≤ c.ceiling + 17
  header : ∀ (h : Header) (rest : Bytes), buffer = h.toBytes ++ rest →
    h.length.toNat ≤ c.ceiling ∧ rest.length < h.length.toNat

theorem Codec.unfinished_iff {c : Codec} {buffer : Bytes} :
    c.Unfinished buffer ↔ c.decode buffer = .ok none := by
  rw [decode_eq_none]
  constructor
  · intro h
    by_cases hlen : buffer.length < Header.size
    · exact .inl hlen
    · obtain ⟨hd, rest, hr⟩ := Header.exists_read? (Nat.le_of_not_lt hlen)
      have hb := Header.toBytes_of_read? hr
      exact .inr ⟨hd, rest, hb, h.header hd rest hb⟩
  · rintro (hlen | ⟨hd, rest, rfl, hc, hl⟩)
    · refine ⟨by simp only [Header.size] at hlen; omega, fun h rest hb => ?_⟩
      rw [hb, List.length_append, Header.length_toBytes] at hlen
      omega
    · refine ⟨?_, fun h tail hb => ?_⟩
      · rw [List.length_append, Header.length_toBytes, Header.size]
        omega
      · obtain ⟨rfl, rfl⟩ : hd = h ∧ rest = tail := by
          have hread := Header.read?_toBytes hd rest
          rw [hb, Header.read?_toBytes] at hread
          cases hread
          exact ⟨rfl, rfl⟩
        exact ⟨hc, hl⟩

/-- At the end of the stream an unfinished frame is not given out. -/
theorem Codec.Unfinished.decodeEnd {c : Codec} {buffer : Bytes} (h : c.Unfinished buffer)
    (e : Entry) (rest : Bytes) : c.decodeEnd buffer ≠ .ok (some (e, rest)) := by
  rw [Codec.decodeEnd, unfinished_iff.1 h]
  dsimp only
  split <;> simp

theorem readSome_chunk {a a' : Allowance} {es rest : List ReadEvent} {bs : Bytes}
    (h : readSome a es = (.done bs a', rest)) : bs.length ≤ readChunk := by
  fun_induction readSome a es with
  | case1 => cases h; exact Nat.zero_le _
  | case2 a ds es => cases h; exact List.length_take_le _ _
  | case3 => cases h; exact Nat.zero_le _
  | case4 => cases h
  | case5 a es ms a' hs ih => exact ih h
  | case6 => cases h
  | case7 => cases h

namespace Receiver

/-- What a call is about to do; when it has answered, the next one begins. -/
inductive Stage where
  | decoding
  | reading
  | ending
  | answered (i : Item)

/-- A receiver at some stage of a call. -/
structure Turn where
  stage : Stage
  receiver : Receiver

namespace Turn

def answer? (t : Turn) : Option Item :=
  match t.stage with
  | .answered i => some i
  | _ => none

/-- One step: an entry is decoded, or some bytes are read, or the stream is at its end. -/
def advance : Turn → Turn
  | ⟨.decoding, r⟩ =>
    match r.codec.decode r.buffer with
    | .error e => ⟨.answered (.failed (.protocol e)), r⟩
    | .ok none => ⟨.reading, r⟩
    | .ok (some (.ok f, rest)) => ⟨.answered (.frame f), { r with buffer := rest }⟩
    | .ok (some (.error _, rest)) =>
      ⟨.decoding, { r with buffer := rest, malformed := r.malformed + 1 }⟩
  | ⟨.reading, r⟩ =>
    match readSome none r.reads with
    | (.failed f, reads) => ⟨.answered (.failed (.io f.reason)), { r with reads }⟩
    | (.unfinished, reads) => ⟨.answered .waiting, { r with reads }⟩
    | (.done bs _, reads) =>
      if bs.isEmpty then ⟨.ending, { r with reads }⟩
      else ⟨.decoding, { r with reads, buffer := r.buffer ++ bs }⟩
  | ⟨.ending, r⟩ => ⟨.answered r.atEnd.1, r.atEnd.2⟩
  | ⟨.answered _, r⟩ => ⟨.decoding, r⟩

/-- The answers of some steps, and where they lead. -/
def steps : Nat → Turn → List Item × Turn
  | 0, t => ([], t)
  | n + 1, t =>
    let later := steps n t.advance
    (t.answer?.toList ++ later.1, later.2)

/-- Some steps lead from one turn to another with these answers on the way. -/
def Reaches (t : Turn) (items : List Item) (t' : Turn) : Prop := ∃ n, steps n t = (items, t')

variable {t t' t'' : Turn} {items items' : List Item}

theorem Reaches.refl (t : Turn) : t.Reaches [] t := ⟨0, rfl⟩

theorem Reaches.step (h : t.advance.Reaches items t') :
    t.Reaches (t.answer?.toList ++ items) t' := by
  obtain ⟨n, hn⟩ := h
  exact ⟨n + 1, by rw [steps, hn]⟩

theorem Reaches.of_advance (quiet : t.answer? = none) (h : t.advance = t') : t.Reaches [] t' := by
  subst h
  have hs := (Reaches.refl t.advance).step
  rwa [quiet] at hs

theorem Reaches.trans (h : t.Reaches items t') (h' : t'.Reaches items' t'') :
    t.Reaches (items ++ items') t'' := by
  obtain ⟨n, hn⟩ := h
  induction n generalizing t items with
  | zero =>
    cases hn
    exact h'
  | succ n ih =>
    cases hn
    rw [List.append_assoc]
    exact (ih rfl).step

end Turn

/-- The stage that a drain leads to. -/
def Stop.stage : Stop → Stage
  | .frame f => .answered (.frame f)
  | .oversized e => .answered (.failed (.protocol e))
  | .wanting => .reading

open Turn (Reaches)

theorem drain_reaches (r : Receiver) :
    Reaches ⟨.decoding, r⟩ [] ⟨(drain r.codec r.buffer).stop.stage, r.drained⟩ := by
  obtain ⟨c, reads, buffer, malformed⟩ := r
  simp only [drained]
  fun_induction drain c buffer generalizing malformed with
  | case1 buffer e h => exact .of_advance rfl (by simp [Turn.advance, h, Stop.stage])
  | case2 buffer h => exact .of_advance rfl (by simp [Turn.advance, h, Stop.stage])
  | case3 buffer f rest h => exact .of_advance rfl (by simp [Turn.advance, h, Stop.stage])
  | case4 buffer e rest h d ih =>
    have skipped : Turn.advance ⟨.decoding, ⟨c, reads, buffer, malformed⟩⟩ =
        ⟨.decoding, ⟨c, reads, rest, malformed + 1⟩⟩ := by simp [Turn.advance, h]
    have later := ih (malformed + 1)
    rw [← skipped, Nat.add_assoc, Nat.add_comm 1] at later
    exact later.step

theorem reading_reaches {r : Receiver} (h : (drain r.codec r.buffer).stop = .wanting) :
    Reaches ⟨.decoding, r⟩ [] ⟨.reading, r.drained⟩ := by
  have hd := drain_reaches r
  rwa [h] at hd

theorem next_reaches (r : Receiver) : Reaches ⟨.decoding, r⟩ [] ⟨.answered r.next.1, r.next.2⟩ := by
  fun_induction next r with
  | case1 r d r₁ f hs =>
    have hd := drain_reaches r
    rwa [show (drain r.codec r.buffer).stop = .frame f from hs] at hd
  | case2 r d r₁ e hs =>
    have hd := drain_reaches r
    rwa [show (drain r.codec r.buffer).stop = .oversized e from hs] at hd
  | case3 r d r₁ hs f reads hr =>
    exact (reading_reaches hs).trans (.of_advance rfl (by
      rw [Turn.advance, show readSome none r.drained.reads = _ from hr]; rfl))
  | case4 r d r₁ hs reads hr =>
    exact (reading_reaches hs).trans (.of_advance rfl (by
      rw [Turn.advance, show readSome none r.drained.reads = _ from hr]; rfl))
  | case5 r d r₁ hs bs a reads hr hb =>
    have hread : Turn.advance ⟨.reading, r.drained⟩ = ⟨.ending, { r.drained with reads }⟩ := by
      rw [Turn.advance, show readSome none r.drained.reads = _ from hr]
      exact if_pos hb
    exact ((reading_reaches hs).trans (.of_advance rfl hread)).trans (.of_advance rfl rfl)
  | case6 r d r₁ hs bs a reads hr hb ih =>
    have hread : Turn.advance ⟨.reading, r.drained⟩ =
        ⟨.decoding, { r.drained with reads, buffer := r.drained.buffer ++ bs }⟩ := by
      rw [Turn.advance, show readSome none r.drained.reads = _ from hr]
      exact if_neg hb
    exact ((reading_reaches hs).trans (.of_advance rfl hread)).trans ih

/-- Calls are runs of steps that end with an answer. -/
theorem calls_reaches (k : Nat) (r : Receiver) :
    Reaches ⟨.decoding, r⟩ (calls k r).1 ⟨.decoding, (calls k r).2⟩ := by
  induction k generalizing r with
  | zero => exact .refl _
  | succ k ih =>
    have hlater : Reaches ⟨.answered r.next.1, r.next.2⟩ (calls (k + 1) r).1 _ :=
      Reaches.step (ih r.next.2)
    exact (next_reaches r).trans hlater

/-- What holds of the buffer at every stage; a read or an end of the stream meets an unfinished
frame. -/
structure Turn.Bounded (c : Codec) (t : Turn) : Prop where
  codec : t.receiver.codec = c
  held : t.receiver.buffer.length ≤ c.ceiling + 17 + readChunk
  unfinished : t.stage = .reading ∨ t.stage = .ending → c.Unfinished t.receiver.buffer

theorem Turn.Bounded.advance {c : Codec} {t : Turn} (h : t.Bounded c) : t.advance.Bounded c := by
  obtain ⟨stage, r⟩ := t
  obtain ⟨rfl, held, unfinished⟩ := h
  change r.buffer.length ≤ r.codec.ceiling + 17 + readChunk at held
  cases stage with
  | decoding =>
    rw [Turn.advance]
    split
    · exact ⟨rfl, held, by simp⟩
    · next hd => exact ⟨rfl, held, fun _ => Codec.unfinished_iff.2 hd⟩
    · next hd => exact ⟨rfl, Nat.le_trans (Nat.le_of_lt (Codec.decode_shorter hd)) held, by simp⟩
    · next hd => exact ⟨rfl, Nat.le_trans (Nat.le_of_lt (Codec.decode_shorter hd)) held, by simp⟩
  | reading =>
    have hu := unfinished (.inl rfl)
    rw [Turn.advance]
    split
    · exact ⟨rfl, held, by simp⟩
    · exact ⟨rfl, held, by simp⟩
    · next bs a reads hr =>
      split
      · exact ⟨rfl, held, fun _ => hu⟩
      · refine ⟨rfl, ?_, by simp⟩
        have hchunk := readSome_chunk hr
        have hshort : r.buffer.length ≤ r.codec.ceiling + 17 := hu.short
        simp only [List.length_append]
        omega
  | ending =>
    have hu := unfinished (.inr rfl)
    obtain ⟨i, hend, -⟩ := atEnd_drained (show Entry.frames ([].map RawFrame.entry) = [] from rfl)
      (Codec.unfinished_iff.1 hu)
    rw [Turn.advance, hend]
    exact ⟨rfl, held, by simp⟩
  | answered i => exact ⟨rfl, held, by simp [Turn.advance]⟩

theorem Turn.Bounded.steps {c : Codec} {t : Turn} (h : t.Bounded c) (n : Nat) :
    (Turn.steps n t).2.Bounded c := by
  induction n generalizing t with
  | zero => exact h
  | succ n ih => exact ih h.advance

/-- At any step of any calls on a new receiver the buffer holds no more than the ceiling, 17 bytes
and one read of 4096. Whenever it reads, and whenever the stream is at its end, it holds an
unfinished frame of at most the ceiling and 17 bytes, so no frame is given out there. The calls are
runs of these steps. -/
theorem buffer_bounded (c : Codec) (reads : List ReadEvent) :
    let r : Receiver := { codec := c, reads }
    (∀ n, let t := (Turn.steps n ⟨.decoding, r⟩).2
      t.receiver.codec = c ∧ t.receiver.buffer.length ≤ c.ceiling + 17 + 4096 ∧
      (t.stage = .reading → c.Unfinished t.receiver.buffer) ∧
      (t.stage = .ending → c.Unfinished t.receiver.buffer ∧
        ∀ e rest, c.decodeEnd t.receiver.buffer ≠ .ok (some (e, rest)))) ∧
    ∀ k, ∃ n, Turn.steps n ⟨.decoding, r⟩ = ((calls k r).1, ⟨.decoding, (calls k r).2⟩) := by
  intro r
  have start : Turn.Bounded c ⟨.decoding, r⟩ := ⟨rfl, Nat.zero_le _, by simp⟩
  refine ⟨fun n => ?_, fun k => calls_reaches k r⟩
  obtain ⟨codec, held, unfinished⟩ := start.steps n
  exact ⟨codec, held, fun h => unfinished (.inl h),
    fun h => ⟨unfinished (.inr h), fun e rest => (unfinished (.inr h)).decodeEnd e rest⟩⟩

end Receiver

end CameraChannel
