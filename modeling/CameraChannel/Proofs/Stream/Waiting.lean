import CameraChannel.Proofs.Stream.Lasting
import CameraChannel.Proofs.Stream.Timing

/-!
Reading, writing, flushing and shutting down are regular operations, whatever the script says; so
are those that a client puts together from them.
-/
namespace CameraChannel.Timed

variable {s : Stream} {ms : Nat}

section Reading

variable {n : Nat} {bs : Bytes} {e : ReadEvent} {es : List ReadEvent}

theorem prompt_reads (hs : s.reads = e :: es) (he : e.wait? = none) :
    s.prompt.reads = e :: Script.prompt ReadEvent.wait? es := by
  rw [Stream.prompt, hs, Script.prompt_cons he]

theorem delays_reads (hs : s.reads = e :: es) (he : e.wait? = none) :
    s.delays = { s with reads := es }.delays := by
  rw [Stream.delays, hs, Script.delays_cons he, Stream.delays]

theorem reads_delay (hs : s.reads = .delay ms :: es) :
    s.prompt = { s with reads := es }.prompt ∧ s.delays = ms + { s with reads := es }.delays := by
  have hw := ReadEvent.wait?_delay ms
  constructor
  · rw [Stream.prompt, hs, Script.prompt_delay hw, Stream.prompt]
  · rw [Stream.delays, hs, Script.delays_delay hw, Stream.delays]
    dsimp only
    omega

theorem read_zero (a : Allowance) (s : Stream) : s.read 0 a = (.done [] a, s) := by
  rw [Stream.read, readExactly_zero]

theorem read_over (hn : n ≠ 0) (hs : s.reads = []) (a : Allowance) :
    s.read n a = (.failed .ended, s) := by
  rw [Stream.read, hs, readExactly, if_neg hn, ← hs]

theorem read_short (hn : n ≠ 0) (hs : s.reads = .data bs :: es) (hb : bs ≠ [])
    (hle : ¬n ≤ bs.length) (a : Allowance) :
    s.read n a = Stream.andThen ({ s with reads := es }.read (n - bs.length) a)
      fun more a s => (.done (bs ++ more) a, s) := by
  rw [Stream.read, hs, readExactly_data hn hb, if_neg hle, Stream.read]
  cases h : readExactly (n - bs.length) a es with
  | mk r rest => cases r <;> rfl

/-- A read that ends at an event other than a delay. -/
theorem regular_read_event (front : List ReadEvent) (r : Option (Except Failure Bytes))
    (hs : s.reads = e :: es) (he : e.wait? = none) (hf : ∀ x ∈ front, x.wait? = none)
    (h : ∀ a es, readExactly n a (e :: es) = (.of a r, front ++ es)) :
    Regular (fun a s => s.read n a) s := by
  refine ⟨0, r, { s with reads := front ++ es }, .now (fun a => ?_) (fun a => ?_) ?_⟩
  · rw [Stream.read, hs, h]
  · rw [Stream.read, prompt_reads hs he, h, Stream.prompt, Stream.prompt, Script.prompt_append _ hf]
  · rw [Stream.delays, Stream.delays, hs, Script.delays_cons he, Script.delays_append _ hf]

theorem regular_read (n : Nat) (s : Stream) : Regular (fun a s => s.read n a) s := by
  by_cases hn : n = 0
  · subst hn
    exact ⟨0, some (.ok []), s, .now (fun a => read_zero a s) (fun a => read_zero a _) rfl⟩
  induction hs : s.reads generalizing n s with
  | nil =>
    exact ⟨0, some (.error .ended), s, .now (fun a => read_over hn hs a)
      (fun a => read_over hn (by rw [Stream.prompt, hs]; rfl) a) rfl⟩
  | cons e es ih =>
    cases e with
    | data bs =>
      by_cases hb : bs = []
      · exact regular_read_event [] (some (.error .ended)) hs rfl (by simp)
          fun a es => by rw [hb, readExactly, if_neg hn]; rfl
      by_cases hle : n ≤ bs.length
      · -- what the chunk holds besides stays in front, and is no delay
        refine regular_read_event (leftover (bs.drop n) []) (some (.ok (bs.take n))) hs rfl
          (fun x hx => ?_) fun a es => ?_
        · rw [leftover] at hx
          split at hx
          · cases hx
          · obtain rfl := List.mem_singleton.1 hx
            rfl
        · rw [readExactly_data hn hb, if_pos hle, ← ReadEvent.leftover_append, List.nil_append]
          rfl
      · exact .step ((ih (n - bs.length) { s with reads := es } (by omega) rfl).andThen
          fun more => regular_done (bs ++ more)) (read_short hn hs hb hle)
          (read_short hn (prompt_reads hs rfl) hb hle) (delays_reads hs rfl)
    | finish =>
      exact regular_read_event [] (some (.error .ended)) hs rfl (by simp)
        fun a es => by rw [readExactly, if_neg hn]; rfl
    | failure f =>
      by_cases hf : f.kind = .interrupted
      · have again {s : Stream} {es : List ReadEvent} (hs : s.reads = .failure f :: es)
            (a : Allowance) : s.read n a = { s with reads := es }.read n a := by
          rw [Stream.read, hs, readExactly, if_neg hn, Stream.read]
          simp only [if_pos hf]
        exact .step (ih n { s with reads := es } hn rfl) (again hs) (again (prompt_reads hs rfl))
          (delays_reads hs rfl)
      · exact regular_read_event [] (some (.error f)) hs rfl (by simp)
          fun a es => by rw [readExactly, if_neg hn]; exact if_neg hf
    | delay ms =>
      obtain ⟨hprompt, hdelays⟩ := reads_delay hs
      refine .delay ms (ih n { s with reads := es } hn rfl)
        (fun h => ?_) (fun h => ?_) hprompt hdelays
      · rw [Stream.read, hs, readExactly, if_neg hn, Stream.read]
        simp only [h]
      · rw [Stream.read, hs, readExactly, if_neg hn]
        simp only [h]
    | never =>
      exact regular_read_event [.never] none hs rfl (by simp [ReadEvent.wait?])
        fun a es => by rw [readExactly, if_neg hn]; rfl

end Reading

section Writing

variable {bs : Bytes} {e : WriteEvent} {es : List WriteEvent}

theorem prompt_writes (hs : s.writes = e :: es) (he : e.wait? = none) :
    s.prompt.writes = e :: Script.prompt WriteEvent.wait? es := by
  rw [Stream.prompt, hs, Script.prompt_cons he]

theorem delays_writes (hs : s.writes = e :: es) (he : e.wait? = none) :
    s.delays = { s with writes := es }.delays := by
  rw [Stream.delays, hs, Script.delays_cons he, Stream.delays]

theorem writes_delay (hs : s.writes = .delay ms :: es) :
    s.prompt = { s with writes := es }.prompt ∧ s.delays = ms + { s with writes := es }.delays := by
  have hw := WriteEvent.wait?_delay ms
  constructor
  · rw [Stream.prompt, hs, Script.prompt_delay hw, Stream.prompt]
  · rw [Stream.delays, hs, Script.delays_delay hw, Stream.delays]
    dsimp only
    omega

/-- With nothing to write, or no more events, a write is done. -/
theorem write_done (h : bs = [] ∨ s.writes = []) (a : Allowance) :
    s.write bs a = (.done () a, { s with taken := s.taken ++ bs }) := by
  have hw : writeAll bs a s.writes = (.done () a, bs, s.writes) := by
    obtain rfl | hs := h
    · cases s.writes <;> rfl
    · rw [hs]
      rfl
  rw [Stream.write, hw]

/-- A write that fails or stops at an event other than a delay. -/
theorem regular_write_event (front : List WriteEvent) (r : Option (Except Failure Unit))
    (hs : s.writes = e :: es) (he : e.wait? = none) (hf : ∀ x ∈ front, x.wait? = none)
    (h : ∀ a es, writeAll bs a (e :: es) = (.of a r, [], front ++ es)) :
    Regular (fun a s => s.write bs a) s := by
  refine ⟨0, r, { s with writes := front ++ es }, .now (fun a => ?_) (fun a => ?_) ?_⟩
  · simp only [Stream.write, hs, h, List.append_nil]
  · rw [Stream.write, prompt_writes hs he, h, Stream.prompt, Stream.prompt,
      Script.prompt_append _ hf]
    simp only [List.append_nil]
  · rw [Stream.delays, Stream.delays, hs, Script.delays_cons he, Script.delays_append _ hf]

/-- What an event takes of a write is no longer to be written. -/
theorem write_accept {most : Nat} (hb : bs ≠ []) (hm : most ≠ 0)
    (hs : s.writes = .accept most :: es) (a : Allowance) : s.write bs a =
      { s with writes := es, taken := s.taken ++ bs.take most }.write (bs.drop most) a := by
  rw [Stream.write, hs, writeAll, if_neg (by simpa using hb), Stream.write]
  simp only [if_neg hm, List.append_assoc]

theorem regular_write (bs : Bytes) (s : Stream) : Regular (fun a s => s.write bs a) s := by
  induction hs : s.writes generalizing bs s with
  | nil =>
    exact ⟨0, some (.ok ()), _, .now (write_done (.inr hs))
      (write_done (.inr (by rw [Stream.prompt, hs]; rfl))) rfl⟩
  | cons e es ih =>
    by_cases hb : bs = []
    · exact ⟨0, some (.ok ()), _, .now (write_done (.inl hb)) (write_done (.inl hb)) rfl⟩
    have hne : ¬bs.isEmpty := by simpa using hb
    cases e with
    | accept most =>
      by_cases hm : most = 0
      · exact regular_write_event [] (some (.error .tookNothing)) hs rfl (by simp)
          fun a es => by rw [writeAll, if_neg hne]; exact if_pos hm
      · exact .step (ih (bs.drop most)
          { s with writes := es, taken := s.taken ++ bs.take most } rfl)
          (write_accept hb hm hs) (write_accept hb hm (prompt_writes hs rfl)) (delays_writes hs rfl)
    | failure f =>
      by_cases hf : f.kind = .interrupted
      · have again {s : Stream} {es : List WriteEvent} (hs : s.writes = .failure f :: es)
            (a : Allowance) : s.write bs a = { s with writes := es }.write bs a := by
          rw [Stream.write, hs, writeAll, if_neg hne, Stream.write]
          simp only [if_pos hf]
        exact .step (ih bs { s with writes := es } rfl) (again hs) (again (prompt_writes hs rfl))
          (delays_writes hs rfl)
      · exact regular_write_event [] (some (.error f)) hs rfl (by simp)
          fun a es => by rw [writeAll, if_neg hne]; exact if_neg hf
    | delay ms =>
      obtain ⟨hprompt, hdelays⟩ := writes_delay hs
      refine .delay ms (ih bs { s with writes := es } rfl)
        (fun h => ?_) (fun h => ?_) hprompt hdelays
      · rw [Stream.write, hs, writeAll, if_neg hne, Stream.write]
        simp only [h]
      · rw [Stream.write, hs, writeAll, if_neg hne]
        simp only [h]
    | never =>
      exact regular_write_event [.never] none hs rfl (by simp [WriteEvent.wait?])
        fun a es => by rw [writeAll, if_neg hne]; rfl

end Writing

section Asking

variable {k : Control} {e : ControlEvent} {es : List ControlEvent}

/-- Flushing or shutting down. -/
def ask (k : Control) : Timed Unit := fun a s =>
  match k with
  | .flush => s.flush a
  | .shutdown => s.shutdown a

/-- The events for either. -/
def answers (s : Stream) : Control → List ControlEvent
  | .flush => s.flushes
  | .shutdown => s.shutdowns

def withAnswers (s : Stream) (es : List ControlEvent) : Control → Stream
  | .flush => { s with flushes := es }
  | .shutdown => { s with shutdowns := es }

theorem ask_eq (k : Control) (a : Allowance) (s : Stream) :
    ask k a s = ((control a (answers s k)).1,
      { withAnswers s (control a (answers s k)).2 k with
        controls := s.controls ++ [(k, (control a (answers s k)).1.isDone)] }) := by
  cases k <;> rfl

theorem answers_prompt (s : Stream) (k : Control) :
    answers s.prompt k = Script.prompt ControlEvent.wait? (answers s k) := by
  cases k <;> rfl

theorem prompt_withAnswers (s : Stream) (es : List ControlEvent) (k : Control) :
    (withAnswers s es k).prompt =
      withAnswers s.prompt (Script.prompt ControlEvent.wait? es) k := by
  cases k <;> rfl

theorem delays_withAnswers (s : Stream) (es : List ControlEvent) (k : Control) :
    (withAnswers s es k).delays + Script.delays ControlEvent.wait? (answers s k) =
      s.delays + Script.delays ControlEvent.wait? es := by
  cases k <;> simp only [withAnswers, answers, Stream.delays] <;> omega

theorem regular_ask_now (es' : List ControlEvent) (r : Option (Except Failure Unit))
    (h : ∀ a, control a (answers s k) = (.of a r, es'))
    (hp : ∀ a, control a (Script.prompt ControlEvent.wait? (answers s k)) =
      (.of a r, Script.prompt ControlEvent.wait? es'))
    (hd : Script.delays ControlEvent.wait? (answers s k) = Script.delays ControlEvent.wait? es') :
    Regular (ask k) s := by
  refine ⟨0, r, { withAnswers s es' k with
    controls := s.controls ++ [(k, (Ending.of none r).isDone)] },
      .now (fun a => ?_) (fun a => ?_) ?_⟩
  · rw [ask_eq, h, Ending.isDone_of]
  · rw [ask_eq, answers_prompt, hp, Ending.isDone_of, ← prompt_withAnswers]
    rfl
  · have := delays_withAnswers s es' k
    change s.delays = (withAnswers s es' k).delays
    omega

/-- Flushing or shutting down that ends at an event other than a delay. -/
theorem regular_ask_event (front : List ControlEvent) (r : Option (Except Failure Unit))
    (hs : answers s k = e :: es) (he : e.wait? = none) (hf : ∀ x ∈ front, x.wait? = none)
    (h : ∀ a es, control a (e :: es) = (.of a r, front ++ es)) : Regular (ask k) s := by
  refine regular_ask_now (front ++ es) r (fun a => ?_) (fun a => ?_) ?_
  · rw [hs, h]
  · rw [hs, Script.prompt_cons he, h, Script.prompt_append _ hf]
  · rw [hs, Script.delays_cons he, Script.delays_append _ hf]

theorem regular_ask (k : Control) (s : Stream) : Regular (ask k) s := by
  induction hs : answers s k generalizing s with
  | nil =>
    exact regular_ask_now [] (some (.ok ())) (fun a => by rw [hs]; rfl)
      (fun a => by rw [hs]; rfl) (by rw [hs])
  | cons e es ih =>
    cases e with
    | success =>
      exact regular_ask_event [] (some (.ok ())) hs rfl (by simp) fun a es => rfl
    | failure f =>
      exact regular_ask_event [] (some (.error f)) hs rfl (by simp) fun a es => rfl
    | delay ms =>
      have hanswers : answers (withAnswers s es k) k = es := by cases k <;> rfl
      have hd := delays_withAnswers s es k
      rw [hs, Script.delays_delay (ControlEvent.wait?_delay ms)] at hd
      refine .delay ms (ih (withAnswers s es k) hanswers) (fun h => ?_) (fun h => ?_) ?_ (by omega)
      · rw [ask_eq, hs, control, ask_eq, hanswers]
        simp only [h]
        cases k <;> rfl
      · rw [ask_eq, hs, control]
        simp only [h]
      · rw [prompt_withAnswers, ← Script.prompt_delay (ControlEvent.wait?_delay ms), ← hs,
          ← answers_prompt]
        cases k <;> rfl
    | never =>
      exact regular_ask_event [.never] none hs rfl (by simp [ControlEvent.wait?]) fun a es => rfl

end Asking

/-- Writing a frame and flushing. -/
def put (w : Bytes) : Timed Unit := fun a s =>
  Stream.andThen (s.write w a) fun _ a s => s.flush a

/-- Flushing and shutting down. -/
def finish : Timed Unit := fun a s => Stream.andThen (s.flush a) fun _ a s => s.shutdown a

/-- Reading a frame under a ceiling. -/
def take (ceiling : Nat) : Timed (Except FrameError RawFrame) := fun a s =>
  Client.readFrame s ceiling a

theorem regular_put (w : Bytes) (s : Stream) : Regular (put w) s :=
  (regular_write w s).andThen fun _ => regular_ask .flush

theorem regular_finish (s : Stream) : Regular finish s :=
  (regular_ask .flush s).andThen fun _ => regular_ask .shutdown

theorem regular_take (ceiling : Nat) (s : Stream) : Regular (take ceiling) s := by
  refine (regular_read Header.size s).andThen fun bs s => ?_
  cases Frame.readHeader bs with
  | error e => exact regular_done (Except.error e) s
  | ok h =>
    by_cases hc : ceiling < h.1.length.toNat
    · simp only [if_pos hc]
      exact regular_done _ s
    · simp only [if_neg hc]
      exact (regular_read h.1.length.toNat s).andThen fun payload =>
        regular_done (Except.ok (RawFrame.mk h.1 payload))
end CameraChannel.Timed
