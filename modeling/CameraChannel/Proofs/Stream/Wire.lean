import CameraChannel.Proofs.Stream.Effects

/-!
What a client leaves on its stream over whole runs. Main statement: the bytes taken are the frames
of the sends that went well, in order, and at most a part of one more frame, whose send cost the
connection.
-/
namespace CameraChannel.Client

variable {c : Client} {α : Type} {f : Step → Option α}

/-- A client on a stream of which nothing was asked yet. -/
def fresh (timeouts : Timeouts) (codec : Codec) (reads : List ReadEvent) (writes : List WriteEvent)
    (flushes shutdowns : List ControlEvent) : Client :=
  { ofStream { reads, writes, flushes, shutdowns } with timeouts, codec }

/-- The client after some steps. -/
def run (c : Client) : List Step → Client
  | [] => c
  | s :: steps => run (c.perform s).2 steps

/-- Some steps, each with what it is answered. -/
def history (c : Client) : List Step → List (Step × Reply)
  | [] => []
  | s :: steps => (s, (c.perform s).1) :: history (c.perform s).2 steps

theorem run_released (h : c.target = none) (hc : c.connected = false) (steps : List Step) :
    c.run steps = c := by
  induction steps with
  | nil => rfl
  | cons s steps ih => rw [run, perform_released h hc, ih]

theorem run_keeps (h : c.target = none) (steps : List Step) :
    (c.run steps).target = none ∧ (c.run steps).codec = c.codec := by
  induction steps generalizing c with
  | nil => exact ⟨h, rfl⟩
  | cons s steps ih =>
    obtain ⟨ht, hk⟩ := perform_keeps h s
    rw [run, ← hk]
    exact ih ht

/-- What `f` makes of the steps that were answered as sent. -/
def sent (f : Step → Option α) (h : List (Step × Reply)) : List α :=
  h.filterMap fun e => if e.2.isSent then f e.1 else none

/-- What `f` makes of the steps that failed on the stream. -/
def broken (f : Step → Option α) (h : List (Step × Reply)) : List α :=
  h.filterMap fun e => if e.2.isBroken then f e.1 else none

theorem sent_cons (s : Step) (r : Reply) (h : List (Step × Reply)) :
    sent f ((s, r) :: h) = (if r.isSent then (f s).toList else []) ++ sent f h := by
  rw [sent, List.filterMap_cons]
  cases r.isSent with
  | true => cases f s <;> rfl
  | false => rfl

theorem broken_cons (s : Step) (r : Reply) (h : List (Step × Reply)) :
    broken f ((s, r) :: h) = (if r.isBroken then (f s).toList else []) ++ broken f h := by
  rw [broken, List.filterMap_cons]
  cases r.isBroken with
  | true => cases f s <;> rfl
  | false => rfl

theorem sent_unsent {r : Reply} (hr : r.isSent = false) (s : Step) (h : List (Step × Reply)) :
    sent f ((s, r) :: h) = sent f h := by
  rw [sent_cons, hr]
  rfl

/-- The send `s` failed on the stream, as the only one of a history, and none behind it went
well. -/
def BreaksOff (h : List (Step × Reply)) (s : Step) : Prop :=
  ∃ before r after, h = before ++ (s, r) :: after ∧ r.isBroken = true ∧
    broken Step.message? before = [] ∧ sent Step.message? after = [] ∧
    broken Step.message? after = []

theorem BreaksOff.once {h : List (Step × Reply)} {s : Step} (hb : BreaksOff h s) :
    (broken Step.message? h).length ≤ 1 := by
  obtain ⟨before, r, after, rfl, hr, hbefore, -, hafter⟩ := hb
  rw [broken] at hbefore hafter ⊢
  rw [List.filterMap_append, hbefore]
  have hlast := broken_cons (f := Step.message?) s r after
  rw [broken, broken, hafter, hr] at hlast
  rw [List.nil_append, hlast]
  cases s.message? <;> simp

/-- What stands on the wire behind the frames sent: nothing, or a part of the frame whose send cost
the connection. -/
def Residue (o : FrameOptions) (h : List (Step × Reply)) (c : Client) (p : Bytes) : Prop :=
  broken Step.message? h = [] ∧ p = [] ∨
    c.connected = false ∧ ∃ s w, BreaksOff h s ∧ s.frame? o = some w ∧ p <+: w

theorem Residue.cons {o : FrameOptions} {h : List (Step × Reply)} {p : Bytes} {s : Step} {r : Reply}
    (hs : r.isBroken = true → s.message? = none) (hp : Residue o h c p) :
    Residue o ((s, r) :: h) c p := by
  have hskip : ∀ h, broken Step.message? ((s, r) :: h) = broken Step.message? h := by
    intro h
    rw [broken_cons]
    split
    · next hr => rw [hs hr]; rfl
    · rfl
  obtain ⟨hb, hp⟩ | ⟨hc, t, w, ⟨before, r', after, rfl, hr, hbefore, hafter⟩, hp⟩ := hp
  · exact .inl ⟨(hskip h).trans hb, hp⟩
  · have hmore : BreaksOff ((s, r) :: (before ++ (t, r') :: after)) t :=
      ⟨(s, r) :: before, r', after, rfl, hr, (hskip before).trans hbefore, hafter⟩
    exact .inr ⟨hc, t, w, hmore, hp⟩

theorem history_released (h : c.target = none) (hc : c.connected = false) (steps : List Step) :
    sent f (c.history steps) = [] ∧ broken Step.message? (c.history steps) = [] := by
  induction steps with
  | nil => exact ⟨rfl, rfl⟩
  | cons s steps ih =>
    have heff := perform_effect h s
    rw [history, perform_released h hc]
    generalize (c.perform s).1 = r at heff ⊢
    cases heff with
    | quiet unsent unbroken =>
      refine ⟨(sent_unsent unsent _ _).trans ih.1, ?_⟩
      rw [broken_cons, ih.2]
      split
      · next hr => rw [unbroken hr]; rfl
      · rfl
    | sent held => rw [hc] at held; cases held
    | broken held => rw [hc] at held; cases held
    | closed held => rw [hc] at held; cases held

/-- The bytes taken over a run are the frames sent and a part of one more at most. -/
theorem run_taken (h : c.target = none) (steps : List Step) :
    ∃ p, (c.run steps).stream.taken = c.stream.taken ++
        ((sent (Step.frame? c.codec.options) (c.history steps)).flatten ++ p) ∧
      Residue c.codec.options (c.history steps) (c.run steps) p := by
  induction steps generalizing c with
  | nil => exact ⟨[], (List.append_nil _).symm, .inl ⟨rfl, rfl⟩⟩
  | cons s steps ih =>
    obtain ⟨ht, hk⟩ := perform_keeps h s
    have heff := perform_effect h s
    rw [run, history]
    generalize (c.perform s).1 = r at heff ⊢
    generalize (c.perform s).2 = c' at heff ht hk ⊢
    obtain ⟨p, htaken, hp⟩ := ih ht
    rw [hk] at htaken hp
    cases heff with
    | quiet unsent unbroken taken =>
      rw [sent_unsent unsent, htaken, taken]
      exact ⟨p, rfl, hp.cons unbroken⟩
    | closed held unsent taken =>
      rw [sent_unsent unsent, htaken, taken]
      exact ⟨p, rfl, hp.cons fun _ => rfl⟩
    | @sent s w c' held frame fits taken =>
      rw [sent_cons, frame, htaken, taken]
      exact ⟨p, by simp [Reply.isSent], hp.cons nofun⟩
    | @broken s e w p c' tried held fails frame fits part taken controls flushes gone =>
      -- the stream is gone, so the part that was taken stays the last
      obtain ⟨hs, hb⟩ := history_released (f := Step.frame? c.codec.options) ht gone steps
      rw [run_released ht gone, sent_unsent rfl, taken, hs]
      exact ⟨p, rfl, .inr ⟨gone, s, w, ⟨[], _, _, rfl, fails, rfl, history_released ht gone steps⟩,
        frame, part⟩⟩

/-- What a client asked of its stream besides bytes, to end with. -/
def Closing (tried : List (Control × Bool)) : Prop :=
  tried = [] ∨ tried = [(.flush, false)] ∨ ∃ ok, tried = [(.flush, true), (.shutdown, ok)]

/-- Over a run every frame sent is flushed, and a shutdown comes last if at all, behind a flush that
went well. -/
theorem run_controls (h : c.target = none) (steps : List Step) :
    ∃ tried, (c.run steps).stream.controls = c.stream.controls ++
        (List.replicate (sent (Step.frame? c.codec.options) (c.history steps)).length
          (.flush, true) ++ tried) ∧
      Closing tried ∧ (tried = [] ∨ (c.run steps).connected = false) := by
  induction steps generalizing c with
  | nil => exact ⟨[], (List.append_nil _).symm, .inl rfl, .inl rfl⟩
  | cons s steps ih =>
    obtain ⟨ht, hk⟩ := perform_keeps h s
    have heff := perform_effect h s
    rw [run, history]
    generalize (c.perform s).1 = r at heff ⊢
    generalize (c.perform s).2 = c' at heff ht hk ⊢
    have hrest := ih ht
    rw [hk] at hrest
    cases heff with
    | quiet unsent unbroken taken controls =>
      rw [sent_unsent unsent, ← controls]
      exact hrest
    | @sent s w c' held frame fits taken controls =>
      obtain ⟨tried, hc, hshape, hgone⟩ := hrest
      rw [sent_cons, frame, hc, controls]
      exact ⟨tried, by simp [Reply.isSent, List.replicate_succ], hshape, hgone⟩
    | @broken s e w p c' tried held fails frame fits part taken controls flushes gone =>
      have hnone := (history_released (f := Step.frame? c.codec.options) ht gone steps).1
      rw [run_released ht gone, sent_unsent rfl, hnone, controls]
      exact ⟨tried, rfl, flushes.imp_right .inl, .inr gone⟩
    | @closed r c' tried held unsent taken controls flushes gone =>
      have hnone := (history_released (f := Step.frame? c.codec.options) ht gone steps).1
      rw [run_released ht gone, sent_unsent unsent, hnone, controls]
      exact ⟨tried, rfl, .inr flushes, .inr gone⟩

/-- What a client leaves on its stream after any steps, and what one step more does: the frames of
the sends that went well, each as it is encoded for its own call, and a part of one more at most,
when its send failed on the stream and cost it; one flush for each frame, and at the end at most one
shutdown, of a close whose flush went well. Nothing reaches a stream that was let go. -/
theorem stream_after_run (timeouts : Timeouts) (codec : Codec) (reads : List ReadEvent)
    (writes : List WriteEvent) (flushes shutdowns : List ControlEvent) (steps : List Step)
    (next : Step) :
    let c := fresh timeouts codec reads writes flushes shutdowns
    let c' := c.run steps
    let frames := sent (Step.frame? codec.options) (c.history steps)
    let reply := (c'.perform next).1
    let c'' := (c'.perform next).2
    (∃ p, c'.stream.taken = frames.flatten ++ p ∧ (p = [] ∨ c'.connected = false ∧
      ∃ s w, BreaksOff (c.history steps) s ∧ s.frame? codec.options = some w ∧ p <+: w)) ∧
    (∃ tried, c'.stream.controls = List.replicate frames.length (.flush, true) ++ tried ∧
      Closing tried ∧ (tried = [] ∨ c'.connected = false)) ∧
    (∀ n, reply = .sent n → ∃ w, next.frame? codec.options = some w ∧ n = w.length ∧
      c''.stream.taken = c'.stream.taken ++ w) ∧
    (∀ e, reply = .failed e → (Reply.failed e).isBroken = false →
      c''.stream.taken = c'.stream.taken) ∧
    (next ≠ .close → ∃ tried, c''.stream.controls = c'.stream.controls ++ tried ∧
      ∀ a ∈ tried, a.1 = .flush) ∧
    (c'.connected = false → ∀ more, c'.run more = c') := by
  intro c c' frames reply c''
  obtain ⟨ht, hk⟩ := run_keeps (c := c) rfl steps
  obtain ⟨p, htaken, hp⟩ := run_taken (c := c) rfl steps
  obtain ⟨tried, hcontrols, hshape, hgone⟩ := run_controls (c := c) rfl steps
  have heff : Effect c' next reply c'' := perform_effect ht next
  have hoptions : c'.codec.options = codec.options := congrArg Codec.options hk
  refine ⟨⟨p, htaken, hp.imp_left And.right⟩, ⟨tried, hcontrols, hshape, hgone⟩, fun n hn => ?_,
    fun e he hbroken => ?_, fun hne => heff.shutdowns hne, fun hc more => run_released ht hc more⟩
  · rw [hn] at heff
    rw [← hoptions]
    exact heff.sent_taken
  · rw [he] at heff
    exact heff.refused_taken hbroken

end CameraChannel.Client
