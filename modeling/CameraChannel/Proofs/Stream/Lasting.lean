import Mathlib.Data.ENat.Basic
import CameraChannel.Stream.Client

/-!
Operations on a stream by the delays that they meet. A regular operation has no other use for a time
limit than to stop at it, and one after another such operations are regular. Main statements:
`Timed.Regular.unnoticed` and `Timed.Regular.beyond`.
-/
namespace CameraChannel

def ReadEvent.wait? : ReadEvent → Option Nat
  | .delay ms => some ms
  | _ => none

theorem ReadEvent.wait?_delay (ms : Nat) : (delay ms).wait? = some ms := rfl

def WriteEvent.wait? : WriteEvent → Option Nat
  | .delay ms => some ms
  | _ => none

theorem WriteEvent.wait?_delay (ms : Nat) : (delay ms).wait? = some ms := rfl

def ControlEvent.wait? : ControlEvent → Option Nat
  | .delay ms => some ms
  | _ => none

theorem ControlEvent.wait?_delay (ms : Nat) : (delay ms).wait? = some ms := rfl

namespace Script

variable {ε : Type} {wait? : ε → Option Nat} {e : ε}

/-- The delays of a script together. -/
def delays (wait? : ε → Option Nat) (es : List ε) : Nat := (es.filterMap wait?).sum

/-- A script without its delays. -/
def prompt (wait? : ε → Option Nat) (es : List ε) : List ε := es.filter fun e => (wait? e).isNone

theorem delays_delay {ms : Nat} (h : wait? e = some ms) (es : List ε) :
    delays wait? (e :: es) = ms + delays wait? es := by
  rw [delays, List.filterMap_cons_some h, List.sum_cons, delays]

theorem prompt_delay {ms : Nat} (h : wait? e = some ms) (es : List ε) :
    prompt wait? (e :: es) = prompt wait? es :=
  List.filter_cons_of_neg (by simp [h])

theorem delays_append (front : List ε) (h : ∀ e ∈ front, wait? e = none) (es : List ε) :
    delays wait? (front ++ es) = delays wait? es := by
  rw [delays, List.filterMap_append, List.filterMap_eq_nil_iff.2 h, List.nil_append, delays]

theorem prompt_append (front : List ε) (h : ∀ e ∈ front, wait? e = none) (es : List ε) :
    prompt wait? (front ++ es) = front ++ prompt wait? es := by
  rw [prompt, List.filter_append, List.filter_eq_self.2 fun e he => by rw [h e he]; rfl, prompt]

theorem delays_cons (h : wait? e = none) (es : List ε) :
    delays wait? (e :: es) = delays wait? es :=
  delays_append [e] (by simpa using h) es

theorem prompt_cons (h : wait? e = none) (es : List ε) :
    prompt wait? (e :: es) = e :: prompt wait? es :=
  prompt_append [e] (by simpa using h) es

end Script

theorem Allowance.spend_within {limit ms : Nat} (h : ms ≤ limit) :
    Allowance.spend (some limit) ms = some (some (limit - ms)) := if_pos h

theorem Allowance.spend_over {limit ms : Nat} (h : ¬ms ≤ limit) :
    Allowance.spend (some limit) ms = none := if_neg h

namespace Stream

/-- The delays that a stream still has for whatever is asked of it. -/
def delays (s : Stream) : Nat :=
  Script.delays ReadEvent.wait? s.reads + Script.delays WriteEvent.wait? s.writes +
    Script.delays ControlEvent.wait? s.flushes + Script.delays ControlEvent.wait? s.shutdowns

/-- The stream without its delays. -/
def prompt (s : Stream) : Stream :=
  { s with
    reads := Script.prompt ReadEvent.wait? s.reads
    writes := Script.prompt WriteEvent.wait? s.writes
    flushes := Script.prompt ControlEvent.wait? s.flushes
    shutdowns := Script.prompt ControlEvent.wait? s.shutdowns }

end Stream

namespace Ending

variable {α : Type}

/-- What an operation comes to, whatever time is left; none if it does not end. -/
def value? : Ending α → Option (Except Failure α)
  | .done v _ => some (.ok v)
  | .failed f => some (.error f)
  | .unfinished => none

/-- The ending with so much time left. -/
def of (left : Allowance) : Option (Except Failure α) → Ending α
  | some (.ok v) => .done v left
  | some (.error f) => .failed f
  | none => .unfinished

@[simp] theorem value?_of (left : Allowance) (r : Option (Except Failure α)) :
    (of left r).value? = r := by
  obtain _ | _ | _ := r <;> rfl

theorem isDone_of (left : Allowance) (r : Option (Except Failure α)) :
    (of left r).isDone = (of none r).isDone := by
  obtain _ | _ | _ := r <;> rfl

end Ending

/-- Operations on a stream, given the time they have. -/
abbrev Timed (α : Type) := Allowance → Stream → Ending α × Stream

namespace Timed

variable {α β : Type} {f g : Timed α} {s s₁ s' : Stream} {d ms : Nat}
  {r : Option (Except Failure α)}

/-- With no limit an operation meets these delays, comes to this, and leaves this stream. Without
the delays it comes to the same under any limit, and with them under a limit that they fit into,
which has the rest of the time left; under any other limit it does not end. -/
structure Lasts (f : Timed α) (s : Stream) (d : Nat) (r : Option (Except Failure α)) (s' : Stream) :
    Prop where
  unlimited : f none s = (.of none r, s')
  passed : s.delays = d + s'.delays
  prompt : ∀ a, f a s.prompt = (.of a r, s'.prompt)
  inTime : ∀ limit, r.isSome → d ≤ limit → f (some limit) s = (.of (some (limit - d)) r, s')
  late : ∀ limit, r = none ∨ limit < d → (f (some limit) s).1 = .unfinished

/-- An operation that does not wait. -/
theorem Lasts.now (h : ∀ a, f a s = (.of a r, s')) (hp : ∀ a, f a s.prompt = (.of a r, s'.prompt))
    (hd : s.delays = s'.delays) : Lasts f s 0 r s' where
  unlimited := h none
  passed := by rw [hd, Nat.zero_add]
  prompt := hp
  inTime limit _ _ := h (some limit)
  late limit hl := by
    obtain rfl := hl.resolve_right (Nat.not_lt_zero limit)
    rw [h]
    rfl

/-- An operation that goes on as another one without waiting. -/
theorem Lasts.step (h : Lasts g s₁ d r s') (hs : ∀ a, f a s = g a s₁)
    (hp : ∀ a, f a s.prompt = g a s₁.prompt) (hd : s.delays = s₁.delays) : Lasts f s d r s' where
  unlimited := (hs none).trans h.unlimited
  passed := hd.trans h.passed
  prompt a := (hp a).trans (h.prompt a)
  inTime limit hr hl := (hs _).trans (h.inTime limit hr hl)
  late limit hl := by rw [hs]; exact h.late limit hl

/-- An operation that waits, and then goes on in the time that is left. -/
theorem Lasts.delay (h : Lasts f s₁ d r s')
    (fits : ∀ {a left : Allowance}, a.spend ms = some left → f a s = f left s₁)
    (stops : ∀ {a : Allowance}, a.spend ms = none → (f a s).1 = .unfinished)
    (hp : s.prompt = s₁.prompt) (hd : s.delays = ms + s₁.delays) : Lasts f s (ms + d) r s' where
  unlimited := (fits rfl).trans h.unlimited
  passed := by rw [hd, h.passed, Nat.add_assoc]
  prompt a := hp ▸ h.prompt a
  inTime limit hr hl := by
    rw [fits (Allowance.spend_within (by omega)), h.inTime _ hr (by omega), Nat.sub_sub]
  late limit hl := by
    by_cases hms : ms ≤ limit
    · rw [fits (Allowance.spend_within hms)]
      exact h.late _ (hl.imp_right (by omega))
    · exact stops (Allowance.spend_over hms)

theorem Lasts.andThen {second : α → Timed β} {v : α} {d' : Nat} {r : Option (Except Failure β)}
    (h : Lasts f s d (some (.ok v)) s₁) (h' : Lasts (second v) s₁ d' r s') :
    Lasts (fun a s => Stream.andThen (f a s) second) s (d + d') r s' where
  unlimited := by rw [h.unlimited]; exact h'.unlimited
  passed := by rw [h.passed, h'.passed, Nat.add_assoc]
  prompt a := by rw [h.prompt]; exact h'.prompt a
  inTime limit hr hl := by
    rw [h.inTime limit rfl (by omega), ← Nat.sub_sub]
    exact h'.inTime _ hr (by omega)
  late limit hl := by
    by_cases hd : d ≤ limit
    · rw [h.inTime limit rfl hd]
      exact h'.late _ (hl.imp_right (by omega))
    · -- the first operation is late already
      have hlate := h.late limit (.inr (by omega))
      generalize f (some limit) s = x at hlate
      obtain ⟨x, t⟩ := x
      cases hlate
      rfl

/-- An operation that fails or does not end keeps another from starting. -/
theorem Lasts.andThen_stopped {second : α → Timed β} {r : Option Failure}
    (h : Lasts f s d (r.map .error) s') :
    Lasts (fun a s => Stream.andThen (f a s) second) s d (r.map .error) s' where
  unlimited := by rw [h.unlimited]; cases r <;> rfl
  passed := h.passed
  prompt a := by rw [h.prompt]; cases r <;> rfl
  inTime limit hr hl := by
    rw [h.inTime limit (by simpa using hr) hl]
    cases r <;> rfl
  late limit hl := by
    have hlate := h.late limit (hl.imp_left (by simp))
    generalize f (some limit) s = x at hlate
    obtain ⟨x, t⟩ := x
    cases hlate
    rfl

/-- The limit of an operation on a stream matters in this way only. -/
def Regular (f : Timed α) (s : Stream) : Prop := ∃ d r s', Lasts f s d r s'

theorem Regular.step (h : Regular g s₁) (hs : ∀ a, f a s = g a s₁)
    (hp : ∀ a, f a s.prompt = g a s₁.prompt) (hd : s.delays = s₁.delays) : Regular f s := by
  obtain ⟨d, r, s', h⟩ := h
  exact ⟨d, r, s', h.step hs hp hd⟩

theorem Regular.delay (ms : Nat) (h : Regular f s₁)
    (fits : ∀ {a left : Allowance}, a.spend ms = some left → f a s = f left s₁)
    (stops : ∀ {a : Allowance}, a.spend ms = none → (f a s).1 = .unfinished)
    (hp : s.prompt = s₁.prompt) (hd : s.delays = ms + s₁.delays) : Regular f s := by
  obtain ⟨d, r, s', h⟩ := h
  exact ⟨ms + d, r, s', h.delay fits stops hp hd⟩

theorem Regular.andThen {second : α → Timed β} (hf : Regular f s)
    (hg : ∀ v s, Regular (second v) s) :
    Regular (fun a s => Stream.andThen (f a s) second) s := by
  obtain ⟨d, _ | e | v, s', h⟩ := hf
  · exact ⟨_, _, _, Lasts.andThen_stopped (r := none) h⟩
  · exact ⟨_, _, _, Lasts.andThen_stopped (r := some e) h⟩
  · obtain ⟨d', r', s'', h'⟩ := hg v s'
    exact ⟨_, _, _, h.andThen h'⟩

theorem regular_done (v : α) (s : Stream) : Regular (fun a s => (.done v a, s)) s :=
  ⟨0, some (.ok v), s, .now (fun _ => rfl) (fun _ => rfl) rfl⟩

/-- The delays that an operation meets when it has no limit, together; infinite if it does not
end. -/
def time (f : Timed α) (s : Stream) : ℕ∞ :=
  match (f none s).1.value? with
  | none => ⊤
  | some _ => ((s.delays - (f none s).2.delays : Nat) : ℕ∞)

variable {limit : Nat}

theorem Lasts.time_eq (h : Lasts f s d r s') : time f s = if r.isSome then (d : ℕ∞) else ⊤ := by
  rw [time, h.unlimited, Ending.value?_of, h.passed, Nat.add_sub_cancel]
  cases r <;> rfl

theorem Regular.unnoticed (h : Regular f s) (ht : time f s < limit) :
    (f (some limit) s.prompt).1.value? = (f (some limit) s).1.value? ∧
      (f (some limit) s.prompt).2 = (f (some limit) s).2.prompt ∧
      (f (some limit) s).2 = (f none s).2 := by
  obtain ⟨d, r, s', h⟩ := h
  rw [h.time_eq] at ht
  split at ht
  · next hr =>
    rw [h.prompt, h.inTime limit hr (Nat.le_of_lt (by exact_mod_cast ht)), h.unlimited,
      Ending.value?_of, Ending.value?_of]
    exact ⟨rfl, rfl, rfl⟩
  · exact absurd ht (by simp)

theorem Regular.beyond (h : Regular f s) (ht : limit < time f s) :
    (f (some limit) s).1.value? = none := by
  obtain ⟨d, r, s', h⟩ := h
  rw [h.time_eq] at ht
  rw [h.late limit ?_]
  · rfl
  split at ht
  · exact .inr (by exact_mod_cast ht)
  · next hr => exact .inl (by simpa using hr)
end Timed

end CameraChannel
