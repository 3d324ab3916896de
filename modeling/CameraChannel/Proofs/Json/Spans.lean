import CameraChannel.Proofs.Json.Spelling

/-!
What is taken off a text when a part of it is read: UTF-8 of at least some length. Blanks, fixed
words, strings and separators.
-/
namespace CameraChannel.Json

open Utf8 (ofChars)

/-- `rest` is left of `bs` when UTF-8 of at least `n` bytes is taken off. -/
def Spans (n : Nat) (bs rest : Bytes) : Prop :=
  ∃ cs : List Char, bs = ofChars cs ++ rest ∧ n ≤ (ofChars cs).length

namespace Spans

variable {m n : Nat} {as bs cs rest : Bytes}

theorem refl (bs : Bytes) : Spans 0 bs bs := ⟨[], rfl, Nat.le_refl _⟩

theorem trans (h : Spans m as bs) (k : Spans n bs cs) : Spans (m + n) as cs := by
  obtain ⟨xs, rfl, hx⟩ := h
  obtain ⟨ys, rfl, hy⟩ := k
  refine ⟨xs ++ ys, by rw [Utf8.ofChars_append, List.append_assoc], ?_⟩
  rw [Utf8.ofChars_append, List.length_append]
  omega

theorem mono (h : Spans n as bs) (hm : m ≤ n) : Spans m as bs := by
  obtain ⟨xs, he, hx⟩ := h
  exact ⟨xs, he, Nat.le_trans hm hx⟩

theorem bytes (ds : Bytes) (h : ∀ b ∈ ds, b.toNat < 0x80) (rest : Bytes) :
    Spans ds.length (ds ++ rest) rest :=
  ⟨_, by rw [Utf8.ofChars_ascii h], Nat.le_of_eq (by rw [Utf8.ofChars_ascii h])⟩

theorem byte {b : UInt8} (h : b.toNat < 0x80) (rest : Bytes) : Spans 1 (b :: rest) rest :=
  bytes [b] (by simpa using h) rest

theorem dropWhile {p : UInt8 → Bool} (h : ∀ b, p b = true → b.toNat < 0x80) (bs : Bytes) :
    Spans 0 bs (bs.dropWhile p) := by
  have hs := bytes (bs.takeWhile p)
    (fun b hb => h b (List.all_eq_true.1 List.all_takeWhile b hb)) (bs.dropWhile p)
  rw [List.takeWhile_append_dropWhile] at hs
  exact hs.mono (Nat.zero_le _)

theorem length_le (h : Spans n bs rest) : n + rest.length ≤ bs.length := by
  obtain ⟨cs, rfl, hn⟩ := h
  rw [List.length_append]
  omega

end Spans

theorem bind_eq_ok_iff {ε α β : Type} {r : Except ε α} {f : α → Except ε β} {b : β} :
    (r >>= f) = .ok b ↔ ∃ a, r = .ok a ∧ f a = .ok b := by
  cases r with
  | error e => exact ⟨fun h => (by cases h), fun ⟨_, h, _⟩ => (by cases h)⟩
  | ok a => exact ⟨fun h => ⟨a, rfl, h⟩, fun ⟨_, h, hf⟩ => Except.ok.inj h ▸ hf⟩

/-- A step of a reader that went well. -/
theorem bind_eq_ok {ε α β : Type} {r : Except ε α} {f : α → Except ε β} {b : β}
    (h : (r >>= f) = .ok b) : ∃ a, r = .ok a ∧ f a = .ok b :=
  bind_eq_ok_iff.1 h

theorem map_eq_ok {ε α β : Type} {r : Except ε α} {f : α → β} {b : β} (h : r.map f = .ok b) :
    ∃ a, r = .ok a ∧ f a = b := by
  cases r with
  | error e => cases h
  | ok a => exact ⟨a, rfl, Except.ok.inj h⟩

namespace Scan

variable {bs rest : Bytes}

theorem isSpace_ascii {b : UInt8} (h : isSpace b = true) : b.toNat < 0x80 := by
  simp only [isSpace, Bool.or_eq_true, beq_iff_eq] at h
  obtain ((rfl | rfl) | rfl) | rfl := h <;> decide

theorem isDigit_ascii {b : UInt8} (h : isDigit b = true) : b.toNat < 0x80 := by
  have hall : ∀ b, isDigit b = true → b.toNat < 0x80 := Bytes.forall_byte (by decide +kernel)
  exact hall b h

theorem skipSpace_spans (bs : Bytes) : Spans 0 bs (skipSpace bs) :=
  .dropWhile (fun _ => isSpace_ascii) bs

/-- A byte behind blanks. -/
theorem skipped {b : UInt8} (h : skipSpace bs = b :: rest) (hb : b.toNat < 0x80) :
    Spans 1 bs rest := by
  have hs := skipSpace_spans bs
  rw [h] at hs
  exact (hs.trans (.byte hb rest)).mono (Nat.le_refl _)

theorem word_spans {cs : List Char} (hcs : ∀ c ∈ cs, (ascii c).toNat < 0x80)
    (h : word cs bs = .ok rest) : Spans cs.length bs rest := by
  induction cs generalizing bs with
  | nil =>
    cases h
    exact .refl _
  | cons c cs ih =>
    cases bs with
    | nil => cases h
    | cons b bs =>
      rw [word] at h
      split at h
      · next hb =>
        rw [List.length_cons, Nat.add_comm]
        exact (Spans.byte (hb ▸ hcs c (by simp)) bs).trans (ih (fun x hx => hcs x (by simp [hx])) h)
      · cases h

theorem colon_spans (h : colon bs = .ok rest) : Spans 1 bs rest := by
  rw [colon] at h
  split at h
  · cases h
  · next b tail hs =>
    split at h
    · next hb =>
      cases h
      exact skipped hs (hb ▸ by decide)
    · cases h

theorem string_spans {s : String} (h : string bs = .ok (s, rest)) :
    Spans ((ofChars (s.toList.flatMap escape)).length + 1) bs rest :=
  text_of_string h

theorem nextItem_close_spans {first : Bool} (h : nextItem first bs = .ok (.close rest)) :
    Spans 1 bs rest := by
  rw [nextItem] at h
  split at h
  · cases h
  · next b tail hs =>
    split at h
    · next hb =>
      cases h
      exact skipped hs (hb ▸ by decide)
    · split at h
      · cases h
      · split at h
        · split at h
          · cases h
          · split at h <;> cases h
        · cases h

/-- Before an item stands a comma, unless it is the first. -/
theorem nextItem_item_spans {first : Bool} (h : nextItem first bs = .ok (.item rest)) :
    Spans (if first then 0 else 1) bs rest := by
  rw [nextItem] at h
  split at h
  · cases h
  · next b tail hs =>
    split at h
    · cases h
    · cases first with
      | true =>
        cases h
        have := skipSpace_spans bs
        rw [hs] at this
        exact this
      | false =>
        simp only [Bool.false_eq_true, if_false] at h ⊢
        split at h
        · next hb =>
          split at h
          · cases h
          · next c tail' hs' =>
            split at h
            · cases h
            · cases h
              have := skipSpace_spans tail
              rw [hs'] at this
              exact (skipped hs (hb ▸ by decide)).trans this
        · cases h

theorem nameAt_eq_ok {b : UInt8} {next : Next} (h : nameAt b bs = .ok next) :
    b = ascii '\x22' ∧ next = .item bs := by
  rw [nameAt] at h
  split at h
  · next hb =>
    cases h
    exact ⟨hb, rfl⟩
  · cases h

theorem nextMember_close_spans {first : Bool} (h : nextMember first bs = .ok (.close rest)) :
    Spans 1 bs rest := by
  rw [nextMember] at h
  split at h
  · cases h
  · next b tail hs =>
    split at h
    · next hb =>
      cases h
      exact skipped hs (hb ▸ by decide)
    · split at h
      · cases (nameAt_eq_ok h).2
      · split at h
        · split at h
          · cases h
          · split at h
            · cases h
            · cases (nameAt_eq_ok h).2
        · cases h

/-- Before the inside of a name stands its quote, and before that a comma, unless it is the
first. -/
theorem nextMember_item_spans {first : Bool} (h : nextMember first bs = .ok (.item rest)) :
    Spans (if first then 1 else 2) bs rest := by
  rw [nextMember] at h
  split at h
  · cases h
  · next b tail hs =>
    split at h
    · cases h
    · cases first with
      | true =>
        obtain ⟨hb, hn⟩ := nameAt_eq_ok h
        cases hn
        exact skipped hs (hb ▸ by decide)
      | false =>
        simp only [Bool.false_eq_true, if_false] at h ⊢
        split at h
        · next hb =>
          split at h
          · cases h
          · next c tail' hs' =>
            split at h
            · cases h
            · obtain ⟨hc, hn⟩ := nameAt_eq_ok h
              cases hn
              exact (skipped hs (hb ▸ by decide)).trans (skipped hs' (hc ▸ by decide))
        · cases h

end Scan

end CameraChannel.Json
