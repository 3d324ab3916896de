import CameraChannel.Json.Reader
import CameraChannel.Proofs.Json.Strings
import CameraChannel.Proofs.Decimal.Digits

/-!
Integers of JSON text: one that is written is read back, before anything that does not carry a
number on.
-/
namespace CameraChannel.Json.Number

open Utf8 (ofChars)

/-- The text goes on in a way that no number does. -/
def Stops (rest : Bytes) : Prop :=
  ∀ b ∈ rest.head?, Scan.isDigit b = false ∧ b ≠ ascii '.' ∧ b ≠ ascii 'e' ∧ b ≠ ascii 'E'

theorem digit_facts {d : Nat} (h : d < 10) :
    Scan.isDigit (ascii (Digits.digitChar d)) = true ∧ digit (ascii (Digits.digitChar d)) = d ∧
      (ascii (Digits.digitChar d) = ascii '0' → d = 0) := by
  have : ∀ d : Fin 10, Scan.isDigit (ascii (Digits.digitChar d.val)) = true ∧
      digit (ascii (Digits.digitChar d.val)) = d.val ∧
      (ascii (Digits.digitChar d.val) = ascii '0' → d.val = 0) := by decide
  exact this ⟨d, h⟩

theorem push_fits {v : Nat} {b : UInt8} (h : v * 10 + digit b < 0x10000000000000000) :
    Whole.push ⟨v, 0⟩ b = ⟨v * 10 + digit b, 0⟩ :=
  if_pos ⟨rfl, h⟩

/-- The bytes of a decimal number: digits, with a zero in front only when it is the number. -/
structure Spells (n : Nat) (b : UInt8) (bs : Bytes) : Prop where
  first : Scan.isDigit b = true
  later : ∀ x ∈ bs, Scan.isDigit x = true
  zero : b = ascii '0' → bs = [] ∧ n = 0
  value : n < 0x10000000000000000 → bs.foldl Whole.push ⟨digit b, 0⟩ = ⟨n, 0⟩

theorem spells_decimal (n : Nat) :
    ∃ b bs, ofChars (Digits.decimal n) = b :: bs ∧ Spells n b bs := by
  induction n using Nat.strongRecOn with
  | _ n ih =>
    by_cases h : n < 10
    · obtain ⟨hd, hv, h0⟩ := digit_facts h
      refine ⟨ascii (Digits.digitChar n), [], ?_, hd, by simp, fun e => ⟨rfl, h0 e⟩, fun _ => ?_⟩
      · rw [Digits.decimal_small h, Utf8.ofChars_cons, Digits.encode_digitChar (by omega)]
        rfl
      · rw [List.foldl_nil, hv]
    · obtain ⟨b, bs, hb, hs⟩ := ih (n / 10) (by omega)
      obtain ⟨hd, hv, -⟩ := digit_facts (show n % 10 < 10 by omega)
      refine ⟨b, bs ++ [ascii (Digits.digitChar (n % 10))], ?_, hs.first, ?_, ?_, ?_⟩
      · rw [Digits.decimal_large (by omega), Utf8.ofChars_append, hb, Utf8.ofChars_cons,
          Digits.encode_digitChar (by omega)]
        rfl
      · intro x hx
        obtain hx | hx := List.mem_append.1 hx
        · exact hs.later x hx
        · rw [List.mem_singleton.1 hx]
          exact hd
      · intro e
        have := (hs.zero e).2
        omega
      · intro hn
        have hsum : n / 10 * 10 + n % 10 = n := by omega
        rw [List.foldl_append, hs.value (by omega), List.foldl_cons, List.foldl_nil,
          push_fits (by omega), hv, hsum]

/-- Digits in front are taken off as a whole. -/
theorem digits_then {bs rest : Bytes} (h : ∀ x ∈ bs, Scan.isDigit x = true) (hr : Stops rest) :
    (bs ++ rest).takeWhile Scan.isDigit = bs ∧ (bs ++ rest).dropWhile Scan.isDigit = rest := by
  rw [List.takeWhile_append_of_pos h, List.dropWhile_append_of_pos h]
  cases rest with
  | nil => exact ⟨List.append_nil bs, rfl⟩
  | cons b rest => simp [(hr b (by simp)).1]

theorem afterWhole_stops (negative : Bool) (n : Nat) {rest : Bytes} (h : Stops rest) :
    afterWhole negative ⟨n, 0⟩ rest = .ok (integer negative n, rest) := by
  cases rest with
  | nil => rfl
  | cons b rest =>
    obtain ⟨-, hp, he, hE⟩ := h b (by simp)
    simp [afterWhole, hp, he, hE]

/-- The digits of a number below `2 ^ 64`, read after its sign. -/
theorem unsigned_decimal (negative : Bool) {n : Nat} (hn : n < 0x10000000000000000) {rest : Bytes}
    (h : Stops rest) :
    unsigned negative (ofChars (Digits.decimal n) ++ rest) = .ok (integer negative n, rest) := by
  obtain ⟨b, bs, hb, hs⟩ := spells_decimal n
  rw [hb, List.cons_append, unsigned.eq_def]
  simp only
  by_cases h0 : b = ascii '0'
  · obtain ⟨rfl, rfl⟩ := hs.zero h0
    rw [if_pos h0, List.nil_append]
    cases rest with
    | nil => rfl
    | cons c rest =>
      simp only [(h c (by simp)).1]
      exact afterWhole_stops negative 0 h
  · obtain ⟨ht, hd⟩ := digits_then hs.later h
    rw [if_neg h0, if_pos hs.first, ht, hd, hs.value hn]
    exact afterWhole_stops negative n h

/-- A number of its text starts with a digit or a minus sign. -/
theorem signed_starts (i : Int) (rest : Bytes) : ∃ b bs,
    ofChars (Digits.signed i) ++ rest = b :: bs ∧ starts b = true := by
  cases i with
  | ofNat n =>
    obtain ⟨b, bs, hb, hs⟩ := spells_decimal n
    exact ⟨b, bs ++ rest, by rw [Digits.signed, hb]; rfl, by simp [starts, hs.first]⟩
  | negSucc n => exact ⟨ascii '-', ofChars (Digits.decimal (n + 1)) ++ rest, rfl, by decide⟩

/-- The first byte of a number begins nothing else. -/
theorem starts_ne {b : UInt8} (h : starts b = true) : Scan.isSpace b = false ∧ b ≠ ascii 'n' ∧
    b ≠ ascii 't' ∧ b ≠ ascii 'f' ∧ b ≠ ascii ']' := by
  have hall : ∀ b, starts b = true → Scan.isSpace b = false ∧ b ≠ ascii 'n' ∧
      b ≠ ascii 't' ∧ b ≠ ascii 'f' ∧ b ≠ ascii ']' := Bytes.forall_byte (by decide +kernel)
  exact hall b h

/-- An integer that is written is read back. -/
theorem read_signed (i : Integer) {rest : Bytes} (h : Stops rest) :
    read (ofChars (Digits.signed i.val) ++ rest) = .ok (.integer i, rest) := by
  obtain ⟨v, lower, upper⟩ := i
  cases v with
  | ofNat n =>
    have hn : n < 0x10000000000000000 := by
      have : (n : Int) < 0x10000000000000000 := upper
      omega
    obtain ⟨b, bs, hb, hs⟩ := spells_decimal n
    have hm : b ≠ ascii '-' := by
      intro e
      have := hs.first
      rw [e] at this
      exact absurd this (by decide)
    have hu := unsigned_decimal false hn h
    simp only [Digits.signed, hb, List.cons_append] at hu ⊢
    rw [read, if_neg hm, hu, integer]
    simp only [Bool.false_eq_true, if_false, dif_pos hn]
    rfl
  | negSucc n =>
    have hn : 0 < n + 1 ∧ n + 1 ≤ 0x8000000000000000 := by
      have : -0x8000000000000000 ≤ Int.negSucc n := lower
      omega
    have hu := unsigned_decimal true (show n + 1 < 0x10000000000000000 by omega) h
    change unsigned true (ofChars (Digits.decimal (n + 1)) ++ rest) = _
    rw [hu, integer]
    simp only [if_true, dif_pos hn]
    rfl

end CameraChannel.Json.Number
