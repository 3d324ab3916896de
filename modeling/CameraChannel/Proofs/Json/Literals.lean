import CameraChannel.Proofs.Json.Integers
import CameraChannel.Proofs.Json.Spans

/-!
Numbers of JSON text in any spelling. Whatever is read as a number is UTF-8, and what is read as an
integer is the integer as it is printed: without fraction and exponent there is one spelling only.
-/
namespace CameraChannel.Json.Number

open Utf8 (ofChars)

variable {bs rest : Bytes} {v : Json}

/-- A float is read. -/
def IsFloat (v : Json) : Prop := ∃ x, v = .float x

theorem floatOf_eq_ok {negative : Bool} {significand : Nat} {e : Int}
    (h : floatOf negative significand e bs = .ok (v, rest)) : IsFloat v ∧ rest = bs := by
  rw [floatOf] at h
  split at h
  · cases h
    exact ⟨⟨_, rfl⟩, rfl⟩
  · cases h

theorem exponentFrom_spans (n : Nat) (bs : Bytes) :
    (∀ e rest, exponentFrom n bs = .ok (e, rest) → Spans 0 bs rest) ∧
      ∀ rest, exponentFrom n bs = .error rest → Spans 0 bs rest := by
  fun_induction exponentFrom n bs with
  | case1 n => exact ⟨fun e rest h => (by cases h; exact .refl _), fun rest h => (by cases h)⟩
  | case2 n b bs hd hn ih =>
    have hb := Spans.byte (Scan.isDigit_ascii hd) bs
    exact ⟨fun e rest h => (hb.trans (ih.1 e rest h)).mono (Nat.zero_le _),
      fun rest h => (hb.trans (ih.2 rest h)).mono (Nat.zero_le _)⟩
  | case3 n b bs hd hn =>
    have hb := Spans.byte (Scan.isDigit_ascii hd) bs
    exact ⟨fun e rest h => (by cases h), fun rest h => by cases h; exact hb.mono (Nat.zero_le _)⟩
  | case4 n b bs hd =>
    exact ⟨fun e rest h => (by cases h; exact .refl _), fun rest h => (by cases h)⟩

theorem exponentSign_spans (bs : Bytes) : Spans 0 bs (exponentSign bs).2 := by
  cases bs with
  | nil => exact .refl []
  | cons b bs =>
    rw [exponentSign]
    split
    · next hb => exact (Spans.byte (hb ▸ by decide) bs).mono (Nat.zero_le _)
    · split
      · next hb => exact (Spans.byte (hb ▸ by decide) bs).mono (Nat.zero_le _)
      · exact .refl _

theorem exponent_eq_ok {negative : Bool} {significand : Nat} {start : Int}
    (h : exponent negative significand start bs = .ok (v, rest)) : IsFloat v ∧ Spans 0 bs rest := by
  rw [exponent] at h
  have hsign := exponentSign_spans bs
  generalize exponentSign bs = signed at h hsign
  obtain ⟨below, bs'⟩ := signed
  simp only at h hsign
  split at h
  · cases h
  · next b tail =>
    split at h
    · next hd =>
      have hb := hsign.trans (.byte (Scan.isDigit_ascii hd) tail)
      obtain ⟨hok, herror⟩ := exponentFrom_spans (digit b) tail
      split at h
      · next e after heq =>
        obtain ⟨hf, rfl⟩ := floatOf_eq_ok h
        exact ⟨hf, (hb.trans (hok e _ heq)).mono (Nat.zero_le _)⟩
      · next after heq =>
        have he := herror after heq
        split at h
        · cases h
        · cases h
          exact ⟨⟨_, rfl⟩,
            ((hb.trans he).trans (.dropWhile (fun _ => Scan.isDigit_ascii) after)).mono
              (Nat.zero_le _)⟩
    · cases h

theorem exponentMark_spans {tail : Bytes} (h : exponentMark bs = some tail) : Spans 0 bs tail := by
  cases bs with
  | nil => cases h
  | cons b bs =>
    rw [exponentMark] at h
    split at h
    · next hb =>
      cases h
      exact (Spans.byte (by obtain rfl | rfl := hb <;> decide) _).mono (Nat.zero_le _)
    · cases h

theorem fraction_eq_ok {negative : Bool} {significand : Nat} {start : Int}
    (h : fraction negative significand start bs = .ok (v, rest)) : IsFloat v ∧ Spans 0 bs rest := by
  have hd : Spans 0 bs (bs.dropWhile Scan.isDigit) := .dropWhile (fun _ => Scan.isDigit_ascii) bs
  rw [fraction] at h
  split at h
  · split at h <;> cases h
  · split at h
    · next tail hm =>
      obtain ⟨hf, hs⟩ := exponent_eq_ok h
      exact ⟨hf, (hd.trans (exponentMark_spans hm)).trans hs⟩
    · obtain ⟨hf, rfl⟩ := floatOf_eq_ok h
      exact ⟨hf, hd⟩

/-- Behind the integer part a float goes on, or an integer ends. -/
theorem afterWhole_eq_ok {negative : Bool} {w : Whole}
    (h : afterWhole negative w bs = .ok (v, rest)) : Spans 0 bs rest ∧
      (IsFloat v ∨ w.dropped = 0 ∧ v = integer negative w.value ∧ rest = bs) := by
  rw [afterWhole.eq_def] at h
  split at h
  · split at h
    · next hw =>
      cases h
      exact ⟨.refl _, .inr ⟨hw, rfl, rfl⟩⟩
    · obtain ⟨hf, rfl⟩ := floatOf_eq_ok h
      exact ⟨.refl _, .inl hf⟩
  · next b tail =>
    split at h
    · next hb =>
      obtain ⟨hf, hs⟩ := fraction_eq_ok h
      exact ⟨((Spans.byte (hb ▸ by decide) tail).trans hs).mono (Nat.zero_le _), .inl hf⟩
    split at h
    · next hb =>
      obtain ⟨hf, hs⟩ := exponent_eq_ok h
      have hbyte : Spans 1 (b :: tail) tail := .byte (by obtain rfl | rfl := hb <;> decide) _
      exact ⟨(hbyte.trans hs).mono (Nat.zero_le _), .inl hf⟩
    split at h
    · next hw =>
      cases h
      exact ⟨.refl _, .inr ⟨hw, rfl, rfl⟩⟩
    · obtain ⟨hf, rfl⟩ := floatOf_eq_ok h
      exact ⟨.refl _, .inl hf⟩

theorem digitChar_digit {b : UInt8} (h : Scan.isDigit b = true) :
    digit b < 10 ∧ ascii (Digits.digitChar (digit b)) = b := by
  have hall : ∀ b, Scan.isDigit b = true →
      digit b < 10 ∧ ascii (Digits.digitChar (digit b)) = b := Bytes.forall_byte (by decide +kernel)
  exact hall b h

theorem ofChars_digit {b : UInt8} (h : Scan.isDigit b = true) :
    ofChars [Digits.digitChar (digit b)] = [b] := by
  obtain ⟨hd, he⟩ := digitChar_digit h
  rw [Utf8.ofChars_cons, Digits.encode_digitChar (by omega), he]
  rfl

theorem foldl_push_dropped {ds : Bytes} {w : Whole} {n : Nat} (h : ds.foldl Whole.push w = ⟨n, 0⟩) :
    w.dropped = 0 := by
  induction ds generalizing w with
  | nil => exact congrArg Whole.dropped h
  | cons x ds ih =>
    have hx := ih h
    rw [Whole.push] at hx
    split at hx
    · next hw => exact hw.1
    · cases hx

/-- Digits that follow a number without a zero in front carry its decimal form on. -/
theorem decimal_of_foldl {ds : Bytes} {m n : Nat} (hm : 0 < m)
    (hds : ∀ x ∈ ds, Scan.isDigit x = true) (h : ds.foldl Whole.push ⟨m, 0⟩ = ⟨n, 0⟩) :
    ofChars (Digits.decimal n) = ofChars (Digits.decimal m) ++ ds := by
  induction ds generalizing m with
  | nil =>
    cases h
    rw [List.append_nil]
  | cons x ds ih =>
    have hx := hds x (by simp)
    have hlt := (digitChar_digit hx).1
    rw [List.foldl_cons] at h
    have hfits := foldl_push_dropped h
    simp only [Whole.push] at h hfits
    split at h
    · rw [ih (by omega) (fun y hy => hds y (by simp [hy])) h, Digits.decimal_large (by omega),
        show (m * 10 + digit x) / 10 = m by omega, show (m * 10 + digit x) % 10 = digit x by omega,
        Utf8.ofChars_append, ofChars_digit hx, List.append_assoc]
      rfl
    · next hno =>
      rw [if_neg hno] at hfits
      cases hfits

/-- Digits without a zero in front are the decimal form of the number that they stand for. -/
theorem decimal_of_digits {b : UInt8} {ds : Bytes} {n : Nat} (hb : Scan.isDigit b = true)
    (h0 : b ≠ ascii '0') (hds : ∀ x ∈ ds, Scan.isDigit x = true)
    (h : ds.foldl Whole.push ⟨digit b, 0⟩ = ⟨n, 0⟩) : ofChars (Digits.decimal n) = b :: ds := by
  obtain ⟨hlt, he⟩ := digitChar_digit hb
  have hpos : 0 < digit b := Nat.pos_of_ne_zero fun hz => h0 (by rw [← he, hz]; rfl)
  rw [decimal_of_foldl hpos hds h, Digits.decimal_small hlt, ofChars_digit hb]
  rfl

theorem unsigned_eq_ok {negative : Bool} (h : unsigned negative bs = .ok (v, rest)) :
    Spans 0 bs rest ∧
      (IsFloat v ∨ ∃ n, v = integer negative n ∧ bs = ofChars (Digits.decimal n) ++ rest) := by
  rw [unsigned.eq_def] at h
  split at h
  · cases h
  · next b bs =>
    split at h
    · next hb =>
      have hzero : Spans 1 (b :: bs) bs := .byte (hb ▸ by decide) bs
      have key : afterWhole negative ⟨0, 0⟩ bs = .ok (v, rest) := by
        split at h
        · exact h
        · split at h
          · cases h
          · exact h
      obtain ⟨hs, hf | ⟨-, rfl, rfl⟩⟩ := afterWhole_eq_ok key
      · exact ⟨(hzero.trans hs).mono (Nat.zero_le _), .inl hf⟩
      · exact ⟨hzero.mono (Nat.zero_le _), .inr ⟨0, rfl, by rw [hb]; rfl⟩⟩
    split at h
    · next h0 hd =>
      obtain ⟨hs, hv⟩ := afterWhole_eq_ok h
      have hspan := (Spans.byte (Scan.isDigit_ascii hd) bs).trans
        (.dropWhile (fun _ => Scan.isDigit_ascii) bs)
      refine ⟨(hspan.trans hs).mono (Nat.zero_le _), hv.imp_right ?_⟩
      rintro ⟨hdrop, rfl, rfl⟩
      generalize hw : (bs.takeWhile Scan.isDigit).foldl Whole.push ⟨digit b, 0⟩ = w at hdrop
      obtain ⟨value, dropped⟩ := w
      cases hdrop
      have hdec := decimal_of_digits hd h0
        (fun x hx => List.all_eq_true.1 List.all_takeWhile x hx) hw
      refine ⟨value, rfl, ?_⟩
      rw [hdec, List.cons_append, List.takeWhile_append_dropWhile]
    · cases h

theorem integer_eq {negative : Bool} {n : Nat} {i : Integer} (h : integer negative n = .integer i) :
    Digits.signed i.val = if negative then '-' :: Digits.decimal n else Digits.decimal n := by
  rw [integer] at h
  cases negative with
  | true =>
    simp only [if_true] at h ⊢
    split at h
    · next hn =>
      cases h
      obtain ⟨k, rfl⟩ : ∃ k, n = k + 1 := ⟨n - 1, by omega⟩
      rfl
    · cases h
  | false =>
    simp only [Bool.false_eq_true, if_false] at h ⊢
    split at h
    · cases h
      rfl
    · cases h

theorem integer_kind (negative : Bool) (n : Nat) :
    IsFloat (integer negative n) ∨ ∃ i, integer negative n = .integer i := by
  rw [integer]
  split
  · split
    · exact .inr ⟨_, rfl⟩
    · exact .inl ⟨_, rfl⟩
  · split
    · exact .inr ⟨_, rfl⟩
    · exact .inl ⟨_, rfl⟩

/-- A number is a float or an integer. -/
theorem read_kind (h : read bs = .ok (v, rest)) : IsFloat v ∨ ∃ i, v = .integer i := by
  rw [read.eq_def] at h
  split at h
  · cases h
  · split at h
    · obtain ⟨-, hf | ⟨n, rfl, -⟩⟩ := unsigned_eq_ok h
      · exact .inl hf
      · exact integer_kind true n
    · obtain ⟨-, hf | ⟨n, rfl, -⟩⟩ := unsigned_eq_ok h
      · exact .inl hf
      · exact integer_kind false n

/-- What is read as a number is UTF-8. -/
theorem read_spans (h : read bs = .ok (v, rest)) : Spans 0 bs rest := by
  rw [read.eq_def] at h
  split at h
  · cases h
  · next b bs =>
    split at h
    · next hb =>
      exact ((Spans.byte (hb ▸ by decide) bs).trans (unsigned_eq_ok h).1).mono (Nat.zero_le _)
    · exact (unsigned_eq_ok h).1

/-- An integer is read from nothing but the text that it is printed as. -/
theorem read_integer {i : Integer} (h : read bs = .ok (.integer i, rest)) :
    bs = ofChars (Digits.signed i.val) ++ rest := by
  rw [read.eq_def] at h
  split at h
  · cases h
  · next b bs =>
    split at h
    · next hb =>
      obtain ⟨-, ⟨x, hx⟩ | ⟨n, hn, hbs⟩⟩ := unsigned_eq_ok h
      · cases hx
      · rw [integer_eq hn.symm, if_pos rfl, Utf8.ofChars_cons, List.append_assoc, ← hbs, hb]
        rfl
    · obtain ⟨-, ⟨x, hx⟩ | ⟨n, hn, hbs⟩⟩ := unsigned_eq_ok h
      · cases hx
      · rw [integer_eq hn.symm, if_neg (by decide), ← hbs]

end CameraChannel.Json.Number
