import Mathlib.Algebra.Order.Ring.Nat
import CameraChannel.Proofs.Json.Strings
import CameraChannel.Proofs.Text.Utf8

/-!
Strings of JSON text in any spelling. A string that is read stands in UTF-8, since what it stands
for is UTF-8, and no spelling is shorter than the one that is printed.
-/
namespace CameraChannel.Json

open Utf8 (ofChars decodeFrom)

namespace Scan

theorem before_eq_ok {out content rest : Bytes} {r : Read Bytes}
    (h : before out r = .ok (content, rest)) :
    ∃ tail, r = .ok (tail, rest) ∧ content = out ++ tail := by
  cases r with
  | error f => cases h
  | ok v =>
    cases h
    exact ⟨_, rfl, rfl⟩

/-- A text up to the quote that closes it, with `rest` behind, and the bytes that it stands for. -/
inductive Spelled (rest : Bytes) : Bytes → Bytes → Prop where
  | close : Spelled rest (ascii '\x22' :: rest) []
  | plain {b : UInt8} {bs content : Bytes} (h : Plain b) (later : Spelled rest bs content) :
      Spelled rest (b :: bs) (b :: content)
  | escaped {t bs content : Bytes} (c : Char) (h : ∀ b ∈ t, b.toNat < 0x80)
      (long : (ofChars (escape c)).length ≤ t.length) (later : Spelled rest bs content) :
      Spelled rest (t ++ bs) (String.utf8EncodeChar c ++ content)

theorem length_escape_le (c : Char) : (ofChars (escape c)).length ≤ 6 := by
  have hv := Utf8.char_bounds c
  unfold escape
  split
  · decide
  split
  · decide
  split
  · decide
  split
  · decide
  split
  · decide
  split
  · decide
  split
  · decide
  split
  · simp only [Utf8.ofChars_cons, Utf8.ofChars_nil,
      Digits.encode_digitChar (show c.toNat / 16 < 16 by omega),
      Digits.encode_digitChar (show c.toNat % 16 < 16 by omega)]
    exact Nat.le_refl 6
  · rw [Utf8.ofChars_cons, Utf8.ofChars_nil, List.append_nil, String.length_utf8EncodeChar]
    exact Nat.le_trans (Char.utf8Size_le_four c) (by decide)

theorem shortEscape_eq_some {e b : UInt8} (h : shortEscape e = some b) : e.toNat < 0x80 ∧
    b.toNat < 0x80 ∧ (ofChars (escape (Char.ofNat b.toNat))).length ≤ 2 := by
  have hall : ∀ e, ∀ b ∈ shortEscape e, e.toNat < 0x80 ∧
      b.toNat < 0x80 ∧ (ofChars (escape (Char.ofNat b.toNat))).length ≤ 2 :=
    Bytes.forall_byte (by decide +kernel)
  exact hall e b h

theorem hexDigit?_ascii {b : UInt8} {d : Nat} (h : hexDigit? b = some d) : b.toNat < 0x80 := by
  unfold hexDigit? at h
  simp only at h
  split at h
  · omega
  split at h
  · omega
  split at h
  · omega
  · cases h

theorem unit?_ascii {a b c d : UInt8} {u : Nat} (h : unit? a b c d = some u) :
    a.toNat < 0x80 ∧ b.toNat < 0x80 ∧ c.toNat < 0x80 ∧ d.toNat < 0x80 := by
  simp only [unit?, bind, Option.bind_eq_some_iff] at h
  obtain ⟨_, ha, _, hb, _, hc, _, hd, -⟩ := h
  exact ⟨hexDigit?_ascii ha, hexDigit?_ascii hb, hexDigit?_ascii hc, hexDigit?_ascii hd⟩

theorem spelled_of_stringBytes {bs content rest : Bytes}
    (h : stringBytes bs = .ok (content, rest)) : Spelled rest bs content := by
  have hu : (ascii '\\').toNat < 0x80 ∧ (ascii 'u').toNat < 0x80 := by decide
  fun_induction stringBytes bs generalizing content with
  | case2 => cases h; exact .close
  | case4 e bs c he _ ih =>
    -- one letter behind the backslash
    obtain ⟨tail, ht, rfl⟩ := before_eq_ok h
    obtain ⟨hascii, hc, hlen⟩ := shortEscape_eq_some he
    rw [← Utf8.encode_ascii hc]
    exact .escaped (t := [ascii '\\', e]) _ (by simp [hu, hascii]) hlen (ih ht)
  | case10 h₁ h₂ h₃ h₄ u hunit _ _ l₁ l₂ l₃ l₄ bs v hunit' _ _ _ ih =>
    obtain ⟨tail, ht, hcontent⟩ := before_eq_ok h
    have hlen : (ofChars (escape (pair u v))).length ≤ 12 :=
      Nat.le_trans (length_escape_le _) (by decide)
    rw [hcontent]
    refine .escaped
      (t := [ascii '\\', ascii 'u', h₁, h₂, h₃, h₄, ascii '\\', ascii 'u', l₁, l₂, l₃, l₄])
      _ ?_ hlen (ih ht)
    simp [hu, unit?_ascii hunit, unit?_ascii hunit']
  | case15 h₁ h₂ h₃ h₄ bs u hunit _ _ _ _ ih =>
    obtain ⟨tail, ht, rfl⟩ := before_eq_ok h
    refine .escaped (t := [ascii '\\', ascii 'u', h₁, h₂, h₃, h₄]) _ ?_ (length_escape_le _) (ih ht)
    simp [hu, unit?_ascii hunit]
  | case19 b bs hq hb hc ih =>
    obtain ⟨tail, ht, rfl⟩ := before_eq_ok h
    exact .plain ⟨hq, hb, hc⟩ (ih ht)
  | _ => cases h

/-- How many bytes a byte of a string's content takes inside quotes. -/
def quotedSize (b : UInt8) : Nat :=
  if b.toNat < 0x80 then (ofChars (escape (Char.ofNat b.toNat))).length else 1

theorem quotedSize_plain {b : UInt8} (h : Plain b) : quotedSize b = 1 := by
  have hall : ∀ b, b ≠ ascii '\x22' → b ≠ ascii '\\' → ¬b < 0x20 → quotedSize b = 1 :=
    Bytes.forall_byte (by decide +kernel)
  exact hall b h.1 h.2.1 h.2.2

theorem sum_quotedSize (c : Char) :
    ((String.utf8EncodeChar c).map quotedSize).sum = (ofChars (escape c)).length := by
  by_cases hc : c.toNat < 0x80
  · have he : String.utf8EncodeChar c = [UInt8.ofNat c.toNat] := by
      rw [Utf8.encode_eq_codes, Utf8.codes, if_pos (by omega)]
      rfl
    rw [he, List.map_singleton, List.sum_singleton, quotedSize, Utf8.toNat_ofNat (by omega),
      if_pos hc, Char.ofNat_toNat]
  · have hne : ∀ x : Char, x.toNat < 0x80 → c ≠ x := fun x hx e => hc (e ▸ hx)
    have hplain := plain_encode (by omega) (hne _ (by decide)) (hne _ (by decide))
    have hself : escape c = [c] := by
      unfold escape
      rw [if_neg (hne _ (by decide)), if_neg (hne _ (by decide)), if_neg (hne _ (by decide)),
        if_neg (hne _ (by decide)), if_neg (hne _ (by decide)), if_neg (hne _ (by decide)),
        if_neg (hne _ (by decide)), if_neg (by omega)]
    have hones : (String.utf8EncodeChar c).map quotedSize =
        List.replicate (String.utf8EncodeChar c).length 1 := by
      rw [← List.map_const']
      exact List.map_congr_left fun b hb => quotedSize_plain (hplain b hb)
    rw [hones, hself, List.sum_replicate_nat, Nat.mul_one, Utf8.ofChars_cons, Utf8.ofChars_nil,
      List.append_nil]

theorem sum_quotedSize_ofChars (cs : List Char) :
    ((ofChars cs).map quotedSize).sum = (ofChars (cs.flatMap escape)).length := by
  induction cs with
  | nil => rfl
  | cons c cs ih =>
    rw [Utf8.ofChars_cons, List.map_append, List.sum_append, sum_quotedSize, ih, List.flatMap_cons,
      Utf8.ofChars_append, List.length_append]

namespace Spelled

variable {rest bs content : Bytes}

/-- No spelling is shorter than the one that is printed. -/
theorem length_le (h : Spelled rest bs content) :
    (content.map quotedSize).sum + 1 + rest.length ≤ bs.length := by
  induction h with
  | close => simp; omega
  | plain h _ ih =>
    rw [List.map_cons, List.sum_cons, quotedSize_plain h, List.length_cons]
    omega
  | escaped c _ long _ ih =>
    rw [List.map_append, List.sum_append, sum_quotedSize, List.length_append]
    omega

/-- A text is UTF-8 if what it stands for is: an escape stands for a whole character, so none can
stand inside another. -/
theorem decodes (h : Spelled rest bs content) {here : Option Utf8.Pending} (hr : Utf8.Reached here)
    (hd : (decodeFrom here content).isSome) :
    ∃ t, bs = t ++ rest ∧ (decodeFrom here t).isSome := by
  induction h generalizing here with
  | close =>
    cases here with
    | none => exact ⟨[ascii '\x22'], rfl, rfl⟩
    | some p => cases hd
  | @plain b bs content hb _ ih =>
    obtain ⟨there, hr', hstep⟩ | hstop := Utf8.decodeFrom_step here b
    · rw [hstep] at hd
      obtain ⟨t, rfl, ht⟩ := ih hr' hd
      exact ⟨b :: t, rfl, by rw [hstep, ht]⟩
    · rw [hstop] at hd
      cases hd
  | @escaped t bs content c ht _ _ ih =>
    cases here with
    | none =>
      rw [Utf8.decodeFrom_encode, Option.isSome_map] at hd
      obtain ⟨u, rfl, hu⟩ := ih hr hd
      refine ⟨t ++ u, (List.append_assoc _ _ _).symm, ?_⟩
      rw [← Utf8.ofChars_ascii ht]
      obtain ⟨cs, hcs⟩ := Option.isSome_iff_exists.1 hu
      rw [Utf8.ofChars_of_decodeFrom hcs, ← Utf8.ofChars_append]
      exact Option.isSome_iff_exists.2 ⟨_, Utf8.decode?_ofChars _⟩
    | some p =>
      rw [Utf8.next_encode c _ hr.1 hr.2] at hd
      cases hd

end Spelled

/-- A string that is read stands in UTF-8, and takes no less than when it is printed. -/
theorem text_of_string {bs rest : Bytes} {s : String} (h : string bs = .ok (s, rest)) :
    ∃ cs, bs = ofChars cs ++ rest ∧
      (ofChars (s.toList.flatMap escape)).length + 1 ≤ (ofChars cs).length := by
  rw [string] at h
  cases hb : stringBytes bs with
  | error f => rw [hb] at h; cases h
  | ok v =>
    obtain ⟨content, rest'⟩ := v
    rw [hb] at h
    simp only [bind, Except.bind] at h
    split at h
    · next s' hs =>
      cases h
      have hcontent := Utf8.toString?_eq_some.1 hs
      have hspelled := spelled_of_stringBytes hb
      have hlen := hspelled.length_le
      have hreached : Utf8.Reached none := trivial
      obtain ⟨t, rfl, ht⟩ := hspelled.decodes hreached
        (by rw [hcontent]; exact Option.isSome_iff_exists.2 ⟨_, Utf8.decode?_ofChars _⟩)
      obtain ⟨cs, hcs⟩ := Option.isSome_iff_exists.1 ht
      rw [Utf8.ofChars_of_decodeFrom hcs] at hlen ⊢
      refine ⟨cs, rfl, ?_⟩
      rw [hcontent, Utf8.ofString, sum_quotedSize_ofChars, List.length_append] at hlen
      omega
    · cases h

end Scan
end CameraChannel.Json
