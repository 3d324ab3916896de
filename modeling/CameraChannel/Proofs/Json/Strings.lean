import CameraChannel.Json.Printer
import CameraChannel.Json.Scan
import CameraChannel.Proofs.Decimal.Digits
import CameraChannel.Proofs.Text.Utf8

/-!
Strings of JSON text: what is quoted is read back, with any text behind the closing quote.
-/
namespace CameraChannel.Json

open Utf8 (ofChars)

namespace Scan

theorem before_before (a b : Bytes) (r : Read Bytes) :
    before a (before b r) = before (a ++ b) r := by
  cases r with
  | error f => rfl
  | ok v => simp [before, Except.map]

/-- A byte that stands for itself inside quotes. -/
def Plain (b : UInt8) : Prop := b ≠ ascii '\x22' ∧ b ≠ ascii '\\' ∧ ¬b < 0x20

theorem stringBytes_plain {b : UInt8} (h : Plain b) (bs : Bytes) :
    stringBytes (b :: bs) = before [b] (stringBytes bs) := by
  rw [stringBytes.eq_def]
  simp only [if_neg h.1, if_neg h.2.1, if_neg h.2.2]

theorem stringBytes_plains {ps : Bytes} (h : ∀ b ∈ ps, Plain b) (bs : Bytes) :
    stringBytes (ps ++ bs) = before ps (stringBytes bs) := by
  induction ps with
  | nil =>
    rw [List.nil_append]
    cases stringBytes bs <;> rfl
  | cons b ps ih =>
    rw [List.cons_append, stringBytes_plain (h b (by simp)), ih fun x hx => h x (by simp [hx]),
      before_before]
    rfl

theorem stringBytes_short {e c : UInt8} (h : shortEscape e = some c) (bs : Bytes) :
    stringBytes (ascii '\\' :: e :: bs) = before [c] (stringBytes bs) := by
  have hq : ascii '\\' ≠ ascii '\x22' := by decide
  rw [stringBytes.eq_def]
  simp only [if_neg hq, if_true, h]

theorem stringBytes_unit {a b c d : UInt8} {u : Nat} (h : unit? a b c d = some u) (hu : u < 0xD800)
    (bs : Bytes) :
    stringBytes (ascii '\\' :: ascii 'u' :: a :: b :: c :: d :: bs) =
      before (String.utf8EncodeChar (Char.ofNat u)) (stringBytes bs) := by
  have hl : isLowSurrogate u = false := by simp [isLowSurrogate]; omega
  have hh : isHighSurrogate u = false := by simp [isHighSurrogate]; omega
  have hq : ascii '\\' ≠ ascii '\x22' := by decide
  have hs : shortEscape (ascii 'u') = none := by decide
  rw [stringBytes.eq_def]
  simp only [if_neg hq, if_true, hs, h, hl, hh]
  rfl

theorem hexDigit?_digitChar {d : Nat} (h : d < 16) :
    hexDigit? (ascii (Digits.digitChar d)) = some d := by
  have : ∀ d : Fin 16, hexDigit? (ascii (Digits.digitChar d.val)) = some d.val := by decide
  exact this ⟨d, h⟩

theorem plain_ofNat {n : Nat} (h : 0x20 ≤ n) (hq : n ≠ 0x22) (hb : n ≠ 0x5C) (hn : n < 256) :
    Plain (UInt8.ofNat n) := by
  have hc := Utf8.toNat_ofNat hn
  refine ⟨fun e => hq ?_, fun e => hb ?_, fun e => ?_⟩
  · rw [← hc, e]; rfl
  · rw [← hc, e]; rfl
  · have := UInt8.lt_iff_toNat_lt.1 e
    rw [hc] at this
    exact absurd h (Nat.not_le.2 this)

/-- A character that is not escaped has bytes that stand for themselves. -/
theorem plain_encode {c : Char} (h : 0x20 ≤ c.toNat) (hq : c ≠ '\x22') (hb : c ≠ '\\') :
    ∀ b ∈ String.utf8EncodeChar c, Plain b := by
  have hv := Utf8.char_bounds c
  have hq' : c.toNat ≠ 0x22 := fun e => hq (Char.toNat_inj.1 e)
  have hb' : c.toNat ≠ 0x5C := fun e => hb (Char.toNat_inj.1 e)
  intro b hm
  rw [Utf8.encode_eq_codes, List.mem_map] at hm
  obtain ⟨n, hn, rfl⟩ := hm
  have hr : 0x20 ≤ n ∧ n ≠ 0x22 ∧ n ≠ 0x5C ∧ n < 256 := by
    unfold Utf8.codes at hn
    generalize c.toNat = k at *
    split at hn
    · simp only [List.mem_singleton] at hn
      omega
    · split at hn
      · simp only [List.mem_cons, List.not_mem_nil, or_false] at hn
        omega
      · split at hn
        · simp only [List.mem_cons, List.not_mem_nil, or_false] at hn
          omega
        · simp only [List.mem_cons, List.not_mem_nil, or_false] at hn
          omega
  exact plain_ofNat hr.1 hr.2.1 hr.2.2.1 hr.2.2.2

theorem unit?_control {n : Nat} (h : n < 0x20) :
    unit? (ascii '0') (ascii '0') (ascii (Digits.digitChar (n / 16)))
      (ascii (Digits.digitChar (n % 16))) = some n := by
  have h0 : hexDigit? (ascii '0') = some 0 := by decide
  simp only [unit?, h0, hexDigit?_digitChar (show n / 16 < 16 by omega),
    hexDigit?_digitChar (show n % 16 < 16 by omega), bind, Option.bind, pure]
  congr 1
  omega

/-- A character inside quotes is read as its bytes. -/
theorem stringBytes_escape (c : Char) (bs : Bytes) :
    stringBytes (ofChars (escape c) ++ bs) =
      before (String.utf8EncodeChar c) (stringBytes bs) := by
  unfold escape
  split
  · next h => subst h; exact stringBytes_short (by decide) bs
  split
  · next h => subst h; exact stringBytes_short (by decide) bs
  split
  · next h => subst h; exact stringBytes_short (by decide) bs
  split
  · next h => subst h; exact stringBytes_short (by decide) bs
  split
  · next h => subst h; exact stringBytes_short (by decide) bs
  split
  · next h => subst h; exact stringBytes_short (by decide) bs
  split
  · next h => subst h; exact stringBytes_short (by decide) bs
  split
  · next h =>
    have hu := stringBytes_unit (unit?_control h) (by omega) bs
    rw [Char.ofNat_toNat] at hu
    rw [← hu]
    simp only [Utf8.ofChars_cons, Utf8.ofChars_nil,
      Digits.encode_digitChar (show c.toNat / 16 < 16 by omega),
      Digits.encode_digitChar (show c.toNat % 16 < 16 by omega)]
    rfl
  · next hq hb _ _ _ _ _ h =>
    rw [Utf8.ofChars_cons, Utf8.ofChars_nil, List.append_nil]
    exact stringBytes_plains (plain_encode (by omega) hq hb) bs

theorem stringBytes_quoted (cs : List Char) (rest : Bytes) :
    stringBytes (ofChars (cs.flatMap escape) ++ ascii '\x22' :: rest) = .ok (ofChars cs, rest) := by
  induction cs with
  | nil =>
    rw [List.flatMap_nil, Utf8.ofChars_nil, List.nil_append, stringBytes.eq_def]
    exact if_pos rfl
  | cons c cs ih =>
    rw [List.flatMap_cons, Utf8.ofChars_append, List.append_assoc, stringBytes_escape, ih]
    rfl

/-- A quoted string read after its opening quote. -/
theorem string_quoted (s : String) (rest : Bytes) :
    string (ofChars (s.toList.flatMap escape) ++ ascii '\x22' :: rest) = .ok (s, rest) := by
  have ht := Utf8.toString?_ofChars s.toList
  rw [String.ofList_toList] at ht
  simp only [string, stringBytes_quoted, bind, Except.bind, ht]

end Scan

theorem ofChars_quote (s : String) :
    ofChars (quote s) = ascii '\x22' :: (ofChars (s.toList.flatMap escape) ++ [ascii '\x22']) := by
  rw [quote, Utf8.ofChars_cons, Utf8.ofChars_append]
  rfl

end CameraChannel.Json
