import Mathlib.Algebra.Order.Ring.Nat
import CameraChannel.Proofs.Capture.Calendar
import CameraChannel.Proofs.Decimal.Digits
import CameraChannel.Proofs.Text.Order

/-!
Names of captures. Main statements: in the years from 0 to 9999 the names stand in the order of
their moments, and in all years different moments have different names.
-/
namespace CameraChannel

namespace Digits

theorem ofChars_digit {d : Nat} (h : d < 10) :
    Utf8.ofChars [digitChar d] = [ascii (digitChar d)] := by
  rw [Utf8.ofChars_cons, encode_digitChar (by omega)]
  rfl

/-- The bytes of a number in so many digits. -/
theorem length_ofChars_padded {width n : Nat} (h : 0 < width) (hn : n < 10 ^ width) :
    (Utf8.ofChars (padded width n)).length = width := by
  induction width generalizing n with
  | zero => omega
  | succ width ih =>
    cases width with
    | zero =>
      have h10 : n < 10 := by simpa using hn
      simp [padded, decimal_small h10, encode_digitChar (show n < 16 by omega)]
    | succ k =>
      rw [Nat.pow_succ] at hn
      rw [padded_succ (by omega), Utf8.ofChars_append, ofChars_digit (by omega), List.length_append,
        ih (by omega) (by omega)]
      rfl

/-- With as many digits, a smaller number stands first. -/
theorem padded_lt {width m n : Nat} (h : 0 < width) (hn : n < 10 ^ width) (hmn : m < n) :
    Utf8.ofChars (padded width m) < Utf8.ofChars (padded width n) := by
  have digit : ∀ d e : Fin 10, d.val < e.val →
      [ascii (digitChar d.val)] < [ascii (digitChar e.val)] := by decide
  induction width generalizing m n with
  | zero => omega
  | succ width ih =>
    cases width with
    | zero =>
      have h10 : n < 10 := by simpa using hn
      simp only [padded, decimal_small h10, decimal_small (show m < 10 by omega), List.length_cons,
        List.length_nil, Nat.sub_self, List.replicate_zero, List.nil_append,
        ofChars_digit h10, ofChars_digit (show m < 10 by omega)]
      exact digit ⟨m, by omega⟩ ⟨n, h10⟩ hmn
    | succ k =>
      have hn' : n / 10 < 10 ^ (k + 1) := by
        rw [Nat.pow_succ] at hn
        omega
      have hlm := length_ofChars_padded (Nat.succ_pos k) (show m / 10 < 10 ^ (k + 1) by omega)
      have hln := length_ofChars_padded (Nat.succ_pos k) hn'
      rw [padded_succ (Nat.succ_pos k), padded_succ (Nat.succ_pos k), Utf8.ofChars_append,
        Utf8.ofChars_append, Bytes.append_lt_append (hlm.trans hln.symm),
        ofChars_digit (by omega), ofChars_digit (by omega)]
      by_cases hq : m / 10 < n / 10
      · exact .inl (ih (Nat.succ_pos k) hn' hq)
      · refine .inr ⟨by rw [show m / 10 = n / 10 by omega], ?_⟩
        exact digit ⟨m % 10, by omega⟩ ⟨n % 10, by omega⟩ (show m % 10 < n % 10 by omega)

/-- A number in so many digits decides, or else what follows it. -/
theorem padded_append_lt {width m n : Nat} (h : 0 < width) (hm : m < 10 ^ width)
    (hn : n < 10 ^ width) {x y : Bytes} (hlt : m < n ∨ m = n ∧ x < y) :
    Utf8.ofChars (padded width m) ++ x < Utf8.ofChars (padded width n) ++ y := by
  have hlm := length_ofChars_padded h hm
  have hln := length_ofChars_padded h hn
  rw [Bytes.append_lt_append (hlm.trans hln.symm)]
  obtain hlt | ⟨rfl, hxy⟩ := hlt
  · exact .inl (padded_lt h hn hlt)
  · exact .inr ⟨rfl, hxy⟩

end Digits

namespace Capture

open Digits (padded padded_append_lt)
open Utf8 (ofChars ofString Before)

namespace Moment

/-- The years that are written in four digits. -/
def InFourDigits (t : Moment) : Prop := 0 ≤ t.year ∧ t.year ≤ 9999

instance (t : Moment) : Decidable t.InFourDigits := inferInstanceAs (Decidable (_ ∧ _))

variable {t u : Moment}

theorem InFourDigits.yearText (h : t.InFourDigits) : yearText t.year = padded 4 t.year.toNat := by
  obtain ⟨h0, h9⟩ := h
  obtain ⟨n, hn⟩ := Int.eq_ofNat_of_zero_le h0
  rw [hn] at h9 ⊢
  exact if_pos (show n ≤ 9999 by omega)

/-- A year is read back from its text. -/
theorem readSigned?_yearText (y : Int) : Digits.readSigned? (Moment.yearText y) = some y := by
  cases y with
  | ofNat n =>
    rw [Moment.yearText]
    split
    · have hr := Digits.read?_padded 4 n
      -- a digit is no sign
      have hd := Digits.isSome_value?_of_mem_padded 4 n
      generalize padded 4 n = cs at hr hd
      unfold Digits.readSigned?
      split
      · exact absurd (hd '-' List.mem_cons_self) (by decide)
      · exact absurd (hd '+' List.mem_cons_self) (by decide)
      · rw [hr]
        rfl
    · rw [Digits.readSigned?, Digits.read?_padded]
      rfl
  | negSucc n =>
    rw [Moment.yearText, Digits.readSigned?, Digits.read?_padded]
    rfl

/-- The part of a stamp behind the year. -/
def yearless (t : Moment) : List Char :=
  padded 2 t.month ++ padded 2 t.day ++ '_' ::
    (padded 2 t.hour ++ padded 2 t.minute ++ padded 2 t.second)

theorem stamp_eq (t : Moment) : t.stamp = Moment.yearText t.year ++ t.yearless := by
  simp [stamp, yearless]

theorem ofChars_yearless (t : Moment) : ofChars t.yearless = ofChars (padded 2 t.month) ++
    (ofChars (padded 2 t.day) ++ (ofChars ['_'] ++ (ofChars (padded 2 t.hour) ++
      (ofChars (padded 2 t.minute) ++ ofChars (padded 2 t.second))))) := by
  simp [yearless]

/-- Every field but the year has two digits. -/
theorem IsValid.two_digits (h : t.IsValid) : t.month < 10 ^ 2 ∧ t.day < 10 ^ 2 ∧
    t.hour < 10 ^ 2 ∧ t.minute < 10 ^ 2 ∧ t.second < 10 ^ 2 := by
  obtain ⟨-, -, -, hm, -, hd, hh, hmi, hs⟩ := h
  have hle : daysIn t.year t.month ≤ 31 := by
    unfold daysIn
    split
    · split <;> decide
    all_goals decide
  omega

theorem length_yearless (h : t.IsValid) : (ofChars t.yearless).length = 11 := by
  obtain ⟨hm, hd, hh, hmi, hs⟩ := h.two_digits
  have hlen : ∀ {n}, n < 10 ^ 2 → (ofChars (padded 2 n)).length = 2 :=
    Digits.length_ofChars_padded (by decide)
  rw [ofChars_yearless]
  simp only [List.length_append, hlen hm, hlen hd, hlen hh, hlen hmi, hlen hs]
  rfl

/-- The parts behind the year stand in the order of the calendar. -/
theorem yearless_lt (ht : t.IsValid) (hu : u.IsValid) (h : t.PrecedesInYear u) (x : Bytes) :
    ofChars t.yearless ++ x < ofChars u.yearless ++ x := by
  obtain ⟨hm, hd, hh, hmi, hs⟩ := ht.two_digits
  obtain ⟨hm', hd', hh', hmi', hs'⟩ := hu.two_digits
  rw [ofChars_yearless, ofChars_yearless]
  simp only [List.append_assoc]
  refine padded_append_lt (by decide) hm hm' (h.imp_right (.imp_right fun h => ?_))
  refine padded_append_lt (by decide) hd hd' (h.imp_right (.imp_right fun h => ?_))
  rw [Bytes.lt_append_left]
  refine padded_append_lt (by decide) hh hh' (h.imp_right (.imp_right fun h => ?_))
  refine padded_append_lt (by decide) hmi hmi' (h.imp_right (.imp_right fun h => ?_))
  exact padded_append_lt (by decide) hs hs' (.inl h)

/-- The stamps of the years in four digits stand in the order of the calendar. -/
theorem stamp_lt (ht : t.IsValid) (hu : u.IsValid) (ht4 : t.InFourDigits) (hu4 : u.InFourDigits)
    (h : t.Precedes u) (x : Bytes) : ofChars t.stamp ++ x < ofChars u.stamp ++ x := by
  rw [stamp_eq, stamp_eq, ht4.yearText, hu4.yearText, Utf8.ofChars_append, Utf8.ofChars_append,
    List.append_assoc, List.append_assoc]
  obtain ⟨h0, h9⟩ := ht4
  obtain ⟨h0', h9'⟩ := hu4
  refine padded_append_lt (by decide) (by omega) (by omega) ?_
  obtain hy | ⟨hy, h⟩ := h
  · exact .inl (by omega)
  · exact .inr ⟨by rw [hy], yearless_lt ht hu h x⟩

end Moment

namespace Artifact

variable {t u : Moment}

theorem ofString_name (t : Moment) :
    ofString (name t) = ofChars opening ++ (ofChars t.stamp ++ ofChars ending) := by
  simp [name, ofString]

/-- The opening has 15 bytes and the ending 5. -/
theorem size_named (middle : List Char) :
    (String.ofList (opening ++ middle ++ ending)).utf8ByteSize = (ofChars middle).length + 20 := by
  have hends : (ofChars opening).length = 15 ∧ (ofChars ending).length = 5 := by decide
  rw [← Utf8.length_ofString, ofString, String.toList_ofList, Utf8.ofChars_append,
    Utf8.ofChars_append, List.length_append, List.length_append, hends.1, hends.2]
  omega

/-- A name whose year has four digits is short. -/
theorem size_name (ht : t.IsValid) (ht4 : t.InFourDigits) : (name t).utf8ByteSize = 35 := by
  have hyear : (ofChars (padded 4 t.year.toNat)).length = 4 := by
    obtain ⟨h0, h9⟩ := ht4
    exact Digits.length_ofChars_padded (by decide) (by omega)
  rw [name, size_named, Moment.stamp_eq, ht4.yearText, Utf8.ofChars_append, List.length_append,
    Moment.length_yearless ht, hyear]

theorem name_before (ht : t.IsValid) (hu : u.IsValid) (ht4 : t.InFourDigits)
    (hu4 : u.InFourDigits) (h : t.Precedes u) : Before (name t) (name u) := by
  rw [Before, ofString_name, ofString_name, Bytes.lt_append_left]
  exact Moment.stamp_lt ht hu ht4 hu4 h _

/-- In the years from 0 to 9999 the names stand in the order of their moments. -/
theorem name_before_iff (ht : t.IsValid) (hu : u.IsValid) (ht4 : t.InFourDigits)
    (hu4 : u.InFourDigits) : Before (name t) (name u) ↔ t.seconds < u.seconds := by
  rw [Moment.seconds_lt_iff ht hu]
  refine ⟨fun h => ?_, name_before ht hu ht4 hu4⟩
  obtain rfl | hp | hp := Moment.precedes_total t u
  · exact absurd h (Before.irrefl _)
  · exact hp
  · exact absurd h (name_before hu ht hu4 ht4 hp).asymm

/-- Moments of any year with one name are the same. -/
theorem name_inj (ht : t.IsValid) (hu : u.IsValid) (h : name t = name u) : t = u := by
  have hb := congrArg ofString h
  rw [ofString_name, ofString_name, List.append_cancel_left_eq, List.append_cancel_right_eq,
    Moment.stamp_eq, Moment.stamp_eq, Utf8.ofChars_append, Utf8.ofChars_append] at hb
  obtain ⟨hyear, hrest⟩ := List.append_inj' hb
    ((Moment.length_yearless ht).trans (Moment.length_yearless hu).symm)
  have hy : t.year = u.year := by
    have hs : String.ofList (Moment.yearText t.year) = String.ofList (Moment.yearText u.year) :=
      Utf8.ofString_inj (by simpa [ofString] using hyear)
    have hr := congrArg Digits.readSigned? (String.ofList_inj.1 hs)
    rw [Moment.readSigned?_yearText, Moment.readSigned?_yearText] at hr
    exact Option.some.inj hr
  -- of two moments in one year the earlier has the smaller bytes
  have later : ∀ {a b : Moment}, a.IsValid → b.IsValid → a.Precedes b → a.year = b.year →
      ofChars a.yearless = ofChars b.yearless → False := by
    intro a b ha hb hp hy he
    obtain hlt | ⟨-, hp⟩ := hp
    · omega
    · have hlt := Moment.yearless_lt ha hb hp []
      rw [he] at hlt
      exact List.lt_irrefl _ hlt
  obtain rfl | hp | hp := Moment.precedes_total t u
  · rfl
  · exact absurd hrest (later ht hu hp hy)
  · exact absurd hrest.symm (later hu ht hp hy.symm)

end Artifact

end Capture

end CameraChannel
