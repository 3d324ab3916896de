import CameraChannel.Json.Printer
import CameraChannel.Proofs.Json.Integers

/-!
What stands between the values of a JSON text: blanks, commas, colons and brackets, in any layout
whose blanks are white space.
-/
namespace CameraChannel.Json

open Utf8 (ofChars)

/-- White space of JSON text. -/
def Blank (cs : List Char) : Prop := ∀ c ∈ cs, c = ' ' ∨ c = '\n'

structure Layout.Blanks (l : Layout) : Prop where
  opening : ∀ d, Blank (l.opening d)
  afterComma : ∀ d, Blank (l.afterComma d)
  afterColon : Blank l.afterColon
  closing : ∀ d, Blank (l.closing d)

theorem blank_nil : Blank [] := by simp [Blank]

theorem blank_newLine (d : Nat) : Blank (Layout.newLine d) := by
  intro c hc
  obtain rfl | hc := List.mem_cons.1 hc
  · exact .inr rfl
  · exact .inl (List.eq_of_mem_replicate hc)

theorem Layout.compact_blanks : Layout.compact.Blanks :=
  ⟨fun _ => blank_nil, fun _ => blank_nil, blank_nil, fun _ => blank_nil⟩

theorem Layout.spaced_blanks : Layout.spaced.Blanks :=
  ⟨fun _ => blank_nil, fun _ => by simp [spaced, Blank], by simp [spaced, Blank],
    fun _ => blank_nil⟩

theorem Layout.pretty_blanks : Layout.pretty.Blanks :=
  ⟨blank_newLine, blank_newLine, by simp [pretty, Blank], blank_newLine⟩

theorem Blank.isSpace {cs : List Char} (h : Blank cs) :
    ∀ b ∈ ofChars cs, Scan.isSpace b = true := by
  intro b hb
  obtain ⟨c, hc, hb⟩ := List.mem_flatMap.1 hb
  obtain rfl | rfl := h c hc
  · rw [List.mem_singleton.1 (show b ∈ [0x20] from hb)]
    decide
  · rw [List.mem_singleton.1 (show b ∈ [0x0A] from hb)]
    decide

namespace Scan

theorem skipSpace_blank {cs : List Char} (h : Blank cs) (bs : Bytes) :
    skipSpace (ofChars cs ++ bs) = skipSpace bs :=
  List.dropWhile_append_of_pos h.isSpace

theorem skipSpace_cons {b : UInt8} (h : isSpace b = false) (bs : Bytes) :
    skipSpace (b :: bs) = b :: bs := by
  simp [skipSpace, h]

variable {cs : List Char} {b : UInt8}

theorem nextItem_close (h : Blank cs) (first : Bool) (rest : Bytes) :
    nextItem first (ofChars cs ++ ascii ']' :: rest) = .ok (.close rest) := by
  rw [nextItem, skipSpace_blank h, skipSpace_cons (by decide)]
  rfl

theorem nextItem_first (h : Blank cs) (hb : isSpace b = false) (hc : b ≠ ascii ']') (bs : Bytes) :
    nextItem true (ofChars cs ++ b :: bs) = .ok (.item (b :: bs)) := by
  rw [nextItem, skipSpace_blank h, skipSpace_cons hb]
  simp only [if_neg hc, if_true]

theorem nextItem_comma (h : Blank cs) (hb : isSpace b = false) (hc : b ≠ ascii ']') (bs : Bytes) :
    nextItem false (ascii ',' :: (ofChars cs ++ b :: bs)) = .ok (.item (b :: bs)) := by
  have hk : ascii ',' ≠ ascii ']' := by decide
  rw [nextItem, skipSpace_cons (by decide)]
  simp only [if_neg hk, Bool.false_eq_true, if_false, if_true, skipSpace_blank h, skipSpace_cons hb,
    if_neg hc]

theorem nextMember_close (h : Blank cs) (first : Bool) (rest : Bytes) :
    nextMember first (ofChars cs ++ ascii '\x7d' :: rest) = .ok (.close rest) := by
  rw [nextMember, skipSpace_blank h, skipSpace_cons (by decide)]
  rfl

theorem nextMember_first (h : Blank cs) (bs : Bytes) :
    nextMember true (ofChars cs ++ ascii '\x22' :: bs) = .ok (.item bs) := by
  rw [nextMember, skipSpace_blank h, skipSpace_cons (by decide)]
  rfl

theorem nextMember_comma (h : Blank cs) (bs : Bytes) :
    nextMember false (ascii ',' :: (ofChars cs ++ ascii '\x22' :: bs)) = .ok (.item bs) := by
  have hk : ascii ',' ≠ ascii '\x7d' := by decide
  rw [nextMember, skipSpace_cons (by decide)]
  simp only [if_neg hk, Bool.false_eq_true, if_false, if_true, skipSpace_blank h]
  rfl

theorem colon_cons (bs : Bytes) : colon (ascii ':' :: bs) = .ok bs := rfl

end Scan

namespace Number

theorem stops_cons {b : UInt8} (h : Scan.isDigit b = false ∧ b ≠ ascii '.' ∧ b ≠ ascii 'e' ∧
    b ≠ ascii 'E') (bs : Bytes) : Stops (b :: bs) := by
  intro x hx
  rw [List.head?_cons, Option.mem_some] at hx
  exact hx ▸ h

theorem stops_blank {cs : List Char} (h : Blank cs) {bs : Bytes} (hb : Stops bs) :
    Stops (ofChars cs ++ bs) := by
  cases cs with
  | nil => exact hb
  | cons c cs =>
    obtain rfl | rfl := h c (by simp)
    · exact stops_cons (by decide) _
    · exact stops_cons (by decide) _

end Number

end CameraChannel.Json
