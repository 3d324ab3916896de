import CameraChannel.Json.Typed
import CameraChannel.Proofs.Json.Values

/-!
Values of a given type read from their text.
-/
namespace CameraChannel.Json.Typed

open Number (Stops)
open Utf8 (ofChars)

variable {l : Layout} {d : Nat} {cs : List Char}

theorem integer_taken (h : Blank cs) (n : Integer) {low high : Int}
    (hn : low ≤ n.val ∧ n.val ≤ high) (expected : String) {rest : Bytes} (hs : Stops rest) :
    integer low high expected (ofChars cs ++ (ofChars (render l d (.integer n)) ++ rest)) =
      .ok (n.val, rest) := by
  obtain ⟨b, bs, hb, hst⟩ := Number.signed_starts n.val rest
  have hr := Number.read_signed n hs
  rw [hb] at hr
  have ht : ofChars (render l d (.integer n)) ++ rest = b :: bs := by
    rw [← hb]
    rfl
  rw [ht, integer, Scan.skipSpace_blank h, Scan.skipSpace_cons (Number.starts_ne hst).1]
  simp only [hst, if_true, hr, bind, Except.bind, if_pos hn]

theorem int64_taken (h : Blank cs) (n : Int64) {rest : Bytes} (hs : Stops rest) :
    int64 (ofChars cs ++ (ofChars (render l d (.ofInt64 n)) ++ rest)) = .ok (n, rest) := by
  have hn : -0x8000000000000000 ≤ n.toInt ∧ n.toInt ≤ 0x7fffffffffffffff :=
    ⟨Int64.le_toInt n, Int64.toInt_le n⟩
  rw [int64, ofInt64, integer_taken h _ hn _ hs]
  simp [Except.map]

theorem uint64_taken (h : Blank cs) (n : UInt64) {rest : Bytes} (hs : Stops rest) :
    uint64 (ofChars cs ++ (ofChars (render l d (.ofUInt64 n)) ++ rest)) = .ok (n, rest) := by
  have hn : 0 ≤ (n.toNat : Int) ∧ (n.toNat : Int) ≤ 0xffffffffffffffff := by
    have := n.toNat_lt
    omega
  rw [uint64, ofUInt64, integer_taken h _ hn _ hs]
  simp [Except.map]

theorem uint16_taken (h : Blank cs) (n : UInt16) {rest : Bytes} (hs : Stops rest) :
    uint16 (ofChars cs ++ (ofChars (render l d (.ofUInt16 n)) ++ rest)) = .ok (n, rest) := by
  have hn : 0 ≤ (n.toUInt64.toNat : Int) ∧ (n.toUInt64.toNat : Int) ≤ 0xffff := by
    have := n.toNat_lt
    rw [UInt16.toNat_toUInt64]
    omega
  rw [uint16, ofUInt16, ofUInt64, integer_taken h _ hn _ hs]
  simp [Except.map]

theorem bool_taken (h : Blank cs) (b : Bool) (rest : Bytes) :
    bool (ofChars cs ++ (ofChars (render l d (.bool b)) ++ rest)) = .ok (b, rest) := by
  rw [bool, Scan.skipSpace_blank h]
  cases b <;> rfl

/-- The text of a string opens with a quote. -/
theorem string_opens (s : String) (rest : Bytes) : ofChars (render l d (.string s)) ++ rest =
    ascii '\x22' :: (ofChars (s.toList.flatMap escape) ++ ascii '\x22' :: rest) := by
  change ofChars (quote s) ++ rest = _
  rw [ofChars_quote, List.cons_append, List.append_assoc]
  rfl

theorem string_taken (h : Blank cs) (s expected : String) (rest : Bytes) :
    string expected (ofChars cs ++ (ofChars (render l d (.string s)) ++ rest)) = .ok (s, rest) := by
  rw [string_opens, string, Scan.skipSpace_blank h, Scan.skipSpace_cons (by decide)]
  simp only [if_true, Scan.string_quoted]

theorem optional_string_taken (h : Blank cs) (s expected : String) (rest : Bytes) :
    optional (string expected) (ofChars cs ++ (ofChars (render l d (.string s)) ++ rest)) =
      .ok (some s, rest) := by
  have hq : ascii '\x22' ≠ ascii 'n' := by decide
  have hs := string_taken (l := l) (d := d) blank_nil s expected rest
  rw [Utf8.ofChars_nil, List.nil_append, string_opens] at hs
  rw [string_opens, optional, Scan.skipSpace_blank h, Scan.skipSpace_cons (by decide)]
  simp only [if_neg hq, hs]
  rfl

theorem array_taken {α : Type} {one : Bytes → Read α} {f : α → Json} {as : List α} (hl : l.Blanks)
    (hf : ∀ a ∈ as, Integral (f a)) (ho : ∀ a ∈ as, Scan.Takes l (d + 1) one f a) (h : Blank cs)
    (rest : Bytes) :
    array one (ofChars cs ++ (ofChars (render l d (.array (as.map f))) ++ rest)) =
      .ok (as, rest) := by
  have hmap : ∀ v ∈ as.map f, Integral v := by simpa using hf
  have hlen := Scan.length_le_itemsText l (d + 1) true hmap
  rw [List.length_map] at hlen
  have ht : ofChars (render l d (.array (as.map f))) ++ rest =
      ascii '[' :: (ofChars (itemsText l (d + 1) true (as.map f)) ++
        (ofChars (l.ending d (as.map f).isEmpty) ++ ascii ']' :: rest)) := by
    rw [render_array]
    simp only [Utf8.ofChars_cons, Utf8.ofChars_append, List.append_assoc]
    rfl
  rw [ht, array, Scan.skipSpace_blank h, Scan.skipSpace_cons (by decide)]
  simp only [if_true]
  exact Scan.items_taken one hl hf ho (by rw [List.length_append]; omega) (hl.ending d _) true rest

end CameraChannel.Json.Typed
