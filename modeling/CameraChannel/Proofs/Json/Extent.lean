import CameraChannel.Json.Reader
import CameraChannel.Proofs.Json.Containers
import CameraChannel.Proofs.Json.Literals

/-!
How much text a value takes. Main statement: what is taken off a text for a value is UTF-8 of at
least the length that the value has in compact layout, and its containers are nested no deeper than
the reader allows.
-/
namespace CameraChannel.Json

open Utf8 (ofChars)

mutual

/-- The least number of bytes that spell a value, its floats left out of account. -/
def extent : Json → Nat
  | .null => 4
  | .bool true => 4
  | .bool false => 5
  | .integer n => (ofChars (Digits.signed n.val)).length
  | .float _ => 0
  | .string s => (ofChars (quote s)).length
  | .array items => max 2 (extentItems items + 1)
  | .object members => max 2 (extentMembers members + 1)

/-- A comma is counted with every item. -/
def extentItems : List Json → Nat
  | [] => 0
  | v :: vs => extent v + 1 + extentItems vs

/-- A colon and a comma are counted with every member. -/
def extentMembers : List (String × Json) → Nat
  | [] => 0
  | (name, v) :: ms => (ofChars (quote name)).length + extent v + 2 + extentMembers ms

end

theorem length_quote (s : String) :
    (ofChars (quote s)).length = (ofChars (s.toList.flatMap escape)).length + 2 := by
  rw [ofChars_quote, List.length_cons, List.length_append, List.length_singleton]

theorem length_itemsText (vs : List Json)
    (h : ∀ v ∈ vs, ∀ d, extent v = (ofChars (render .compact d v)).length) (d : Nat) :
    (ofChars (itemsText .compact d false vs)).length = extentItems vs := by
  induction vs with
  | nil => rfl
  | cons v vs ih =>
    have hv := h v (by simp) d
    have hc : (String.utf8EncodeChar ',').length = 1 := rfl
    have hrest := ih fun x hx => h x (by simp [hx])
    simp only [itemsText, extentItems, Bool.false_eq_true, if_false, Layout.compact,
      List.cons_append, List.nil_append, Utf8.ofChars_cons, Utf8.ofChars_append,
      List.length_append] at hv hrest ⊢
    omega

theorem length_membersText (ms : List (String × Json))
    (h : ∀ m ∈ ms, ∀ d, extent m.2 = (ofChars (render .compact d m.2)).length) (d : Nat) :
    (ofChars (membersText .compact d false ms)).length = extentMembers ms := by
  induction ms with
  | nil => rfl
  | cons m ms ih =>
    obtain ⟨name, v⟩ := m
    have hv := h (name, v) (by simp) d
    have hc : (String.utf8EncodeChar ',').length = 1 ∧ (String.utf8EncodeChar ':').length = 1 :=
      ⟨rfl, rfl⟩
    have hrest := ih fun x hx => h x (by simp [hx])
    simp only [membersText, memberText, extentMembers, Bool.false_eq_true, if_false, Layout.compact,
      List.cons_append, List.nil_append, Utf8.ofChars_cons, Utf8.ofChars_append,
      List.length_append] at hv hrest ⊢
    omega

/-- The extent of a value without floats is the length of its compact text. -/
theorem extent_eq {v : Json} (h : Integral v) (d : Nat) :
    extent v = (ofChars (render .compact d v)).length := by
  induction h generalizing d with
  | null => rfl
  | bool b => cases b <;> rfl
  | integer n => rfl
  | string s => rfl
  | @array vs _ ih =>
    have hb : (String.utf8EncodeChar '[').length = 1 ∧ (String.utf8EncodeChar ']').length = 1 :=
      ⟨rfl, rfl⟩
    cases vs with
    | nil => rfl
    | cons v vs =>
      have hv := ih v (by simp) (d + 1)
      have hrest := length_itemsText vs (fun x hx => ih x (by simp [hx])) (d + 1)
      rw [render_array]
      simp only [extent, extentItems, itemsText, Layout.ending, Layout.compact, if_true, ite_self,
        List.nil_append, Utf8.ofChars_cons, Utf8.ofChars_append, Utf8.ofChars_nil,
        List.length_append, List.length_nil] at hv hrest ⊢
      omega
  | @object ms _ ih =>
    have hb : (String.utf8EncodeChar '\x7b').length = 1 ∧
        (String.utf8EncodeChar '\x7d').length = 1 ∧
        (String.utf8EncodeChar ':').length = 1 := ⟨rfl, rfl, rfl⟩
    cases ms with
    | nil => rfl
    | cons m ms =>
      obtain ⟨name, v⟩ := m
      have hv := ih (name, v) (by simp) (d + 1)
      have hrest := length_membersText ms (fun x hx => ih x (by simp [hx])) (d + 1)
      rw [render_object]
      simp only [extent, extentMembers, membersText, memberText, Layout.ending, Layout.compact,
        if_true, ite_self, List.nil_append, Utf8.ofChars_cons, Utf8.ofChars_append,
        Utf8.ofChars_nil, List.length_append, List.length_nil] at hv hrest ⊢
      omega

namespace Reader

variable {bs rest : Bytes} {v : Json} {depth : Nat}

/-- What a value can be read from, given how arrays and objects are read. -/
inductive Reads (array object : Bytes → Read Json) (bs rest : Bytes) : Json → Prop where
  | null {t : Bytes} (h : Scan.skipSpace bs = ascii 'n' :: t)
      (hw : Scan.word ['u', 'l', 'l'] t = .ok rest) : Reads array object bs rest .null
  | yes {t : Bytes} (h : Scan.skipSpace bs = ascii 't' :: t)
      (hw : Scan.word ['r', 'u', 'e'] t = .ok rest) : Reads array object bs rest (.bool true)
  | no {t : Bytes} (h : Scan.skipSpace bs = ascii 'f' :: t)
      (hw : Scan.word ['a', 'l', 's', 'e'] t = .ok rest) : Reads array object bs rest (.bool false)
  | number {b : UInt8} {t : Bytes} {v : Json} (h : Scan.skipSpace bs = b :: t)
      (hb : Number.starts b = true) (hn : Number.read (b :: t) = .ok (v, rest)) :
      Reads array object bs rest v
  | string {t : Bytes} {s : String} (h : Scan.skipSpace bs = ascii '\x22' :: t)
      (hs : Scan.string t = .ok (s, rest)) : Reads array object bs rest (.string s)
  | array {t : Bytes} {v : Json} (h : Scan.skipSpace bs = ascii '[' :: t)
      (ha : array (ascii '[' :: t) = .ok (v, rest)) : Reads array object bs rest v
  | object {t : Bytes} {v : Json} (h : Scan.skipSpace bs = ascii '\x7b' :: t)
      (ho : object (ascii '\x7b' :: t) = .ok (v, rest)) : Reads array object bs rest v

theorem node_eq_ok {array object : Bytes → Read Json} (h : node array object bs = .ok (v, rest)) :
    Reads array object bs rest v := by
  rw [node] at h
  split at h
  · cases h
  · next b t hs =>
    split at h
    · next hb =>
      obtain ⟨_, hw, he⟩ := map_eq_ok h
      cases he
      exact .null (hb ▸ hs) hw
    split at h
    · next hb =>
      obtain ⟨_, hw, he⟩ := map_eq_ok h
      cases he
      exact .yes (hb ▸ hs) hw
    split at h
    · next hb =>
      obtain ⟨_, hw, he⟩ := map_eq_ok h
      cases he
      exact .no (hb ▸ hs) hw
    split at h
    · next hb => exact .number hs hb h
    split at h
    · next hb =>
      obtain ⟨⟨s, _⟩, hr, he⟩ := map_eq_ok h
      cases he
      exact .string (hb ▸ hs) hr
    split at h
    · next hb => exact .array (hb ▸ hs) (hb ▸ h)
    split at h
    · next hb => exact .object (hb ▸ hs) (hb ▸ h)
    · cases h

/-- A value of so many bytes was taken off, by a reader that opens `depth` containers at most. -/
structure TakenOff (depth : Nat) (v : Json) (bs rest : Bytes) : Prop where
  nested : nesting v ≤ depth
  spans : Spans (extent v) bs rest

theorem number_taken {v : Json} (h : Number.read bs = .ok (v, rest)) : TakenOff 0 v bs rest := by
  obtain ⟨x, rfl⟩ | ⟨i, rfl⟩ := Number.read_kind h
  · exact ⟨Nat.le_refl _, Number.read_spans h⟩
  · exact ⟨Nat.le_refl _, _, Number.read_integer h, Nat.le_refl _⟩

/-- If arrays and objects are taken off, so are values. -/
theorem Reads.taken {array object : Bytes → Read Json} (h : Reads array object bs rest v)
    (ha : ∀ t, array (ascii '[' :: t) = .ok (v, rest) → TakenOff depth v (ascii '[' :: t) rest)
    (ho : ∀ t, object (ascii '\x7b' :: t) = .ok (v, rest) →
      TakenOff depth v (ascii '\x7b' :: t) rest) : TakenOff depth v bs rest := by
  have hsp := Scan.skipSpace_spans bs
  cases h with
  | null hs hw =>
    exact ⟨Nat.zero_le _,
      (Scan.skipped hs (by decide)).trans (Scan.word_spans (by simp [ascii]) hw)⟩
  | yes hs hw =>
    exact ⟨Nat.zero_le _,
      (Scan.skipped hs (by decide)).trans (Scan.word_spans (by simp [ascii]) hw)⟩
  | no hs hw =>
    exact ⟨Nat.zero_le _,
      (Scan.skipped hs (by decide)).trans (Scan.word_spans (by simp [ascii]) hw)⟩
  | number hs hb hn =>
    rw [hs] at hsp
    have hn := number_taken hn
    exact ⟨Nat.le_trans hn.nested (Nat.zero_le _), (hsp.trans hn.spans).mono (by omega)⟩
  | string hs hr =>
    refine ⟨Nat.zero_le _, ((Scan.skipped hs (by decide)).trans (Scan.string_spans hr)).mono ?_⟩
    rw [extent, length_quote]
    omega
  | array hs hr =>
    rw [hs] at hsp
    have hr := ha _ hr
    exact ⟨hr.nested, (hsp.trans hr.spans).mono (by omega)⟩
  | object hs hr =>
    rw [hs] at hsp
    have hr := ho _ hr
    exact ⟨hr.nested, (hsp.trans hr.spans).mono (by omega)⟩

/-- The items up to the closing bracket, each behind a comma but for the first. -/
theorem items_taken {one : Bytes → Read Json}
    (h : ∀ bs v rest, one bs = .ok (v, rest) → TakenOff depth v bs rest) {fuel : Nat} {first : Bool}
    {bs : Bytes} {vs : List Json} (hi : Scan.items one fuel first bs = .ok (vs, rest)) :
    nestingItems vs ≤ depth ∧
      Spans (if first then max 1 (extentItems vs) else extentItems vs + 1) bs rest := by
  induction fuel generalizing first bs vs with
  | zero => cases hi
  | succ fuel ih =>
    rw [Scan.items] at hi
    obtain ⟨next, hnext, hi⟩ := bind_eq_ok hi
    cases next with
    | close after =>
      cases hi
      refine ⟨Nat.zero_le _, (Scan.nextItem_close_spans hnext).mono ?_⟩
      cases first <;> simp [extentItems]
    | item start =>
      obtain ⟨⟨v, after⟩, hv, hi⟩ := bind_eq_ok hi
      obtain ⟨⟨later, last⟩, hlater, hi⟩ := bind_eq_ok hi
      cases hi
      have hone := h _ _ _ hv
      obtain ⟨hnest, hrest⟩ := ih hlater
      refine ⟨?_, (((Scan.nextItem_item_spans hnext).trans hone.spans).trans hrest).mono ?_⟩
      · rw [nestingItems, Nat.max_le]
        exact ⟨hone.nested, hnest⟩
      · cases first <;> simp only [extentItems, if_true, Bool.false_eq_true, if_false] <;> omega

/-- The value of a member, read from its colon on. -/
def memberValue (one : Bytes → Read Json) (bs : Bytes) : Except Fault (Json × Bytes) :=
  Scan.colon bs >>= one

theorem member_eq_ok {one : Bytes → Read Json} {name : String} {sofar all : List (String × Json)} :
    member one name sofar bs = .ok (all, rest) ↔
      ∃ v, memberValue one bs = .ok (v, rest) ∧ all = (name, v) :: sofar := by
  simp only [member, memberValue, bind_eq_ok_iff, Prod.exists]
  constructor
  · rintro ⟨tail, hcolon, v, _, hv, h⟩
    cases h
    exact ⟨v, ⟨tail, hcolon, hv⟩, rfl⟩
  · rintro ⟨v, ⟨tail, hcolon, hv⟩, rfl⟩
    exact ⟨tail, hcolon, v, rest, hv, rfl⟩

/-- The members up to the closing bracket, put in front of those before. -/
theorem members_taken {one : Bytes → Read Json}
    (h : ∀ bs v rest, one bs = .ok (v, rest) → TakenOff depth v bs rest) {fuel : Nat} {first : Bool}
    {bs : Bytes} {sofar all : List (String × Json)}
    (hm : Scan.members (member one) fuel first sofar bs = .ok (all, rest)) :
    ∃ ms, all = ms.reverse ++ sofar ∧ nestingMembers ms ≤ depth ∧
      Spans (if first then max 1 (extentMembers ms) else extentMembers ms + 1) bs rest := by
  induction fuel generalizing first bs sofar with
  | zero => cases hm
  | succ fuel ih =>
    rw [Scan.members] at hm
    obtain ⟨next, hnext, hm⟩ := bind_eq_ok hm
    cases next with
    | close after =>
      cases hm
      refine ⟨[], rfl, Nat.zero_le _, (Scan.nextMember_close_spans hnext).mono ?_⟩
      cases first <;> simp [extentMembers]
    | item start =>
      obtain ⟨⟨name, after⟩, hname, hm⟩ := bind_eq_ok hm
      obtain ⟨⟨met, later⟩, hmember, hm⟩ := bind_eq_ok hm
      obtain ⟨v, hvalue, rfl⟩ := member_eq_ok.1 hmember
      obtain ⟨tail, hcolon, hv⟩ := bind_eq_ok hvalue
      have hone := h _ _ _ hv
      obtain ⟨ms, rfl, hnest, hrest⟩ := ih hm
      refine ⟨(name, v) :: ms, by simp, ?_, ?_⟩
      · rw [nestingMembers, Nat.max_le]
        exact ⟨hone.nested, hnest⟩
      · have hfront := ((Scan.nextMember_item_spans hnext).trans (Scan.string_spans hname)).trans
          (Scan.colon_spans hcolon)
        refine ((hfront.trans hone.spans).trans hrest).mono ?_
        cases first <;>
          simp only [extentMembers, length_quote, if_true, Bool.false_eq_true, if_false] <;>
          omega

/-- What is read as a value was taken off the text. -/
theorem value_taken (h : value depth bs = .ok (v, rest)) : TakenOff depth v bs rest := by
  induction depth generalizing bs v rest with
  | zero =>
    refine (node_eq_ok h).taken (fun t ht => ?_) fun t ht => ?_
    · cases ht
    · cases ht
  | succ depth ih =>
    refine (node_eq_ok h).taken (fun t ht => ?_) fun t ht => ?_
    · obtain ⟨⟨vs, _⟩, hi, he⟩ := map_eq_ok ht
      cases he
      obtain ⟨hnest, hspan⟩ := items_taken (fun _ _ _ => ih) hi
      refine ⟨Nat.add_le_add_right hnest 1, ((Spans.byte (by decide) t).trans hspan).mono ?_⟩
      rw [extent, if_pos rfl]
      omega
    · obtain ⟨⟨all, _⟩, hm, he⟩ := map_eq_ok ht
      cases he
      obtain ⟨ms, rfl, hnest, hspan⟩ := members_taken (fun _ _ _ => ih) hm
      rw [List.append_nil, List.reverse_reverse]
      refine ⟨Nat.add_le_add_right hnest 1, ((Spans.byte (by decide) t).trans hspan).mono ?_⟩
      rw [extent, if_pos rfl]
      omega

end Reader

namespace Scan

variable {α : Type} {input : Bytes}

/-- Nothing but blanks follows what is read as a whole. -/
theorem whole_eq_ok {read : Bytes → Read α} {v : α} (h : whole read input = .ok v) :
    ∃ rest, read input = .ok (v, rest) ∧ skipSpace rest = [] := by
  rw [whole] at h
  cases hf : finish (read input) with
  | error f =>
    rw [hf] at h
    cases h
  | ok w =>
    rw [hf] at h
    cases h
    obtain ⟨⟨_, rest⟩, hr, hrest⟩ := bind_eq_ok hf
    cases hs : skipSpace rest with
    | nil =>
      simp only [hs] at hrest
      cases hrest
      exact ⟨rest, hr, hs⟩
    | cons b bs =>
      simp only [hs] at hrest
      cases hrest

theorem whole_of_ok {read : Bytes → Read α} {v : α} {rest : Bytes} (h : read input = .ok (v, rest))
    (hr : skipSpace rest = []) : whole read input = .ok v := by
  rw [whole, h, finish]
  simp only [bind, Except.bind, hr]
  rfl

end Scan

/-- A whole text that is read is UTF-8 of at least the extent of its value. -/
theorem read_text {input : Bytes} {v : Json} (h : read input = .ok v) :
    nesting v ≤ Reader.depthLimit ∧ Spans (extent v) input [] := by
  obtain ⟨rest, hr, hs⟩ := Scan.whole_eq_ok h
  have ht := Reader.value_taken hr
  have hblank := Scan.skipSpace_spans rest
  rw [hs] at hblank
  exact ⟨ht.nested, ht.spans.trans hblank⟩

end CameraChannel.Json
