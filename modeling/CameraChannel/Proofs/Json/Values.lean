import CameraChannel.Proofs.Json.Containers

/-!
Values read back from their text. A value without floats is read again as it was written, whatever
the layout and whatever text follows it, when its containers are nested no deeper than the reader
allows; nested deeper it is refused for that reason alone.
-/
namespace CameraChannel.Json

open Utf8 (ofChars)
open Number (Stops)

namespace Reader

open Scan (Takes Absorbs Refuses Rejects Fails)

variable {l : Layout} {d depth : Nat}

theorem node_number {array object : Bytes → Read Json} {b : UInt8} (h : Number.starts b = true)
    (bs : Bytes) : node array object (b :: bs) = Number.read (b :: bs) := by
  obtain ⟨hsp, hn, ht, hf, -⟩ := Number.starts_ne h
  rw [node, Scan.skipSpace_cons hsp]
  simp only [if_neg hn, if_neg ht, if_neg hf, h, if_true]

/-- Blanks in front of a value are passed over. -/
theorem node_blank {array object : Bytes → Read Json} {cs : List Char} (h : Blank cs) (bs : Bytes) :
    node array object (ofChars cs ++ bs) = node array object bs := by
  rw [node, node, Scan.skipSpace_blank h]

theorem value_blank {cs : List Char} (h : Blank cs) (bs : Bytes) :
    value depth (ofChars cs ++ bs) = value depth bs := by
  cases depth with
  | zero => exact node_blank h bs
  | succ depth => exact node_blank h bs

/-- A member whose value is taken is put in front of those before it. -/
theorem member_absorbs (hl : l.Blanks) {m : String × Json}
    (h : Takes l d (value depth) id m.2) :
    Absorbs l d (member (value depth)) (fun ms m => m :: ms) m := by
  intro ms rest hs
  have ht : value depth (ofChars (render l d m.2) ++ rest) = .ok (m.2, rest) := h rest hs
  rw [member, Scan.colon_memberText]
  simp only [bind, Except.bind]
  rw [value_blank hl.afterColon, ht]

theorem member_rejects (hl : l.Blanks) {c : Cause} {m : String × Json}
    (h : Refuses l d (value depth) c m.2) : Rejects l d (member (value depth)) c m := by
  intro ms rest hs
  rw [member, Scan.colon_memberText]
  simp only [bind, Except.bind]
  rw [value_blank hl.afterColon]
  exact (h rest hs).bind _

theorem arrayOf_text (one : Bytes → Read Json) (vs : List Json) (rest : Bytes) :
    arrayOf one (ofChars (render l d (.array vs)) ++ rest) =
      (Scan.items one (ofChars (render l d (.array vs)) ++ rest).length true
        (ofChars (itemsText l (d + 1) true vs) ++ (ofChars (l.ending d vs.isEmpty) ++
          ascii ']' :: rest))).map fun (vs, rest) => (.array vs, rest) := by
  rw [arrayOf]
  congr 2
  rw [render_array]
  simp only [Utf8.ofChars_cons, Utf8.ofChars_append, List.append_assoc]
  rfl

theorem objectOf_text (one : Bytes → Read Json) (ms : List (String × Json)) (rest : Bytes) :
    objectOf one (ofChars (render l d (.object ms)) ++ rest) =
      (Scan.members (member one) (ofChars (render l d (.object ms)) ++ rest).length true []
        (ofChars (membersText l (d + 1) true ms) ++ (ofChars (l.ending d ms.isEmpty) ++
          ascii '\x7d' :: rest))).map fun (ms, rest) => (.object ms.reverse, rest) := by
  rw [objectOf]
  congr 2
  rw [render_object]
  simp only [Utf8.ofChars_cons, Utf8.ofChars_append, List.append_assoc]
  rfl

theorem length_lt_array {vs : List Json} (h : ∀ v ∈ vs, Integral v) (rest : Bytes) :
    vs.length < (ofChars (render l d (.array vs)) ++ rest).length := by
  have := Scan.length_le_itemsText l (d + 1) true h
  rw [render_array]
  simp only [Utf8.ofChars_cons, Utf8.ofChars_append, List.length_append,
    String.length_utf8EncodeChar, show '['.utf8Size = 1 from rfl]
  omega

theorem length_lt_object (ms : List (String × Json)) (rest : Bytes) :
    ms.length < (ofChars (render l d (.object ms)) ++ rest).length := by
  have := Scan.length_le_membersText l (d + 1) true ms
  rw [render_object]
  simp only [Utf8.ofChars_cons, Utf8.ofChars_append, List.length_append,
    String.length_utf8EncodeChar, show '\x7b'.utf8Size = 1 from rfl]
  omega

/-- What the reader does with the text of a value: it takes it, or its containers are nested too
deep. -/
def Handles (depth : Nat) (v : Json) : Prop :=
  ∀ (l : Layout) (d : Nat), l.Blanks →
    (nesting v ≤ depth → Takes l d (value depth) id v) ∧
    (depth < nesting v → Refuses l d (value depth) .tooDeep v)

theorem handles_scalar {v : Json} (h0 : nesting v = 0)
    (h : ∀ array object l d, Takes l d (node array object) id v) (depth : Nat) :
    Handles depth v := by
  intro l d hl
  refine ⟨fun _ => ?_, fun hd => absurd hd (by omega)⟩
  cases depth with
  | zero => exact h _ _ l d
  | succ depth => exact h _ _ l d

theorem handles_array {vs : List Json} (hv : ∀ v ∈ vs, Integral v)
    (ih : ∀ v ∈ vs, ∀ depth, Handles depth v) (depth : Nat) : Handles depth (.array vs) := by
  intro l d hl
  cases depth with
  | zero =>
    refine ⟨fun h => absurd h (by simp [nesting]), fun _ rest _ => ?_⟩
    rw [render_array]
    exact ⟨_, rfl, rfl⟩
  | succ depth =>
    have hcs := hl.ending d vs.isEmpty
    have hval : ∀ rest, value (depth + 1) (ofChars (render l d (.array vs)) ++ rest) =
        arrayOf (value depth) (ofChars (render l d (.array vs)) ++ rest) := by
      intro rest
      rw [render_array]
      rfl
    rw [nesting, Nat.add_le_add_iff_right, Nat.add_lt_add_iff_right]
    refine ⟨fun h rest _ => ?_, fun h rest _ => ?_⟩
    · have ht := Scan.items_taken (f := id) (d := d + 1) (value depth) hl hv
        (fun v hm => (ih v hm depth l (d + 1) hl).1 (nestingItems_le.1 h v hm))
        (length_lt_array (l := l) (d := d) hv rest) hcs true rest
      rw [List.map_id] at ht
      rw [id, hval, arrayOf_text, ht]
      rfl
    · have hex : ∃ v ∈ vs, Refuses l (d + 1) (value depth) .tooDeep v := by
        obtain ⟨v, hm, hd⟩ := lt_nestingItems.1 h
        exact ⟨v, hm, (ih v hm depth l (d + 1) hl).2 hd⟩
      have hf := Scan.items_refused (f := id) (d := d + 1) (value depth) hl hv
        (fun v hm => by
          by_cases hle : nesting v ≤ depth
          · exact .inl ((ih v hm depth l (d + 1) hl).1 hle)
          · exact .inr ((ih v hm depth l (d + 1) hl).2 (by omega)))
        hex (length_lt_array (l := l) (d := d) hv rest) hcs true rest
      rw [List.map_id] at hf
      obtain ⟨e, he, hc⟩ := hf
      rw [hval, arrayOf_text, he]
      exact ⟨e, rfl, hc⟩

theorem handles_object {ms : List (String × Json)}
    (ih : ∀ m ∈ ms, ∀ depth, Handles depth m.2) (depth : Nat) : Handles depth (.object ms) := by
  intro l d hl
  cases depth with
  | zero =>
    refine ⟨fun h => absurd h (by simp [nesting]), fun _ rest _ => ?_⟩
    rw [render_object]
    exact ⟨_, rfl, rfl⟩
  | succ depth =>
    have hcs := hl.ending d ms.isEmpty
    have hval : ∀ rest, value (depth + 1) (ofChars (render l d (.object ms)) ++ rest) =
        objectOf (value depth) (ofChars (render l d (.object ms)) ++ rest) := by
      intro rest
      rw [render_object]
      rfl
    rw [nesting, Nat.add_le_add_iff_right, Nat.add_lt_add_iff_right]
    refine ⟨fun h rest _ => ?_, fun h rest _ => ?_⟩
    · have ht := Scan.members_absorbed (d := d + 1) (member (value depth)) hl
        (fun m hm => member_absorbs hl
          ((ih m hm depth l (d + 1) hl).1 (nestingMembers_le.1 h m hm)))
        (length_lt_object (l := l) (d := d) ms rest) hcs true [] rest
      rw [id, hval, objectOf_text, ht]
      simp [Except.map]
    · obtain ⟨m, hm, hd⟩ := lt_nestingMembers.1 h
      have hf := Scan.members_rejected (d := d + 1) (member (value depth)) (fun ms m => m :: ms) hl
        (fun m hm => by
          by_cases hle : nesting m.2 ≤ depth
          · exact .inl (member_absorbs hl ((ih m hm depth l (d + 1) hl).1 hle))
          · exact .inr (member_rejects hl ((ih m hm depth l (d + 1) hl).2 (by omega))))
        ⟨m, hm, member_rejects hl ((ih m hm depth l (d + 1) hl).2 hd)⟩
        (length_lt_object (l := l) (d := d) ms rest) hcs true [] rest
      obtain ⟨e, he, hc⟩ := hf
      rw [hval, objectOf_text, he]
      exact ⟨e, rfl, hc⟩

/-- The text of a value without floats is read back when the value is nested no deeper than the
reader allows, and refused as too deep otherwise. -/
theorem handles {v : Json} (h : Integral v) (depth : Nat) : Handles depth v := by
  induction h generalizing depth with
  | null => exact handles_scalar rfl (fun _ _ _ _ _ _ => rfl) depth
  | bool b => cases b <;> exact handles_scalar rfl (fun _ _ _ _ _ _ => rfl) depth
  | integer n =>
    refine handles_scalar rfl (fun array object l d rest hs => ?_) depth
    obtain ⟨b, bs, hb, hst⟩ := Number.signed_starts n.val rest
    have hr := Number.read_signed n hs
    rw [hb] at hr
    change node array object (ofChars (Digits.signed n.val) ++ rest) = _
    rw [hb, node_number hst, hr]
  | string s =>
    refine handles_scalar rfl (fun array object l d rest _ => ?_) depth
    change node array object (ofChars (quote s) ++ rest) = _
    rw [ofChars_quote, List.cons_append, List.append_assoc]
    change (Scan.string (ofChars (s.toList.flatMap escape) ++ ascii '\x22' :: rest)).map _ = _
    rw [Scan.string_quoted]
    rfl
  | array h ih => exact handles_array h ih depth
  | object _ ih => exact handles_object ih depth

end Reader

/-- Two values without floats that have the same text are the same, whatever the layout. -/
theorem render_inj {l : Layout} (hl : l.Blanks) {d : Nat} {v w : Json} (hv : Integral v)
    (hw : Integral w) (h : ofChars (render l d v) = ofChars (render l d w)) : v = w := by
  -- a reader that allows as many containers as the deeper of the two has reads both
  have taken : ∀ {u : Json}, Integral u → nesting u ≤ max (nesting v) (nesting w) →
      Reader.value (max (nesting v) (nesting w)) (ofChars (render l d u)) = .ok (u, []) := by
    intro u hu hn
    have ht := (Reader.handles hu _ l d hl).1 hn [] fun _ hb => by cases hb
    rwa [List.append_nil] at ht
  have hr := taken hv (Nat.le_max_left _ _)
  rw [h, taken hw (Nat.le_max_right _ _)] at hr
  cases hr
  rfl

end CameraChannel.Json
