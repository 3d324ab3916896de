import CameraChannel.Proofs.Text.Utf8
import CameraChannel.Text.Hex

/-!
Which texts are read as bytes: hex digits of either case, two for each byte, behind one mark at most
and with white space anywhere. Main statement: `Hex.read_eq_ok`. So bytes are read back from what
they are printed as.
-/
namespace CameraChannel

namespace Blank

/-- The code points with the property White_Space. -/
def whiteSpace : List Nat :=
  [0x9, 0xA, 0xB, 0xC, 0xD, 0x20, 0x85, 0xA0, 0x1680, 0x2000, 0x2001, 0x2002, 0x2003, 0x2004,
    0x2005, 0x2006, 0x2007, 0x2008, 0x2009, 0x200A, 0x2028, 0x2029, 0x202F, 0x205F, 0x3000]

theorem isBlank_iff {c : Char} : isBlank c = true ↔ c.toNat ∈ whiteSpace := by
  simp only [isBlank, whiteSpace, Bool.or_eq_true, Bool.and_eq_true, beq_iff_eq, decide_eq_true_eq,
    List.mem_cons, List.not_mem_nil, or_false]
  omega

theorem remove_eq (cs : List Char) : remove cs = cs.filter (·.toNat ∉ whiteSpace) :=
  List.filter_congr fun c _ => by
    cases h : isBlank c with
    | true => simp [isBlank_iff.1 h]
    | false => simp [mt isBlank_iff.2 (Bool.eq_false_iff.1 h)]

/-- A text with white space put in anywhere. -/
inductive Loosened : List Char → List Char → Prop where
  | nil : Loosened [] []
  | keep (c : Char) {cs ds : List Char} (rest : Loosened cs ds) : Loosened (c :: cs) (c :: ds)
  | blank {c : Char} {cs ds : List Char} (space : c.toNat ∈ whiteSpace) (rest : Loosened cs ds) :
      Loosened cs (c :: ds)

theorem remove_blank {c : Char} (h : isBlank c = true) (cs : List Char) :
    remove (c :: cs) = remove cs := List.filter_cons_of_neg (by simp [h])

theorem remove_keep {c : Char} (h : isBlank c = false) (cs : List Char) :
    remove (c :: cs) = c :: remove cs := List.filter_cons_of_pos (by simp [h])

theorem Loosened.refl : ∀ cs : List Char, Loosened cs cs
  | [] => .nil
  | c :: cs => .keep c (refl cs)

theorem Loosened.remove_eq {cs ds : List Char} (h : Loosened cs ds) : remove ds = remove cs := by
  induction h with
  | nil => rfl
  | keep c _ ih =>
    cases hc : isBlank c with
    | true => rw [remove_blank hc, remove_blank hc, ih]
    | false => rw [remove_keep hc, remove_keep hc, ih]
  | blank space _ ih => rw [remove_blank (isBlank_iff.2 space), ih]

theorem loosened_remove (ds : List Char) : Loosened (remove ds) ds := by
  induction ds with
  | nil => exact .nil
  | cons c ds ih =>
    cases hc : isBlank c with
    | true =>
      rw [remove_blank hc]
      exact .blank (isBlank_iff.1 hc) ih
    | false =>
      rw [remove_keep hc]
      exact .keep c ih

/-- Removing white space undoes what was put into a text without any. -/
theorem loosened_iff {cs ds : List Char} (h : ∀ c ∈ cs, isBlank c = false) :
    Loosened cs ds ↔ remove ds = cs := by
  have hcs : remove cs = cs := List.filter_eq_self.2 fun c hc => by simp [h c hc]
  constructor
  · intro hl
    rw [hl.remove_eq, hcs]
  · rintro rfl
    exact loosened_remove ds

end Blank

namespace Hex

/-- The digits in the order of their values. -/
def digits : List Char :=
  ['0', '1', '2', '3', '4', '5', '6', '7', '8', '9', 'a', 'b', 'c', 'd', 'e', 'f']

/-- Digits of either case that spell bytes: two for each byte, the higher one first. -/
inductive Spells : List Char → Bytes → Prop where
  | nil : Spells [] []
  | pair {high low : Char} {b : UInt8} {cs : List Char} {bs : Bytes}
      (upper : digits[b.toNat / 16]? = some high.toLower)
      (lower : digits[b.toNat % 16]? = some low.toLower) (rest : Spells cs bs) :
      Spells (high :: low :: cs) (b :: bs)

/-- What may stand in front of the digits. -/
def marks : List (List Char) := [[], ['0', 'x'], ['0', 'X']]

variable {c : Char} {cs : List Char} {b : UInt8} {bs : Bytes} {d : Nat}

theorem getElem?_digits (h : d < 16) : digits[d]? = some (Digits.digitChar d) := by
  have : ∀ d : Fin 16, digits[d.val]? = some (Digits.digitChar d.val) := by decide
  exact this ⟨d, h⟩

theorem lt_of_digit (h : digits[d]? = some c.toLower) : d < 16 :=
  (List.getElem?_eq_some_iff.1 h).1

/-- Only letters of ASCII have another case. -/
theorem toLower_of_not_ascii (h : 0x80 ≤ c.toNat) : c.toLower = c := by
  have hz : 'Z'.toNat = 90 := rfl
  refine dif_neg fun hc => ?_
  have hle : c.toNat ≤ 'Z'.toNat := UInt32.le_iff_toNat_le.1 hc.2
  omega

theorem digit_ascii (h : digits[d]? = some c.toLower) : c.toNat < 0x80 := by
  have hall : digits.all (fun x => decide (x.toNat < 0x80)) = true := by decide
  refine Nat.lt_of_not_le fun hc => ?_
  rw [toLower_of_not_ascii hc] at h
  have hlt := of_decide_eq_true (List.all_eq_true.1 hall c (List.mem_of_getElem? h))
  exact absurd hlt (Nat.not_lt.2 hc)

/-- What a digit is to those who read it: one byte, not blank, and no part of a mark. -/
theorem digit_read (h : digits[d]? = some c.toLower) :
    String.utf8EncodeChar c = [ascii c] ∧ digit? (ascii c) = some d ∧ Blank.isBlank c = false ∧
      c ≠ 'x' ∧ c ≠ 'X' ∧ c ≠ '-' := by
  have hall : ∀ (n : Fin 128) (d : Fin 16), digits[d.val]? = some (Char.ofNat n.val).toLower →
      String.utf8EncodeChar (Char.ofNat n.val) = [ascii (Char.ofNat n.val)] ∧
      digit? (ascii (Char.ofNat n.val)) = some d.val ∧ Blank.isBlank (Char.ofNat n.val) = false ∧
      Char.ofNat n.val ≠ 'x' ∧ Char.ofNat n.val ≠ 'X' ∧ Char.ofNat n.val ≠ '-' := by
    decide +kernel
  have hc := hall ⟨c.toNat, digit_ascii h⟩ ⟨d, lt_of_digit h⟩
  simp only [Char.ofNat_toNat] at hc
  exact hc h

/-- A byte that is read as a digit. -/
theorem digit_of_read (h : digit? b = some d) :
    b.toNat < 0x80 ∧ digits[d]? = some (Char.ofNat b.toNat).toLower := by
  have hall : ∀ b : UInt8, (digit? b).all (fun d =>
      b.toNat < 0x80 && digits[d]? == some (Char.ofNat b.toNat).toLower) = true :=
    Bytes.forall_byte (by decide +kernel)
  have hb := hall b
  rw [h] at hb
  simpa using hb

theorem halves (b : UInt8) : b.toNat / 16 < 16 ∧ b.toNat % 16 < 16 ∧
    UInt8.ofNat (16 * (b.toNat / 16) + b.toNat % 16) = b := by
  have hb := b.toNat_lt
  refine ⟨by omega, by omega, ?_⟩
  rw [show 16 * (b.toNat / 16) + b.toNat % 16 = b.toNat by omega, UInt8.ofNat_toNat]

theorem encode_cons (b : UInt8) (bs : Bytes) : encode (b :: bs) =
    Digits.digitChar (b.toNat / 16) :: Digits.digitChar (b.toNat % 16) :: encode bs := rfl

/-- Digits spell the bytes that are printed so, but for their case. -/
theorem spells_iff : Spells cs bs ↔ cs.map Char.toLower = encode bs := by
  constructor
  · intro h
    induction h with
    | nil => rfl
    | @pair high low b cs bs upper lower rest ih =>
      obtain ⟨hhigh, hlow, -⟩ := halves b
      rw [getElem?_digits hhigh, Option.some.injEq] at upper
      rw [getElem?_digits hlow, Option.some.injEq] at lower
      rw [encode_cons, upper, lower, ← ih]
      rfl
  · intro h
    induction bs generalizing cs with
    | nil =>
      obtain rfl := List.map_eq_nil_iff.1 h
      exact .nil
    | cons b bs ih =>
      obtain ⟨hhigh, hlow, -⟩ := halves b
      obtain ⟨high, cs, rfl, h1, h⟩ := List.map_eq_cons_iff.1 h
      obtain ⟨low, cs, rfl, h2, h⟩ := List.map_eq_cons_iff.1 h
      exact .pair (by rw [getElem?_digits hhigh, h1]) (by rw [getElem?_digits hlow, h2]) (ih h)

theorem Spells.length (h : Spells cs bs) : cs.length = 2 * bs.length := by
  induction h with
  | nil => rfl
  | pair upper lower rest ih =>
    simp only [List.length_cons, ih]
    omega

theorem Spells.digit (h : Spells cs bs) : ∀ c ∈ cs, ∃ d : Nat, digits[d]? = some c.toLower := by
  induction h with
  | nil => nofun
  | pair upper lower rest ih =>
    intro c hc
    obtain rfl | hc := List.mem_cons.1 hc
    · exact ⟨_, upper⟩
    obtain rfl | hc := List.mem_cons.1 hc
    · exact ⟨_, lower⟩
    · exact ih c hc

theorem Spells.ofChars (h : Spells cs bs) : Utf8.ofChars cs = cs.map ascii := by
  have hc : ∀ c ∈ cs, String.utf8EncodeChar c = [ascii c] := fun c hc => by
    obtain ⟨d, hd⟩ := h.digit c hc
    exact (digit_read hd).1
  rw [Utf8.ofChars, List.map_eq_flatMap, List.flatMap_def, List.flatMap_def, List.map_congr_left hc]

theorem Spells.decodeAt (h : Spells cs bs) (position : Nat) :
    decodeAt position (cs.map ascii) = .ok bs := by
  induction h generalizing position with
  | nil => rfl
  | @pair high low b cs bs upper lower rest ih =>
    change Hex.decodeAt position (ascii high :: ascii low :: cs.map ascii) = _
    rw [Hex.decodeAt, (digit_read upper).2.1, (digit_read lower).2.1]
    simp only [ih, Except.map, (halves b).2.2]

theorem spells_of_decodeAt {position : Nat} {ds : Bytes} (h : decodeAt position ds = .ok bs) :
    (∀ x ∈ ds, x.toNat < 0x80) ∧ Spells (ds.map fun x => Char.ofNat x.toNat) bs := by
  fun_induction decodeAt position ds generalizing bs with
  | case1 =>
    cases h
    exact ⟨nofun, .nil⟩
  | case2 => cases h
  | case3 => cases h
  | case4 => cases h
  | case5 position a b rest x y hy hx ih =>
    cases hd : Hex.decodeAt (position + 2) rest with
    | error e =>
      rw [hd] at h
      cases h
    | ok bs' =>
      rw [hd] at h
      cases h
      obtain ⟨hrest, hspells⟩ := ih hd
      obtain ⟨ha, hhigh⟩ := digit_of_read hx
      obtain ⟨hb, hlow⟩ := digit_of_read hy
      have hx16 := lt_of_digit hhigh
      have hy16 := lt_of_digit hlow
      have hn : (UInt8.ofNat (16 * x + y)).toNat = 16 * x + y := Utf8.toNat_ofNat (by omega)
      refine ⟨?_, .pair ?_ ?_ hspells⟩
      · intro z hz
        obtain rfl | hz := List.mem_cons.1 hz
        · exact ha
        obtain rfl | hz := List.mem_cons.1 hz
        · exact hb
        · exact hrest z hz
      · rwa [hn, show (16 * x + y) / 16 = x by omega]
      · rwa [hn, show (16 * x + y) % 16 = y by omega]

/-- Digits are read as the bytes that they spell, and nothing else is read. -/
theorem decode_eq_ok : decode (Utf8.ofChars cs) = .ok bs ↔ Spells cs bs := by
  constructor
  · intro h
    rw [decode] at h
    split at h
    · cases h
    · obtain ⟨hascii, hspells⟩ := spells_of_decodeAt h
      have hcs := Utf8.decode?_ofChars cs
      rw [← Utf8.ofChars_ascii hascii, Utf8.decode?_ofChars] at hcs
      exact Option.some.inj hcs ▸ hspells
  · intro h
    rw [decode, h.ofChars, List.length_map, h.length, if_neg (by omega), h.decodeAt]

theorem exists_withoutMark (cs : List Char) : ∃ mark ∈ marks, cs = mark ++ withoutMark cs := by
  unfold withoutMark
  split
  · exact ⟨['0', 'x'], by simp [marks], rfl⟩
  · exact ⟨['0', 'X'], by simp [marks], rfl⟩
  · exact ⟨[], by simp [marks], rfl⟩

/-- No digit is the letter of a mark, so only what stands in front is taken for one. -/
theorem Spells.withoutMark (h : Spells cs bs) {mark : List Char} (hm : mark ∈ marks) :
    withoutMark (mark ++ cs) = cs := by
  simp only [marks, List.mem_cons, List.not_mem_nil, or_false] at hm
  obtain rfl | rfl | rfl := hm
  · cases h with
    | nil => rfl
    | pair upper lower rest =>
      obtain ⟨-, -, -, hx, hX, -⟩ := digit_read lower
      rw [List.nil_append, Hex.withoutMark.eq_def]
      split
      · next h => exact absurd (List.cons.inj (List.cons.inj h).2).1 hx
      · next h => exact absurd (List.cons.inj (List.cons.inj h).2).1 hX
      · rfl
  · rfl
  · rfl

theorem Spells.not_blank (h : Spells cs bs) {mark : List Char} (hm : mark ∈ marks) :
    ∀ c ∈ mark ++ cs, Blank.isBlank c = false := by
  have hmarks : marks.all (fun mark => mark.all fun c => !Blank.isBlank c) = true := by decide
  intro c hc
  obtain hc | hc := List.mem_append.1 hc
  · simpa using List.all_eq_true.1 (List.all_eq_true.1 hmarks mark hm) c hc
  · obtain ⟨d, hd⟩ := h.digit c hc
    exact (digit_read hd).2.2.1

/-- A text is read as bytes when a mark and digits that spell them are left of it without its white
space. -/
theorem read_eq_ok {s : String} : read s = .ok bs ↔
    ∃ mark ∈ marks, ∃ cs, Blank.remove s.toList = mark ++ cs ∧ Spells cs bs := by
  rw [read, decode_eq_ok]
  constructor
  · intro h
    obtain ⟨mark, hm, hcs⟩ := exists_withoutMark (Blank.remove s.toList)
    exact ⟨mark, hm, _, hcs, h⟩
  · rintro ⟨mark, hm, cs, hcs, h⟩
    rw [hcs, h.withoutMark hm]
    exact h

/-- White space put into a mark and digits makes no difference. -/
theorem Spells.read_loosened (h : Spells cs bs) {mark : List Char} (hm : mark ∈ marks) {s : String}
    (hl : Blank.Loosened (mark ++ cs) s.toList) : read s = .ok bs :=
  read_eq_ok.2 ⟨mark, hm, cs, (Blank.loosened_iff (h.not_blank hm)).1 hl, h⟩

theorem mem_encode {c : Char} (h : c ∈ encode bs) : ∃ d, d < 16 ∧ c = Digits.digitChar d := by
  obtain ⟨b, -, hc⟩ := List.mem_flatMap.1 h
  obtain ⟨hhigh, hlow, -⟩ := halves b
  simp only [List.mem_cons, List.not_mem_nil, or_false] at hc
  obtain rfl | rfl := hc
  · exact ⟨_, hhigh, rfl⟩
  · exact ⟨_, hlow, rfl⟩

theorem toLower_digitChar (h : d < 16) : (Digits.digitChar d).toLower = Digits.digitChar d := by
  have : ∀ d : Fin 16, (Digits.digitChar d.val).toLower = Digits.digitChar d.val := by decide
  exact this ⟨d, h⟩

theorem spells_encode (bs : Bytes) : Spells (encode bs) bs := by
  refine spells_iff.2 ((List.map_congr_left fun c hc => ?_).trans (List.map_id _))
  obtain ⟨d, hd, rfl⟩ := mem_encode hc
  exact toLower_digitChar hd

/-- Printed bytes are read again as they were. -/
theorem read_text (bs : Bytes) : read (text bs) = .ok bs := by
  have hm : [] ∈ marks := by simp [marks]
  refine (spells_encode bs).read_loosened hm ?_
  rw [text, String.toList_ofList]
  exact .refl _

/-- Nothing that is printed starts with a dash. -/
theorem text_no_dash (bs : Bytes) : (text bs).toList.head? ≠ some '-' := by
  rw [text, String.toList_ofList]
  intro h
  obtain ⟨d, hd⟩ := (spells_encode bs).digit _ (List.mem_of_head? h)
  exact (digit_read hd).2.2.2.2.2 rfl

end Hex

end CameraChannel
