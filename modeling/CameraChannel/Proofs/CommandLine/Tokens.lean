import CameraChannel.Proofs.Frame.Rendering

/-!
Bytes given in hex on a command line. Main statement: which texts are taken for which bytes, and
which for forwarding tokens; those that a frame is shown with are.
-/
namespace CameraChannel.CommandLine

/-- A token is the bytes of a text, if they are eight. -/
theorem forwardId_eq_ok {s : String} {id : ForwardId} :
    forwardId s = .ok id ↔ Hex.read s = .ok id.toList := by
  rw [forwardId]
  cases Hex.read s with
  | error e =>
    constructor
    · intro h
      cases h
    · intro h
      cases h
  | ok bs =>
    obtain ⟨⟨l⟩, hl⟩ := id
    change (if h : bs.length = 8 then _ else _) = _ ↔ Except.ok bs = .ok l
    by_cases h : bs.length = 8
    · rw [dif_pos h]
      constructor
      · intro hid
        have hbs := congrArg Vector.toList (Except.ok.inj hid)
        exact congrArg Except.ok hbs
      · intro hbs
        cases hbs
        rfl
    · rw [dif_neg h]
      constructor
      · intro hid
        cases hid
      · intro hbs
        cases hbs
        exact absurd hl h

/-- The tokens that stand in a line and in an object are read again as the token of the frame. -/
theorem forwardId_shown (f : Frame) :
    (∃ w, Header.labelled? "forward=" 4 f.line.toList = some w ∧
      forwardId (String.ofList w) = .ok f.header.forwardId) ∧
    ∃ w, f.toJson.member? "forward_id" = some (.string w) ∧
      forwardId w = .ok f.header.forwardId := by
  obtain ⟨-, -, -, -, hobject, -⟩ := f.member?_toJson
  refine ⟨?_, _, hobject, Header.forwardId_text _⟩
  have hline := f.line_read.1
  rw [Header.Shown.ofLine?] at hline
  simp only [bind, Option.bind_eq_some_iff, pure] at hline
  obtain ⟨_, -, _, -, _, -, _, -, _, -, _, -, _, -, _, -, w, hw, hshown⟩ := hline
  have hid : String.ofList w = Hex.text f.header.forwardId.toList :=
    congrArg Header.Shown.forwardId (Option.some.inj hshown)
  exact ⟨w, hw, hid ▸ Header.forwardId_text _⟩

/-- A text is read as bytes exactly when, without its white space, it is two hex digits of either
case for each byte, behind one mark at most. So what bytes are printed as is read again however its
letters are written, with any mark and with white space anywhere. A token is read exactly from a
text of eight bytes, which it then is, and every frame is shown with its own token. -/
theorem hex_exact (s : String) (bs : Bytes) :
    (Hex.read s = .ok bs ↔ ∃ mark ∈ Hex.marks, ∃ cs,
      s.toList.filter (·.toNat ∉ Blank.whiteSpace) = mark ++ cs ∧ cs.length = 2 * bs.length ∧
      Hex.Spells cs bs) ∧
    (∀ mark ∈ Hex.marks, ∀ cs, cs.map Char.toLower = (Hex.text bs).toList →
      ∀ t : String, Blank.Loosened (mark ++ cs) t.toList → Hex.read t = .ok bs) ∧
    ((∃ id, forwardId s = .ok id) ↔ ∃ bs, Hex.read s = .ok bs ∧ bs.length = 8) ∧
    (∀ id, forwardId s = .ok id ↔ Hex.read s = .ok id.toList) ∧
    ∀ f : Frame,
      (∃ w, Header.labelled? "forward=" 4 f.line.toList = some w ∧
        forwardId (String.ofList w) = .ok f.header.forwardId) ∧
      ∃ w, f.toJson.member? "forward_id" = some (.string w) ∧
        forwardId w = .ok f.header.forwardId := by
  refine ⟨?_, fun mark hm cs hcs t ht => ?_, ?_, fun id => forwardId_eq_ok, forwardId_shown⟩
  · rw [Hex.read_eq_ok, Blank.remove_eq]
    constructor
    · rintro ⟨mark, hm, cs, hcs, h⟩
      exact ⟨mark, hm, cs, hcs, h.length, h⟩
    · rintro ⟨mark, hm, cs, hcs, -, h⟩
      exact ⟨mark, hm, cs, hcs, h⟩
  · rw [Hex.text, String.toList_ofList] at hcs
    exact (Hex.spells_iff.2 hcs).read_loosened hm ht
  · constructor
    · rintro ⟨id, hid⟩
      exact ⟨id.toList, forwardId_eq_ok.1 hid, id.length_toList⟩
    · rintro ⟨bs, hbs, h8⟩
      exact ⟨⟨bs.toArray, h8⟩, forwardId_eq_ok.2 hbs⟩

/-- A mark and a byte with blanks inside them, and a second mark. -/
example : (Hex.read "0 X2\n1\u00a0fF").toOption = some [0x21, 0xff] ∧
    (Hex.read "0x0x21").toOption = none := by
  decide +kernel

end CameraChannel.CommandLine
