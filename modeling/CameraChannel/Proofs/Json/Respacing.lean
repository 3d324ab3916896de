import CameraChannel.Proofs.Json.Indifference

/-!
Numbers and values read alike with and without a space behind every separator. Main statement:
`Json.read_spread`.
-/
namespace CameraChannel.Json

namespace Number

theorem floatOf_alike (negative : Bool) (significand : Nat) (e : Int) (rest : Bytes) :
    Alike respace (floatOf negative significand e rest)
      (floatOf negative significand e (spread .outside rest)) := by
  rw [floatOf, floatOf]
  cases Binary64.ofParts negative significand e with
  | none => exact .error rfl
  | some x => exact .ok (Json.float x, rest)

theorem exponentFrom_spread (n : Nat) (bs : Bytes) :
    exponentFrom n (spread .outside bs) =
      ((exponentFrom n bs).map respace).mapError (spread .outside) := by
  fun_induction exponentFrom n bs with
  | case1 => rfl
  | case2 n b bs hd hn ih =>
    rw [spread_quiet (quiet_digit hd), exponentFrom, if_pos hd, if_pos hn, ih]
  | case3 n b bs hd hn =>
    rw [spread_quiet (quiet_digit hd), exponentFrom, if_pos hd, if_neg hn]
    rfl
  | case4 n b bs hd =>
    obtain ⟨tail, htail⟩ := spread_cons b bs
    change _ = Except.ok (n, spread .outside (b :: bs))
    rw [htail, exponentFrom, if_neg hd]

theorem exponentSign_spread (bs : Bytes) :
    exponentSign (spread .outside bs) = respace (exponentSign bs) := by
  cases bs with
  | nil => rfl
  | cons b bs =>
    by_cases hplus : b = ascii '+'
    · subst hplus
      rfl
    by_cases hminus : b = ascii '-'
    · subst hminus
      rfl
    obtain ⟨tail, htail⟩ := spread_cons b bs
    rw [htail, exponentSign, exponentSign, if_neg hplus, if_neg hplus, if_neg hminus, if_neg hminus,
      respace, htail]

theorem exponentMark_spread (bs : Bytes) :
    exponentMark (spread .outside bs) = (exponentMark bs).map (spread .outside) := by
  cases bs with
  | nil => rfl
  | cons b bs =>
    by_cases he : b = ascii 'e' ∨ b = ascii 'E'
    · have hb : Quiet b := by obtain rfl | rfl := he <;> decide
      rw [spread_quiet hb, exponentMark, exponentMark, if_pos he, if_pos he]
      rfl
    · obtain ⟨tail, htail⟩ := spread_cons b bs
      rw [htail, exponentMark, exponentMark, if_neg he, if_neg he]
      rfl

theorem exponent_alike (negative : Bool) (significand : Nat) (start : Int) (bs : Bytes) :
    Alike respace (exponent negative significand start bs)
      (exponent negative significand start (spread .outside bs)) := by
  rw [exponent, exponent, exponentSign_spread]
  obtain ⟨below, bs'⟩ := exponentSign bs
  simp only [respace]
  cases bs' with
  | nil => exact .error rfl
  | cons b rest =>
    cases hd : Scan.isDigit b with
    | false =>
      obtain ⟨tail, htail⟩ := spread_cons b rest
      rw [htail]
      simp only [hd]
      exact .error rfl
    | true =>
      rw [spread_quiet (quiet_digit hd)]
      simp only [hd, if_true, exponentFrom_spread]
      cases exponentFrom (digit b) rest with
      | ok r => exact floatOf_alike _ _ _ r.2
      | error rest =>
        simp only [Except.map, Except.mapError, dropWhile_spread fun _ => quiet_digit]
        by_cases hbig : significand ≠ 0 ∧ (!below) = true
        · rw [if_pos hbig, if_pos hbig]
          exact .error rfl
        · rw [if_neg hbig, if_neg hbig]
          exact .ok (Json.float _, rest.dropWhile Scan.isDigit)

theorem length_eq_dropWhile (p : UInt8 → Bool) (bs : Bytes) :
    bs.length = (bs.dropWhile p).length ↔ bs.takeWhile p = [] := by
  have h := congrArg List.length (List.takeWhile_append_dropWhile (p := p) (l := bs))
  rw [List.length_append] at h
  rw [← List.length_eq_zero_iff]
  omega

theorem fraction_alike (negative : Bool) (significand : Nat) (start : Int) (bs : Bytes) :
    Alike respace (fraction negative significand start bs)
      (fraction negative significand start (spread .outside bs)) := by
  have htake := takeWhile_spread (fun _ => quiet_digit) bs
  have hdrop := dropWhile_spread (fun _ => quiet_digit) bs
  simp only [fraction, length_eq_dropWhile]
  rw [htake, hdrop, exponentMark_spread]
  by_cases hnone : bs.takeWhile Scan.isDigit = []
  · simp only [if_pos hnone]
    cases bs with
    | nil => exact .error rfl
    | cons b bs =>
      obtain ⟨tail, htail⟩ := spread_cons b bs
      rw [htail]
      exact .error rfl
  · simp only [if_neg hnone]
    cases exponentMark (bs.dropWhile Scan.isDigit) with
    | none => exact floatOf_alike negative _ _ _
    | some rest => exact exponent_alike negative _ _ rest

theorem afterWhole_alike (negative : Bool) (w : Whole) (bs : Bytes) :
    Alike respace (afterWhole negative w bs) (afterWhole negative w (spread .outside bs)) := by
  cases bs with
  | nil =>
    change Alike respace (if w.dropped = 0 then _ else _) (if w.dropped = 0 then _ else _)
    by_cases hw : w.dropped = 0
    · rw [if_pos hw]
      exact .ok (integer negative w.value, [])
    · rw [if_neg hw]
      exact floatOf_alike negative w.value w.dropped []
  | cons b rest =>
    by_cases hpoint : b = ascii '.'
    · subst hpoint
      exact fraction_alike negative w.value w.dropped rest
    by_cases he : b = ascii 'e' ∨ b = ascii 'E'
    · have hb : Quiet b := by obtain rfl | rfl := he <;> decide
      rw [spread_quiet hb, afterWhole, afterWhole]
      simp only [if_neg hpoint, if_pos he]
      exact exponent_alike negative w.value w.dropped rest
    obtain ⟨tail, htail⟩ := spread_cons b rest
    rw [htail, afterWhole, afterWhole]
    simp only [if_neg hpoint, if_neg he, ← htail]
    by_cases hw : w.dropped = 0
    · rw [if_pos hw, if_pos hw]
      exact .ok (integer negative w.value, b :: rest)
    · rw [if_neg hw, if_neg hw]
      exact floatOf_alike negative w.value w.dropped (b :: rest)

theorem unsigned_alike (negative : Bool) (bs : Bytes) :
    Alike respace (unsigned negative bs) (unsigned negative (spread .outside bs)) := by
  cases bs with
  | nil => exact .error rfl
  | cons b bs =>
    by_cases hzero : b = ascii '0'
    · subst hzero
      rw [spread_quiet (by decide), unsigned.eq_def, unsigned.eq_def]
      simp only [if_true]
      cases bs with
      | nil => exact afterWhole_alike negative ⟨0, 0⟩ []
      | cons c rest =>
        obtain ⟨tail, htail⟩ := spread_cons c rest
        have h := afterWhole_alike negative ⟨0, 0⟩ (c :: rest)
        rw [htail] at h ⊢
        simp only
        split
        · exact .error rfl
        · exact h
    cases hd : Scan.isDigit b with
    | true =>
      rw [spread_quiet (quiet_digit hd), unsigned.eq_def, unsigned.eq_def]
      simp only [if_neg hzero, hd, if_true, takeWhile_spread fun _ => quiet_digit,
        dropWhile_spread fun _ => quiet_digit]
      exact afterWhole_alike negative _ _
    | false =>
      obtain ⟨tail, htail⟩ := spread_cons b bs
      rw [htail, unsigned.eq_def, unsigned.eq_def]
      simp only [if_neg hzero, hd]
      exact .error rfl

theorem read_alike (bs : Bytes) : Alike respace (read bs) (read (spread .outside bs)) := by
  cases bs with
  | nil => exact .error rfl
  | cons b bs =>
    by_cases hminus : b = ascii '-'
    · subst hminus
      exact unsigned_alike true bs
    · have h := unsigned_alike false (b :: bs)
      obtain ⟨tail, htail⟩ := spread_cons b bs
      rw [htail] at h ⊢
      rw [read, read, if_neg hminus, if_neg hminus]
      exact h

end Number

namespace Reader

/-- A value is read alike when arrays and objects are. -/
theorem node_alike {array object : Bytes → Read Json}
    (ha : ∀ rest, Alike respace (array (ascii '[' :: rest))
      (array (ascii '[' :: spread .outside rest)))
    (ho : ∀ rest, Alike respace (object (ascii '\x7b' :: rest))
      (object (ascii '\x7b' :: spread .outside rest))) (bs : Bytes) :
    Alike respace (node array object bs) (node array object (spread .outside bs)) := by
  rw [node, node, Scan.skipSpace_spread]
  cases Scan.skipSpace bs with
  | nil => exact .error rfl
  | cons b rest =>
    by_cases hnull : b = ascii 'n'
    · subst hnull
      exact (Scan.word_alike (by simp [Quiet, ascii]) rest).map fun _ => rfl
    by_cases htrue : b = ascii 't'
    · subst htrue
      exact (Scan.word_alike (by simp [Quiet, ascii]) rest).map fun _ => rfl
    by_cases hfalse : b = ascii 'f'
    · subst hfalse
      exact (Scan.word_alike (by simp [Quiet, ascii]) rest).map fun _ => rfl
    by_cases hquote : b = ascii '\x22'
    · subst hquote
      exact (Scan.string_alike rest).map fun _ => rfl
    by_cases harray : b = ascii '['
    · subst harray
      exact ha rest
    by_cases hobject : b = ascii '\x7b'
    · subst hobject
      exact ho rest
    obtain ⟨tail, htail⟩ := spread_cons b rest
    have hn := Number.read_alike (b :: rest)
    rw [htail] at hn ⊢
    simp only [if_neg hnull, if_neg htrue, if_neg hfalse, if_neg hquote, if_neg harray,
      if_neg hobject]
    by_cases hnumber : Number.starts b = true
    · simp only [if_pos hnumber]
      exact hn
    · simp only [if_neg hnumber]
      exact .error rfl

theorem node_space (array object : Bytes → Read Json) (bs : Bytes) :
    node array object (ascii ' ' :: bs) = node array object bs :=
  rfl

theorem value_space (depth : Nat) (bs : Bytes) :
    value depth (ascii ' ' :: bs) = value depth bs := by
  cases depth with
  | zero => exact node_space _ _ bs
  | succ depth => exact node_space _ _ bs

theorem memberValue_shorter {one : Bytes → Read Json} (h : Indifferent one)
    {bs rest : Bytes} {v : Json} (hm : memberValue one bs = .ok (v, rest)) :
    rest.length ≤ bs.length := by
  obtain ⟨tail, hcolon, hv⟩ := bind_eq_ok hm
  have hc := (Scan.colon_spans hcolon).length_le
  have := h.shorter hv
  omega

/-- A member whose value is read alike, with one more space behind the colon. -/
theorem member_indifferent {one : Bytes → Read Json} (h : Indifferent one)
    (space : ∀ bs, one (ascii ' ' :: bs) = one bs) (name : String) (sofar : List (String × Json)) :
    Indifferent (member one name sofar) where
  alike bs := by
    refine (Scan.colon_alike bs).bind fun rest => ?_
    rw [space]
    exact (h.alike rest).andThen fun v rest => .ok ((name, v) :: sofar, rest)
  shorter hm := by
    obtain ⟨v, hvalue, -⟩ := member_eq_ok.1 hm
    exact memberValue_shorter h hvalue

theorem value_shorter {depth : Nat} {bs rest : Bytes} {v : Json}
    (h : value depth bs = .ok (v, rest)) : rest.length ≤ bs.length := by
  have := (value_taken h).spans.length_le
  omega

theorem value_indifferent (depth : Nat) : Indifferent (value depth) := by
  induction depth with
  | zero => exact ⟨node_alike (fun _ => .error rfl) fun _ => .error rfl, value_shorter⟩
  | succ depth ih =>
    refine ⟨node_alike (fun rest => ?_) fun rest => ?_, value_shorter⟩
    · exact (Scan.all_items_alike ih rest).map fun _ => rfl
    · exact (Scan.all_members_alike (member_indifferent ih (value_space depth)) [] rest).map
        fun _ => rfl

end Reader

/-- A text and the same with a space behind every separator are read to the same value, or refused
for the same cause. -/
theorem read_spread (bs : Bytes) :
    (read (spread .outside bs)).mapError (·.cause) = (read bs).mapError (·.cause) :=
  Scan.whole_alike ((Reader.value_indifferent Reader.depthLimit).alike bs)

end CameraChannel.Json
