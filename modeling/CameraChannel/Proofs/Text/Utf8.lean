import CameraChannel.Text.Utf8

/-!
UTF-8 read back: the machine that reads characters undoes their encoding, with any bytes behind
them, and takes no other bytes than encoded characters.
-/
namespace CameraChannel

/-- What holds of the 256 bytes holds of every byte. -/
theorem Bytes.forall_byte {p : UInt8 → Prop} (h : ∀ n : Fin 256, p (UInt8.ofNat n.val))
    (b : UInt8) : p b := by
  have hb := h ⟨b.toNat, b.toNat_lt⟩
  rwa [UInt8.ofNat_toNat] at hb

namespace Utf8

theorem toNat_ofNat {n : Nat} (h : n < 256) : (UInt8.ofNat n).toNat = n := by
  simp only [UInt8.toNat_ofNat']
  omega

theorem char_bounds (c : Char) : c.toNat < 0xD800 ∨ (0xDFFF < c.toNat ∧ c.toNat < 0x110000) :=
  c.valid

/-- The character `n` in UTF-8, its bytes as numbers. -/
def codes (n : Nat) : List Nat :=
  if n ≤ 0x7F then [n]
  else if n ≤ 0x7FF then [n / 64 + 0xC0, n % 64 + 0x80]
  else if n ≤ 0xFFFF then [n / 4096 + 0xE0, n / 64 % 64 + 0x80, n % 64 + 0x80]
  else [n / 262144 + 0xF0, n / 4096 % 64 + 0x80, n / 64 % 64 + 0x80, n % 64 + 0x80]

theorem encode_eq_codes (c : Char) : String.utf8EncodeChar c = (codes c.toNat).map UInt8.ofNat := by
  have hv := char_bounds c
  change (if c.toNat ≤ 0x7F then [UInt8.ofNat c.toNat]
    else if c.toNat ≤ 0x7FF then
      [UInt8.ofNat (c.toNat / 64 % 0x20 + 0xC0), UInt8.ofNat (c.toNat % 64 + 0x80)]
    else if c.toNat ≤ 0xFFFF then
      [UInt8.ofNat (c.toNat / 4096 % 0x10 + 0xE0), UInt8.ofNat (c.toNat / 64 % 64 + 0x80),
        UInt8.ofNat (c.toNat % 64 + 0x80)]
    else
      [UInt8.ofNat (c.toNat / 262144 % 0x08 + 0xF0), UInt8.ofNat (c.toNat / 4096 % 64 + 0x80),
        UInt8.ofNat (c.toNat / 64 % 64 + 0x80), UInt8.ofNat (c.toNat % 64 + 0x80)]) = _
  generalize c.toNat = n at hv ⊢
  unfold codes
  split
  · rfl
  · split
    · rw [show n / 64 % 0x20 = n / 64 by omega]
      rfl
    · split
      · rw [show n / 4096 % 0x10 = n / 4096 by omega]
        rfl
      · rw [show n / 262144 % 0x08 = n / 262144 by omega]
        rfl

/-- How a byte between characters is met, by its number. -/
theorem opening_ofNat {n : Nat} (h : n < 256) : opening (UInt8.ofNat n) =
    if n < 0x80 then .char (Char.ofNat n)
    else if n < 0xC2 then .invalid
    else if n < 0xE0 then .lead ⟨0, 0x80, 0xBF, n - 0xC0⟩
    else if n = 0xE0 then .lead ⟨1, 0xA0, 0xBF, 0⟩
    else if n = 0xED then .lead ⟨1, 0x80, 0x9F, 0xD⟩
    else if n < 0xF0 then .lead ⟨1, 0x80, 0xBF, n - 0xE0⟩
    else if n = 0xF0 then .lead ⟨2, 0x90, 0xBF, 0⟩
    else if n < 0xF4 then .lead ⟨2, 0x80, 0xBF, n - 0xF0⟩
    else if n = 0xF4 then .lead ⟨2, 0x80, 0x8F, 4⟩
    else .invalid := by
  rw [opening, toNat_ofNat h]

theorem decodeFrom_lead {b : UInt8} {p : Pending} (h : opening b = .lead p) (bs : Bytes) :
    decodeFrom none (b :: bs) = decodeFrom (some p) bs := by
  rw [decodeFrom, h]

theorem decodeFrom_more {low high bits k n : Nat} (h : low ≤ n ∧ n ≤ high) (hn : n < 256)
    (bs : Bytes) :
    decodeFrom (some ⟨k + 1, low, high, bits⟩) (UInt8.ofNat n :: bs) =
      decodeFrom (some ⟨k, 0x80, 0xBF, bits * 64 + (n - 0x80)⟩) bs := by
  have hp : (Pending.mk (k + 1) low high bits).next (UInt8.ofNat n) =
      .more ⟨k, 0x80, 0xBF, bits * 64 + (n - 0x80)⟩ := by
    rw [Pending.next, toNat_ofNat hn]
    exact if_neg (by simp only; omega)
  rw [decodeFrom, hp]

theorem decodeFrom_last {low high bits n : Nat} (h : low ≤ n ∧ n ≤ high) (hn : n < 256)
    (bs : Bytes) :
    decodeFrom (some ⟨0, low, high, bits⟩) (UInt8.ofNat n :: bs) =
      (decodeFrom none bs).map (Char.ofNat (bits * 64 + (n - 0x80)) :: ·) := by
  have hp : (Pending.mk 0 low high bits).next (UInt8.ofNat n) =
      .char (Char.ofNat (bits * 64 + (n - 0x80))) := by
    rw [Pending.next, toNat_ofNat hn]
    exact if_neg (by simp only; omega)
  rw [decodeFrom, hp]

theorem decodeFrom_two {n : Nat} (h : 0x7F < n) (k : n ≤ 0x7FF) (bs : Bytes) :
    decodeFrom none (UInt8.ofNat (n / 64 + 0xC0) :: UInt8.ofNat (n % 64 + 0x80) :: bs) =
      (decodeFrom none bs).map (Char.ofNat n :: ·) := by
  have ho : opening (UInt8.ofNat (n / 64 + 0xC0)) = .lead ⟨0, 0x80, 0xBF, n / 64⟩ := by
    rw [opening_ofNat (by omega), if_neg (by omega), if_neg (by omega), if_pos (by omega),
      Nat.add_sub_cancel]
  have hn : n / 64 * 64 + (n % 64 + 0x80 - 0x80) = n := by omega
  rw [decodeFrom_lead ho, decodeFrom_last (by omega) (by omega), hn]

theorem decodeFrom_three {n : Nat} (h : 0x7FF < n) (k : n ≤ 0xFFFF) (hv : n < 0xD800 ∨ 0xDFFF < n)
    (bs : Bytes) :
    decodeFrom none (UInt8.ofNat (n / 4096 + 0xE0) :: UInt8.ofNat (n / 64 % 64 + 0x80) ::
        UInt8.ofNat (n % 64 + 0x80) :: bs) =
      (decodeFrom none bs).map (Char.ofNat n :: ·) := by
  have ho : ∃ low high, opening (UInt8.ofNat (n / 4096 + 0xE0)) = .lead ⟨1, low, high, n / 4096⟩ ∧
      low ≤ n / 64 % 64 + 0x80 ∧ n / 64 % 64 + 0x80 ≤ high := by
    rw [opening_ofNat (by omega), if_neg (by omega), if_neg (by omega), if_neg (by omega)]
    by_cases h0 : n / 4096 + 0xE0 = 0xE0
    · refine ⟨0xA0, 0xBF, ?_, by omega⟩
      rw [if_pos h0, show n / 4096 = 0 by omega]
    · rw [if_neg h0]
      by_cases hd : n / 4096 + 0xE0 = 0xED
      · refine ⟨0x80, 0x9F, ?_, by omega⟩
        rw [if_pos hd, show n / 4096 = 0xD by omega]
      · refine ⟨0x80, 0xBF, ?_, by omega⟩
        rw [if_neg hd, if_pos (by omega), Nat.add_sub_cancel]
  obtain ⟨low, high, ho, hb⟩ := ho
  have hn : (n / 4096 * 64 + (n / 64 % 64 + 0x80 - 0x80)) * 64 + (n % 64 + 0x80 - 0x80) = n := by
    omega
  rw [decodeFrom_lead ho, decodeFrom_more hb (by omega), decodeFrom_last (by omega) (by omega), hn]

theorem decodeFrom_four {n : Nat} (h : 0xFFFF < n) (k : n < 0x110000) (bs : Bytes) :
    decodeFrom none (UInt8.ofNat (n / 262144 + 0xF0) :: UInt8.ofNat (n / 4096 % 64 + 0x80) ::
        UInt8.ofNat (n / 64 % 64 + 0x80) :: UInt8.ofNat (n % 64 + 0x80) :: bs) =
      (decodeFrom none bs).map (Char.ofNat n :: ·) := by
  have ho : ∃ low high, opening (UInt8.ofNat (n / 262144 + 0xF0)) =
      .lead ⟨2, low, high, n / 262144⟩ ∧
      low ≤ n / 4096 % 64 + 0x80 ∧ n / 4096 % 64 + 0x80 ≤ high := by
    rw [opening_ofNat (by omega), if_neg (by omega), if_neg (by omega), if_neg (by omega),
      if_neg (by omega), if_neg (by omega), if_neg (by omega)]
    by_cases h0 : n / 262144 + 0xF0 = 0xF0
    · refine ⟨0x90, 0xBF, ?_, by omega⟩
      rw [if_pos h0, show n / 262144 = 0 by omega]
    · rw [if_neg h0]
      by_cases h4 : n / 262144 + 0xF0 < 0xF4
      · refine ⟨0x80, 0xBF, ?_, by omega⟩
        rw [if_pos h4, Nat.add_sub_cancel]
      · refine ⟨0x80, 0x8F, ?_, by omega⟩
        rw [if_neg h4, if_pos (by omega), show n / 262144 = 4 by omega]
  obtain ⟨low, high, ho, hb⟩ := ho
  have hn : ((n / 262144 * 64 + (n / 4096 % 64 + 0x80 - 0x80)) * 64 +
      (n / 64 % 64 + 0x80 - 0x80)) * 64 + (n % 64 + 0x80 - 0x80) = n := by omega
  rw [decodeFrom_lead ho, decodeFrom_more hb (by omega),
    decodeFrom_more (by omega) (by omega), decodeFrom_last (by omega) (by omega), hn]

theorem decodeFrom_one {n : Nat} (h : n ≤ 0x7F) (bs : Bytes) :
    decodeFrom none (UInt8.ofNat n :: bs) = (decodeFrom none bs).map (Char.ofNat n :: ·) := by
  have ho : opening (UInt8.ofNat n) = .char (Char.ofNat n) := by
    rw [opening_ofNat (by omega), if_pos (by omega)]
  rw [decodeFrom, ho]

theorem decodeFrom_codes {n : Nat} (hv : n < 0xD800 ∨ (0xDFFF < n ∧ n < 0x110000)) (bs : Bytes) :
    decodeFrom none ((codes n).map UInt8.ofNat ++ bs) =
      (decodeFrom none bs).map (Char.ofNat n :: ·) := by
  unfold codes
  split
  · next h1 => exact decodeFrom_one h1 bs
  · next h1 =>
    split
    · next h2 => exact decodeFrom_two (by omega) h2 bs
    · next h2 =>
      split
      · next h3 => exact decodeFrom_three (by omega) h3 (by omega) bs
      · next h3 => exact decodeFrom_four (by omega) (by omega) bs

/-- A character in front is read first. -/
theorem decodeFrom_encode (c : Char) (bs : Bytes) :
    decodeFrom none (String.utf8EncodeChar c ++ bs) = (decodeFrom none bs).map (c :: ·) := by
  rw [encode_eq_codes, decodeFrom_codes (char_bounds c), Char.ofNat_toNat]

theorem decode?_ofChars (cs : List Char) : decode? (ofChars cs) = some cs := by
  induction cs with
  | nil => rfl
  | cons c cs ih =>
    rw [decode?] at ih ⊢
    rw [ofChars_cons, decodeFrom_encode, ih]
    rfl

theorem toString?_ofChars (cs : List Char) : toString? (ofChars cs) = some (String.ofList cs) := by
  rw [toString?, decode?_ofChars]
  rfl

/-- What the first byte of a longer character says of it. -/
inductive Leads (b : UInt8) : Pending → Prop where
  | two (bits : Nat) (h : b.toNat = bits + 0xC0) (hb : 2 ≤ bits) (hl : bits < 32) :
      Leads b ⟨0, 0x80, 0xBF, bits⟩
  | three (low high bits : Nat) (h : b.toNat = bits + 0xE0) (hb : bits < 16) (hl : 0x80 ≤ low)
      (hh : high ≤ 0xBF) (overlong : bits = 0 → 0xA0 ≤ low) (surrogate : bits = 0xD → high ≤ 0x9F) :
      Leads b ⟨1, low, high, bits⟩
  | four (low high bits : Nat) (h : b.toNat = bits + 0xF0) (hb : bits ≤ 4) (hl : 0x80 ≤ low)
      (hh : high ≤ 0xBF) (overlong : bits = 0 → 0x90 ≤ low) (beyond : bits = 4 → high ≤ 0x8F) :
      Leads b ⟨2, low, high, bits⟩

/-- The three things that a byte between characters can do. -/
theorem opening_cases (b : UInt8) :
    (b.toNat < 0x80 ∧ opening b = .char (Char.ofNat b.toNat)) ∨
      (∃ p, Leads b p ∧ opening b = .lead p) ∨ opening b = .invalid := by
  have hlt := b.toNat_lt
  unfold opening
  simp only
  split
  · next h => exact .inl ⟨h, rfl⟩
  split
  · exact .inr (.inr rfl)
  split
  · exact .inr (.inl ⟨_, .two _ (by omega) (by omega) (by omega), rfl⟩)
  split
  · exact .inr (.inl ⟨_, .three _ _ _ (by omega) (by omega) (by omega) (by omega) (by omega)
      (by omega), rfl⟩)
  split
  · exact .inr (.inl ⟨_, .three _ _ _ (by omega) (by omega) (by omega) (by omega) (by omega)
      (by omega), rfl⟩)
  split
  · exact .inr (.inl ⟨_, .three _ _ _ (by omega) (by omega) (by omega) (by omega) (by omega)
      (by omega), rfl⟩)
  split
  · exact .inr (.inl ⟨_, .four _ _ _ (by omega) (by omega) (by omega) (by omega) (by omega)
      (by omega), rfl⟩)
  split
  · exact .inr (.inl ⟨_, .four _ _ _ (by omega) (by omega) (by omega) (by omega) (by omega)
      (by omega), rfl⟩)
  split
  · exact .inr (.inl ⟨_, .four _ _ _ (by omega) (by omega) (by omega) (by omega) (by omega)
      (by omega), rfl⟩)
  · exact .inr (.inr rfl)

theorem exists_of_decodeFrom_last {low high bits : Nat} {bs : Bytes} {cs : List Char}
    (h : decodeFrom (some ⟨0, low, high, bits⟩) bs = some cs) :
    ∃ b rest ds, bs = b :: rest ∧ low ≤ b.toNat ∧ b.toNat ≤ high ∧
      decodeFrom none rest = some ds ∧ cs = Char.ofNat (bits * 64 + (b.toNat - 0x80)) :: ds := by
  cases bs with
  | nil => cases h
  | cons b rest =>
    rw [decodeFrom, Pending.next] at h
    by_cases hr : b.toNat < low ∨ high < b.toNat
    · simp [hr] at h
    · simp only [hr, if_false] at h
      obtain ⟨ds, hd, rfl⟩ := Option.map_eq_some_iff.1 h
      exact ⟨b, rest, ds, rfl, by omega, by omega, hd, rfl⟩

theorem exists_of_decodeFrom_more {k low high bits : Nat} {bs : Bytes} {cs : List Char}
    (h : decodeFrom (some ⟨k + 1, low, high, bits⟩) bs = some cs) :
    ∃ b rest, bs = b :: rest ∧ low ≤ b.toNat ∧ b.toNat ≤ high ∧
      decodeFrom (some ⟨k, 0x80, 0xBF, bits * 64 + (b.toNat - 0x80)⟩) rest = some cs := by
  cases bs with
  | nil => cases h
  | cons b rest =>
    rw [decodeFrom, Pending.next] at h
    by_cases hr : b.toNat < low ∨ high < b.toNat
    · simp [hr] at h
    · simp only [hr, if_false] at h
      exact ⟨b, rest, rfl, by omega, by omega, h⟩

theorem codes_of_lead {b : UInt8} {p : Pending} (hp : Leads b p) {bs : Bytes} {cs : List Char}
    (h : decodeFrom (some p) bs = some cs) :
    ∃ n rest ds, (n < 0xD800 ∨ (0xDFFF < n ∧ n < 0x110000)) ∧
      b :: bs = (codes n).map UInt8.ofNat ++ rest ∧ decodeFrom none rest = some ds ∧
      cs = Char.ofNat n :: ds := by
  cases hp with
  | two bits hb h2 hl =>
    obtain ⟨x, rest, ds, rfl, hx, hx', hd, rfl⟩ := exists_of_decodeFrom_last h
    have hc : codes (bits * 64 + (x.toNat - 0x80)) = [b.toNat, x.toNat] := by
      rw [codes, if_neg (by omega), if_pos (by omega)]
      simp only [List.cons.injEq, and_true]
      omega
    refine ⟨_, rest, ds, by omega, ?_, hd, rfl⟩
    rw [hc]
    simp
  | three low high bits hb h16 hlow hhigh ho hs =>
    obtain ⟨x, bs, rfl, hx, hx', h⟩ := exists_of_decodeFrom_more h
    obtain ⟨y, rest, ds, rfl, hy, hy', hd, rfl⟩ := exists_of_decodeFrom_last h
    have hc : codes ((bits * 64 + (x.toNat - 0x80)) * 64 + (y.toNat - 0x80)) =
        [b.toNat, x.toNat, y.toNat] := by
      rw [codes, if_neg (by omega), if_neg (by omega), if_pos (by omega)]
      simp only [List.cons.injEq, and_true]
      omega
    refine ⟨_, rest, ds, by omega, ?_, hd, rfl⟩
    rw [hc]
    simp
  | four low high bits hb h4 hlow hhigh ho hs =>
    obtain ⟨x, bs, rfl, hx, hx', h⟩ := exists_of_decodeFrom_more h
    obtain ⟨y, bs, rfl, hy, hy', h⟩ := exists_of_decodeFrom_more h
    obtain ⟨z, rest, ds, rfl, hz, hz', hd, rfl⟩ := exists_of_decodeFrom_last h
    have hc : codes (((bits * 64 + (x.toNat - 0x80)) * 64 + (y.toNat - 0x80)) * 64 +
        (z.toNat - 0x80)) = [b.toNat, x.toNat, y.toNat, z.toNat] := by
      rw [codes, if_neg (by omega), if_neg (by omega), if_neg (by omega)]
      simp only [List.cons.injEq, and_true]
      omega
    refine ⟨_, rest, ds, by omega, ?_, hd, rfl⟩
    rw [hc]
    simp

theorem toNat_char {n : Nat} (h : n < 0xD800 ∨ (0xDFFF < n ∧ n < 0x110000)) :
    (Char.ofNat n).toNat = n := by
  rw [Char.ofNat, dif_pos h]
  rfl

theorem encode_ofNat {n : Nat} (h : n < 0xD800 ∨ (0xDFFF < n ∧ n < 0x110000)) :
    String.utf8EncodeChar (Char.ofNat n) = (codes n).map UInt8.ofNat := by
  rw [encode_eq_codes, toNat_char h]

/-- Bytes that are read as characters are their encoding. -/
theorem ofChars_of_decodeFrom {bs : Bytes} {cs : List Char} (h : decodeFrom none bs = some cs) :
    bs = ofChars cs := by
  induction hn : bs.length using Nat.strongRecOn generalizing bs cs with
  | _ n ih =>
    cases bs with
    | nil =>
      cases h
      rfl
    | cons b bs =>
      obtain ⟨hb, ho⟩ | ⟨p, hp, ho⟩ | ho := opening_cases b
      · rw [decodeFrom, ho] at h
        obtain ⟨ds, hd, rfl⟩ := Option.map_eq_some_iff.1 h
        have hc : codes b.toNat = [b.toNat] := if_pos (by omega)
        rw [ofChars_cons, encode_ofNat (by omega), hc, ← ih bs.length (by simp [← hn]) hd rfl]
        simp
      · rw [decodeFrom_lead ho] at h
        obtain ⟨n, rest, ds, hv, hbs, hd, rfl⟩ := codes_of_lead hp h
        have hne : 0 < ((codes n).map UInt8.ofNat).length := by
          unfold codes
          repeat' split
          all_goals simp
        have hlen := congrArg List.length hbs
        rw [List.length_append] at hlen
        rw [hbs, ofChars_cons, encode_ofNat hv, ← ih rest.length (by omega) hd rfl]
      · rw [decodeFrom, ho] at h
        cases h

theorem decode?_eq_some {bs : Bytes} {cs : List Char} : decode? bs = some cs ↔ bs = ofChars cs :=
  ⟨ofChars_of_decodeFrom, fun h => h ▸ decode?_ofChars cs⟩

theorem toString?_eq_some {bs : Bytes} {s : String} : toString? bs = some s ↔ bs = ofString s := by
  rw [toString?, Option.map_eq_some_iff]
  constructor
  · rintro ⟨cs, h, rfl⟩
    rw [ofString, String.toList_ofList]
    exact decode?_eq_some.1 h
  · intro h
    exact ⟨s.toList, decode?_eq_some.2 h, String.ofList_toList⟩

theorem encode_ascii {b : UInt8} (h : b.toNat < 0x80) :
    String.utf8EncodeChar (Char.ofNat b.toNat) = [b] := by
  have hc : codes b.toNat = [b.toNat] := if_pos (by omega)
  rw [encode_eq_codes, toNat_char (by omega), hc]
  simp

theorem ofChars_ascii {bs : Bytes} (h : ∀ b ∈ bs, b.toNat < 0x80) :
    ofChars (bs.map fun b => Char.ofNat b.toNat) = bs := by
  induction bs with
  | nil => rfl
  | cons b bs ih =>
    rw [List.map_cons, ofChars_cons, encode_ascii (h b (by simp)),
      ih fun x hx => h x (by simp [hx])]
    rfl

/-- No byte that begins a character carries one on. -/
theorem next_encode (c : Char) (bs : Bytes) {p : Pending} (hl : 0x80 ≤ p.low) (hh : p.high ≤ 0xBF) :
    decodeFrom (some p) (String.utf8EncodeChar c ++ bs) = none := by
  have hv := char_bounds c
  obtain ⟨n, ns, hc, hn, hr⟩ :
      ∃ n ns, codes c.toNat = n :: ns ∧ n < 256 ∧ (n < 0x80 ∨ 0xC0 ≤ n) := by
    unfold codes
    split
    · exact ⟨_, _, rfl, by omega⟩
    split
    · exact ⟨_, _, rfl, by omega⟩
    split
    · exact ⟨_, _, rfl, by omega⟩
    · exact ⟨_, _, rfl, by omega⟩
  rw [encode_eq_codes, hc, List.map_cons, List.cons_append, decodeFrom, Pending.next,
    toNat_ofNat hn]
  have hb : n < p.low ∨ p.high < n := by omega
  simp [hb]

/-- Where the machine can stand. -/
def Reached : Option Pending → Prop
  | none => True
  | some p => 0x80 ≤ p.low ∧ p.high ≤ 0xBF

theorem Leads.reached {b : UInt8} {p : Pending} (h : Leads b p) : Reached (some p) := by
  cases h with
  | two => exact ⟨Nat.le_refl _, Nat.le_refl _⟩
  | three low high _ _ _ hl hh => exact ⟨hl, hh⟩
  | four low high _ _ _ hl hh => exact ⟨hl, hh⟩

theorem next_reached {p q : Pending} {b : UInt8} (h : p.next b = .more q) : Reached (some q) := by
  rw [Pending.next] at h
  simp only at h
  split at h
  · cases h
  · split at h
    · cases h
    · cases h
      exact ⟨Nat.le_refl _, Nat.le_refl _⟩

/-- A byte brings the machine to another place, or stops it. -/
theorem decodeFrom_step (here : Option Pending) (b : UInt8) :
    (∃ there, Reached there ∧
      ∀ bs, (decodeFrom here (b :: bs)).isSome = (decodeFrom there bs).isSome) ∨
      ∀ bs, decodeFrom here (b :: bs) = none := by
  cases here with
  | none =>
    obtain ⟨-, ho⟩ | ⟨p, hp, ho⟩ | ho := opening_cases b
    · exact .inl ⟨none, trivial, fun bs => by rw [decodeFrom, ho, Option.isSome_map]⟩
    · exact .inl ⟨some p, hp.reached, fun bs => by rw [decodeFrom_lead ho]⟩
    · exact .inr fun bs => by rw [decodeFrom, ho]
  | some p =>
    cases hn : p.next b with
    | char c => exact .inl ⟨none, trivial, fun bs => by rw [decodeFrom, hn, Option.isSome_map]⟩
    | more q => exact .inl ⟨some q, next_reached hn, fun bs => by rw [decodeFrom, hn]⟩
    | broken => exact .inr fun bs => by rw [decodeFrom, hn]

end Utf8

end CameraChannel
