import CameraChannel.Proofs.Json.Extent
import CameraChannel.Proofs.Json.Spacing

/-!
Pieces of text read alike with and without a space behind every separator: blanks, fixed words,
strings, and the items and members between brackets. Both readings give the same, with the spaces in
the text that is left, or both fail for the same cause.
-/
namespace CameraChannel.Json

variable {α β γ δ : Type}

/-- Two readings of which the second gives `φ` of what the first gives, or fails for the same
cause. -/
inductive Alike (φ : α → β) : Except Fault α → Except Fault β → Prop
  | ok (a : α) : Alike φ (.ok a) (.ok (φ a))
  | error {f g : Fault} (cause : g.cause = f.cause) : Alike φ (.error f) (.error g)

namespace Alike

variable {φ : α → β} {ψ : γ → δ} {r : Except Fault α} {s : Except Fault β}

theorem bind {f : α → Except Fault γ} {g : β → Except Fault δ} (h : Alike φ r s)
    (hf : ∀ a, Alike ψ (f a) (g (φ a))) : Alike ψ (r >>= f) (s >>= g) := by
  cases h with
  | ok a => exact hf a
  | error cause => exact .error cause

theorem map {f : α → γ} {g : β → δ} (h : Alike φ r s) (hf : ∀ a, g (φ a) = ψ (f a)) :
    Alike ψ (r.map f) (s.map g) := by
  cases h with
  | ok a =>
    change Alike ψ (.ok (f a)) (.ok (g (φ a)))
    rw [hf]
    exact .ok _
  | error cause => exact .error cause

end Alike

/-- What was read, with spaces in the text that is left. -/
def respace (r : α × Bytes) : α × Bytes := (r.1, spread .outside r.2)

theorem Alike.andThen {ψ : γ → δ} {r s : Read α} {f : α × Bytes → Except Fault γ}
    {g : α × Bytes → Except Fault δ} (h : Alike respace r s)
    (hf : ∀ a rest, Alike ψ (f (a, rest)) (g (a, spread .outside rest))) :
    Alike ψ (r >>= f) (s >>= g) :=
  h.bind fun r => hf r.1 r.2

/-- A reader that takes text off, and does the same with and without the spaces. -/
structure Indifferent (one : Bytes → Read α) : Prop where
  alike : ∀ bs, Alike respace (one bs) (one (spread .outside bs))
  shorter : ∀ {bs a rest}, one bs = .ok (a, rest) → rest.length ≤ bs.length

theorem spread_cons (b : UInt8) (rest : Bytes) :
    ∃ tail, spread .outside (b :: rest) = b :: tail := by
  rw [spread]
  split <;> exact ⟨_, rfl⟩

theorem quiet_digit {b : UInt8} (h : Scan.isDigit b = true) : Quiet b := by
  have hall : ∀ b, Scan.isDigit b = true → Quiet b := Bytes.forall_byte (by decide +kernel)
  exact hall b h

theorem quiet_space {b : UInt8} (h : Scan.isSpace b = true) : Quiet b := by
  have hall : ∀ b, Scan.isSpace b = true → Quiet b := Bytes.forall_byte (by decide +kernel)
  exact hall b h

variable {p : UInt8 → Bool}

theorem takeWhile_spread (hp : ∀ b, p b = true → Quiet b) (bs : Bytes) :
    (spread .outside bs).takeWhile p = bs.takeWhile p := by
  induction bs with
  | nil => rfl
  | cons b bs ih =>
    cases hb : p b with
    | true => rw [spread_quiet (hp b hb), List.takeWhile_cons_of_pos hb, ih,
        List.takeWhile_cons_of_pos hb]
    | false =>
      obtain ⟨tail, htail⟩ := spread_cons b bs
      rw [htail, List.takeWhile_cons_of_neg (by simp [hb]),
        List.takeWhile_cons_of_neg (by simp [hb])]

theorem dropWhile_spread (hp : ∀ b, p b = true → Quiet b) (bs : Bytes) :
    (spread .outside bs).dropWhile p = spread .outside (bs.dropWhile p) := by
  induction bs with
  | nil => rfl
  | cons b bs ih =>
    cases hb : p b with
    | true => rw [spread_quiet (hp b hb), List.dropWhile_cons_of_pos hb, ih,
        List.dropWhile_cons_of_pos hb]
    | false =>
      obtain ⟨tail, htail⟩ := spread_cons b bs
      rw [List.dropWhile_cons_of_neg (by simp [hb]), htail,
        List.dropWhile_cons_of_neg (by simp [hb])]

namespace Scan

theorem skipSpace_spread (bs : Bytes) :
    skipSpace (spread .outside bs) = spread .outside (skipSpace bs) :=
  dropWhile_spread (fun _ => quiet_space) bs

theorem skipSpace_space (bs : Bytes) : skipSpace (ascii ' ' :: bs) = skipSpace bs := rfl

theorem word_alike {cs : List Char} (h : ∀ c ∈ cs, Quiet (ascii c)) (bs : Bytes) :
    Alike (spread .outside) (word cs bs) (word cs (spread .outside bs)) := by
  induction cs generalizing bs with
  | nil => exact .ok bs
  | cons c cs ih =>
    cases bs with
    | nil => exact .error rfl
    | cons b bs =>
      by_cases hb : b = ascii c
      · rw [hb, spread_quiet (h c (by simp)), word, word, if_pos rfl, if_pos rfl]
        exact ih (fun x hx => h x (by simp [hx])) bs
      · obtain ⟨tail, htail⟩ := spread_cons b bs
        rw [htail, word, word, if_neg hb, if_neg hb]
        exact .error rfl

theorem before_alike (out : Bytes) {r s : Read Bytes} (h : Alike respace r s) :
    Alike respace (before out r) (before out s) :=
  h.map fun _ => rfl

theorem spread_unit (a b c d : UInt8) (bs : Bytes) :
    spread (.inside 0) (ascii '\\' :: ascii 'u' :: a :: b :: c :: d :: bs) =
      ascii '\\' :: ascii 'u' :: a :: b :: c :: d :: spread (.inside 0) bs :=
  rfl

theorem spread_short {e : UInt8} (h : e ≠ ascii 'u') (bs : Bytes) :
    spread (.inside 0) (ascii '\\' :: e :: bs) = ascii '\\' :: e :: spread (.inside 0) bs := by
  have hn : Place.next .escaped e = .inside 0 := if_neg h
  change ascii '\\' :: e :: spread (Place.next .escaped e) bs = _
  rw [hn]

/-- Digits of an escaped code unit that are cut short. -/
theorem spread_cut {bs : Bytes} (h : ∀ a b c d rest, bs = a :: b :: c :: d :: rest → False) :
    spread (.inside 0) (ascii '\\' :: ascii 'u' :: bs) = ascii '\\' :: ascii 'u' :: bs := by
  match bs, h with
  | [], _ => rfl
  | [_], _ => rfl
  | [_, _], _ => rfl
  | [_, _, _], _ => rfl
  | a :: b :: c :: d :: rest, h => exact (h a b c d rest rfl).elim

theorem shortEscape_u : shortEscape (ascii 'u') = none := by decide

theorem spread_inside (b : UInt8) (bs : Bytes) :
    spread (.inside 0) (b :: bs) = b :: spread (Place.next (.inside 0) b) bs :=
  rfl

/-- The scanner and the reader agree on where a string ends, and up to there no space is put in. -/
theorem stringBytes_alike (bs : Bytes) :
    Alike respace (stringBytes bs) (stringBytes (spread (.inside 0) bs)) := by
  have hq : ascii '\\' ≠ ascii '\x22' := by decide
  fun_induction stringBytes bs with
  | case1 => exact .error rfl
  | case2 bs =>
    change Alike respace _ (stringBytes (ascii '\x22' :: spread .outside bs))
    rw [stringBytes.eq_def]
    exact .ok ([], bs)
  | case3 => exact .error rfl
  | case4 e bs c hs _ ih =>
    have he : e ≠ ascii 'u' := fun e => by simp [e, shortEscape_u] at hs
    rw [spread_short he, stringBytes_short hs]
    exact before_alike [c] ih
  -- a character given by two code units, and by one
  | case10 =>
    rename_i ih
    rw [spread_unit, spread_unit, stringBytes.eq_def (ascii '\\' :: _)]
    simp only [if_true, *]
    exact before_alike _ ih
  | case15 =>
    rename_i ih
    rw [spread_unit, stringBytes.eq_def (ascii '\\' :: _)]
    simp only [if_true, *]
    exact before_alike _ ih
  -- a code unit whose partner is cut short, is no code unit, or is no escape
  | case12 =>
    rename_i hcut _ _
    rw [spread_unit, spread_cut hcut, stringBytes.eq_def]
    simp only [if_true, *]
    exact .error rfl
  | case13 =>
    rename_i he _ _
    rw [spread_unit, spread_short he, stringBytes.eq_def]
    simp only [if_true, *]
    exact .error rfl
  | case14 =>
    rw [spread_unit, spread_inside, stringBytes.eq_def]
    simp only [if_true, *]
    exact .error rfl
  | case16 bs hcut =>
    rw [spread_cut hcut, stringBytes.eq_def]
    simp only [if_neg hq, if_true, shortEscape_u]
    exact .error rfl
  | case17 e bs hs he =>
    rw [spread_short he, stringBytes.eq_def]
    simp only [if_neg hq, if_true, hs, if_neg he]
    exact .error rfl
  | case18 b bs hb hs hlt =>
    rw [spread_inside, stringBytes.eq_def]
    simp only [if_neg hb, if_neg hs, if_pos hlt]
    exact .error rfl
  | case19 b bs hb hs hlt ih =>
    have hn : Place.next (.inside 0) b = .inside 0 := by simp [Place.next, hb, hs]
    rw [spread_inside, hn, stringBytes_plain ⟨hb, hs, hlt⟩]
    exact before_alike [b] ih
  -- digits that are none, and code units that no character or no partner goes with
  | _ =>
    rw [spread_unit, stringBytes.eq_def]
    simp only [if_true, spread_unit, *]
    exact .error rfl

/-- A string is read to its end as it is. -/
theorem string_alike (bs : Bytes) : Alike respace (string bs) (string (spread (.inside 0) bs)) := by
  refine (stringBytes_alike bs).andThen fun content rest => ?_
  simp only
  cases Utf8.toString? content with
  | none => exact .error rfl
  | some s => exact .ok (s, rest)

/-- What follows inside a bracket, where an item starts at `p`. -/
def Next.respace (p : Place) : Next → Next
  | .item bs => .item (spread p bs)
  | .close rest => .close (spread .outside rest)

theorem nextItem_alike (first : Bool) (bs : Bytes) :
    Alike (Next.respace .outside) (nextItem first bs) (nextItem first (spread .outside bs)) := by
  rw [nextItem, nextItem, skipSpace_spread]
  cases skipSpace bs with
  | nil => exact .error rfl
  | cons b rest =>
    by_cases hclose : b = ascii ']'
    · rw [hclose, spread_quiet (by decide)]
      exact .ok (Next.close rest)
    by_cases hcomma : b = ascii ','
    · subst hcomma
      cases first with
      | true => exact .ok (Next.item (ascii ',' :: rest))
      | false =>
        have hspread : spread .outside (ascii ',' :: rest) =
            ascii ',' :: ascii ' ' :: spread .outside rest := rfl
        rw [hspread]
        simp only [if_neg hclose, Bool.false_eq_true, if_false, if_true, skipSpace_space,
          skipSpace_spread]
        cases skipSpace rest with
        | nil => exact .error rfl
        | cons c rest =>
          obtain ⟨tail, htail⟩ := spread_cons c rest
          rw [htail]
          by_cases hend : c = ascii ']'
          · simp only [if_pos hend]
            exact .error rfl
          · simp only [if_neg hend, ← htail]
            exact .ok (Next.item (c :: rest))
    · obtain ⟨tail, htail⟩ := spread_cons b rest
      rw [htail]
      cases first with
      | true =>
        simp only [if_neg hclose, if_true, ← htail]
        exact .ok (Next.item (b :: rest))
      | false =>
        simp only [if_neg hclose, Bool.false_eq_true, if_false, if_neg hcomma]
        exact .error rfl

theorem nameAt_alike (b : UInt8) {rest tail : Bytes} (h : spread .outside (b :: rest) = b :: tail) :
    Alike (Next.respace (.inside 0)) (nameAt b rest) (nameAt b tail) := by
  by_cases hq : b = ascii '\x22'
  · subst hq
    obtain rfl := (List.cons.inj h).2
    exact .ok (Next.item rest)
  · rw [nameAt, nameAt, if_neg hq, if_neg hq]
    exact .error rfl

theorem nextMember_alike (first : Bool) (bs : Bytes) :
    Alike (Next.respace (.inside 0)) (nextMember first bs)
      (nextMember first (spread .outside bs)) := by
  rw [nextMember, nextMember, skipSpace_spread]
  cases skipSpace bs with
  | nil => exact .error rfl
  | cons b rest =>
    by_cases hclose : b = ascii '\x7d'
    · rw [hclose, spread_quiet (by decide)]
      exact .ok (Next.close rest)
    by_cases hcomma : b = ascii ','
    · subst hcomma
      cases first with
      | true => exact .error rfl
      | false =>
        have hspread : spread .outside (ascii ',' :: rest) =
            ascii ',' :: ascii ' ' :: spread .outside rest := rfl
        rw [hspread]
        simp only [if_neg hclose, Bool.false_eq_true, if_false, if_true, skipSpace_space,
          skipSpace_spread]
        cases skipSpace rest with
        | nil => exact .error rfl
        | cons c rest =>
          obtain ⟨tail, htail⟩ := spread_cons c rest
          rw [htail]
          by_cases hend : c = ascii '\x7d'
          · simp only [if_pos hend]
            exact .error rfl
          · simp only [if_neg hend]
            exact nameAt_alike c htail
    · obtain ⟨tail, htail⟩ := spread_cons b rest
      rw [htail]
      cases first with
      | true =>
        simp only [if_neg hclose, if_true]
        exact nameAt_alike b htail
      | false =>
        simp only [if_neg hclose, Bool.false_eq_true, if_false, if_neg hcomma]
        exact .error rfl

/-- Behind a colon stands one more space. -/
theorem colon_alike (bs : Bytes) :
    Alike (fun rest => ascii ' ' :: spread .outside rest)
      (colon bs) (colon (spread .outside bs)) := by
  rw [colon, colon, skipSpace_spread]
  cases skipSpace bs with
  | nil => exact .error rfl
  | cons b rest =>
    by_cases hcolon : b = ascii ':'
    · subst hcolon
      exact .ok rest
    · obtain ⟨tail, htail⟩ := spread_cons b rest
      rw [htail]
      simp only [if_neg hcolon]
      exact .error rfl

variable {σ : Type} {fuel fuel' : Nat} {first : Bool}

/-- Fuel beyond the length of the text changes nothing. -/
theorem items_fuel {one : Bytes → Read α}
    (h : ∀ {bs a rest}, one bs = .ok (a, rest) → rest.length ≤ bs.length) {bs : Bytes}
    (hf : bs.length + first.toNat ≤ fuel) (hf' : bs.length + first.toNat ≤ fuel') :
    items one fuel first bs = items one fuel' first bs := by
  have spent : ∀ fuel, items one fuel false [] = .error (fault .endInArray []) := by
    intro fuel
    cases fuel <;> rfl
  induction fuel generalizing fuel' first bs with
  | zero =>
    obtain rfl : bs = [] := List.eq_nil_of_length_eq_zero (by omega)
    cases first with
    | true => exact absurd hf (by decide)
    | false => rw [spent, spent]
  | succ fuel ih =>
    cases fuel' with
    | zero =>
      obtain rfl : bs = [] := List.eq_nil_of_length_eq_zero (by omega)
      cases first with
      | true => exact absurd hf' (by decide)
      | false => rw [spent, spent]
    | succ fuel' =>
      rw [items, items]
      cases hnext : nextItem first bs with
      | error f => rfl
      | ok next =>
        cases next with
        | close rest => rfl
        | item start =>
          have hstart := (nextItem_item_spans hnext).length_le
          cases hone : one start with
          | error f => simp only [bind, Except.bind, hone]
          | ok r =>
            obtain ⟨v, rest⟩ := r
            have hrest := h hone
            have hlen : rest.length ≤ fuel ∧ rest.length ≤ fuel' := by
              cases first <;> simp only [Bool.toNat_true, Bool.toNat_false, if_true,
                Bool.false_eq_true, if_false] at hstart hf hf' <;> omega
            have hlater : items one fuel false rest = items one fuel' false rest := ih hlen.1 hlen.2
            simp only [bind, Except.bind, hone, hlater]

theorem members_fuel {one : String → σ → Bytes → Read σ}
    (h : ∀ {name s bs s' rest}, one name s bs = .ok (s', rest) → rest.length ≤ bs.length) {s : σ}
    {bs : Bytes} (hf : bs.length ≤ fuel) (hf' : bs.length ≤ fuel') :
    members one fuel first s bs = members one fuel' first s bs := by
  have spent : ∀ fuel first s, members one fuel first s [] = .error (fault .endInObject []) := by
    intro fuel first s
    cases fuel <;> rfl
  induction fuel generalizing fuel' first s bs with
  | zero =>
    obtain rfl : bs = [] := List.eq_nil_of_length_eq_zero (by omega)
    rw [spent, spent]
  | succ fuel ih =>
    cases fuel' with
    | zero =>
      obtain rfl : bs = [] := List.eq_nil_of_length_eq_zero (by omega)
      rw [spent, spent]
    | succ fuel' =>
      rw [members, members]
      cases hnext : nextMember first bs with
      | error f => rfl
      | ok next =>
        cases next with
        | close rest => rfl
        | item start =>
          have hstart := (nextMember_item_spans hnext).length_le
          cases hname : string start with
          | error f => simp only [bind, Except.bind, hname]
          | ok r =>
            obtain ⟨name, after⟩ := r
            have hafter := (string_spans hname).length_le
            cases hone : one name s after with
            | error f => simp only [bind, Except.bind, hname, hone]
            | ok r =>
              obtain ⟨s', rest⟩ := r
              have hrest := h hone
              have hlen : rest.length ≤ fuel ∧ rest.length ≤ fuel' := by
                cases first <;> simp only [if_true, Bool.false_eq_true, if_false] at hstart <;>
                  omega
              simp only [bind, Except.bind, hname, hone, ih hlen.1 hlen.2]

theorem items_alike {one : Bytes → Read α} (h : Indifferent one) (fuel : Nat) (first : Bool)
    (bs : Bytes) :
    Alike respace (items one fuel first bs) (items one fuel first (spread .outside bs)) := by
  induction fuel generalizing first bs with
  | zero => exact .error rfl
  | succ fuel ih =>
    rw [items, items]
    refine (nextItem_alike first bs).bind fun next => ?_
    cases next with
    | close rest => exact .ok ([], rest)
    | item start =>
      exact (h.alike start).andThen fun v rest =>
        (ih false rest).andThen fun vs rest => .ok (v :: vs, rest)

theorem members_alike {one : String → σ → Bytes → Read σ} (h : ∀ name s, Indifferent (one name s))
    (fuel : Nat) (first : Bool) (s : σ) (bs : Bytes) :
    Alike respace (members one fuel first s bs)
      (members one fuel first s (spread .outside bs)) := by
  induction fuel generalizing first s bs with
  | zero => exact .error rfl
  | succ fuel ih =>
    rw [members, members]
    refine (nextMember_alike first bs).bind fun next => ?_
    cases next with
    | close rest => exact .ok (s, rest)
    | item start =>
      exact (string_alike start).andThen fun name rest =>
        ((h name s).alike rest).andThen fun s rest => ih false s rest

/-- All items of an array, with fuel for the text at hand. -/
theorem all_items_alike {one : Bytes → Read α} (h : Indifferent one) (bs : Bytes) :
    Alike respace (items one (bs.length + 1) true bs)
      (items one ((spread .outside bs).length + 1) true (spread .outside bs)) := by
  have hlen := length_spread .outside bs
  have hfuel : items one (bs.length + 1) true bs =
      items one ((spread .outside bs).length + 1) true bs :=
    items_fuel h.shorter (Nat.le_refl _) (by simp; omega)
  rw [hfuel]
  exact items_alike h _ true bs

theorem all_members_alike {one : String → σ → Bytes → Read σ}
    (h : ∀ name s, Indifferent (one name s)) (s : σ) (bs : Bytes) :
    Alike respace (members one (bs.length + 1) true s bs)
      (members one ((spread .outside bs).length + 1) true s (spread .outside bs)) := by
  have hlen := length_spread .outside bs
  have hfuel : members one (bs.length + 1) true s bs =
      members one ((spread .outside bs).length + 1) true s bs :=
    members_fuel (fun {name s _ _ _} => (h name s).shorter) (by omega) (by omega)
  rw [hfuel]
  exact members_alike h _ true s bs

/-- A whole text is read to the same value, or refused for the same cause. -/
theorem whole_alike {read : Bytes → Read α} {bs : Bytes}
    (h : Alike respace (read bs) (read (spread .outside bs))) :
    (whole read (spread .outside bs)).mapError (·.cause) = (whole read bs).mapError (·.cause) := by
  have hfinish : Alike id (finish (read bs)) (finish (read (spread .outside bs))) := by
    refine h.andThen fun v rest => ?_
    simp only [skipSpace_spread]
    cases skipSpace rest with
    | nil => exact .ok v
    | cons b rest =>
      obtain ⟨tail, htail⟩ := spread_cons b rest
      rw [htail]
      exact .error rfl
  rw [whole, whole]
  generalize finish (read bs) = r at hfinish
  generalize finish (read (spread .outside bs)) = r' at hfinish
  cases hfinish with
  | ok v => rfl
  | error cause => exact congrArg Except.error cause

end Scan

end CameraChannel.Json
