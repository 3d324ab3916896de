import CameraChannel.Proofs.Json.Containers

/-!
Spaces behind separators. A scanner that knows where strings begin and end puts one space behind
each comma and colon outside of them, and takes it away again. The spaced layout is the compact one
with these spaces: `Json.ofChars_spaced`.
-/
namespace CameraChannel.Json

open Utf8 (ofChars)

/-- Where a byte of a text stands: outside of strings, inside one, or right behind a backslash
there. The digits of an escaped code unit that are `owed` cannot end a string. -/
inductive Place where
  | outside
  | inside (owed : Nat)
  | escaped

namespace Place

def next : Place → UInt8 → Place
  | .outside, b => if b = ascii '\x22' then .inside 0 else .outside
  | .inside 0, b =>
    if b = ascii '\x22' then .outside else if b = ascii '\\' then .escaped else .inside 0
  | .inside (owed + 1), _ => .inside owed
  | .escaped, b => if b = ascii 'u' then .inside 4 else .inside 0

def separates : Place → UInt8 → Bool
  | .outside, b => b = ascii ',' || b = ascii ':'
  | .inside _, _ => false
  | .escaped, _ => false

end Place

/-- A text with a space put behind every separator. -/
def spread : Place → Bytes → Bytes
  | _, [] => []
  | p, b :: bs =>
    if p.separates b then b :: ascii ' ' :: spread (p.next b) bs else b :: spread (p.next b) bs

/-- A text with one space taken away behind every separator that has one; `behind` tells whether a
separator stands right before. -/
def unspread (behind : Bool) : Place → Bytes → Bytes
  | _, [] => []
  | p, b :: bs =>
    if behind && b = ascii ' ' then unspread false p bs
    else b :: unspread (p.separates b) (p.next b) bs

/-- How many separators a text has. -/
def separators : Place → Bytes → Nat
  | _, [] => 0
  | p, b :: bs => (if p.separates b then 1 else 0) + separators (p.next b) bs

theorem unspread_spread (p : Place) (bs : Bytes) : unspread false p (spread p bs) = bs := by
  induction bs generalizing p with
  | nil => rfl
  | cons b bs ih =>
    rw [spread]
    cases h : p.separates b with
    | true =>
      rw [if_pos rfl, unspread, h]
      exact congrArg (b :: ·) (ih _)
    | false =>
      rw [if_neg Bool.false_ne_true, unspread, h]
      exact congrArg (b :: ·) (ih _)

theorem length_spread (p : Place) (bs : Bytes) :
    (spread p bs).length = bs.length + separators p bs := by
  induction bs generalizing p with
  | nil => rfl
  | cons b bs ih =>
    rw [spread, separators]
    split
    · simp only [List.length_cons, ih]
      omega
    · simp only [List.length_cons, ih]
      omega

/-- A byte that changes nothing outside of strings. -/
def Quiet (b : UInt8) : Prop := b ≠ ascii '\x22' ∧ b ≠ ascii ',' ∧ b ≠ ascii ':'

instance (b : UInt8) : Decidable (Quiet b) := inferInstanceAs (Decidable (_ ∧ _ ∧ _))

theorem spread_quiet {b : UInt8} (h : Quiet b) (bs : Bytes) :
    spread .outside (b :: bs) = b :: spread .outside bs := by
  simp [spread, Place.separates, Place.next, h.1, h.2.1, h.2.2]

theorem spread_quiets {qs : Bytes} (h : ∀ b ∈ qs, Quiet b) (bs : Bytes) :
    spread .outside (qs ++ bs) = qs ++ spread .outside bs := by
  induction qs with
  | nil => rfl
  | cons b qs ih =>
    rw [List.cons_append, spread_quiet (h b (by simp)), ih fun x hx => h x (by simp [hx])]
    rfl

theorem spread_plains {ps : Bytes} (h : ∀ b ∈ ps, Scan.Plain b) (bs : Bytes) :
    spread (.inside 0) (ps ++ bs) = ps ++ spread (.inside 0) bs := by
  induction ps with
  | nil => rfl
  | cons b ps ih =>
    have hb := h b (by simp)
    have hn : Place.next (.inside 0) b = .inside 0 := by simp [Place.next, hb.1, hb.2.1]
    rw [List.cons_append, spread, if_neg (by simp [Place.separates]), hn,
      ih fun x hx => h x (by simp [hx])]
    rfl

/-- A character inside quotes is left as it is written. -/
theorem spread_escape (c : Char) (bs : Bytes) :
    spread (.inside 0) (ofChars (escape c) ++ bs) =
      ofChars (escape c) ++ spread (.inside 0) bs := by
  unfold escape
  split
  · rfl
  split
  · rfl
  split
  · rfl
  split
  · rfl
  split
  · rfl
  split
  · rfl
  split
  · rfl
  split
  · simp only [Utf8.ofChars_cons, Utf8.ofChars_nil,
      Digits.encode_digitChar (show c.toNat / 16 < 16 by omega),
      Digits.encode_digitChar (show c.toNat % 16 < 16 by omega)]
    rfl
  · next hq hb _ _ _ _ _ h =>
    rw [Utf8.ofChars_cons, Utf8.ofChars_nil, List.append_nil]
    exact spread_plains (Scan.plain_encode (by omega) hq hb) bs

theorem spread_quoted (cs : List Char) (bs : Bytes) :
    spread (.inside 0) (ofChars (cs.flatMap escape) ++ ascii '\x22' :: bs) =
      ofChars (cs.flatMap escape) ++ ascii '\x22' :: spread .outside bs := by
  induction cs with
  | nil => rfl
  | cons c cs ih =>
    rw [List.flatMap_cons, Utf8.ofChars_append, List.append_assoc, spread_escape, ih,
      List.append_assoc]

/-- A piece of text outside of strings, and what becomes of it with its spaces. -/
def Spreads (cs ds : List Char) : Prop :=
  ∀ rest, spread .outside (ofChars cs ++ rest) = ofChars ds ++ spread .outside rest

namespace Spreads

variable {as bs cs ds : List Char}

theorem nil : Spreads [] [] := fun _ => rfl

theorem append (h : Spreads as bs) (k : Spreads cs ds) : Spreads (as ++ cs) (bs ++ ds) := by
  intro rest
  rw [Utf8.ofChars_append, List.append_assoc, h, k, Utf8.ofChars_append, List.append_assoc]

theorem comma : Spreads [','] [',', ' '] := fun _ => rfl

theorem colon : Spreads [':'] [':', ' '] := fun _ => rfl

theorem quiet (h : ∀ b ∈ ofChars cs, Quiet b) : Spreads cs cs := spread_quiets h

theorem quote (s : String) : Spreads (quote s) (quote s) := by
  intro rest
  have h := spread_quoted s.toList rest
  simp only [ofChars_quote, List.cons_append, List.append_assoc, List.nil_append]
  exact congrArg (ascii '\x22' :: ·) h

end Spreads

/-- The characters that numbers are written with. -/
def numerals : List Char :=
  ['0', '1', '2', '3', '4', '5', '6', '7', '8', '9', '.', '-', '+', 'e']

def Numeral (cs : List Char) : Prop := ∀ c ∈ cs, c ∈ numerals

namespace Numeral

instance (cs : List Char) : Decidable (Numeral cs) := List.decidableBAll (· ∈ numerals) cs

variable {as bs : List Char}

theorem append (ha : Numeral as) (hb : Numeral bs) : Numeral (as ++ bs) := fun c hc =>
  (List.mem_append.1 hc).elim (ha c) (hb c)

theorem cons {c : Char} (hc : Numeral [c]) (hb : Numeral bs) : Numeral (c :: bs) := hc.append hb

theorem decimal (n : Nat) : Numeral (Digits.decimal n) := by
  have digit : ∀ d : Fin 10, Numeral [Digits.digitChar d.val] := by decide
  induction n using Nat.strongRecOn with
  | _ n ih =>
    by_cases h : n < 10
    · rw [Digits.decimal_small h]
      exact digit ⟨n, h⟩
    · rw [Digits.decimal_large (by omega)]
      exact (ih (n / 10) (by omega)).append (digit ⟨n % 10, by omega⟩)

theorem signed (i : Int) : Numeral (Digits.signed i) := by
  cases i with
  | ofNat n => exact decimal n
  | negSucc n => exact .cons (by decide) (decimal (n + 1))

theorem zeros (n : Nat) : Numeral (List.replicate n '0') := by
  intro c hc
  rw [List.eq_of_mem_replicate hc]
  decide

theorem place (l : Binary64.Layout) {ds : List Char} (h : Numeral ds) (e : Int) :
    Numeral (Binary64.place l ds e) := by
  unfold Binary64.place
  split
  · cases e with
    | negSucc k => exact (append (by decide) (zeros k)).append h
    | ofNat k =>
      simp only
      split
      · exact (h.append (zeros _)).append (by decide)
      · exact append (fun c hc => h c (List.mem_of_mem_take hc))
          (.cons (by decide) fun c hc => h c (List.mem_of_mem_drop hc))
  · refine append ?_ (.cons (by decide) ?_)
    · split
      · next d r rs =>
        exact .cons (fun c hc => h c (by simp_all))
          (.cons (by decide) fun c hc => h c (List.mem_cons_of_mem _ hc))
      · exact h
    · cases e with
      | ofNat k => exact .cons (by decide) (decimal k)
      | negSucc k => exact .cons (by decide) (decimal (k + 1))

theorem float (x : Float) : Numeral (Binary64.text x) := by
  have sign : Numeral (if Binary64.isNegative x then ['-'] else []) := by
    split <;> decide
  unfold Binary64.text
  simp only
  split
  · exact sign.append (by decide)
  · exact sign.append (place _ (decimal _) _)

theorem spreads (h : Numeral as) : Spreads as as := by
  have quiet : numerals.all (fun c => (String.utf8EncodeChar c).all (Quiet ·)) = true := by decide
  refine .quiet fun b hb => ?_
  obtain ⟨c, hc, hb⟩ := List.mem_flatMap.1 hb
  exact of_decide_eq_true (List.all_eq_true.1 (List.all_eq_true.1 quiet c (h c hc)) b hb)

end Numeral

theorem spreads_lead (d : Nat) (first : Bool) :
    Spreads (if first then Layout.compact.opening d else ',' :: Layout.compact.afterComma d)
      (if first then Layout.spaced.opening d else ',' :: Layout.spaced.afterComma d) := by
  cases first with
  | true => exact .nil
  | false => exact .comma

theorem spreads_ending (d : Nat) (empty : Bool) :
    Spreads (Layout.compact.ending d empty) (Layout.spaced.ending d empty) := by
  cases empty <;> exact .nil

mutual

/-- The spaced text of a value is its compact text with a space behind every separator. -/
theorem spreads_render (d : Nat) : ∀ v : Json, Spreads (render .compact d v) (render .spaced d v)
  | .null => fun _ => rfl
  | .bool true => fun _ => rfl
  | .bool false => fun _ => rfl
  | .integer n => (Numeral.signed n.val).spreads
  | .float x => (Numeral.float x).spreads
  | .string s => .quote s
  | .array vs => by
    have opened : Spreads ['['] ['['] := fun _ => rfl
    have closed : Spreads [']'] [']'] := fun _ => rfl
    rw [render_array, render_array]
    exact opened.append ((spreads_items (d + 1) true vs).append
      ((spreads_ending d vs.isEmpty).append closed))
  | .object ms => by
    have opened : Spreads ['\x7b'] ['\x7b'] := fun _ => rfl
    have closed : Spreads ['\x7d'] ['\x7d'] := fun _ => rfl
    rw [render_object, render_object]
    exact opened.append ((spreads_members (d + 1) true ms).append
      ((spreads_ending d ms.isEmpty).append closed))

theorem spreads_items (d : Nat) (first : Bool) : ∀ vs : List Json,
    Spreads (itemsText .compact d first vs) (itemsText .spaced d first vs)
  | [] => .nil
  | v :: vs =>
    (spreads_lead d first).append ((spreads_render d v).append (spreads_items d false vs))

theorem spreads_members (d : Nat) (first : Bool) : ∀ ms : List (String × Json),
    Spreads (membersText .compact d first ms) (membersText .spaced d first ms)
  | [] => .nil
  | (name, v) :: ms =>
    (spreads_lead d first).append ((Spreads.quote name).append
      ((Spreads.colon.append (spreads_render d v)).append (spreads_members d false ms)))

end

theorem ofChars_spaced (d : Nat) (v : Json) :
    ofChars (render .spaced d v) = spread .outside (ofChars (render .compact d v)) := by
  have h := spreads_render d v []
  rw [List.append_nil] at h
  rw [h]
  exact (List.append_nil _).symm

/-- Separators inside strings are none. -/
example : spread .outside (Utf8.ofString "[1,[],\"a,\\\":\"]") =
    Utf8.ofString "[1, [], \"a,\\\":\"]" := by
  decide +kernel

end CameraChannel.Json
