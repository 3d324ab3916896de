import CameraChannel.Proofs.Json.Nesting
import CameraChannel.Proofs.Json.Separators

/-!
Arrays and objects read from their text. If the reader of items takes the text of each, the items
are read up to the closing bracket; if it refuses the text of one and takes those before it, so is
the whole. Likewise the members of objects, with what a reader makes of them.
-/
namespace CameraChannel.Json

open Utf8 (ofChars)
open Number (Stops)

/-- The items of an array, with what stands before each; the first stands behind a bracket. -/
def itemsText (l : Layout) (d : Nat) : Bool → List Json → List Char
  | _, [] => []
  | first, v :: vs =>
    (if first then l.opening d else ',' :: l.afterComma d) ++
      (render l d v ++ itemsText l d false vs)

/-- The text of a member from its colon on. -/
def memberText (l : Layout) (d : Nat) (v : Json) : List Char :=
  ':' :: (l.afterColon ++ render l d v)

/-- The members of an object, likewise. -/
def membersText (l : Layout) (d : Nat) : Bool → List (String × Json) → List Char
  | _, [] => []
  | first, (name, v) :: ms =>
    (if first then l.opening d else ',' :: l.afterComma d) ++
      (quote name ++ (memberText l d v ++ membersText l d false ms))

/-- Before the closing bracket. -/
def Layout.ending (l : Layout) (d : Nat) (empty : Bool) : List Char :=
  if empty then [] else l.closing d

theorem renderItems_eq (l : Layout) (d : Nat) (vs : List Json) :
    renderItems l d vs = itemsText l d false vs := by
  induction vs with
  | nil => rfl
  | cons v vs ih => simp [renderItems, itemsText, ih]

theorem renderMembers_eq (l : Layout) (d : Nat) (ms : List (String × Json)) :
    renderMembers l d ms = membersText l d false ms := by
  induction ms with
  | nil => rfl
  | cons m ms ih => simp [renderMembers, membersText, memberText, ih]

theorem render_array (l : Layout) (d : Nat) (vs : List Json) :
    render l d (.array vs) =
      '[' :: (itemsText l (d + 1) true vs ++ (l.ending d vs.isEmpty ++ [']'])) := by
  cases vs with
  | nil => rfl
  | cons v vs => simp [render, itemsText, renderItems_eq, Layout.ending]

theorem render_object (l : Layout) (d : Nat) (ms : List (String × Json)) :
    render l d (.object ms) =
      '\x7b' :: (membersText l (d + 1) true ms ++ (l.ending d ms.isEmpty ++ ['\x7d'])) := by
  cases ms with
  | nil => rfl
  | cons m ms => simp [render, membersText, memberText, renderMembers_eq, Layout.ending]

/-- The text of a value starts neither with a blank nor with the bracket that closes an array. -/
theorem render_starts (l : Layout) (d : Nat) {v : Json} (h : Integral v) :
    ∃ b bs, ofChars (render l d v) = b :: bs ∧ Scan.isSpace b = false ∧ b ≠ ascii ']' := by
  cases h with
  | null => exact ⟨_, _, rfl, by decide⟩
  | bool b => cases b <;> exact ⟨_, _, rfl, by decide⟩
  | integer n =>
    obtain ⟨b, bs, hb, hs⟩ := Number.signed_starts n.val []
    obtain ⟨hsp, -, -, -, hc⟩ := Number.starts_ne hs
    rw [List.append_nil] at hb
    exact ⟨b, bs, hb, hsp, hc⟩
  | string s => exact ⟨_, _, ofChars_quote s, by decide⟩
  | array h => exact ⟨_, _, by rw [render_array]; rfl, by decide⟩
  | object h => exact ⟨_, _, by rw [render_object]; rfl, by decide⟩

theorem Layout.Blanks.ending {l : Layout} (h : l.Blanks) (d : Nat) (empty : Bool) :
    Blank (l.ending d empty) := by
  cases empty with
  | false => exact h.closing d
  | true => exact blank_nil

namespace Scan

variable {α σ : Type} {l : Layout} {d : Nat} {cs : List Char}

theorem stops_items (vs : List Json) (hcs : Blank cs) (rest : Bytes) :
    Stops (ofChars (itemsText l d false vs) ++ (ofChars cs ++ ascii ']' :: rest)) := by
  cases vs with
  | nil => exact Number.stops_blank hcs (Number.stops_cons (by decide) _)
  | cons v vs => exact Number.stops_cons (by decide) _

theorem stops_members (ms : List (String × Json)) (hcs : Blank cs) (rest : Bytes) :
    Stops (ofChars (membersText l d false ms) ++ (ofChars cs ++ ascii '\x7d' :: rest)) := by
  cases ms with
  | nil => exact Number.stops_blank hcs (Number.stops_cons (by decide) _)
  | cons m ms => exact Number.stops_cons (by decide) _

/-- An item in front is what is read next. -/
theorem items_cons (hl : l.Blanks) {v : Json} (hv : Integral v) (vs : List Json)
    (one : Bytes → Read α) (fuel : Nat) (first : Bool) (after : Bytes) :
    items one (fuel + 1) first (ofChars (itemsText l d first (v :: vs)) ++ after) = (do
      let (a, rest) ← one (ofChars (render l d v) ++ (ofChars (itemsText l d false vs) ++ after))
      let (as, rest) ← items one fuel false rest
      .ok (a :: as, rest)) := by
  obtain ⟨b, bs, hb, hsp, hc⟩ := render_starts l d hv
  have hn : nextItem first (ofChars (itemsText l d first (v :: vs)) ++ after) =
      .ok (.item (ofChars (render l d v) ++ (ofChars (itemsText l d false vs) ++ after))) := by
    rw [itemsText, Utf8.ofChars_append, Utf8.ofChars_append, hb]
    simp only [List.append_assoc, List.cons_append]
    cases first with
    | false => exact nextItem_comma (hl.afterComma d) hsp hc _
    | true => exact nextItem_first (hl.opening d) hsp hc _
  rw [items, hn]
  rfl

theorem items_close (h : Blank cs) (one : Bytes → Read α) (fuel : Nat)
    (first : Bool) (rest : Bytes) :
    items one (fuel + 1) first (ofChars cs ++ ascii ']' :: rest) = .ok ([], rest) := by
  rw [items, nextItem_close h]
  rfl

theorem members_cons (hl : l.Blanks) (name : String) (v : Json) (ms : List (String × Json))
    (one : String → σ → Bytes → Read σ) (fuel : Nat) (first : Bool) (s : σ) (after : Bytes) :
    members one (fuel + 1) first s
        (ofChars (membersText l d first ((name, v) :: ms)) ++ after) = (do
      let (s, rest) ←
        one name s (ofChars (memberText l d v) ++ (ofChars (membersText l d false ms) ++ after))
      members one fuel false s rest) := by
  have hn : nextMember first (ofChars (membersText l d first ((name, v) :: ms)) ++ after) =
      .ok (.item (ofChars (name.toList.flatMap escape) ++ ascii '\x22' ::
        (ofChars (memberText l d v) ++ (ofChars (membersText l d false ms) ++ after)))) := by
    simp only [membersText, Utf8.ofChars_append, ofChars_quote, List.append_assoc,
      List.cons_append, List.nil_append]
    cases first with
    | false => exact nextMember_comma (hl.afterComma d) _
    | true => exact nextMember_first (hl.opening d) _
  rw [members, hn]
  simp only [bind, Except.bind, string_quoted]

theorem members_close (h : Blank cs) (one : String → σ → Bytes → Read σ) (fuel : Nat)
    (first : Bool) (s : σ) (rest : Bytes) :
    members one (fuel + 1) first s (ofChars cs ++ ascii '\x7d' :: rest) = .ok (s, rest) := by
  rw [members, nextMember_close h]
  rfl

theorem colon_memberText (v : Json) (rest : Bytes) :
    colon (ofChars (memberText l d v) ++ rest) =
      .ok (ofChars l.afterColon ++ (ofChars (render l d v) ++ rest)) := by
  rw [memberText, Utf8.ofChars_cons, Utf8.ofChars_append, List.append_assoc, List.append_assoc]
  exact colon_cons _

/-- A reader that takes the text of `f a` for `a`. -/
def Takes (l : Layout) (d : Nat) (one : Bytes → Read α) (f : α → Json) (a : α) : Prop :=
  ∀ rest, Stops rest → one (ofChars (render l d (f a)) ++ rest) = .ok (a, rest)

/-- A reader of members that goes from one state to the next at a member. -/
def Absorbs (l : Layout) (d : Nat) (one : String → σ → Bytes → Read σ)
    (step : σ → String × Json → σ) (m : String × Json) : Prop :=
  ∀ s rest, Stops rest → one m.1 s (ofChars (memberText l d m.2) ++ rest) = .ok (step s m, rest)

variable {f : α → Json} {as : List α} {fuel : Nat}

theorem items_taken (one : Bytes → Read α) (hl : l.Blanks) (hf : ∀ a ∈ as, Integral (f a))
    (h : ∀ a ∈ as, Takes l d one f a) (hfuel : as.length < fuel) (hcs : Blank cs) (first : Bool)
    (rest : Bytes) :
    items one fuel first (ofChars (itemsText l d first (as.map f)) ++
      (ofChars cs ++ ascii ']' :: rest)) = .ok (as, rest) := by
  induction as generalizing fuel first with
  | nil =>
    obtain ⟨n, rfl⟩ : ∃ n, fuel = n + 1 := ⟨fuel - 1, by omega⟩
    exact items_close hcs one n first rest
  | cons a as ih =>
    rw [List.length_cons] at hfuel
    obtain ⟨n, rfl⟩ : ∃ n, fuel = n + 1 := ⟨fuel - 1, by omega⟩
    rw [List.map_cons, items_cons hl (hf a (by simp)), h a (by simp) _ (stops_items _ hcs rest)]
    simp only [bind, Except.bind]
    rw [ih (fun x hx => hf x (by simp [hx])) (fun x hx => h x (by simp [hx])) (by omega)]

/-- The members are taken in one by one in the states that they are met in, as `P` tells them. -/
theorem members_run (one : String → σ → Bytes → Read σ) (hl : l.Blanks)
    {step : σ → String × Json → σ} (P : σ → List (String × Json) → Prop)
    (h : ∀ s m ms, P s (m :: ms) → P (step s m) ms ∧ ∀ rest, Stops rest →
      one m.1 s (ofChars (memberText l d m.2) ++ rest) = .ok (step s m, rest))
    {ms : List (String × Json)} {s : σ} (hs : P s ms) (hfuel : ms.length < fuel) (hcs : Blank cs)
    (first : Bool) (rest : Bytes) :
    members one fuel first s (ofChars (membersText l d first ms) ++
      (ofChars cs ++ ascii '\x7d' :: rest)) = .ok (ms.foldl step s, rest) := by
  induction ms generalizing fuel first s with
  | nil =>
    obtain ⟨n, rfl⟩ : ∃ n, fuel = n + 1 := ⟨fuel - 1, by omega⟩
    exact members_close hcs one n first s rest
  | cons m ms ih =>
    rw [List.length_cons] at hfuel
    obtain ⟨n, rfl⟩ : ∃ n, fuel = n + 1 := ⟨fuel - 1, by omega⟩
    obtain ⟨hnext, hm⟩ := h s m ms hs
    rw [members_cons hl, hm _ (stops_members _ hcs rest)]
    simp only [bind, Except.bind]
    rw [ih hnext (by omega)]
    rfl

theorem members_absorbed (one : String → σ → Bytes → Read σ) (hl : l.Blanks)
    {step : σ → String × Json → σ} {ms : List (String × Json)}
    (h : ∀ m ∈ ms, Absorbs l d one step m) (hfuel : ms.length < fuel) (hcs : Blank cs)
    (first : Bool) (s : σ) (rest : Bytes) :
    members one fuel first s (ofChars (membersText l d first ms) ++
      (ofChars cs ++ ascii '\x7d' :: rest)) = .ok (ms.foldl step s, rest) := by
  refine members_run one hl (fun _ ms => ∀ m ∈ ms, Absorbs l d one step m) ?_ h hfuel hcs first rest
  exact fun s m ms hms => ⟨fun x hx => hms x (by simp [hx]), hms m (by simp) s⟩

def Fails (c : Cause) (r : Except Fault α) : Prop := ∃ f, r = .error f ∧ f.cause = c

/-- What is done after a failure does not matter. -/
theorem Fails.bind {c : Cause} {r : Except Fault α} (h : Fails c r) (k : α → Except Fault σ) :
    Fails c (r >>= k) := by
  obtain ⟨f, rfl, hc⟩ := h
  exact ⟨f, rfl, hc⟩

/-- A reader that refuses the text of a value, whatever follows it. -/
def Refuses (l : Layout) (d : Nat) (one : Bytes → Read α) (c : Cause) (v : Json) : Prop :=
  ∀ rest, Stops rest → Fails c (one (ofChars (render l d v) ++ rest))

def Rejects (l : Layout) (d : Nat) (one : String → σ → Bytes → Read σ) (c : Cause)
    (m : String × Json) : Prop :=
  ∀ s rest, Stops rest → Fails c (one m.1 s (ofChars (memberText l d m.2) ++ rest))

/-- The first item that is refused ends the reading of all. -/
theorem items_refused {c : Cause} (one : Bytes → Read α) (hl : l.Blanks)
    (hf : ∀ a ∈ as, Integral (f a)) (h : ∀ a ∈ as, Takes l d one f a ∨ Refuses l d one c (f a))
    (hex : ∃ a ∈ as, Refuses l d one c (f a)) (hfuel : as.length < fuel) (hcs : Blank cs)
    (first : Bool) (rest : Bytes) :
    Fails c (items one fuel first (ofChars (itemsText l d first (as.map f)) ++
      (ofChars cs ++ ascii ']' :: rest))) := by
  induction as generalizing fuel first with
  | nil => simp at hex
  | cons a as ih =>
    rw [List.length_cons] at hfuel
    obtain ⟨n, rfl⟩ : ∃ n, fuel = n + 1 := ⟨fuel - 1, by omega⟩
    have hs := stops_items (l := l) (d := d) (as.map f) hcs rest
    rw [List.map_cons, items_cons hl (hf a (by simp))]
    by_cases hr : Refuses l d one c (f a)
    · exact (hr _ hs).bind _
    · have hrest : ∃ x ∈ as, Refuses l d one c (f x) := by
        obtain ⟨x, hx, hxr⟩ := hex
        obtain rfl | hx := List.mem_cons.1 hx
        · exact absurd hxr hr
        · exact ⟨x, hx, hxr⟩
      rw [(h a (by simp)).resolve_right hr _ hs]
      exact (ih (fun x hx => hf x (by simp [hx])) (fun x hx => h x (by simp [hx])) hrest
        (by omega) false).bind _

theorem members_rejected {c : Cause} (one : String → σ → Bytes → Read σ)
    (step : σ → String × Json → σ) (hl : l.Blanks) {ms : List (String × Json)}
    (h : ∀ m ∈ ms, Absorbs l d one step m ∨ Rejects l d one c m)
    (hex : ∃ m ∈ ms, Rejects l d one c m) (hfuel : ms.length < fuel) (hcs : Blank cs)
    (first : Bool) (s : σ) (rest : Bytes) :
    Fails c (members one fuel first s (ofChars (membersText l d first ms) ++
      (ofChars cs ++ ascii '\x7d' :: rest))) := by
  induction ms generalizing fuel first s with
  | nil => simp at hex
  | cons m ms ih =>
    rw [List.length_cons] at hfuel
    obtain ⟨n, rfl⟩ : ∃ n, fuel = n + 1 := ⟨fuel - 1, by omega⟩
    have hs := stops_members (l := l) (d := d) ms hcs rest
    rw [members_cons hl]
    by_cases hr : Rejects l d one c m
    · exact (hr s _ hs).bind _
    · have hrest : ∃ x ∈ ms, Rejects l d one c x := by
        obtain ⟨x, hx, hxr⟩ := hex
        obtain rfl | hx := List.mem_cons.1 hx
        · exact absurd hxr hr
        · exact ⟨x, hx, hxr⟩
      rw [(h m (by simp)).resolve_right hr s _ hs]
      exact ih (fun x hx => h x (by simp [hx])) hrest (by omega) false _

/-- A list of items is no longer than its text. -/
theorem length_le_itemsText (l : Layout) (d : Nat) (first : Bool) {vs : List Json}
    (h : ∀ v ∈ vs, Integral v) : vs.length ≤ (ofChars (itemsText l d first vs)).length := by
  induction vs generalizing first with
  | nil => simp
  | cons v vs ih =>
    obtain ⟨b, bs, hb, -⟩ := render_starts l d (h v (by simp))
    have := ih false fun x hx => h x (by simp [hx])
    simp only [itemsText, Utf8.ofChars_append, hb, List.length_append, List.length_cons]
    omega

theorem length_le_membersText (l : Layout) (d : Nat) (first : Bool) (ms : List (String × Json)) :
    ms.length ≤ (ofChars (membersText l d first ms)).length := by
  induction ms generalizing first with
  | nil => simp
  | cons m ms ih =>
    have := ih false
    simp only [membersText, Utf8.ofChars_append, ofChars_quote, List.length_append,
      List.length_cons]
    omega

end Scan

end CameraChannel.Json
