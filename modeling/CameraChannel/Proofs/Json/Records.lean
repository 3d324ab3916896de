import CameraChannel.Json.Record
import CameraChannel.Proofs.Json.Typed

/-!
Records read from the text of an object. Main statement: when every member is one that a field takes
in, whichever others were met before it, the members can stand in any order.
-/
namespace CameraChannel.Json.Record

open Number (Stops)
open Utf8 (ofChars)

variable {σ : Type} {l : Layout} {d : Nat} {slots : List (Slot σ)} {records : List String → σ}
  {ms full : List (String × Json)}

/-- A member that its field takes in: `records` tells the record for the names met. -/
def Fits (l : Layout) (d : Nat) (slots : List (Slot σ)) (records : List String → σ)
    (m : String × Json) : Prop :=
  ∃ slot, slots.find? (·.name = m.1) = some slot ∧ ∀ met rest, Stops rest →
    slot.read (records met) (ofChars l.afterColon ++ (ofChars (render l d m.2) ++ rest)) =
      .ok (records (m.1 :: met), rest)

/-- A field is found by its name if no two fields have one name. -/
theorem find?_of_mem {slot : Slot σ} (hnames : (slots.map (·.name)).Nodup) (h : slot ∈ slots) :
    slots.find? (·.name = slot.name) = some slot := by
  induction slots with
  | nil => cases h
  | cons s slots ih =>
    rw [List.map_cons, List.nodup_cons] at hnames
    rw [List.find?_cons]
    obtain rfl | h := List.mem_cons.1 h
    · simp
    · have hne : s.name ≠ slot.name := fun e => hnames.1 (List.mem_map.2 ⟨slot, h, e.symm⟩)
      simp only [hne, decide_false]
      exact ih hnames.2 h

/-- A field whose value is read by its type and put in its place. -/
theorem Fits.of_value {α : Type} {one : Bytes → Read α} {name : String} {v : Json} {a : α}
    (hnames : (slots.map (·.name)).Nodup) (i : Nat) (put : σ → α → σ)
    (hslot : slots[i]? =
      some ⟨name, fun s bs => (one bs).map fun (a, rest) => (put s a, rest)⟩)
    (hone : ∀ rest, Stops rest →
      one (ofChars l.afterColon ++ (ofChars (render l d v) ++ rest)) = .ok (a, rest))
    (hput : ∀ met, put (records met) a = records (name :: met)) :
    Fits l d slots records (name, v) := by
  refine ⟨_, find?_of_mem hnames (List.mem_of_getElem? hslot), fun met rest hs => ?_⟩
  simp only [hone rest hs, Except.map, hput]

/-- The names of members. -/
def names (ms : List (String × Json)) : List String := ms.map (·.1)

theorem names_cons (m : String × Json) (ms : List (String × Json)) :
    names (m :: ms) = m.1 :: names ms := rfl

/-- What is known of the state in front of members that are still to be met. -/
structure Ready (l : Layout) (d : Nat) (slots : List (Slot σ)) (records : List String → σ)
    (p : Progress σ) (ms : List (String × Json)) : Prop where
  sofar : p.record = records p.met
  distinct : (names ms).Nodup
  fresh : ∀ m ∈ ms, m.1 ∉ p.met
  fits : ∀ m ∈ ms, Fits l d slots records m

def advance (records : List String → σ) (p : Progress σ) (m : String × Json) : Progress σ :=
  ⟨records (m.1 :: p.met), m.1 :: p.met⟩

theorem Ready.step {p : Progress σ} {m : String × Json}
    (h : Ready l d slots records p (m :: ms)) :
    Ready l d slots records (advance records p m) ms := by
  obtain ⟨hm, hdistinct⟩ := List.nodup_cons.1 h.distinct
  refine ⟨rfl, hdistinct, fun x hx hmet => ?_, fun x hx => h.fits x (List.mem_cons_of_mem _ hx)⟩
  obtain he | hmet := List.mem_cons.1 hmet
  · exact hm (List.mem_map.2 ⟨x, hx, he⟩)
  · exact h.fresh x (List.mem_cons_of_mem _ hx) hmet

theorem Ready.taken {p : Progress σ} {m : String × Json}
    (h : Ready l d slots records p (m :: ms)) {rest : Bytes} (hs : Stops rest) :
    member slots m.1 p (ofChars (memberText l d m.2) ++ rest) =
      .ok (advance records p m, rest) := by
  obtain ⟨slot, hslot, hread⟩ := h.fits m List.mem_cons_self
  have hmet : p.met.contains m.1 = false := by
    simpa using h.fresh m List.mem_cons_self
  rw [member, hslot]
  simp only [hmet, Bool.false_eq_true, if_false, Scan.colon_memberText, bind, Except.bind, h.sofar,
    hread p.met rest hs]
  rfl

theorem foldl_advance (ms : List (String × Json)) (met : List String) :
    ms.foldl (advance records) ⟨records met, met⟩ =
      ⟨records ((names ms).reverse ++ met), (names ms).reverse ++ met⟩ := by
  induction ms generalizing met with
  | nil => rfl
  | cons m ms ih => simpa [names, advance] using ih (m.1 :: met)

/-- A record is read from any members that fit, each name once. -/
theorem read_taken (expected : String) (hl : l.Blanks) (hdistinct : (names ms).Nodup)
    (hfits : ∀ m ∈ ms, Fits l (d + 1) slots records m) {cs : List Char} (hcs : Blank cs)
    (rest : Bytes) :
    read expected slots (records []) (ofChars cs ++ (ofChars (render l d (.object ms)) ++ rest)) =
      .ok (records (names ms).reverse, rest) := by
  have hb : ascii '\x7b' ≠ ascii '[' := by decide
  have hlen := Scan.length_le_membersText l (d + 1) true ms
  have ht : ofChars (render l d (.object ms)) ++ rest =
      ascii '\x7b' :: (ofChars (membersText l (d + 1) true ms) ++
        (ofChars (l.ending d ms.isEmpty) ++ ascii '\x7d' :: rest)) := by
    rw [render_object]
    simp only [Utf8.ofChars_cons, Utf8.ofChars_append, List.append_assoc]
    rfl
  have hready : Ready l (d + 1) slots records ⟨records [], []⟩ ms :=
    ⟨rfl, hdistinct, fun _ _ => List.not_mem_nil, hfits⟩
  rw [ht, read, Scan.skipSpace_blank hcs, Scan.skipSpace_cons (by decide)]
  simp only [if_neg hb, if_true, bind, Except.bind]
  rw [Scan.members_run (member slots) hl (Ready l (d + 1) slots records)
    (fun p m ms h => ⟨h.step, fun rest hs => h.taken hs⟩) hready
    (by rw [List.length_append]; omega) (hl.ending d _) true rest, foldl_advance, List.append_nil]

/-- Some of the members in any order. -/
def Part (ms full : List (String × Json)) : Prop :=
  ∃ ordered, ordered.Sublist full ∧ ms.Perm ordered

theorem Part.refl (ms : List (String × Json)) : Part ms ms := ⟨ms, List.Sublist.refl ms, .refl ms⟩

theorem Part.subset (h : Part ms full) : ∀ m ∈ ms, m ∈ full := by
  obtain ⟨ordered, hsub, hperm⟩ := h
  exact fun m hm => hsub.mem (hperm.mem_iff.1 hm)

theorem Part.nodup (h : Part ms full) (hf : (names full).Nodup) : (names ms).Nodup := by
  obtain ⟨ordered, hsub, hperm⟩ := h
  exact (hperm.map _).nodup_iff.2 ((hsub.map _).nodup hf)

end CameraChannel.Json.Record
