import CameraChannel.Json.Canonical
import CameraChannel.Proofs.Text.Order

/-!
Canonical values are left as they are: putting members into place in the order they already have
changes nothing.
-/
namespace CameraChannel

open Utf8 (Before)

namespace Json

/-- A name behind all others is put at the end. -/
theorem insert_last {name : String} {v : Json} {ms : List (String × Json)}
    (h : ∀ m ∈ ms, Before m.1 name) : insert name v ms = ms ++ [(name, v)] := by
  induction ms with
  | nil => rfl
  | cons m ms ih =>
    obtain ⟨n, w⟩ := m
    have hn : Before n name := h (n, w) (by simp)
    have hne : name ≠ n := fun e => Utf8.Before.irrefl n (e ▸ hn)
    have hnb : ¬Before name n := fun hb => Utf8.Before.irrefl n (hn.trans hb)
    rw [insert, if_neg hne, if_neg hnb, ih fun m hm => h m (by simp [hm])]
    rfl

theorem canonicalItems_eq {xs : List Json} (h : ∀ x ∈ xs, canonical x = x) :
    canonicalItems xs = xs := by
  induction xs with
  | nil => rfl
  | cons x xs ih => rw [canonicalItems, h x (by simp), ih fun y hy => h y (by simp [hy])]

theorem canonicalOnto_eq (placed : List (String × Json)) {ms : List (String × Json)}
    (ascending : (placed ++ ms).Pairwise fun a b => Before a.1 b.1)
    (h : ∀ m ∈ ms, canonical m.2 = m.2) : canonicalOnto placed ms = placed ++ ms := by
  induction ms generalizing placed with
  | nil => rw [canonicalOnto, List.append_nil]
  | cons m ms ih =>
    obtain ⟨name, v⟩ := m
    have hlast : ∀ m ∈ placed, Before m.1 name := fun m hm =>
      (List.pairwise_append.1 ascending).2.2 m hm (name, v) (by simp)
    have hv : canonical v = v := h (name, v) (by simp)
    rw [canonicalOnto, hv, insert_last hlast,
      ih _ (by simpa using ascending) fun m hm => h m (by simp [hm])]
    simp

theorem Canonical.canonical_eq {v : Json} (h : Canonical v) : canonical v = v := by
  induction h with
  | null => rfl
  | bool b => rfl
  | integer n => rfl
  | float x => rfl
  | string s => rfl
  | array _ ih => rw [canonical, canonicalItems_eq ih]
  | object ascending _ ih => rw [canonical, canonicalOnto_eq [] ascending ih]; rfl

end Json

namespace Fields

theorem entries_insert_last {f : Fields} {name : String} {v : Json}
    (h : ∀ m ∈ f.entries, Before m.1 name) (hv : Json.Canonical v) :
    (f.insert name v).entries = f.entries ++ [(name, v)] := by
  change Json.insert name v.canonical f.entries = _
  rw [hv.canonical_eq, Json.insert_last h]

theorem ascending (f : Fields) : f.entries.Pairwise fun a b => Before a.1 b.1 := by
  cases f.canonical with
  | object ascending _ => exact ascending

theorem entries_canonical (f : Fields) : ∀ m ∈ f.entries, Json.Canonical m.2 := by
  cases f.canonical with
  | object _ h => exact h

theorem entries_foldl {ms : List (String × Json)} {f : Fields}
    (h : (f.entries ++ ms).Pairwise fun a b => Before a.1 b.1)
    (hv : ∀ m ∈ ms, Json.Canonical m.2) :
    (ms.foldl (fun f m => f.insert m.1 m.2) f).entries = f.entries ++ ms := by
  induction ms generalizing f with
  | nil => simp
  | cons m ms ih =>
    have hlast : ∀ x ∈ f.entries, Before x.1 m.1 := fun x hx =>
      (List.pairwise_append.1 h).2.2 x hx m (by simp)
    have he := entries_insert_last hlast (hv m (by simp))
    rw [List.foldl_cons, ih (by rw [he]; simpa using h) fun x hx => hv x (by simp [hx]), he]
    simp

/-- The members of an object that is canonical, set one after another, make it up again. -/
theorem ofMembers_entries (f : Fields) : ofMembers f.entries = f := by
  have h := entries_foldl (f := empty) (by simpa [empty] using f.ascending) f.entries_canonical
  exact Fields.ext h

/-- A name is missing exactly when no member has it. -/
theorem contains_eq_false {f : Fields} {name : String} :
    f.contains name = false ↔ ∀ m ∈ f.entries, m.1 ≠ name := by
  rw [contains, get?, Option.isSome_eq_false_iff, Option.isNone_iff_eq_none,
    List.lookup_eq_none_iff]
  refine ⟨fun h m hm e => ?_, fun h m hm => ?_⟩
  · have := h m hm
    simp [e] at this
  · simpa using fun e => h m hm e.symm

end Fields

end CameraChannel
