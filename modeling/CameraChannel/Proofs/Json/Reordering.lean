import CameraChannel.Proofs.Json.Extent
import CameraChannel.Proofs.Json.Members

/-!
What a value keeps when its members are put in order and the last of each name is kept: it has no
float that it had not, is nested no deeper and takes no more text.
-/
namespace CameraChannel.Json

theorem mem_canonicalItems {xs : List Json} {v : Json} (h : v ∈ canonicalItems xs) :
    ∃ x ∈ xs, v = canonical x := by
  induction xs with
  | nil => cases h
  | cons x xs ih =>
    rw [canonicalItems] at h
    obtain rfl | h := List.mem_cons.1 h
    · exact ⟨x, by simp, rfl⟩
    · obtain ⟨y, hy, hv⟩ := ih h
      exact ⟨y, by simp [hy], hv⟩

theorem mem_canonicalOnto {placed ms : List (String × Json)} {m : String × Json}
    (h : m ∈ canonicalOnto placed ms) : m ∈ placed ∨ ∃ x ∈ ms, m = (x.1, canonical x.2) := by
  induction ms generalizing placed with
  | nil =>
    rw [canonicalOnto] at h
    exact .inl h
  | cons x ms ih =>
    rw [canonicalOnto] at h
    obtain h | ⟨y, hy, hm⟩ := ih h
    · obtain rfl | h := mem_insert h
      · exact .inr ⟨x, by simp, rfl⟩
      · exact .inl h
    · exact .inr ⟨y, by simp [hy], hm⟩

theorem Integral.canonical {v : Json} (h : Integral v) : Integral (canonical v) := by
  induction h with
  | null => exact .null
  | bool b => exact .bool b
  | integer n => exact .integer n
  | string s => exact .string s
  | array _ ih =>
    rw [Json.canonical]
    refine .array fun v hv => ?_
    obtain ⟨x, hx, rfl⟩ := mem_canonicalItems hv
    exact ih x hx
  | object _ ih =>
    rw [Json.canonical]
    refine .object fun m hm => ?_
    obtain hm | ⟨x, hx, rfl⟩ := mem_canonicalOnto hm
    · cases hm
    · exact ih x hx

theorem extentMembers_insert_le (name : String) (v : Json) (ms : List (String × Json)) :
    extentMembers (insert name v ms) ≤ extentMembers [(name, v)] + extentMembers ms := by
  induction ms with
  | nil => simp [insert, extentMembers]
  | cons m ms ih =>
    obtain ⟨n, w⟩ := m
    rw [insert]
    split
    · simp only [extentMembers]
      omega
    · split
      · simp only [extentMembers]
        omega
      · simp only [extentMembers] at ih ⊢
        omega

theorem extentItems_canonical_le {xs : List Json} (h : ∀ x ∈ xs, extent (canonical x) ≤ extent x) :
    extentItems (canonicalItems xs) ≤ extentItems xs := by
  induction xs with
  | nil => exact Nat.le_refl _
  | cons x xs ih =>
    have hx := h x (by simp)
    have hxs := ih fun y hy => h y (by simp [hy])
    simp only [canonicalItems, extentItems]
    omega

theorem extentMembers_canonical_le (ms : List (String × Json))
    (h : ∀ m ∈ ms, extent (canonical m.2) ≤ extent m.2) (placed : List (String × Json)) :
    extentMembers (canonicalOnto placed ms) ≤ extentMembers placed + extentMembers ms := by
  induction ms generalizing placed with
  | nil => simp [canonicalOnto, extentMembers]
  | cons m ms ih =>
    obtain ⟨name, v⟩ := m
    have hv := h (name, v) (by simp)
    have hms := ih (fun x hx => h x (by simp [hx])) (insert name (canonical v) placed)
    have hins := extentMembers_insert_le name (canonical v) placed
    simp only [canonicalOnto, extentMembers] at hv hins ⊢
    omega

/-- No value takes more text with its members in order. -/
theorem extent_canonical_le {v : Json} (h : Integral v) : extent (canonical v) ≤ extent v := by
  induction h with
  | null => exact Nat.le_refl _
  | bool b => exact Nat.le_refl _
  | integer n => exact Nat.le_refl _
  | string s => exact Nat.le_refl _
  | array _ ih =>
    have := extentItems_canonical_le ih
    simp only [canonical, extent]
    omega
  | object _ ih =>
    have := extentMembers_canonical_le _ ih []
    simp only [canonical, extent]
    simp only [extentMembers] at this
    omega

theorem nesting_canonical_le {v : Json} (h : Integral v) : nesting (canonical v) ≤ nesting v := by
  induction h with
  | null => exact Nat.le_refl _
  | bool b => exact Nat.le_refl _
  | integer n => exact Nat.le_refl _
  | string s => exact Nat.le_refl _
  | @array xs _ ih =>
    simp only [canonical, nesting, Nat.add_le_add_iff_right, nestingItems_le]
    intro v hv
    obtain ⟨x, hx, rfl⟩ := mem_canonicalItems hv
    exact Nat.le_trans (ih x hx) (nestingItems_le.1 (Nat.le_refl _) x hx)
  | @object ms _ ih =>
    simp only [canonical, nesting, Nat.add_le_add_iff_right, nestingMembers_le]
    intro m hm
    obtain hm | ⟨x, hx, rfl⟩ := mem_canonicalOnto hm
    · cases hm
    · exact Nat.le_trans (ih x hx) (nestingMembers_le.1 (Nat.le_refl _) x hx)

end CameraChannel.Json
