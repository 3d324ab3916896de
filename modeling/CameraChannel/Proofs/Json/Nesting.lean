import CameraChannel.Json.Value

/-!
How deep the containers of a value are nested, and the values whose numbers are all integers.
-/
namespace CameraChannel.Json

/-- No number of the value, at any depth, is a float. -/
inductive Integral : Json → Prop where
  | null : Integral .null
  | bool (b : Bool) : Integral (.bool b)
  | integer (n : Integer) : Integral (.integer n)
  | string (s : String) : Integral (.string s)
  | array {xs : List Json} (h : ∀ x ∈ xs, Integral x) : Integral (.array xs)
  | object {ms : List (String × Json)} (h : ∀ m ∈ ms, Integral m.2) : Integral (.object ms)

mutual

def isIntegral : Json → Bool
  | .null => true
  | .bool _ => true
  | .integer _ => true
  | .float _ => false
  | .string _ => true
  | .array xs => areIntegral xs
  | .object ms => haveIntegral ms

def areIntegral : List Json → Bool
  | [] => true
  | x :: xs => isIntegral x && areIntegral xs

def haveIntegral : List (String × Json) → Bool
  | [] => true
  | (_, x) :: ms => isIntegral x && haveIntegral ms

end

mutual

theorem integral_of_isIntegral : ∀ v : Json, isIntegral v = true → Integral v
  | .null, _ => .null
  | .bool b, _ => .bool b
  | .integer n, _ => .integer n
  | .float _, h => by cases h
  | .string s, _ => .string s
  | .array xs, h => .array (integral_of_areIntegral xs h)
  | .object ms, h => .object (integral_of_haveIntegral ms h)

theorem integral_of_areIntegral : ∀ xs : List Json, areIntegral xs = true → ∀ x ∈ xs, Integral x
  | [], _ => by simp
  | x :: xs, h => by
    rw [areIntegral, Bool.and_eq_true] at h
    exact List.forall_mem_cons.2 ⟨integral_of_isIntegral x h.1, integral_of_areIntegral xs h.2⟩

theorem integral_of_haveIntegral : ∀ ms : List (String × Json), haveIntegral ms = true →
    ∀ m ∈ ms, Integral m.2
  | [], _ => by simp
  | (_, x) :: ms, h => by
    rw [haveIntegral, Bool.and_eq_true] at h
    exact List.forall_mem_cons.2 ⟨integral_of_isIntegral x h.1, integral_of_haveIntegral ms h.2⟩

end

mutual

/-- The greatest number of containers around a place inside the value, its own one counted. -/
def nesting : Json → Nat
  | .array items => nestingItems items + 1
  | .object members => nestingMembers members + 1
  | .null => 0
  | .bool _ => 0
  | .integer _ => 0
  | .float _ => 0
  | .string _ => 0

def nestingItems : List Json → Nat
  | [] => 0
  | v :: vs => max (nesting v) (nestingItems vs)

def nestingMembers : List (String × Json) → Nat
  | [] => 0
  | (_, v) :: ms => max (nesting v) (nestingMembers ms)

end

theorem nestingItems_le {d : Nat} {vs : List Json} :
    nestingItems vs ≤ d ↔ ∀ v ∈ vs, nesting v ≤ d := by
  induction vs with
  | nil => simp [nestingItems]
  | cons v vs ih =>
    rw [nestingItems, Nat.max_le, ih]
    simp

theorem nestingMembers_le {d : Nat} {ms : List (String × Json)} :
    nestingMembers ms ≤ d ↔ ∀ m ∈ ms, nesting m.2 ≤ d := by
  induction ms with
  | nil => simp [nestingMembers]
  | cons m ms ih =>
    rw [nestingMembers, Nat.max_le, ih]
    simp

theorem lt_nestingItems {d : Nat} {vs : List Json} :
    d < nestingItems vs ↔ ∃ v ∈ vs, d < nesting v := by
  rw [← Nat.not_le, nestingItems_le]
  simp

theorem lt_nestingMembers {d : Nat} {ms : List (String × Json)} :
    d < nestingMembers ms ↔ ∃ m ∈ ms, d < nesting m.2 := by
  rw [← Nat.not_le, nestingMembers_le]
  simp

end CameraChannel.Json
