import CameraChannel.Json.Value
import CameraChannel.Text.Order

/-!
Canonical values. `Json.canonical` orders the members of every object by the bytes of their names
and keeps the last of each name; `Fields` is a canonical object that members can be put into. The
main statements: the result of `canonical` is canonical, and `Fields.insert` keeps it so.
-/
namespace CameraChannel

namespace Json

open Utf8 (Before before_of_ne)

/-- Every object has its names in ascending order, so each of them once. -/
inductive Canonical : Json → Prop where
  | null : Canonical .null
  | bool (b : Bool) : Canonical (.bool b)
  | integer (n : Integer) : Canonical (.integer n)
  | float (x : Float) : Canonical (.float x)
  | string (s : String) : Canonical (.string s)
  | array {xs : List Json} (h : ∀ x ∈ xs, Canonical x) : Canonical (.array xs)
  | object {ms : List (String × Json)} (ascending : ms.Pairwise fun a b => Before a.1 b.1)
      (h : ∀ m ∈ ms, Canonical m.2) : Canonical (.object ms)

/-- Puts a member in its place; one of the same name gives way. -/
def insert (name : String) (v : Json) : List (String × Json) → List (String × Json)
  | [] => [(name, v)]
  | (n, w) :: rest =>
    if name = n then (name, v) :: rest
    else if Before name n then (name, v) :: (n, w) :: rest
    else (n, w) :: insert name v rest

theorem mem_insert {name : String} {v : Json} {ms : List (String × Json)} {m : String × Json}
    (h : m ∈ insert name v ms) : m = (name, v) ∨ m ∈ ms := by
  induction ms with
  | nil => simpa [insert] using h
  | cons head rest ih =>
    obtain ⟨n, w⟩ := head
    simp only [insert] at h
    split at h
    · rcases List.mem_cons.1 h with h | h
      · exact .inl h
      · exact .inr (List.mem_cons_of_mem _ h)
    · split at h
      · rcases List.mem_cons.1 h with h | h
        · exact .inl h
        · exact .inr h
      · rcases List.mem_cons.1 h with h | h
        · exact .inr (by simp [h])
        · rcases ih h with h | h
          · exact .inl h
          · exact .inr (List.mem_cons_of_mem _ h)

theorem ascending_insert {name : String} {v : Json} {ms : List (String × Json)}
    (h : ms.Pairwise fun a b => Before a.1 b.1) :
    (insert name v ms).Pairwise fun a b => Before a.1 b.1 := by
  induction ms with
  | nil => simp [insert]
  | cons head rest ih =>
    obtain ⟨n, w⟩ := head
    obtain ⟨hn, hrest⟩ := List.pairwise_cons.1 h
    simp only [insert]
    split
    · next e => exact List.pairwise_cons.2 ⟨fun m hm => e ▸ hn m hm, hrest⟩
    · next hne =>
      split
      · next hb =>
        refine List.pairwise_cons.2 ⟨fun m hm => ?_, h⟩
        rcases List.mem_cons.1 hm with rfl | hm
        · exact hb
        · exact hb.trans (hn m hm)
      · next hb =>
        refine List.pairwise_cons.2 ⟨fun m hm => ?_, ih hrest⟩
        rcases mem_insert hm with rfl | hm
        · exact before_of_ne hne hb
        · exact hn m hm

theorem Canonical.insert {name : String} {v : Json} {ms : List (String × Json)}
    (h : Canonical (.object ms)) (hv : Canonical v) : Canonical (.object (insert name v ms)) := by
  cases h with
  | object ascending hms =>
    refine .object (ascending_insert ascending) fun m hm => ?_
    rcases mem_insert hm with rfl | hm
    · exact hv
    · exact hms m hm

mutual

/-- Every object ordered by name, with the last of each name. -/
def canonical : Json → Json
  | .array items => .array (canonicalItems items)
  | .object members => .object (canonicalOnto [] members)
  | .null => .null
  | .bool b => .bool b
  | .integer n => .integer n
  | .float x => .float x
  | .string s => .string s

def canonicalItems : List Json → List Json
  | [] => []
  | x :: xs => canonical x :: canonicalItems xs

/-- Puts members one after another among those already in place. -/
def canonicalOnto (placed : List (String × Json)) : List (String × Json) → List (String × Json)
  | [] => placed
  | (name, v) :: rest => canonicalOnto (insert name (canonical v) placed) rest

end

mutual

theorem canonical_canonical : ∀ v : Json, Canonical (canonical v)
  | .array items => by
    rw [canonical]
    exact .array (canonical_canonicalItems items)
  | .object members => by
    rw [canonical]
    exact canonical_canonicalOnto (.object .nil (by simp)) members
  | .null => by rw [canonical]; exact .null
  | .bool b => by rw [canonical]; exact .bool b
  | .integer n => by rw [canonical]; exact .integer n
  | .float x => by rw [canonical]; exact .float x
  | .string s => by rw [canonical]; exact .string s

theorem canonical_canonicalItems : ∀ (xs : List Json), ∀ x ∈ canonicalItems xs, Canonical x
  | [], x, h => by simp [canonicalItems] at h
  | y :: ys, x, h => by
    rw [canonicalItems] at h
    rcases List.mem_cons.1 h with rfl | h
    · exact canonical_canonical y
    · exact canonical_canonicalItems ys x h

theorem canonical_canonicalOnto {placed : List (String × Json)}
    (h : Canonical (.object placed)) :
    ∀ ms : List (String × Json), Canonical (.object (canonicalOnto placed ms))
  | [] => by rw [canonicalOnto]; exact h
  | (name, v) :: rest => by
    rw [canonicalOnto]
    exact canonical_canonicalOnto (h.insert (canonical_canonical v)) rest

end

end Json

/-- The members of a canonical object. -/
@[ext]
structure Fields where
  entries : List (String × Json)
  canonical : Json.Canonical (.object entries)

namespace Fields

def empty : Fields := ⟨[], .object .nil (by simp)⟩

instance : Inhabited Fields := ⟨empty⟩

/-- Sets a member. -/
def insert (f : Fields) (name : String) (v : Json) : Fields :=
  ⟨Json.insert name v.canonical f.entries, f.canonical.insert (Json.canonical_canonical v)⟩

def get? (f : Fields) (name : String) : Option Json := f.entries.lookup name

def contains (f : Fields) (name : String) : Bool := (f.get? name).isSome

/-- Sets members one after another. -/
def ofMembers (ms : List (String × Json)) : Fields :=
  ms.foldl (fun f m => f.insert m.1 m.2) empty

def toJson (f : Fields) : Json := .object f.entries

end Fields

end CameraChannel
