import CameraChannel.Json.Typed
import CameraChannel.Proofs.Json.Extent

/-!
Values read by a type that is expected. A typed reader takes off a text exactly what the reader of
values takes off it, when that is a value of the type, and takes nothing else.
-/
namespace CameraChannel.Json

variable {bs rest : Bytes} {v : Json}

theorem Scan.skipSpace_skipSpace (bs : Bytes) :
    Scan.skipSpace (Scan.skipSpace bs) = Scan.skipSpace bs := by
  cases h : Scan.skipSpace bs with
  | nil => rfl
  | cons b t =>
    have hb : ¬Scan.isSpace b = true := by
      have := List.head?_dropWhile_not Scan.isSpace bs
      rw [show bs.dropWhile Scan.isSpace = b :: t from h] at this
      simpa using this
    exact List.dropWhile_cons_of_neg hb

namespace Reader

theorem value_skipSpace (depth : Nat) (bs : Bytes) :
    value depth (Scan.skipSpace bs) = value depth bs := by
  obtain ⟨_, _, hv⟩ : ∃ array object, value depth = node array object := by
    cases depth <;> exact ⟨_, _, rfl⟩
  rw [hv, node, node, Scan.skipSpace_skipSpace]

theorem Reads.node_eq {array object : Bytes → Read Json} (h : Reads array object bs rest v) :
    node array object bs = .ok (v, rest) := by
  cases h with
  | null hs hw =>
    rw [node, hs]
    simp only [if_true, hw]
    rfl
  | yes hs hw =>
    rw [node, hs]
    simp only [show ascii 't' ≠ ascii 'n' by decide, if_false, if_true, hw]
    rfl
  | no hs hw =>
    rw [node, hs]
    simp only [show ascii 'f' ≠ ascii 'n' by decide, show ascii 'f' ≠ ascii 't' by decide, if_false,
      if_true, hw]
    rfl
  | number hs hb hn =>
    obtain ⟨-, hn', ht, hf, -⟩ := Number.starts_ne hb
    rw [node, hs]
    simp only [if_neg hn', if_neg ht, if_neg hf, hb, if_true, hn]
  | string hs hr =>
    rw [node, hs]
    simp only [show ascii '\x22' ≠ ascii 'n' by decide, show ascii '\x22' ≠ ascii 't' by decide,
      show ascii '\x22' ≠ ascii 'f' by decide, show Number.starts (ascii '\x22') = false by decide,
      Bool.false_eq_true, if_false, if_true, hr]
    rfl
  | array hs hr =>
    rw [node, hs]
    simp only [show ascii '[' ≠ ascii 'n' by decide, show ascii '[' ≠ ascii 't' by decide,
      show ascii '[' ≠ ascii 'f' by decide, show Number.starts (ascii '[') = false by decide,
      show ascii '[' ≠ ascii '\x22' by decide, Bool.false_eq_true, if_false, if_true, hr]
  | object hs hr =>
    rw [node, hs]
    simp only [show ascii '\x7b' ≠ ascii 'n' by decide, show ascii '\x7b' ≠ ascii 't' by decide,
      show ascii '\x7b' ≠ ascii 'f' by decide, show Number.starts (ascii '\x7b') = false by decide,
      show ascii '\x7b' ≠ ascii '\x22' by decide, show ascii '\x7b' ≠ ascii '[' by decide,
      Bool.false_eq_true, if_false, if_true, hr]

/-- How the reader of values goes on from a bracket; what it then reads is an array or object. -/
structure Brackets (array object : Bytes → Read Json) : Prop where
  array : ∀ {bs v rest}, array bs = .ok (v, rest) → ∃ vs, v = .array vs
  object : ∀ {bs v rest}, object bs = .ok (v, rest) → ∃ ms, v = .object ms

theorem brackets_of (one : Bytes → Read Json) : Brackets (arrayOf one) (objectOf one) where
  array h := by
    obtain ⟨⟨vs, _⟩, -, he⟩ := map_eq_ok h
    cases he
    exact ⟨vs, rfl⟩
  object h := by
    obtain ⟨⟨ms, _⟩, -, he⟩ := map_eq_ok h
    cases he
    exact ⟨_, rfl⟩

theorem exists_brackets (depth : Nat) :
    ∃ array object, value depth = node array object ∧ Brackets array object := by
  cases depth with
  | zero => exact ⟨_, _, rfl, fun h => (by cases h), fun h => (by cases h)⟩
  | succ depth => exact ⟨_, _, rfl, brackets_of _⟩

variable {array object : Bytes → Read Json}

/-- An integer is read from a number. -/
theorem Reads.of_integer (hb : Brackets array object) {i : Integer}
    (h : Reads array object bs rest (.integer i)) : ∃ b t, Scan.skipSpace bs = b :: t ∧
      Number.starts b = true ∧ Number.read (b :: t) = .ok (.integer i, rest) := by
  cases h with
  | number hs hst hn => exact ⟨_, _, hs, hst, hn⟩
  | array _ ha => obtain ⟨_, he⟩ := hb.array ha; cases he
  | object _ ho => obtain ⟨_, he⟩ := hb.object ho; cases he

theorem Reads.of_string (hb : Brackets array object) {s : String}
    (h : Reads array object bs rest (.string s)) :
    ∃ t, Scan.skipSpace bs = ascii '\x22' :: t ∧ Scan.string t = .ok (s, rest) := by
  cases h with
  | number _ _ hn => obtain ⟨_, he⟩ | ⟨_, he⟩ := Number.read_kind hn <;> cases he
  | string hs hr => exact ⟨_, hs, hr⟩
  | array _ ha => obtain ⟨_, he⟩ := hb.array ha; cases he
  | object _ ho => obtain ⟨_, he⟩ := hb.object ho; cases he

theorem Reads.of_null (hb : Brackets array object) (h : Reads array object bs rest .null) :
    ∃ t, Scan.skipSpace bs = ascii 'n' :: t ∧ Scan.word ['u', 'l', 'l'] t = .ok rest := by
  cases h with
  | null hs hw => exact ⟨_, hs, hw⟩
  | number _ _ hn => obtain ⟨_, he⟩ | ⟨_, he⟩ := Number.read_kind hn <;> cases he
  | array _ ha => obtain ⟨_, he⟩ := hb.array ha; cases he
  | object _ ho => obtain ⟨_, he⟩ := hb.object ho; cases he

theorem Reads.of_object (hb : Brackets array object) {ms : List (String × Json)}
    (h : Reads array object bs rest (.object ms)) : ∃ t, Scan.skipSpace bs = ascii '\x7b' :: t ∧
      object (ascii '\x7b' :: t) = .ok (.object ms, rest) := by
  cases h with
  | number _ _ hn => obtain ⟨_, he⟩ | ⟨_, he⟩ := Number.read_kind hn <;> cases he
  | array _ ha => obtain ⟨_, he⟩ := hb.array ha; cases he
  | object hs ho => exact ⟨_, hs, ho⟩

end Reader

namespace Typed

open Reader (Reads exists_brackets)

/-- A value of another type is never taken for one that is expected. -/
theorem mismatch_ne_ok {α : Type} {expected : String} {r : α × Bytes} :
    mismatch expected bs ≠ .ok r := by
  intro h
  obtain ⟨_, _, h⟩ := bind_eq_ok h
  cases h

theorem int64_eq_ok {n : Int64} (depth : Nat) :
    int64 bs = .ok (n, rest) ↔ Reader.value depth bs = .ok (.ofInt64 n, rest) := by
  obtain ⟨array, object, hv, hb⟩ := exists_brackets depth
  rw [hv]
  constructor
  · intro h
    obtain ⟨⟨i, _⟩, h, he⟩ := map_eq_ok h
    cases he
    rw [integer] at h
    split at h
    · cases h
    · next b t hs =>
      split at h
      · next hst =>
        obtain ⟨r, hr, h⟩ := bind_eq_ok h
        split at h
        · next i tail =>
          split at h
          · next hi =>
            cases h
            refine (Reads.number hs hst ?_).node_eq
            rw [hr, ofInt64]
            congr 3
            have := Int64.toInt_ofInt_of_le (n := i.val) (by simpa using hi.1) (by omega)
            cases i
            simpa using this.symm
          · cases h
        · cases h
      · exact absurd h mismatch_ne_ok
  · intro h
    obtain ⟨b, t, hs, hst, hn⟩ := (Reader.node_eq_ok h).of_integer hb
    have hi : -0x8000000000000000 ≤ n.toInt ∧ n.toInt ≤ 0x7fffffffffffffff :=
      ⟨Int64.le_toInt n, Int64.toInt_le n⟩
    rw [int64, integer, hs]
    simp only [hst, if_true, hn, bind, Except.bind, if_pos hi]
    simp [Except.map]

theorem string_eq_ok {s expected : String} (depth : Nat) :
    string expected bs = .ok (s, rest) ↔ Reader.value depth bs = .ok (.string s, rest) := by
  obtain ⟨array, object, hv, hb⟩ := exists_brackets depth
  rw [hv]
  constructor
  · intro h
    rw [string] at h
    split at h
    · cases h
    · next b t hs =>
      split at h
      · next hq => exact (Reads.string (hq ▸ hs) h).node_eq
      · exact absurd h mismatch_ne_ok
  · intro h
    obtain ⟨t, hs, hr⟩ := (Reader.node_eq_ok h).of_string hb
    rw [string, hs]
    simp only [if_true, hr]

theorem string_skipSpace (expected : String) (bs : Bytes) :
    string expected (Scan.skipSpace bs) = string expected bs := by
  rw [string, string, Scan.skipSpace_skipSpace]

/-- The value that an optional string is read from. -/
def ofOptional (s : Option String) : Json := s.elim .null .string

theorem optional_eq_ok {s : Option String} {expected : String} (depth : Nat) :
    optional (string expected) bs = .ok (s, rest) ↔
      Reader.value depth bs = .ok (ofOptional s, rest) := by
  obtain ⟨array, object, hv, hb⟩ := exists_brackets depth
  constructor
  · intro h
    rw [optional] at h
    split at h
    · cases h
    · next b t hs =>
      split at h
      · next hn =>
        obtain ⟨_, hw, he⟩ := map_eq_ok h
        cases he
        rw [hv]
        exact (Reads.null (hn ▸ hs) hw).node_eq
      · obtain ⟨⟨s, _⟩, hr, he⟩ := map_eq_ok h
        cases he
        rw [← hs, string_eq_ok depth, Reader.value_skipSpace] at hr
        exact hr
  · intro h
    cases s with
    | none =>
      rw [hv] at h
      obtain ⟨t, hs, hw⟩ := (Reader.node_eq_ok h).of_null hb
      rw [optional, hs]
      simp only [if_true, hw]
      rfl
    | some s =>
      have hr : string expected bs = .ok (s, rest) := (string_eq_ok depth).2 h
      rw [hv] at h
      obtain ⟨t, hs, -⟩ := (Reader.node_eq_ok h).of_string hb
      rw [← string_skipSpace, hs] at hr
      rw [optional, hs]
      simp only [show ascii '\x22' ≠ ascii 'n' by decide, if_false, hr]
      rfl

end Typed

end CameraChannel.Json
