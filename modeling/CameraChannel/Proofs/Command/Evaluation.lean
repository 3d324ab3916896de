import CameraChannel.Frame.Basic
import CameraChannel.Proofs.Json.Nesting

/-!
What a concrete text is read as, found out by evaluation. No proof can look into a float, so it
cannot be decided whether two values are equal; for values without floats the comparison decides it.
-/
namespace CameraChannel

namespace Json

mutual

theorem eq_of_same : ∀ {v w : Json}, Integral w → same v w = true → v = w
  | .null, w, _, h => by cases w <;> simp_all [same]
  | .bool b, w, _, h => by cases w <;> simp_all [same]
  | .integer n, w, _, h => by cases w <;> simp_all [same]
  | .float x, w, hi, h => by
    cases hi with
    | _ => simp [same] at h
  | .string s, w, _, h => by cases w <;> simp_all [same]
  | .array xs, w, hi, h => by
    cases hi with
    | @array ys hi =>
      have hs : sameItems xs ys = true := by simpa [same] using h
      rw [eq_of_sameItems hi hs]
    | _ => simp [same] at h
  | .object ms, w, hi, h => by
    cases hi with
    | @object ns hi =>
      have hs : sameMembers ms ns = true := by simpa [same] using h
      rw [eq_of_sameMembers hi hs]
    | _ => simp [same] at h

theorem eq_of_sameItems : ∀ {xs ys : List Json}, (∀ y ∈ ys, Integral y) → sameItems xs ys = true →
    xs = ys
  | [], [], _, _ => rfl
  | [], _ :: _, _, h => by simp [sameItems] at h
  | _ :: _, [], _, h => by simp [sameItems] at h
  | x :: xs, y :: ys, hi, h => by
    obtain ⟨hy, hys⟩ := List.forall_mem_cons.1 hi
    rw [sameItems, Bool.and_eq_true] at h
    rw [eq_of_same hy h.1, eq_of_sameItems hys h.2]

theorem eq_of_sameMembers : ∀ {ms ns : List (String × Json)}, (∀ n ∈ ns, Integral n.2) →
    sameMembers ms ns = true → ms = ns
  | [], [], _, _ => rfl
  | [], _ :: _, _, h => by simp [sameMembers] at h
  | _ :: _, [], _, h => by simp [sameMembers] at h
  | (k, x) :: ms, (l, y) :: ns, hi, h => by
    obtain ⟨hy, hns⟩ := List.forall_mem_cons.1 hi
    rw [sameMembers, Bool.and_eq_true, Bool.and_eq_true, beq_iff_eq] at h
    rw [h.1.1, eq_of_same hy h.1.2, eq_of_sameMembers hns h.2]

end

/-- Whether a text is read as a value without floats. -/
def readsAs (bs : Bytes) (v : Json) : Bool :=
  match read bs with
  | .ok w => same w v && isIntegral v
  | .error _ => false

theorem read_of_readsAs {bs : Bytes} {v : Json} (h : readsAs bs v = true) : read bs = .ok v := by
  rw [readsAs] at h
  split at h
  · next w hr =>
    rw [Bool.and_eq_true] at h
    rw [hr, eq_of_same (integral_of_isIntegral v h.2) h.1]
  · cases h

end Json

theorem Command.eq_of_same {c c' : Command} (hi : Json.Integral c'.extra.toJson)
    (h : c.same c' = true) : c = c' := by
  obtain ⟨code, target, extra⟩ := c
  obtain ⟨code', target', extra'⟩ := c'
  simp only [same, Bool.and_eq_true, beq_iff_eq] at h
  obtain ⟨⟨rfl, rfl⟩, he⟩ := h
  have hentries : Json.object extra.entries = .object extra'.entries := Json.eq_of_same hi he
  obtain rfl : extra = extra' := Fields.ext (Json.object.inj hentries)
  rfl

namespace Frame

/-- Whether a payload is read as a command without floats. -/
def parsesAs (payload : Bytes) (c : Command) : Bool :=
  match Command.parse payload with
  | .ok c' => c'.same c && Json.isIntegral c.extra.toJson
  | .error _ => false

theorem parsePayload_of_parsesAs {payload : Bytes} {c : Command} (h : parsesAs payload c = true)
    (n : Nat) : parsePayload payload n = .ok c := by
  rw [parsesAs] at h
  split at h
  · next c' hp =>
    rw [Bool.and_eq_true] at h
    rw [parsePayload, hp, Command.eq_of_same (Json.integral_of_isIntegral _ h.2) h.1]
    rfl
  · cases h

/-- Whether frames are the same as others without floats. -/
def sameAll : List Frame → List Frame → Bool
  | [], [] => true
  | f :: fs, g :: gs =>
    f.header == g.header && f.message.same g.message && Json.isIntegral g.message.extra.toJson &&
      sameAll fs gs
  | _, _ => false

theorem eq_of_sameAll {fs gs : List Frame} (h : sameAll fs gs = true) : fs = gs := by
  fun_induction sameAll fs gs with
  | case1 => rfl
  | case2 f fs g gs ih =>
    obtain ⟨header, message⟩ := f
    simp only [Bool.and_eq_true, beq_iff_eq] at h
    obtain ⟨⟨⟨rfl, hm⟩, hi⟩, hrest⟩ := h
    rw [Command.eq_of_same (Json.integral_of_isIntegral _ hi) hm, ih hrest]
  | case3 => cases h

end Frame

end CameraChannel
