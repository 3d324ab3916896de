import CameraChannel.Proofs.Json.Canonical

/-!
Members by name. As an object is written it may have several values of one name; the canonical
object has the last of them, and is known by what it has for each name.
-/
namespace CameraChannel

open Utf8 (Before)

namespace Json

/-- The values that members have for a name, in order. -/
def values (name : String) (ms : List (String × Json)) : List Json :=
  (ms.filter fun m => m.1 = name).map (·.2)

@[simp] theorem values_nil (name : String) : values name [] = [] := rfl

@[simp] theorem values_cons_self (name : String) (v : Json) (ms : List (String × Json)) :
    values name ((name, v) :: ms) = v :: values name ms := by
  simp [values]

theorem values_cons_of_ne {name other : String} (h : other ≠ name) (v : Json)
    (ms : List (String × Json)) : values name ((other, v) :: ms) = values name ms := by
  simp [values, h]

theorem lookup_cons (name n : String) (w : Json) (ms : List (String × Json)) :
    ((n, w) :: ms).lookup name = if name = n then some w else ms.lookup name := by
  rw [List.lookup_cons]
  by_cases h : name = n
  · rw [if_pos h, beq_iff_eq.2 h]
  · rw [if_neg h, beq_eq_false_iff_ne.2 h]

theorem lookup_insert (name other : String) (v : Json) (ms : List (String × Json)) :
    (insert name v ms).lookup other = if other = name then some v else ms.lookup other := by
  induction ms with
  | nil => rw [insert, lookup_cons]
  | cons m ms ih =>
    obtain ⟨n, w⟩ := m
    rw [insert]
    split
    · next hn =>
      subst hn
      rw [lookup_cons, lookup_cons]
      split <;> rfl
    · next hn =>
      split
      · rw [lookup_cons]
      · rw [lookup_cons, lookup_cons, ih]
        by_cases h : other = n
        · rw [if_pos h, if_neg fun e => hn (e.symm.trans h), if_pos h]
        · rw [if_neg h, if_neg h]

/-- A name in front of all others is that of no later member. -/
theorem lookup_of_before {name : String} {ms : List (String × Json)}
    (h : ∀ m ∈ ms, Before name m.1) : ms.lookup name = none := by
  rw [List.lookup_eq_none_iff]
  intro m hm
  rw [bne_iff_ne]
  intro e
  exact Utf8.Before.irrefl m.1 (e ▸ h m hm)

/-- The first name of all is missing where another one is first. -/
theorem not_before_of_lookup {a b : String} {v w : Json} {ms ns : List (String × Json)}
    (hb : ∀ m ∈ ns, Before b m.1)
    (h : ((a, v) :: ms).lookup a = ((b, w) :: ns).lookup a) : ¬Before a b := by
  intro hlt
  have hnone : ((b, w) :: ns).lookup a = none := lookup_of_before fun m hm => by
    obtain rfl | hm := List.mem_cons.1 hm
    · exact hlt
    · exact hlt.trans (hb m hm)
  rw [hnone, lookup_cons, if_pos rfl] at h
  cases h

/-- Members in ascending order are known by what they have for each name. -/
theorem eq_of_lookup {ms ns : List (String × Json)} (hm : ms.Pairwise fun a b => Before a.1 b.1)
    (hn : ns.Pairwise fun a b => Before a.1 b.1) (h : ∀ name, ms.lookup name = ns.lookup name) :
    ms = ns := by
  induction ms generalizing ns with
  | nil =>
    cases ns with
    | nil => rfl
    | cons n ns =>
      have := h n.1
      rw [lookup_cons, if_pos rfl] at this
      cases this
  | cons m ms ih =>
    cases ns with
    | nil =>
      have := h m.1
      rw [lookup_cons, if_pos rfl] at this
      cases this
    | cons n ns =>
      obtain ⟨a, v⟩ := m
      obtain ⟨b, w⟩ := n
      obtain ⟨ha, hms⟩ := List.pairwise_cons.1 hm
      obtain ⟨hb, hns⟩ := List.pairwise_cons.1 hn
      have hab : a = b := Decidable.byContradiction fun e =>
        not_before_of_lookup ha (h b).symm (Utf8.before_of_ne e (not_before_of_lookup hb (h a)))
      subst hab
      have hvw : v = w := by
        have := h a
        rw [lookup_cons, lookup_cons, if_pos rfl, if_pos rfl] at this
        exact Option.some.inj this
      subst hvw
      rw [ih hms hns fun name => ?_]
      by_cases e : name = a
      · rw [e, lookup_of_before ha, lookup_of_before hb]
      · have := h name
        rwa [lookup_cons, lookup_cons, if_neg e, if_neg e] at this

end Json

namespace Fields

open Json (values)

theorem ext_get? {f g : Fields} (h : ∀ name, f.get? name = g.get? name) : f = g :=
  Fields.ext (Json.eq_of_lookup f.ascending g.ascending h)

theorem get?_insert (f : Fields) (name other : String) (v : Json) :
    (f.insert name v).get? other = if other = name then some v.canonical else f.get? other :=
  Json.lookup_insert name other v.canonical f.entries

theorem get?_foldl (ms : List (String × Json)) (f : Fields) (name : String) :
    (ms.foldl (fun f m => f.insert m.1 m.2) f).get? name =
      ((values name ms).getLast?.map Json.canonical).or (f.get? name) := by
  induction ms generalizing f with
  | nil => rfl
  | cons m ms ih =>
    obtain ⟨n, v⟩ := m
    rw [List.foldl_cons, ih, get?_insert]
    by_cases h : n = name
    · subst h
      rw [Json.values_cons_self, List.getLast?_cons, if_pos rfl]
      cases (values n ms).getLast? <;> rfl
    · rw [Json.values_cons_of_ne h, if_neg (Ne.symm h)]

/-- The last value of each name is kept. -/
theorem get?_ofMembers (ms : List (String × Json)) (name : String) :
    (ofMembers ms).get? name = (values name ms).getLast?.map Json.canonical := by
  rw [ofMembers, get?_foldl]
  exact Option.or_none

theorem entries_ofMembers (ms : List (String × Json)) :
    (ofMembers ms).entries = Json.canonicalOnto [] ms := by
  suffices ∀ f : Fields, (ms.foldl (fun f m => f.insert m.1 m.2) f).entries =
      Json.canonicalOnto f.entries ms from this empty
  induction ms with
  | nil =>
    intro f
    rw [Json.canonicalOnto]
    rfl
  | cons m ms ih =>
    intro f
    rw [List.foldl_cons, ih, Json.canonicalOnto]
    rfl

end Fields

end CameraChannel
