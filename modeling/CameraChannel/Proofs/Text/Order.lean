import CameraChannel.Text.Order

/-!
Byte strings compared from the left, and the last of some names in the order of their bytes.
-/
namespace CameraChannel

/-- Of two byte strings that begin with as many bytes, these decide unless they are the same. -/
theorem Bytes.append_lt_append {a b x y : Bytes} (h : a.length = b.length) :
    a ++ x < b ++ y ↔ a < b ∨ a = b ∧ x < y := by
  induction a generalizing b with
  | nil =>
    obtain rfl := List.eq_nil_of_length_eq_zero h.symm
    simp
  | cons c a ih =>
    cases b with
    | nil => cases h
    | cons d b =>
      rw [List.cons_append, List.cons_append, List.cons_lt_cons_iff, List.cons_lt_cons_iff,
        ih (Nat.succ.inj h), List.cons.injEq]
      constructor
      · rintro (hlt | ⟨he, hlt | ⟨hab, hxy⟩⟩)
        · exact .inl (.inl hlt)
        · exact .inl (.inr ⟨he, hlt⟩)
        · exact .inr ⟨⟨he, hab⟩, hxy⟩
      · rintro ((hlt | ⟨he, hlt⟩) | ⟨⟨he, hab⟩, hxy⟩)
        · exact .inl hlt
        · exact .inr ⟨he, .inl hlt⟩
        · exact .inr ⟨he, .inr ⟨hab, hxy⟩⟩

theorem Bytes.lt_append_left (a : Bytes) {x y : Bytes} : a ++ x < a ++ y ↔ x < y := by
  rw [append_lt_append rfl]
  simp [List.lt_irrefl]

namespace Utf8

theorem Before.irrefl (a : String) : ¬Before a a := List.lt_irrefl (ofString a)

theorem Before.asymm {a b : String} (h : Before a b) : ¬Before b a :=
  fun k => Before.irrefl a (h.trans k)

@[simp] theorem greatest_eq_none {ns : List String} : greatest ns = none ↔ ns = [] := by
  cases ns with
  | nil => simp [greatest]
  | cons n ns =>
    rw [greatest]
    split
    · simp
    · split <;> simp

/-- The last of some names is one of them, and stands behind all others. -/
theorem greatest_last {ns : List String} {n : String} (h : greatest ns = some n) :
    n ∈ ns ∧ ∀ m ∈ ns, m = n ∨ Before m n := by
  induction ns generalizing n with
  | nil => simp [greatest] at h
  | cons a ns ih =>
    rw [greatest] at h
    split at h
    · next hnone =>
      obtain rfl := greatest_eq_none.1 hnone
      cases h
      simp
    · next m hm =>
      obtain ⟨hmem, hall⟩ := ih hm
      split at h
      · next hb =>
        cases h
        refine ⟨List.mem_cons_of_mem _ hmem, fun x hx => ?_⟩
        obtain rfl | hx := List.mem_cons.1 hx
        · exact .inr hb
        · exact hall x hx
      · next hb =>
        cases h
        have hma : m = a ∨ Before m a := by
          by_cases e : a = m
          · exact .inl e.symm
          · exact .inr (before_of_ne e hb)
        refine ⟨List.mem_cons_self, fun x hx => ?_⟩
        obtain rfl | hx := List.mem_cons.1 hx
        · exact .inl rfl
        · obtain rfl | hxm := hall x hx
          · exact hma
          · obtain rfl | hma := hma
            · exact .inr hxm
            · exact .inr (hxm.trans hma)

theorem greatest_eq_some {ns : List String} {n : String} :
    greatest ns = some n ↔ n ∈ ns ∧ ∀ m ∈ ns, m = n ∨ Before m n := by
  refine ⟨greatest_last, fun ⟨hn, hall⟩ => ?_⟩
  cases hg : greatest ns with
  | none =>
    obtain rfl := greatest_eq_none.1 hg
    cases hn
  | some k =>
    -- two last names would stand behind each other
    obtain ⟨hk, hbk⟩ := greatest_last hg
    obtain rfl | hkn := hall k hk
    · rfl
    · obtain rfl | hnk := hbk n hn
      · rfl
      · exact absurd hnk hkn.asymm

end Utf8

end CameraChannel
