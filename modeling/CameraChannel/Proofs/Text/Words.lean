import Mathlib.Data.List.TakeWhile
import CameraChannel.Text.Blank

/-!
The words of a text, and the text without the white space around it.
-/
namespace CameraChannel.Blank

/-- A text that is one word: not empty, and without white space. -/
def IsWord (s : String) : Prop := s ≠ "" ∧ ∀ c ∈ s.toList, isBlank c = false

instance (s : String) : Decidable (IsWord s) :=
  decidable_of_iff (s ≠ "" ∧ s.toList.all (fun c => !isBlank c) = true) (by simp [IsWord])

theorem wordsFrom_append {c : Char} (hc : isBlank c = true) (word cs ds : List Char) :
    wordsFrom word (cs ++ c :: ds) = wordsFrom word cs ++ wordsFrom [] ds := by
  induction cs generalizing word with
  | nil => cases word <;> simp [wordsFrom, hc]
  | cons a cs ih =>
    rw [List.cons_append, wordsFrom, wordsFrom]
    split
    · split
      · exact ih []
      · rw [ih [], List.cons_append]
    · exact ih (a :: word)

theorem wordsFrom_plain {word cs : List Char} (h : ∀ c ∈ cs, isBlank c = false)
    (hne : word ≠ [] ∨ cs ≠ []) : wordsFrom word cs = [word.reverse ++ cs] := by
  induction cs generalizing word with
  | nil =>
    obtain hne | hne := hne
    · simp [wordsFrom, hne]
    · exact absurd rfl hne
  | cons a cs ih =>
    have ha : ¬isBlank a = true := by simp [h a List.mem_cons_self]
    rw [wordsFrom, if_neg ha, ih (fun c hc => h c (List.mem_cons_of_mem a hc)) (.inl (by simp))]
    simp

/-- A space divides words. -/
theorem words_space (s t : String) : words (s ++ " " ++ t) = words s ++ words t := by
  have hspace : isBlank ' ' = true := by decide
  have hlist : (s ++ " " ++ t).toList = s.toList ++ ' ' :: t.toList := by simp
  rw [words, hlist, wordsFrom_append hspace, List.map_append, words, words]

theorem IsWord.words_eq {s : String} (h : IsWord s) : words s = [s] := by
  have hne : s.toList ≠ [] := fun e => h.1 (String.toList_eq_nil_iff.1 e)
  simp [words, wordsFrom_plain h.2 (.inr hne)]

theorem not_blank_of_mem_wordsFrom {word cs : List Char} (h : ∀ c ∈ word, isBlank c = false) :
    ∀ w ∈ wordsFrom word cs, w ≠ [] ∧ ∀ c ∈ w, isBlank c = false := by
  have hword : word ≠ [] → word.reverse ≠ [] ∧ ∀ c ∈ word.reverse, isBlank c = false :=
    fun hne => ⟨by simpa using hne, fun c hc => h c (List.mem_reverse.1 hc)⟩
  induction cs generalizing word with
  | nil =>
    intro w hw
    cases word with
    | nil => simp [wordsFrom] at hw
    | cons b word =>
      rw [List.mem_singleton.1 hw]
      exact hword (by simp)
  | cons a cs ih =>
    rw [wordsFrom]
    split
    · split
      · exact ih (by simp) (by simp)
      · next hne =>
        intro w hw
        obtain rfl | hw := List.mem_cons.1 hw
        · exact hword (by simpa using hne)
        · exact ih (by simp) (by simp) w hw
    · next ha =>
      have hlonger : ∀ c ∈ a :: word, isBlank c = false := by
        intro c hc
        obtain rfl | hc := List.mem_cons.1 hc
        · exact Bool.eq_false_iff.2 ha
        · exact h c hc
      exact ih hlonger fun _ => ⟨by simp, fun c hc => hlonger c (List.mem_reverse.1 hc)⟩

theorem isWord_of_mem {s w : String} (h : w ∈ words s) : IsWord w := by
  obtain ⟨cs, hcs, rfl⟩ := List.mem_map.1 h
  obtain ⟨hne, hplain⟩ := not_blank_of_mem_wordsFrom (by simp) cs hcs
  exact ⟨by simpa using hne, by simpa using hplain⟩

theorem words_eq_self_iff {s : String} : words s = [s] ↔ IsWord s :=
  ⟨fun h => isWord_of_mem (h ▸ List.mem_singleton_self s), IsWord.words_eq⟩

theorem trim_eq_empty_iff {s : String} : trim s = "" ↔ ∀ c ∈ s.toList, isBlank c = true := by
  rw [trim, String.ofList_eq_empty_iff, List.reverse_eq_nil_iff, List.dropWhile_eq_nil_iff,
    ← List.dropWhile_eq_nil_iff (l := s.toList)]
  constructor
  · intro h
    by_cases hne : s.toList.dropWhile isBlank = []
    · exact hne
    · -- what is left starts with a character that is not blank
      have hfirst := h _ (List.mem_reverse.2 (List.head_mem hne))
      rw [List.head_dropWhile_not isBlank hne] at hfirst
      cases hfirst
  · intro h
    rw [h]
    simp

end CameraChannel.Blank
