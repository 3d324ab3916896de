import CameraChannel.Capture.Artifact

/-!
Paths and their names. Main statements: joining a name to a path puts it behind the path's names,
and the path under which a directory's files are listed leads where the directory's own path leads
and can be used wherever that can.
-/
namespace CameraChannel.Path

/-- What can name a file: no path has other names. -/
structure IsName (n : String) : Prop where
  nonempty : n ≠ ""
  slashless : '/' ∉ n.toList

variable {n : String}

theorem names_empty : names "" = [] := rfl

/-- The names before a slash come before those behind it. -/
theorem names_append_slash (a b : String) : names (a ++ "/" ++ b) = names a ++ names b := by
  have hs : (a ++ "/" ++ b).toList = a.toList ++ '/' :: b.toList := by simp
  rw [names, hs, List.splitOn_append_cons_self, List.filter_append, List.map_append]
  rfl

theorem names_ending_slash (a : String) : names (a ++ "/") = names a := by
  have h := names_append_slash a ""
  rwa [names_empty, List.append_nil, String.append_empty] at h

theorem IsName.toList_ne_nil (h : IsName n) : n.toList ≠ [] :=
  fun e => h.nonempty (String.toList_inj.1 e)

theorem IsName.names_eq (h : IsName n) : names n = [n] := by
  rw [names, List.splitOn_eq_singleton h.slashless]
  simp [h.toList_ne_nil]

/-- What stands between slashes holds none. -/
theorem slashless_splitOn (l : List Char) : ∀ p ∈ l.splitOn '/', '/' ∉ p := by
  induction l with
  | nil => simp
  | cons c l ih =>
    rw [List.splitOn_cons_eq_if_modifyHead]
    split
    · simpa using ih
    · next hc =>
      have hne : '/' ≠ c := fun e => hc (by subst e; exact beq_self_eq_true _)
      generalize l.splitOn '/' = ps at ih
      cases ps with
      | nil => simp
      | cons p ps =>
        intro q hq
        obtain rfl | hq := List.mem_cons.1 hq
        · simpa [hne] using ih p List.mem_cons_self
        · exact ih q (List.mem_cons_of_mem _ hq)

theorem isName_of_mem {path : String} (h : n ∈ names path) : IsName n := by
  obtain ⟨p, hp, rfl⟩ := List.mem_map.1 h
  obtain ⟨hp, hne⟩ := List.mem_filter.1 hp
  refine ⟨fun e => ?_, by simpa using slashless_splitOn _ p hp⟩
  have hl := congrArg String.toList e
  rw [String.toList_ofList] at hl
  simp [hl] at hne

theorem endsWith_iff {a : String} : a.endsWith "/" = true ↔ ∃ b, a = b ++ "/" := by
  rw [← String.endsWith_toSlice, String.Slice.endsWith_string_iff, String.copy_toSlice]
  constructor
  · rintro ⟨l, hl⟩
    exact ⟨String.ofList l, String.toList_inj.1 (by simp [← hl])⟩
  · rintro ⟨b, rfl⟩
    exact ⟨b.toList, by simp⟩

theorem isAbsolute_iff {a : String} : isAbsolute a = true ↔ a.toList.head? = some '/' := by
  rw [isAbsolute, String.startsWith_string_iff, List.head?_eq_some_iff]
  exact ⟨fun ⟨l, hl⟩ => ⟨l, hl.symm⟩, fun ⟨l, hl⟩ => ⟨l, hl.symm⟩⟩

theorem isAbsolute_append {a : String} (h : a ≠ "") (b : String) :
    isAbsolute (a ++ b) = isAbsolute a := by
  have hne : a.toList ≠ [] := fun e => h (String.toList_inj.1 e)
  rw [Bool.eq_iff_iff, isAbsolute_iff, isAbsolute_iff, String.toList_append, List.head?_append,
    List.head?_eq_some_head hne, Option.some_or]

theorem isAbsolute_slash (a : String) : isAbsolute ("/" ++ a) = true := by
  rw [isAbsolute_iff, String.toList_append]
  rfl

/-- A text that ends with a name ends with no slash. -/
theorem IsName.not_slash (h : IsName n) (a : String) : (a ++ n).endsWith "/" = false := by
  rw [Bool.eq_false_iff]
  intro he
  obtain ⟨b, hb⟩ := endsWith_iff.1 he
  have hlast := congrArg (fun s => s.toList.getLast?) hb
  simp only [String.toList_append, List.getLast?_append] at hlast
  rw [List.getLast?_eq_some_getLast h.toList_ne_nil] at hlast
  have hslash : n.toList.getLast h.toList_ne_nil = '/' := by simpa using hlast
  exact h.slashless (hslash ▸ List.getLast_mem h.toList_ne_nil)

theorem IsName.not_isAbsolute (h : IsName n) : isAbsolute n = false := by
  rw [Bool.eq_false_iff]
  exact fun ha => h.slashless (List.mem_of_head? (isAbsolute_iff.1 ha))

/-! A path as it stands in front of a name. -/

def opened (path : String) : String :=
  if path.isEmpty || path.endsWith "/" then path else path ++ "/"

theorem join_eq (directory name : String) : join directory name = opened directory ++ name := by
  unfold join opened
  split <;> rfl

/-- In front of a name a path ends with a slash, unless it is empty. -/
theorem opened_cases (path : String) :
    path = "" ∧ opened path = "" ∨ ∃ a, opened path = a ++ "/" ∧ names a = names path := by
  unfold opened
  split
  · next h =>
    obtain h | h := Bool.or_eq_true_iff.1 h
    · exact .inl ⟨String.isEmpty_iff.1 h, String.isEmpty_iff.1 h⟩
    · obtain ⟨a, rfl⟩ := endsWith_iff.1 h
      exact .inr ⟨a, rfl, (names_ending_slash a).symm⟩
  · exact .inr ⟨path, rfl, rfl⟩

theorem names_opened (path : String) : names (opened path) = names path := by
  obtain ⟨rfl, ho⟩ | ⟨a, ho, ha⟩ := opened_cases path
  · rw [ho]
  · rw [ho, names_ending_slash, ha]

/-- A name is the last of the path it is joined to. -/
theorem names_join (h : IsName n) (directory : String) :
    names (join directory n) = names directory ++ [n] := by
  rw [join_eq]
  obtain ⟨rfl, ho⟩ | ⟨a, ho, ha⟩ := opened_cases directory
  · rw [ho, String.empty_append, h.names_eq]
    rfl
  · rw [ho, names_append_slash, ha, h.names_eq]

theorem join_not_slash (h : IsName n) (directory : String) :
    (join directory n).endsWith "/" = false := by
  rw [join_eq]
  exact h.not_slash _

theorem not_mem_opened {c : Char} (h : c ∉ path.toList) (hc : c ≠ '/') :
    c ∉ (opened path).toList := by
  unfold opened
  split
  · exact h
  · simp [h, hc]

theorem size_opened_le (path : String) :
    (opened path).utf8ByteSize ≤ path.utf8ByteSize + 1 := by
  unfold opened
  split
  · exact Nat.le_succ _
  · exact Nat.le_of_eq String.utf8ByteSize_append

theorem isAbsolute_opened (path : String) : isAbsolute (opened path) = isAbsolute path := by
  unfold opened
  split
  · rfl
  · next h => exact isAbsolute_append (fun e => h (by simp [e])) "/"

theorem isAbsolute_join (h : IsName n) (directory : String) :
    isAbsolute (join directory n) = isAbsolute directory := by
  rw [join_eq, ← isAbsolute_opened directory]
  by_cases ho : opened directory = ""
  · rw [ho, String.empty_append]
    exact h.not_isAbsolute
  · exact isAbsolute_append ho n

/-! Names with a slash behind each. -/

def trail : List String → String
  | [] => ""
  | n :: ns => n ++ "/" ++ trail ns

theorem intercalate_cons (n : String) (ns : List String) :
    "/".intercalate (n :: ns) ++ "/" = trail (n :: ns) := by
  induction ns generalizing n with
  | nil => simp [trail]
  | cons m ns ih =>
    rw [String.intercalate_cons_cons, String.append_assoc, ih m]
    rfl

theorem toList_trail (ns : List String) :
    (trail ns).toList = ns.flatMap fun n => n.toList ++ ['/'] := by
  induction ns with
  | nil => rfl
  | cons n ns ih => simp [trail, ih]

theorem names_trail {ns : List String} (h : ∀ n ∈ ns, IsName n) : names (trail ns) = ns := by
  induction ns with
  | nil => rfl
  | cons n ns ih =>
    rw [trail, names_append_slash, (h n List.mem_cons_self).names_eq,
      ih fun m hm => h m (List.mem_cons_of_mem _ hm)]
    rfl

theorem isAbsolute_trail {ns : List String} (h : ∀ n ∈ ns, IsName n) :
    isAbsolute (trail ns) = false := by
  cases ns with
  | nil => rfl
  | cons n ns =>
    have hn := h n List.mem_cons_self
    rw [trail, String.append_assoc, isAbsolute_append hn.nonempty, hn.not_isAbsolute]

theorem names_slash (a : String) : names ("/" ++ a) = names a := by
  rw [← String.empty_append (s := "/"), names_append_slash, names_empty, List.nil_append]

/-- Names with slashes between them end with a name. -/
theorem intercalate_ends {ns : List String} (h : ∀ n ∈ ns, IsName n) (hne : ns ≠ []) :
    ∃ a n, IsName n ∧ "/".intercalate ns = a ++ n := by
  induction ns with
  | nil => exact absurd rfl hne
  | cons n ns ih =>
    cases ns with
    | nil => exact ⟨"", n, h n List.mem_cons_self, by simp⟩
    | cons m ns =>
      obtain ⟨a, k, hk, e⟩ := ih (fun x hx => h x (List.mem_cons_of_mem _ hx)) (by simp)
      exact ⟨n ++ "/" ++ a, k, hk, by rw [String.intercalate_cons_cons, e, ← String.append_assoc]⟩

/-- In front of a name, names with slashes between them have one more behind the last. -/
theorem opened_intercalate {root : String} (hr : root = "" ∨ root = "/") {ns : List String}
    (h : ∀ n ∈ ns, IsName n) : opened (root ++ "/".intercalate ns) = root ++ trail ns := by
  cases ns with
  | nil =>
    obtain rfl | rfl := hr
    · rfl
    · have he : "/".endsWith "/" = true := endsWith_iff.2 ⟨"", rfl⟩
      simp [opened, trail, he]
  | cons n ns =>
    obtain ⟨a, k, hk, e⟩ := intercalate_ends h (by simp)
    have ho : opened (root ++ "/".intercalate (n :: ns)) =
        root ++ "/".intercalate (n :: ns) ++ "/" := by
      have hne : (root ++ (a ++ k)).isEmpty = false := by
        simp [String.isEmpty_eq_false_iff, hk.nonempty]
      rw [e, opened, hne, ← String.append_assoc, hk.not_slash, Bool.or_false]
      rfl
    rw [ho, String.append_assoc, intercalate_cons]

/-- A text that is cut at its slashes consists of the pieces with a slash behind each, but for the
last slash. -/
theorem flatMap_splitOn (l : List Char) :
    ((l.splitOn '/').flatMap fun p => p ++ ['/']) = l ++ ['/'] := by
  induction l with
  | nil => rfl
  | cons c l ih =>
    rw [List.splitOn_cons_eq_if_modifyHead]
    split
    · next hc =>
      have hc : c = '/' := by simpa using hc
      subst hc
      simp [ih]
    · generalize l.splitOn '/' = ps at ih
      cases ps with
      | nil => simp at ih
      | cons p ps => simpa using ih

theorem flatMap_sublist {α β : Type} (f : α → List β) {l m : List α} (h : l.Sublist m) :
    (l.flatMap f).Sublist (m.flatMap f) := by
  induction h with
  | slnil => exact List.Sublist.refl _
  | cons a _ ih =>
    rw [List.flatMap_cons]
    exact ih.trans (List.sublist_append_right _ _)
  | cons_cons a _ ih =>
    rw [List.flatMap_cons, List.flatMap_cons]
    exact (List.Sublist.refl _).append ih

theorem trail_names_sublist (path : String) :
    (trail (names path)).toList.Sublist (path.toList ++ ['/']) := by
  rw [toList_trail, names, List.flatMap_map, ← flatMap_splitOn]
  simp only [String.toList_ofList]
  exact flatMap_sublist _ List.filter_sublist

theorem trail_sublist_opened (path : String) :
    (trail (names path)).toList.Sublist (opened path).toList := by
  obtain ⟨rfl, ho⟩ | ⟨a, ho, ha⟩ := opened_cases path
  · rw [ho]
    exact List.Sublist.refl _
  · rw [ho, ← ha]
    simpa using trail_names_sublist a

/-- The slash at the start is none of those between the names. -/
theorem slash_trail_sublist {path : String} (h : isAbsolute path = true) :
    ("/" ++ trail (names path)).toList.Sublist (opened path).toList := by
  obtain ⟨rfl, -⟩ | ⟨a, ho, ha⟩ := opened_cases path
  · cases h
  rw [← isAbsolute_opened, ho] at h
  rw [ho, ← ha]
  by_cases he : a = ""
  · subst he
    exact List.Sublist.refl _
  · rw [isAbsolute_append he, isAbsolute_iff, List.head?_eq_some_iff] at h
    obtain ⟨l, hl⟩ := h
    have hb : a = "/" ++ String.ofList l := String.toList_inj.1 (by simp [hl])
    rw [hb, names_slash]
    simpa using trail_names_sublist (String.ofList l)

theorem fault?_eq_none {path : String} : fault? path = none ↔
    '\x00' ∉ path.toList ∧ path ≠ "" ∧ path.utf8ByteSize ≤ limit := by
  unfold fault? hasZero
  split
  · simp_all
  · split
    · simp_all
    · split
      · simp_all
      · simp_all

theorem utf8ByteSize_sublist {a b : String} (h : a.toList.Sublist b.toList) :
    a.utf8ByteSize ≤ b.utf8ByteSize := by
  have step : ∀ (l m : List Char), l.Sublist m →
      (String.ofList l).utf8ByteSize ≤ (String.ofList m).utf8ByteSize := by
    intro l m hs
    induction hs with
    | slnil => exact Nat.le_refl _
    | cons c _ ih =>
      rw [String.ofList_cons, String.utf8ByteSize_append]
      omega
    | cons_cons c _ ih =>
      rw [String.ofList_cons, String.ofList_cons, String.utf8ByteSize_append,
        String.utf8ByteSize_append]
      omega
  simpa using step _ _ h

/-- Fewer characters do no harm to a path. -/
theorem fault?_sublist {a b : String} (h : a.toList.Sublist b.toList) (hne : a ≠ "")
    (hb : fault? b = none) : fault? a = none := by
  obtain ⟨hz, -, hs⟩ := fault?_eq_none.1 hb
  exact fault?_eq_none.2 ⟨fun hm => hz (h.mem hm), hne, Nat.le_trans (utf8ByteSize_sublist h) hs⟩

end CameraChannel.Path
