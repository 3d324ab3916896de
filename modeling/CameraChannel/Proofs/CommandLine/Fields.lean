import CameraChannel.CommandLine.Program
import CameraChannel.Proofs.Frame.RoundTrip
import CameraChannel.Proofs.Json.Reordering
import CameraChannel.Proofs.Json.Values

/-!
Fields given on a command line, and the command that they build. Main statement: `field_exact`,
which texts give which fields.
-/
namespace CameraChannel.CommandLine

open Json (Canonical Integral nesting)

/-- The text of a value as a field has it. -/
theorem fieldValue_text {v : Json} (hi : Integral v) (hn : nesting v ≤ Json.Reader.depthLimit)
    {l : Json.Layout} (hl : l.Blanks) : fieldValue (v.text l) = v.canonical := by
  have ht := (Json.Reader.handles hi Json.Reader.depthLimit l 0 hl).1 hn [] fun _ h => (by cases h)
  have hr : Json.read (Utf8.ofString (v.text l)) = .ok v := by
    rw [List.append_nil] at ht
    rw [Utf8.ofString, Json.text, String.toList_ofList]
    exact Json.Scan.whole_of_ok ht rfl
  rw [fieldValue, hr]

/-- What a text spells in JSON counts, and the text itself only when it spells nothing. -/
theorem fieldValue_iff {raw : String} {v : Json} : fieldValue raw = v ↔
    (∃ w, Json.read (Utf8.ofString raw) = .ok w ∧ v = w.canonical) ∨
    ((∀ w, Json.read (Utf8.ofString raw) ≠ .ok w) ∧ v = .string raw) := by
  rw [fieldValue]
  cases Json.read (Utf8.ofString raw) with
  | ok w => simp [eq_comm]
  | error e => simp [eq_comm]

theorem fieldValue_canonical (raw : String) : (fieldValue raw).canonical = fieldValue raw := by
  obtain ⟨w, -, hw⟩ | ⟨-, hs⟩ := fieldValue_iff.1 (rfl : fieldValue raw = _)
  · rw [hw]
    exact (Json.canonical_canonical w).canonical_eq
  · rw [hs]
    rfl

section Parted

variable {s name raw : String} {v : Json}

theorem ne_equals (h : '=' ∉ s.toList) : ∀ c ∈ s.toList, (c != '=') = true := fun c hc => by
  simpa using fun e : c = '=' => h (e ▸ hc)

theorem toList_parted (name raw : String) :
    (name ++ "=" ++ raw).toList = name.toList ++ '=' :: raw.toList := by simp

theorem field_of_not_mem (h : '=' ∉ s.toList) : field s = .error (.noEquals s) := by
  rw [field, ← List.append_nil s.toList, List.dropWhile_append_of_pos (ne_equals h)]
  rfl

/-- The first equals sign parts a name and a value. -/
theorem field_parted (h : '=' ∉ name.toList) (raw : String) : field (name ++ "=" ++ raw) =
    if name = "" then .error .emptyName else .ok (name, fieldValue raw) := by
  rw [field, toList_parted, List.takeWhile_append_of_pos (ne_equals h),
    List.dropWhile_append_of_pos (ne_equals h), List.takeWhile_cons_of_neg (by decide),
    List.dropWhile_cons_of_neg (by decide), List.append_nil]
  simp only [List.isEmpty_iff, String.toList_eq_nil_iff, String.ofList_toList]

theorem exists_parted (h : '=' ∈ s.toList) :
    ∃ name raw, '=' ∉ name.toList ∧ s = name ++ "=" ++ raw := by
  obtain ⟨before, after, hs, hb⟩ := List.eq_append_cons_of_mem h
  refine ⟨String.ofList before, String.ofList after, by rwa [String.toList_ofList], ?_⟩
  rw [← String.toList_inj, toList_parted, hs, String.toList_ofList, String.toList_ofList]

theorem head?_parted (h : '=' ∉ name.toList) (raw : String) :
    (name ++ "=" ++ raw).toList.head? = some '=' ↔ name = "" := by
  rw [toList_parted, ← String.toList_eq_nil_iff]
  cases hn : name.toList with
  | nil => simp
  | cons c cs =>
    rw [hn] at h
    simpa using fun e : c = '=' => h (e ▸ List.mem_cons_self)

/-- What a text gives, by where its first equals sign stands. -/
theorem field_cases (s : String) :
    ('=' ∉ s.toList ∧ field s = .error (.noEquals s)) ∨
    (s.toList.head? = some '=' ∧ field s = .error .emptyName) ∨
    ∃ name raw, name ≠ "" ∧ '=' ∉ name.toList ∧ s = name ++ "=" ++ raw ∧
      field s = .ok (name, fieldValue raw) := by
  by_cases h : '=' ∈ s.toList
  · obtain ⟨name, raw, hn, rfl⟩ := exists_parted h
    by_cases hname : name = ""
    · exact .inr (.inl ⟨(head?_parted hn raw).2 hname, by rw [field_parted hn, if_pos hname]⟩)
    · exact .inr (.inr ⟨name, raw, hname, hn, rfl, by rw [field_parted hn, if_neg hname]⟩)
  · exact .inl ⟨h, field_of_not_mem h⟩

theorem field_noEquals : field s = .error (.noEquals s) ↔ '=' ∉ s.toList := by
  refine ⟨fun hf h => ?_, field_of_not_mem⟩
  obtain ⟨h', -⟩ | ⟨-, hf'⟩ | ⟨_, _, -, -, -, hf'⟩ := field_cases s
  · exact h' h
  · cases hf.symm.trans hf'
  · cases hf.symm.trans hf'

theorem field_emptyName : field s = .error .emptyName ↔ s.toList.head? = some '=' := by
  obtain ⟨h, hf⟩ | ⟨h, hf⟩ | ⟨name, raw, hname, hn, rfl, hf⟩ := field_cases s
  · rw [hf]
    exact ⟨nofun, fun hhead => absurd (List.mem_of_head? hhead) h⟩
  · exact ⟨fun _ => h, fun _ => hf⟩
  · rw [hf, head?_parted hn]
    exact ⟨nofun, fun e => absurd e hname⟩

/-- A field is a name that is not empty, an equals sign, the first one, and a value. -/
theorem field_eq_ok : field s = .ok (name, v) ↔
    ∃ raw, name ≠ "" ∧ '=' ∉ name.toList ∧ s = name ++ "=" ++ raw ∧ fieldValue raw = v := by
  constructor
  · intro hf
    obtain ⟨-, hf'⟩ | ⟨-, hf'⟩ | ⟨n, raw, hname, hn, rfl, hf'⟩ := field_cases s
    · cases hf.symm.trans hf'
    · cases hf.symm.trans hf'
    · cases hf.symm.trans hf'
      exact ⟨raw, hname, hn, rfl, rfl⟩
  · rintro ⟨raw, hname, hn, rfl, rfl⟩
    rw [field_parted hn, if_neg hname]

end Parted

/-- A field's value is canonical. -/
theorem canonical_field {a name : String} {v : Json} (h : field a = .ok (name, v)) :
    v.canonical = v := by
  obtain ⟨raw, -, -, -, rfl⟩ := field_eq_ok.1 h
  exact fieldValue_canonical raw

/-- What is given for a field loses nothing. Only a text without an equals sign, or with one in
front, is refused. Any other is a name up to the first of them and, behind it, the value that the
whole of the text there spells in JSON, or that text itself when it spells none. So a value without
floats, not nested deeper than the reader allows, is read again from its text in either style, and
every string from its quoted form. -/
theorem field_exact (s : String) :
    (field s = .error (.noEquals s) ↔ '=' ∉ s.toList) ∧
    (field s = .error .emptyName ↔ s.toList.head? = some '=') ∧
    ((∃ e, field s = .error e) ↔ '=' ∉ s.toList ∨ s.toList.head? = some '=') ∧
    (∀ name v, field s = .ok (name, v) ↔
      ∃ raw, name ≠ "" ∧ '=' ∉ name.toList ∧ s = name ++ "=" ++ raw ∧
        ((∃ w, Json.read (Utf8.ofString raw) = .ok w ∧ v = w.canonical) ∨
          ((∀ w, Json.read (Utf8.ofString raw) ≠ .ok w) ∧ v = .string raw))) ∧
    ∀ name, name ≠ "" → '=' ∉ name.toList →
      (∀ v, Integral v → nesting v ≤ 127 → ∀ style, ∃ text,
        Frame.encodePayload (.value v) style = .ok (Utf8.ofString text) ∧
        field (name ++ "=" ++ text) = .ok (name, v.canonical) ∧
        (Canonical v → field (name ++ "=" ++ text) = .ok (name, v))) ∧
      ∀ t, field (name ++ "=" ++ (Json.string t).text .compact) = .ok (name, .string t) := by
  have hback : ∀ name, name ≠ "" → '=' ∉ name.toList → ∀ v, Integral v → nesting v ≤ 127 →
      ∀ style : Style, field (name ++ "=" ++ v.text style.layout) = .ok (name, v.canonical) :=
    fun name hname hn v hi hv style =>
      field_eq_ok.2 ⟨_, hname, hn, rfl, fieldValue_text hi hv style.blanks⟩
  refine ⟨field_noEquals, field_emptyName, ?_, fun name v => ?_, fun name hname hn =>
    ⟨fun v hi hv style => ⟨v.text style.layout, ?_, hback name hname hn v hi hv style,
      fun hc => ?_⟩,
      fun t => hback name hname hn (.string t) (.string t) (Nat.zero_le _) .compact⟩⟩
  · constructor
    · rintro ⟨e, hf⟩
      obtain ⟨h, -⟩ | ⟨h, -⟩ | ⟨_, _, -, -, -, hf'⟩ := field_cases s
      · exact .inl h
      · exact .inr h
      · cases hf.symm.trans hf'
    · rintro (h | h)
      · exact ⟨_, field_noEquals.2 h⟩
      · exact ⟨_, field_emptyName.2 h⟩
  · rw [field_eq_ok]
    simp only [fieldValue_iff]
  · rw [Frame.encodePayload, Json.text, Utf8.ofString, String.toList_ofList]
    rfl
  · have hfield := hback name hname hn v hi hv style
    rwa [hc.canonical_eq] at hfield

/-- Fields are put in one after the other; the code and the device stay. -/
theorem commandOf_eq (code : Int64) (target : Option String) (ms : List (String × Json)) :
    commandOf code target ms = { code, target, extra := .ofMembers ms } := by
  suffices ∀ c : Command, ms.foldl (fun c f => c.withField f.1 f.2) c =
      { c with extra := ms.foldl (fun f m => f.insert m.1 m.2) c.extra } from this { code, target }
  induction ms with
  | nil => exact fun _ => rfl
  | cons m ms ih => exact fun c => ih _

namespace Given

variable {g : Given}

/-- The fields given, in order. -/
def fields (g : Given) : List (String × Json) :=
  (g.values "field").filterMap (field · |>.toOption)

theorem mem_fields {m : String × Json} :
    m ∈ g.fields ↔ ∃ a ∈ g.values "field", field a = .ok m := by
  rw [fields, List.mem_filterMap]
  refine exists_congr fun a => and_congr_right fun _ => ?_
  cases field a <;> simp [Except.toOption]

theorem command_extra (g : Given) : g.command.extra = .ofMembers g.fields := by
  rw [command, commandOf_eq]
  rfl

theorem integral_command (h : ∀ m ∈ g.fields, Integral m.2) : Integral g.command.extra.toJson := by
  refine .object fun m hm => ?_
  rw [command_extra, Fields.entries_ofMembers] at hm
  obtain hm | ⟨x, hx, rfl⟩ := Json.mem_canonicalOnto hm
  · cases hm
  · exact (h x hx).canonical

/-- Of fields with one name the last counts. -/
theorem get?_command (g : Given) (name : String) :
    g.command.extra.get? name = (Json.values name g.fields).getLast? := by
  rw [command_extra, Fields.get?_ofMembers]
  cases h : (Json.values name g.fields).getLast? with
  | none => rfl
  | some v =>
    obtain ⟨m, hm, rfl⟩ := List.mem_map.1 (List.mem_of_getLast? h)
    obtain ⟨a, -, ha⟩ := mem_fields.1 (List.mem_filter.1 hm).1
    rw [Option.map_some, canonical_field ha]

end Given

/-- What the words `encode -c 1 --field f` give to their level. -/
def oneField (f : String) : Given := { switches := [("code", "1"), ("field", f)] }

section OneField

variable {f : String} {v : Json}

theorem fields_oneField (h : field f = .ok ("a", v)) : (oneField f).fields = [("a", v)] := by
  have hv : (oneField f).values "field" = [f] := rfl
  rw [Given.fields, hv, List.filterMap_cons, h]
  rfl

/-- Its members. -/
theorem command_oneField (h : field f = .ok ("a", v)) :
    (oneField f).command = { code := 1, extra := .ofMembers [("a", v)] } := by
  rw [Given.command, commandOf_eq]
  exact congrArg (fun ms => { code := 1, extra := .ofMembers ms : Command }) (fields_oneField h)

theorem members_oneField (h : field f = .ok ("a", v)) :
    (oneField f).command.members = [("code", .ofInt64 1), ("a", v)] := by
  have he : (Fields.ofMembers [("a", v)]).entries = [("a", v)] := by
    rw [Fields.entries_ofMembers, Json.canonicalOnto, canonical_field h]
    rfl
  rw [command_oneField h, Command.members, he]
  rfl

theorem nesting_oneField (h : field f = .ok ("a", v)) :
    nesting (.object (oneField f).command.members) = nesting v + 1 := by
  have h1 : nesting (.ofInt64 1) = 0 := rfl
  rw [members_oneField h]
  simp only [nesting, Json.nestingMembers, h1, Nat.zero_max, Nat.max_zero]

theorem integral_oneField (h : field f = .ok ("a", v)) (hi : Integral v) :
    ∀ m ∈ (oneField f).fields, Integral m.2 := by
  rw [fields_oneField h]
  simpa using hi

end OneField

/-! ### Lists inside one another -/

/-- Lists inside one another, `n` around the innermost. -/
def nestedList : Nat → Json
  | 0 => .array []
  | n + 1 => .array [nestedList n]

theorem integral_nestedList (n : Nat) : Integral (nestedList n) := by
  induction n with
  | zero => exact .array (by simp)
  | succ n ih => exact .array (by simpa using ih)

theorem nesting_nestedList (n : Nat) : nesting (nestedList n) = n + 1 := by
  induction n with
  | zero => rfl
  | succ n ih => simp [nestedList, nesting, Json.nestingItems, ih]

theorem canonical_nestedList (n : Nat) : (nestedList n).canonical = nestedList n := by
  induction n with
  | zero => rfl
  | succ n ih => simp [nestedList, Json.canonical, Json.canonicalItems, ih]

theorem extent_nestedList (n : Nat) : Json.extent (nestedList n) = 2 * (n + 1) := by
  induction n with
  | zero => rfl
  | succ n ih =>
    simp only [nestedList, Json.extent, Json.extentItems, ih]
    omega

/-- A field whose value is nested as deep as `n` lists are. -/
def listField (n : Nat) : String :=
  String.ofList ('a' :: '=' :: Json.render .compact 0 (nestedList n))

/-- It is read as it is written if it is not deeper than the reader allows. -/
theorem field_listField {n : Nat} (h : n < Json.Reader.depthLimit) :
    field (listField n) = .ok ("a", nestedList n) := by
  have hn : nesting (nestedList n) ≤ Json.Reader.depthLimit := nesting_nestedList n ▸ h
  have hv : fieldValue (String.ofList (Json.render .compact 0 (nestedList n))) = nestedList n :=
    (fieldValue_text (integral_nestedList n) hn Json.Layout.compact_blanks).trans
      (canonical_nestedList n)
  refine field_eq_ok.2 ⟨_, by decide, by decide, ?_, hv⟩
  rw [← String.toList_inj, toList_parted, listField]
  simp only [String.toList_ofList]
  rfl

end CameraChannel.CommandLine
