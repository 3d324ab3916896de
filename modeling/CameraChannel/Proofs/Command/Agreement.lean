import CameraChannel.Proofs.Command.Acceptance

/-!
Two ways from a text to a command: straight from its members as they are written, or by the value of
the text, in which each name has its last value only. Main statement: they agree unless a reserved
name is repeated, which the first way refuses and the second does not see.
-/
namespace CameraChannel

open Json (values lookup_cons canonicalOnto bind_eq_ok_iff)
open Utf8 (Before)

namespace Json

/-- The members that none of the same name follows. -/
def latest : List (String × Json) → List (String × Json)
  | [] => []
  | m :: ms => if (values m.1 ms).isEmpty then m :: latest ms else latest ms

theorem values_latest (name : String) (ms : List (String × Json)) :
    values name (latest ms) = (values name ms).getLast?.toList := by
  induction ms with
  | nil => rfl
  | cons m ms ih =>
    obtain ⟨n, v⟩ := m
    rw [latest]
    by_cases hn : n = name
    · subst hn
      rw [values_cons_self]
      split
      · next h =>
        rw [List.isEmpty_iff.1 h] at ih ⊢
        rw [values_cons_self, ih]
        rfl
      · next h =>
        obtain ⟨w, ws, hw⟩ := List.exists_cons_of_ne_nil (by simpa using h)
        rw [ih, hw, List.getLast?_cons_cons]
    · rw [values_cons_of_ne hn]
      split
      · rw [values_cons_of_ne hn, ih]
      · exact ih

/-- Members in ascending order have one value of each name at most. -/
theorem values_ascending {ms : List (String × Json)}
    (h : ms.Pairwise fun a b => Before a.1 b.1) (name : String) :
    values name ms = (ms.lookup name).toList := by
  induction ms with
  | nil => rfl
  | cons m ms ih =>
    obtain ⟨n, v⟩ := m
    obtain ⟨hn, hms⟩ := List.pairwise_cons.1 h
    rw [lookup_cons]
    by_cases e : name = n
    · subst e
      rw [values_cons_self, ih hms, lookup_of_before hn, if_pos rfl]
      rfl
    · rw [values_cons_of_ne (Ne.symm e), if_neg e, ih hms]

theorem values_canonicalOnto (name : String) (ms : List (String × Json)) :
    values name (canonicalOnto [] ms) = ((values name ms).getLast?.map canonical).toList := by
  rw [← Fields.entries_ofMembers, values_ascending (Fields.ascending _), ← Fields.get?_ofMembers]
  rfl

theorem distinct_canonicalOnto (ms : List (String × Json)) :
    ((canonicalOnto [] ms).map (·.1)).Nodup := by
  rw [← Fields.entries_ofMembers, List.Nodup, List.pairwise_map]
  refine (Fields.ascending _).imp fun {a b} h e => ?_
  rw [e] at h
  exact Before.irrefl b.1 h

/-- What is neither an array nor an object is the canonical form of itself alone. -/
theorem canonical_eq_scalar {v w : Json} (ha : ∀ xs, v ≠ .array xs) (ho : ∀ ms, v ≠ .object ms) :
    canonical w = v ↔ w = v := by
  cases w with
  | array xs =>
    rw [canonical]
    exact ⟨fun h => absurd h.symm (ha _), fun h => absurd h.symm (ha _)⟩
  | object ms =>
    rw [canonical]
    exact ⟨fun h => absurd h.symm (ho _), fun h => absurd h.symm (ho _)⟩
  | _ => rw [canonical]

theorem toList_canonical {v : Json} (ha : ∀ xs, v ≠ .array xs) (ho : ∀ ms, v ≠ .object ms)
    (o : Option Json) : (o.map canonical).toList = [v] ↔ o.toList = [v] := by
  cases o with
  | none => rfl
  | some w => simpa using canonical_eq_scalar ha ho

end Json

namespace Command

variable {d d' : Draft} {c : Command} {ms : List (String × Json)}

/-- A draft that takes in a member has no reserved value more than the member's own. -/
theorem has_of_entry {m : String × Json} (h : d.entry m = .ok d') {name : String}
    (hne : name ≠ m.1) : d'.has name = d.has name := by
  obtain ⟨n, v⟩ := m
  by_cases hcode : n = Reserved.code.name
  · subst hcode
    obtain ⟨_, -, rfl⟩ := entry_code.1 h
    simp [Draft.has, show name ≠ Reserved.code.name from hne]
  by_cases htarget : n = Reserved.target.name
  · subst htarget
    obtain ⟨_, -, rfl⟩ := entry_target.1 h
    simp [Draft.has, show name ≠ Reserved.target.name from hne]
  rw [entry_free (free_iff.2 ⟨hcode, htarget⟩)] at h
  cases h
  rfl

/-- Where every name stands once, no value is taken in a second time. -/
theorem foldlM_entry_eq_ok (distinct : (ms.map (·.1)).Nodup) (fresh : ∀ m ∈ ms, d.has m.1 = false) :
    ms.foldlM Draft.entry d = .ok d' ↔ Draft.Takes d ms d' := by
  induction ms generalizing d with
  | nil =>
    constructor
    · intro h
      cases h
      exact .nil _
    · rintro ⟨⟩
      rfl
  | cons m ms ih =>
    obtain ⟨hm, hms⟩ := List.nodup_cons.1 distinct
    have later {d₁ : Draft} (h : d.entry m = .ok d₁) :
        ms.foldlM Draft.entry d₁ = .ok d' ↔ Draft.Takes d₁ ms d' :=
      ih hms fun x hx => by
        have hne : x.1 ≠ m.1 := fun e => hm (List.mem_map.2 ⟨x, hx, e⟩)
        rw [has_of_entry h hne]
        exact fresh x (List.mem_cons_of_mem _ hx)
    rw [List.foldlM_cons, bind_eq_ok_iff, takes_cons]
    constructor
    · rintro ⟨d₁, h, hrest⟩
      exact ⟨fresh m List.mem_cons_self, d₁, h, (later h).1 hrest⟩
    · rintro ⟨-, d₁, h, hrest⟩
      exact ⟨d₁, h, (later h).2 hrest⟩

theorem ofJson_object_eq_ok (distinct : (ms.map (·.1)).Nodup) :
    ofJson (.object ms) = .ok c ↔ Describes ms c := by
  rw [describes_iff, ofJson, bind_eq_ok_iff]
  refine exists_congr fun d => and_congr ?_ ?_
  · exact foldlM_entry_eq_ok distinct fun m _ => by simp [Draft.has]
  · cases d.command with
    | ok c' => simp
    | error r => simp

/-- Put in order, members describe what their latest ones describe. -/
theorem describes_canonicalOnto :
    Describes (canonicalOnto [] ms) c ↔ Describes (Json.latest ms) c := by
  have single {v : Json} (ha : ∀ xs, v ≠ .array xs) (ho : ∀ ns, v ≠ .object ns) (name : String) :
      values name (canonicalOnto [] ms) = [v] ↔ values name (Json.latest ms) = [v] := by
    rw [Json.values_canonicalOnto, Json.values_latest]
    exact Json.toList_canonical ha ho _
  have missing (name : String) :
      values name (canonicalOnto [] ms) = [] ↔ values name (Json.latest ms) = [] := by
    rw [Json.values_canonicalOnto, Json.values_latest]
    cases (values name ms).getLast? <;> simp
  have last (name : String) : (values name (canonicalOnto [] ms)).getLast?.map Json.canonical =
      (values name (Json.latest ms)).getLast?.map Json.canonical := by
    rw [Json.values_canonicalOnto, Json.values_latest]
    cases (values name ms).getLast? with
    | none => rfl
    | some v => exact congrArg some (Json.canonical_canonical v).canonical_eq
  have hcode := single (v := .ofInt64 c.code) (by simp [Json.ofInt64]) (by simp [Json.ofInt64])
    Reserved.code.name
  have hnull := single (v := .null) (by simp) (by simp) Reserved.target.name
  have hstring := fun s => single (v := .string s) (by simp) (by simp) Reserved.target.name
  constructor
  · rintro ⟨code, target, reserved, extra⟩
    rw [missing, hnull] at target
    simp only [hstring] at target
    exact ⟨hcode.1 code, target, reserved, fun name h => (extra name h).trans (last name)⟩
  · rintro ⟨code, target, reserved, extra⟩
    rw [← missing, ← hnull] at target
    simp only [← hstring] at target
    exact ⟨hcode.2 code, target, reserved, fun name h => (extra name h).trans (last name).symm⟩

/-- A value is the command that its latest members describe. -/
theorem ofJson_canonical_eq_ok :
    ofJson (Json.canonical (.object ms)) = .ok c ↔ Describes (Json.latest ms) c := by
  rw [Json.canonical, ofJson_object_eq_ok (Json.distinct_canonicalOnto ms), describes_canonicalOnto]

/-- Members describe a command when they repeat no reserved name and the latest of them describe
it. -/
theorem describes_iff_latest : Describes ms c ↔
    (∀ r : Reserved, (values r.name ms).length ≤ 1) ∧ Describes (Json.latest ms) c := by
  have last (name : String) :
      (values name (Json.latest ms)).getLast? = (values name ms).getLast? := by
    rw [Json.values_latest]
    cases (values name ms).getLast? <;> rfl
  have same (name : String) (h : (values name ms).length ≤ 1) :
      values name (Json.latest ms) = values name ms := by
    rw [Json.values_latest]
    match hv : values name ms with
    | [] => rfl
    | [v] => rfl
    | v :: w :: vs => simp [hv] at h
  constructor
  · intro hd
    have once (r : Reserved) : (values r.name ms).length ≤ 1 := by
      cases r with
      | code => rw [hd.code]; exact Nat.le_refl 1
      | target =>
        obtain ⟨-, h | h⟩ | ⟨s, -, h⟩ := hd.target <;> simp [h]
    obtain ⟨code, target, reserved, extra⟩ := hd
    refine ⟨once, (same _ (once .code)).trans code, ?_, reserved, fun name h => ?_⟩
    · rw [same _ (once .target)]
      exact target
    · rw [last, extra name h]
  · rintro ⟨once, code, target, reserved, extra⟩
    rw [same _ (once .target)] at target
    refine ⟨(same _ (once .code)).symm.trans code, target, reserved, fun name h => ?_⟩
    rw [← last, extra name h]

end Command

namespace Frame

open Command (Reserved Describes)

theorem parsePayload_eq_error {p : Bytes} {n : Nat} (h : ∀ c, parsePayload p n ≠ .ok c) :
    ∃ reason, parsePayload p n = .error (.malformed reason n) := by
  rw [parsePayload] at h ⊢
  cases hc : Command.parse p with
  | ok c => exact absurd (by rw [hc]; rfl) (h c)
  | error reason => exact ⟨reason, rfl⟩

/-- Of a text that is JSON, and repeats no reserved name in its outermost object, the payload is a
command exactly when the value is, and the same one. The value is the command that the last member
of each name tells; if a reserved name is repeated the payload is refused all the same. A text that
is not JSON is no payload either. -/
theorem parsePayload_agrees (p : Bytes) (n : Nat) :
    (∀ v, Json.read p = .ok v →
      (∀ ms, v = .object ms → ∀ r : Reserved, (values r.name ms).length ≤ 1) →
      ∀ c, parsePayload p n = .ok c ↔ Command.ofJson v.canonical = .ok c) ∧
    (∀ ms, Json.read p = .ok (.object ms) →
      (∀ c, Command.ofJson (Json.canonical (.object ms)) = .ok c ↔ Describes (Json.latest ms) c) ∧
      ∀ r : Reserved, 2 ≤ (values r.name ms).length →
        ∃ reason, parsePayload p n = .error (.malformed reason n)) ∧
    ∀ e, Json.read p = .error e → ∃ reason, parsePayload p n = .error (.malformed reason n) := by
  refine ⟨fun v hv once c => ?_, fun ms hv => ⟨fun c => Command.ofJson_canonical_eq_ok,
    fun r twice => parsePayload_eq_error fun c hc => ?_⟩,
    fun e he => parsePayload_eq_error fun c hc => ?_⟩
  · rw [parsePayload_eq_ok]
    constructor
    · rintro ⟨ms, hms, hd⟩
      cases hv.symm.trans hms
      exact Command.ofJson_canonical_eq_ok.2 (Command.describes_iff_latest.1 hd).2
    · intro h
      cases v with
      | object ms =>
        exact ⟨ms, hv, Command.describes_iff_latest.2
          ⟨once ms rfl, Command.ofJson_canonical_eq_ok.1 h⟩⟩
      | array xs =>
        rw [Json.canonical] at h
        cases h
      | _ => cases h
  · obtain ⟨ms', hms, hd⟩ := parsePayload_eq_ok.1 hc
    cases hv.symm.trans hms
    exact absurd ((Command.describes_iff_latest.1 hd).1 r) (Nat.not_le.2 twice)
  · obtain ⟨ms, hms, -⟩ := parsePayload_eq_ok.1 hc
    cases he.symm.trans hms

def twice : Bytes := Utf8.ofString "\x7b\"code\":\"off\",\"code\":3\x7d"

def twiceMembers : List (String × Json) := [("code", .string "off"), ("code", .ofInt64 3)]

theorem read_twice : Json.read twice = .ok (.object twiceMembers) :=
  Json.read_of_readsAs (by decide +kernel)

/-- A further name given twice makes no difference. A code given twice is refused in a text; of its
value the second one counts. -/
theorem parsePayload_agrees_twice :
    (parsePayload repeated 30 = .ok lastOnes ∧
      Command.ofJson (Json.canonical (.object repeatedMembers)) = .ok lastOnes) ∧
    (∃ reason, parsePayload twice 30 = .error (.malformed reason 30)) ∧
      Command.ofJson (Json.canonical (.object twiceMembers)) = .ok { code := 3 } := by
  obtain ⟨hone, -, -⟩ := parsePayload_agrees repeated 30
  obtain ⟨-, htwo, -⟩ := parsePayload_agrees twice 30
  obtain ⟨hvalue, hrefused⟩ := htwo twiceMembers read_twice
  have once : ∀ ms, Json.object repeatedMembers = .object ms →
      ∀ r : Reserved, (values r.name ms).length ≤ 1 := by
    intro ms hms r
    cases hms
    cases r <;> simp [values, repeatedMembers, Reserved.name]
  have hread : parsePayload repeated 30 = .ok lastOnes :=
    parsePayload_eq_ok.2 ⟨repeatedMembers, read_repeated, describes_repeated⟩
  have hlatest : Json.latest twiceMembers = [("code", .ofInt64 3)] := by
    simp [Json.latest, twiceMembers, values]
  have hdescribes : Describes (Json.latest twiceMembers) { code := 3 } := by
    rw [hlatest]
    refine ⟨by simp [values, Reserved.name], .inl ⟨rfl, .inl (by simp [values, Reserved.name])⟩,
      fun r => by cases r <;> rfl, fun name hname => ?_⟩
    have hcode : "code" ≠ name := fun e => hname .code e.symm
    simp [values, hcode]
    rfl
  exact ⟨⟨hread, (hone _ read_repeated once lastOnes).1 hread⟩,
    hrefused .code (by simp [values, twiceMembers, Reserved.name]), (hvalue _).2 hdescribes⟩

end Frame

end CameraChannel
