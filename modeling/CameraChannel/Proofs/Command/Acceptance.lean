import CameraChannel.Command.Reader
import CameraChannel.Frame.Basic
import CameraChannel.Proofs.Command.Evaluation
import CameraChannel.Proofs.Command.RoundTrip
import CameraChannel.Proofs.Json.Conversions
import CameraChannel.Proofs.Json.Members

/-!
Which texts are commands. A text is read as a command exactly when it is an object with one code, at
most one target and each of its type; of any other name the last value is kept. Main statement:
`Frame.parsePayload_exact`.
-/
namespace CameraChannel

open Json (values values_nil bind_eq_ok_iff)
open Json.Reader (memberValue)

namespace Command

variable {bs rest : Bytes} {d d' : Draft} {c : Command}

theorem codeOf_eq_ok {v : Json} {n : Int64} : codeOf v = .ok n ↔ v = .ofInt64 n := by
  constructor
  · intro h
    cases v with
    | integer i =>
      rw [codeOf] at h
      split at h
      · next hi =>
        cases h
        have hlow := i.lower
        have := Int64.toInt_ofInt_of_le (n := i.val) (by simpa using hlow) (by omega)
        cases i
        simpa [Json.ofInt64] using this.symm
      · cases h
    | _ => cases h
  · rintro rfl
    have hn : n.toInt < 0x8000000000000000 := Int64.toInt_lt n
    simp only [codeOf, Json.ofInt64, if_pos hn, Int64.ofInt_toInt]

theorem targetOf_eq_ok {v : Json} {t : Option String} :
    targetOf v = .ok t ↔ v = Json.Typed.ofOptional t := by
  constructor
  · intro h
    cases v with
    | null => cases h; rfl
    | string s => cases h; rfl
    | _ => cases h
  · rintro rfl
    cases t <;> rfl

theorem member_code_eq_ok : Draft.member Reserved.code.name d bs = .ok (d', rest) ↔
    ∃ v, memberValue (Json.Reader.value innerDepth) bs = .ok (v, rest) ∧ d.code.isSome = false ∧
      d.entry (Reserved.code.name, v) = .ok d' := by
  rw [Draft.member, if_pos rfl]
  cases hd : d.code.isSome
  · simp only [memberValue, Bool.false_eq_true, if_false, true_and, Draft.entry, if_true,
      bind_eq_ok_iff, Prod.exists, Json.Typed.int64_eq_ok innerDepth, codeOf_eq_ok]
    constructor
    · rintro ⟨tail, hcolon, n, _, hn, h⟩
      cases h
      exact ⟨_, ⟨tail, hcolon, hn⟩, n, rfl, rfl⟩
    · rintro ⟨_, ⟨tail, hcolon, hn⟩, n, rfl, h⟩
      cases h
      exact ⟨tail, hcolon, n, rest, hn, rfl⟩
  · simp [Json.Typed.repeated]

theorem member_target_eq_ok : Draft.member Reserved.target.name d bs = .ok (d', rest) ↔
    ∃ v, memberValue (Json.Reader.value innerDepth) bs = .ok (v, rest) ∧ d.target.isSome = false ∧
      d.entry (Reserved.target.name, v) = .ok d' := by
  have hne : Reserved.target.name ≠ Reserved.code.name := by decide
  rw [Draft.member, if_neg hne, if_pos rfl]
  cases hd : d.target.isSome
  · simp only [memberValue, Bool.false_eq_true, if_false, true_and, Draft.entry, if_neg hne,
      if_true, bind_eq_ok_iff, Prod.exists, Json.Typed.optional_eq_ok innerDepth, targetOf_eq_ok]
    constructor
    · rintro ⟨tail, hcolon, t, _, ht, h⟩
      cases h
      exact ⟨_, ⟨tail, hcolon, ht⟩, t, rfl, rfl⟩
    · rintro ⟨_, ⟨tail, hcolon, ht⟩, t, rfl, h⟩
      cases h
      exact ⟨tail, hcolon, t, rest, ht, rfl⟩
  · simp [Json.Typed.repeated]

theorem member_free_eq_ok {name : String} (h : ∀ r : Reserved, name ≠ r.name) :
    Draft.member name d bs = .ok (d', rest) ↔
      ∃ v, memberValue (Json.Reader.value innerDepth) bs = .ok (v, rest) ∧
        d.entry (name, v) = .ok d' := by
  rw [Draft.member, if_neg (h .code), if_neg (h .target)]
  simp only [Draft.entry, if_neg (h .code), if_neg (h .target), bind_eq_ok_iff, Prod.exists,
    Json.Reader.member_eq_ok]
  constructor
  · rintro ⟨_, _, ⟨v, hv, rfl⟩, h⟩
    cases h
    exact ⟨v, hv, rfl⟩
  · rintro ⟨v, hv, h⟩
    cases h
    exact ⟨_, rest, ⟨v, hv, rfl⟩, rfl⟩

/-- Whether a draft has the value of this name already, if the name is reserved. -/
def Draft.has (d : Draft) (name : String) : Bool :=
  (name = Reserved.code.name && d.code.isSome) || (name = Reserved.target.name && d.target.isSome)

/-- A member is taken in from its text exactly when it repeats no reserved name and is taken in as a
value. -/
theorem member_eq_ok {name : String} : Draft.member name d bs = .ok (d', rest) ↔
    ∃ v, memberValue (Json.Reader.value innerDepth) bs = .ok (v, rest) ∧ d.has name = false ∧
      d.entry (name, v) = .ok d' := by
  by_cases hcode : name = Reserved.code.name
  · subst hcode
    rw [member_code_eq_ok]
    simp [Draft.has, Reserved.name]
  by_cases htarget : name = Reserved.target.name
  · subst htarget
    rw [member_target_eq_ok]
    simp [Draft.has, Reserved.name]
  rw [member_free_eq_ok fun r => by cases r <;> assumption]
  simp [Draft.has, hcode, htarget]

/-- What a draft becomes with the members of an object. -/
inductive Draft.Takes : Draft → List (String × Json) → Draft → Prop where
  | nil (d : Draft) : Takes d [] d
  | cons {d d₁ d₂ : Draft} {m : String × Json} {ms : List (String × Json)}
      (fresh : d.has m.1 = false) (entry : d.entry m = .ok d₁) (later : Takes d₁ ms d₂) :
      Takes d (m :: ms) d₂

/-- The members of an object are taken in as they would be as values. -/
theorem members_eq_ok {fuel : Nat} {first : Bool} (sofar : List (String × Json)) :
    Json.Scan.members Draft.member fuel first d bs = .ok (d', rest) ↔
      ∃ ms, Json.Scan.members (Json.Reader.member (Json.Reader.value innerDepth))
          fuel first sofar bs =
        .ok (ms.reverse ++ sofar, rest) ∧ Draft.Takes d ms d' := by
  induction fuel generalizing first bs d sofar with
  | zero =>
    constructor
    · intro h
      cases h
    · rintro ⟨_, h, -⟩
      cases h
  | succ fuel ih =>
    rw [Json.Scan.members, Json.Scan.members]
    cases hnext : Json.Scan.nextMember first bs with
    | error f =>
      constructor
      · intro h
        cases h
      · rintro ⟨_, h, -⟩
        cases h
    | ok next =>
      cases next with
      | close after =>
        constructor
        · intro h
          cases h
          exact ⟨[], rfl, .nil _⟩
        · rintro ⟨ms, h, ht⟩
          have hms : ms = [] := by
            have := congrArg Prod.fst (Except.ok.inj h)
            simpa using this
          subst hms
          cases h
          cases ht
          rfl
      | item start =>
        change (Json.Scan.string start >>= _) = _ ↔ ∃ ms, (Json.Scan.string start >>= _) = _ ∧ _
        simp only [bind_eq_ok_iff, Prod.exists, member_eq_ok, Json.Reader.member_eq_ok]
        constructor
        · rintro ⟨name, after, hname, d₁, later, ⟨v, hv, hfresh, hentry⟩, h⟩
          obtain ⟨ms, hms, ht⟩ := (ih ((name, v) :: sofar)).1 h
          refine ⟨(name, v) :: ms, ⟨name, after, hname, _, later, ⟨v, hv, rfl⟩, ?_⟩,
            .cons hfresh hentry ht⟩
          simpa using hms
        · rintro ⟨all, ⟨name, after, hname, _, later, ⟨v, hv, rfl⟩, h⟩, ht⟩
          obtain ⟨ms, he, -⟩ := Json.Reader.members_taken (fun _ _ _ => Json.Reader.value_taken) h
          have hall : all = (name, v) :: ms := by
            rw [← List.reverse_inj, ← List.append_left_inj sofar, he]
            simp
          subst hall
          cases ht with
          | cons fresh entry ht =>
            refine ⟨name, after, hname, _, later, ⟨v, hv, fresh, entry⟩,
              (ih ((name, v) :: sofar)).2 ⟨ms, ?_, ht⟩⟩
            rw [h, he]

/-- The members of no reserved name. -/
def further (ms : List (String × Json)) : List (String × Json) :=
  ms.filter fun m => m.1 ≠ Reserved.code.name ∧ m.1 ≠ Reserved.target.name

theorem free_iff {m : String × Json} :
    Free m ↔ m.1 ≠ Reserved.code.name ∧ m.1 ≠ Reserved.target.name :=
  ⟨fun h => ⟨h .code, h .target⟩, fun h r => match r with | .code => h.1 | .target => h.2⟩

theorem further_cons_free {m : String × Json} (h : Free m) (ms : List (String × Json)) :
    further (m :: ms) = m :: further ms :=
  List.filter_cons_of_pos (by simpa using free_iff.1 h)

theorem further_cons_reserved (r : Reserved) (v : Json) (ms : List (String × Json)) :
    further ((r.name, v) :: ms) = further ms :=
  List.filter_cons_of_neg (by cases r <;> simp)

theorem values_further {name : String} (h : ∀ r : Reserved, name ≠ r.name)
    (ms : List (String × Json)) : values name (further ms) = values name ms := by
  rw [values, values, further, List.filter_filter]
  congr 1
  refine List.filter_congr fun m _ => ?_
  by_cases hm : m.1 = name
  · simp [hm, h .code, h .target]
  · simp [hm]

theorem values_further_reserved (r : Reserved) (ms : List (String × Json)) :
    values r.name (further ms) = [] := by
  rw [values, further, List.filter_filter]
  cases r <;> simp +contextual

/-- A list of one or no item grows only from none. -/
theorem once_cons {α β : Type} (f : α → β) (o o' : Option α) (b : β) (bs : List β) :
    o.toList.map f ++ b :: bs = o'.toList.map f ↔
      o.isSome = false ∧ ∃ a, b = f a ∧ (some a).toList.map f ++ bs = o'.toList.map f := by
  cases o with
  | some a => cases o' <;> simp
  | none =>
    cases o' with
    | none => simp
    | some a =>
      constructor
      · intro h
        obtain ⟨rfl, rfl⟩ := List.cons.inj h
        exact ⟨rfl, a, rfl, rfl⟩
      · rintro ⟨-, _, rfl, h⟩
        exact h

theorem entry_code {v : Json} : d.entry (Reserved.code.name, v) = .ok d' ↔
    ∃ n, v = .ofInt64 n ∧ d' = { d with code := some n } := by
  simp only [Draft.entry, if_true, bind_eq_ok_iff, codeOf_eq_ok, Except.ok.injEq]
  exact ⟨fun ⟨n, hv, h⟩ => ⟨n, hv, h.symm⟩, fun ⟨n, hv, h⟩ => ⟨n, hv, h.symm⟩⟩

theorem entry_target {v : Json} : d.entry (Reserved.target.name, v) = .ok d' ↔
    ∃ t, v = Json.Typed.ofOptional t ∧ d' = { d with target := some t } := by
  simp only [Draft.entry, if_neg (show Reserved.target.name ≠ Reserved.code.name by decide),
    if_true, bind_eq_ok_iff, targetOf_eq_ok, Except.ok.injEq]
  exact ⟨fun ⟨t, hv, h⟩ => ⟨t, hv, h.symm⟩, fun ⟨t, hv, h⟩ => ⟨t, hv, h.symm⟩⟩

theorem entry_free {m : String × Json} (h : Free m) : d.entry m = .ok (d.push m) := by
  simp only [Draft.entry, if_neg (h .code), if_neg (h .target)]
  rfl

theorem takes_cons {m : String × Json} {ms : List (String × Json)} : Draft.Takes d (m :: ms) d' ↔
    d.has m.1 = false ∧ ∃ d₁, d.entry m = .ok d₁ ∧ Draft.Takes d₁ ms d' :=
  ⟨fun | .cons fresh entry later => ⟨fresh, _, entry, later⟩,
    fun ⟨fresh, _, entry, later⟩ => .cons fresh entry later⟩

theorem toList_map_inj {α β : Type} {f : α → β} (hf : ∀ a b, f a = f b → a = b) {o o' : Option α} :
    o.toList.map f = o'.toList.map f ↔ o = o' := by
  cases o with
  | none => cases o' <;> simp
  | some a =>
    cases o' with
    | none => simp
    | some b => simpa using ⟨hf a b, congrArg f⟩

theorem ofInt64_inj (a b : Int64) (h : Json.ofInt64 a = Json.ofInt64 b) : a = b := by
  exact Int64.toInt_inj.1 (by simpa [Json.ofInt64] using h)

theorem ofOptional_inj (a b : Option String)
    (h : Json.Typed.ofOptional a = Json.Typed.ofOptional b) : a = b := by
  cases a <;> cases b <;> simp_all [Json.Typed.ofOptional]

/-- A draft takes in members exactly when each reserved name has one value of its type or none,
those counted in that the draft has; the other members are put in front of those it has. -/
theorem takes_iff {ms : List (String × Json)} : Draft.Takes d ms d' ↔
    d.code.toList.map .ofInt64 ++ values Reserved.code.name ms = d'.code.toList.map .ofInt64 ∧
    d.target.toList.map Json.Typed.ofOptional ++ values Reserved.target.name ms =
      d'.target.toList.map Json.Typed.ofOptional ∧
    d'.extra = (further ms).reverse ++ d.extra := by
  have hne : Reserved.code.name ≠ Reserved.target.name := by decide
  induction ms generalizing d with
  | nil =>
    simp only [values_nil, List.append_nil, toList_map_inj ofInt64_inj,
      toList_map_inj ofOptional_inj]
    constructor
    · rintro ⟨⟩
      exact ⟨rfl, rfl, rfl⟩
    · rintro ⟨hc, ht, he⟩
      have : d = d' := by
        cases d
        cases d'
        simp_all [further]
      exact this ▸ .nil d
  | cons m ms ih =>
    obtain ⟨name, v⟩ := m
    rw [takes_cons]
    by_cases hcode : name = Reserved.code.name
    · subst hcode
      have hhas : d.has Reserved.code.name = d.code.isSome := by
        rw [Draft.has]
        simp [hne]
      rw [hhas, Json.values_cons_self, once_cons, Json.values_cons_of_ne hne,
        further_cons_reserved .code]
      simp only [entry_code]
      constructor
      · rintro ⟨hd, _, ⟨n, rfl, rfl⟩, h⟩
        obtain ⟨hc, ht, he⟩ := ih.1 h
        exact ⟨⟨hd, n, rfl, hc⟩, ht, he⟩
      · rintro ⟨⟨hd, n, rfl, hc⟩, ht, he⟩
        exact ⟨hd, _, ⟨n, rfl, rfl⟩, ih.2 ⟨hc, ht, he⟩⟩
    by_cases htarget : name = Reserved.target.name
    · subst htarget
      have hhas : d.has Reserved.target.name = d.target.isSome := by
        rw [Draft.has]
        simp [hcode]
      rw [hhas, Json.values_cons_self, once_cons, Json.values_cons_of_ne hcode,
        further_cons_reserved .target]
      simp only [entry_target]
      constructor
      · rintro ⟨hd, _, ⟨t, rfl, rfl⟩, h⟩
        obtain ⟨hc, ht, he⟩ := ih.1 h
        exact ⟨hc, ⟨hd, t, rfl, ht⟩, he⟩
      · rintro ⟨hc, ⟨hd, t, rfl, ht⟩, he⟩
        exact ⟨hd, _, ⟨t, rfl, rfl⟩, ih.2 ⟨hc, ht, he⟩⟩
    have hfree : Free (name, v) := free_iff.2 ⟨hcode, htarget⟩
    have hhas : d.has name = false := by
      simp [Draft.has, hcode, htarget]
    rw [hhas, entry_free hfree, Json.values_cons_of_ne hcode, Json.values_cons_of_ne htarget,
      further_cons_free hfree, List.reverse_cons, List.append_assoc]
    constructor
    · rintro ⟨-, _, he, h⟩
      cases he
      exact ih.1 h
    · exact fun h => ⟨rfl, _, rfl, ih.2 h⟩

theorem command_eq_ok : d.command = .ok c ↔
    d.code = some c.code ∧ d.target.join = c.target ∧
      Fields.ofMembers d.extra.reverse = c.extra := by
  obtain ⟨code, target, extra⟩ := d
  obtain ⟨code', target', extra'⟩ := c
  cases code with
  | none => simp [Draft.command]
  | some n => simp [Draft.command]

/-- What the members of an object say of a command: one code, one target at most, and of each other
name the last value. -/
structure Describes (ms : List (String × Json)) (c : Command) : Prop where
  code : values Reserved.code.name ms = [.ofInt64 c.code]
  target : (c.target = none ∧ (values Reserved.target.name ms = [] ∨
      values Reserved.target.name ms = [.null])) ∨
    ∃ s, c.target = some s ∧ values Reserved.target.name ms = [.string s]
  reserved : ∀ r : Reserved, c.extra.get? r.name = none
  extra : ∀ name, (∀ r : Reserved, name ≠ r.name) →
    c.extra.get? name = (values name ms).getLast?.map Json.canonical

theorem Describes.extra_eq {ms : List (String × Json)} (h : Describes ms c) :
    c.extra = .ofMembers (further ms) := by
  refine Fields.ext_get? fun name => ?_
  rw [Fields.get?_ofMembers]
  by_cases hr : ∃ r : Reserved, name = r.name
  · obtain ⟨r, rfl⟩ := hr
    rw [h.reserved, values_further_reserved]
    rfl
  · have hname : ∀ r : Reserved, name ≠ r.name := fun r e => hr ⟨r, e⟩
    rw [h.extra name hname, values_further hname]

theorem describes_iff {ms : List (String × Json)} :
    Describes ms c ↔ ∃ d, Draft.Takes {} ms d ∧ d.command = .ok c := by
  simp only [takes_iff, command_eq_ok]
  constructor
  · intro h
    obtain ⟨t, ht, hc⟩ : ∃ t : Option (Option String),
        values Reserved.target.name ms = t.toList.map Json.Typed.ofOptional ∧
          t.join = c.target := by
      obtain ⟨hc, hv | hv⟩ | ⟨s, hc, hv⟩ := h.target
      · exact ⟨none, hv, hc.symm⟩
      · exact ⟨some none, hv, hc.symm⟩
      · exact ⟨some (some s), hv, hc.symm⟩
    refine ⟨{ code := some c.code, target := t, extra := (further ms).reverse },
      ⟨h.code, ht, by simp⟩, rfl, hc, ?_⟩
    rw [List.reverse_reverse, h.extra_eq]
  · rintro ⟨⟨code, target, extra⟩, ⟨hcode, htarget, hextra⟩, hc, ht, he⟩
    cases hc
    simp only [List.append_nil] at hextra
    subst hextra
    rw [List.reverse_reverse] at he
    refine ⟨hcode, ?_, fun r => ?_, fun name hname => ?_⟩
    · obtain _ | _ | s := target
      · exact .inl ⟨ht.symm, .inl htarget⟩
      · exact .inl ⟨ht.symm, .inr htarget⟩
      · exact .inr ⟨s, ht.symm, htarget⟩
    · rw [← he, Fields.get?_ofMembers, values_further_reserved]
      rfl
    · rw [← he, Fields.get?_ofMembers, values_further hname]

/-- A command is read from an object that describes it, and from nothing else. -/
theorem read_eq_ok : read bs = .ok (c, rest) ↔
    ∃ ms, Json.Reader.value Json.Reader.depthLimit bs = .ok (.object ms, rest) ∧
      Describes ms c := by
  simp only [describes_iff]
  constructor
  · intro h
    rw [read] at h
    split at h
    · cases h
    · next b t hs =>
      split at h
      · next hb =>
        obtain ⟨⟨d, after⟩, hm, h⟩ := Json.bind_eq_ok h
        obtain ⟨ms, hms, ht⟩ := (members_eq_ok []).1 hm
        cases hc : d.command with
        | error r =>
          simp only [hc] at h
          cases h
        | ok c =>
          simp only [hc] at h
          cases h
          refine ⟨ms, (Json.Reader.Reads.object (hb ▸ hs) ?_).node_eq, d, ht, hc⟩
          change Except.map _ (Json.Scan.members (Json.Reader.member (Json.Reader.value innerDepth))
            (t.length + 1) true [] t) = _
          rw [hms, List.append_nil]
          simp only [Except.map, List.reverse_reverse]
      · exact absurd h Json.Typed.mismatch_ne_ok
  · rintro ⟨ms, h, d, ht, hc⟩
    obtain ⟨t, hs, ho⟩ := (Json.Reader.node_eq_ok h).of_object (Json.Reader.brackets_of _)
    obtain ⟨⟨all, after⟩, hm, he⟩ := Json.map_eq_ok ho
    cases he
    have hmem : Json.Scan.members Draft.member (t.length + 1) true {} t = .ok (d, rest) :=
      (members_eq_ok []).2
        ⟨all.reverse, by rw [List.reverse_reverse, List.append_nil]; exact hm, ht⟩
    rw [read, hs]
    simp only [if_true, hmem, bind, Except.bind, hc]

/-- A whole text is a command exactly when it is an object that describes the command. -/
theorem parse_eq_ok {p : Bytes} :
    parse p = .ok c ↔ ∃ ms, Json.read p = .ok (.object ms) ∧ Describes ms c := by
  constructor
  · intro h
    obtain ⟨rest, hr, hs⟩ := Json.Scan.whole_eq_ok h
    obtain ⟨ms, hv, hd⟩ := read_eq_ok.1 hr
    exact ⟨ms, Json.Scan.whole_of_ok hv hs, hd⟩
  · rintro ⟨ms, h, hd⟩
    obtain ⟨rest, hv, hs⟩ := Json.Scan.whole_eq_ok h
    exact Json.Scan.whole_of_ok (read_eq_ok.2 ⟨ms, hv, hd⟩) hs

end Command

namespace Frame

open Command (Describes)

variable {p : Bytes} {frameLength : Nat}

theorem parsePayload_eq_ok {c : Command} : parsePayload p frameLength = .ok c ↔
    ∃ ms, Json.read p = .ok (.object ms) ∧ Describes ms c := by
  rw [← Command.parse_eq_ok, parsePayload]
  cases Command.parse p <;> simp [Except.mapError]

/-- A payload is a command exactly when it is UTF-8 and, as a whole, the JSON text of an object that
describes the command; every other payload is refused with the length of its frame. -/
theorem parsePayload_exact (p : Bytes) (frameLength : Nat) :
    (∀ c, parsePayload p frameLength = .ok c ↔ (∃ text : String, p = Utf8.ofString text) ∧
      ∃ ms, Json.read p = .ok (.object ms) ∧ Describes ms c) ∧
    ((∃ c, parsePayload p frameLength = .ok c) ∨
      ∃ reason, parsePayload p frameLength = .error (.malformed reason frameLength)) := by
  refine ⟨fun c => ?_, ?_⟩
  · rw [parsePayload_eq_ok]
    constructor
    · rintro ⟨ms, h, hd⟩
      obtain ⟨cs, hp, -⟩ := (Json.read_text h).2
      exact ⟨⟨String.ofList cs, by rw [hp, List.append_nil, Utf8.ofString, String.toList_ofList]⟩,
        ms, h, hd⟩
    · rintro ⟨-, h⟩
      exact h
  · rw [parsePayload]
    cases Command.parse p with
    | ok c => exact .inl ⟨c, rfl⟩
    | error e => exact .inr ⟨e, rfl⟩

/-- A payload with a name that is repeated and no device. -/
def repeated : Bytes := Utf8.ofString " \x7b\"a\":1,\"code\":-7,\"a\":[true]\x7d\n"

def repeatedMembers : List (String × Json) :=
  [("a", .integer ⟨1, by decide, by decide⟩), ("code", .ofInt64 (-7)), ("a", .array [.bool true])]

/-- What it stands for. -/
def lastOnes : Command := ({ code := -7 } : Command).withField "a" (.array [.bool true])

theorem read_repeated : Json.read repeated = .ok (.object repeatedMembers) :=
  Json.read_of_readsAs (by decide +kernel)

theorem describes_repeated : Describes repeatedMembers lastOnes where
  code := by simp [values, repeatedMembers, Command.Reserved.name, lastOnes, Command.withField]
  target := .inl ⟨rfl, .inl (by simp [values, repeatedMembers, Command.Reserved.name])⟩
  reserved r := by cases r <;> rfl
  extra name hname := by
    have hcode : "code" ≠ name := fun e => hname .code e.symm
    change (Fields.insert .empty "a" (.array [.bool true])).get? name = _
    rw [Fields.get?_insert]
    by_cases ha : name = "a"
    · subst ha
      simp [values, repeatedMembers]
    · have ha' : "a" ≠ name := fun e => ha e.symm
      rw [if_neg ha]
      simp [values, repeatedMembers, hcode, ha']
      rfl

/-- A payload with a repeated name is read, one whose code is a string is refused. -/
theorem parsePayload_exact_repeated :
    parsePayload repeated 30 = .ok lastOnes ∧
    ∃ reason, parsePayload (Utf8.ofString "\x7b\"code\":\"1\"\x7d") 30 =
      .error (.malformed reason 30) := by
  refine ⟨((parsePayload_exact repeated 30).1 lastOnes).2
    ⟨⟨_, rfl⟩, repeatedMembers, read_repeated, describes_repeated⟩, ?_⟩
  obtain ⟨hiff, ⟨c, hc⟩ | h⟩ := parsePayload_exact (Utf8.ofString "\x7b\"code\":\"1\"\x7d") 30
  · have hread : Json.read (Utf8.ofString "\x7b\"code\":\"1\"\x7d") =
        .ok (.object [("code", .string "1")]) := Json.read_of_readsAs (by decide +kernel)
    obtain ⟨-, ms, hms, hd⟩ := (hiff c).1 hc
    rw [hread] at hms
    cases hms
    have hcode := hd.code
    simp [values, Command.Reserved.name, Json.ofInt64] at hcode
  · exact h

end Frame

end CameraChannel
