import CameraChannel.CommandLine.Program

/-!
Reading command lines word by word, and what the environment must be for a line of words alone to be
accepted.
-/
namespace CameraChannel.CommandLine

/-- A switch that may be given again. -/
theorem Given.add_values {g : Given} {s : Switch} {v : String} (h : s.action = .values)
    (ha : s.accepts v = true) :
    g.add s v = .ok { g with switches := g.switches ++ [(s.long, v)] } := by
  rw [Given.add, Switch.isSingle, Switch.takesValue, h, ha]
  rfl

namespace Grammar

variable {g : Grammar} {env : List (String × String)} {r r' : Reading} {w : String}

theorem readFrom_end : g.readFrom env r [] =
    (g.close env r false).map fun given => [(r.level.name, given)] := by
  rw [readFrom]
  cases g.close env r false <;> rfl

/-- A word at a level that has none below it. -/
theorem readFrom_step (hc : r.level.children = []) (h : g.step r w = .ok r') (ws : List String) :
    g.readFrom env r (w :: ws) = g.readFrom env r' ws := by
  have hchild : r.level.child? w = none := by
    rw [Level.child?, hc]
    rfl
  rw [readFrom, hc, hchild, ite_self, h]
  simp only [List.isEmpty_nil, Bool.not_true, Bool.and_false, Bool.false_and, Bool.false_eq_true,
    if_false]
  rfl

/-- The name of a level below. -/
theorem readFrom_child (child : Level) (hp : r.pending = none) (ht : r.trailing = false)
    (hw : w ≠ "help") (h : r.level.child? w = some child) (ws : List String) :
    g.readFrom env r (w :: ws) = (do
      let below ← g.readFrom env { level := child, path := r.path ++ [child.name] } ws
      .ok ((r.level.name, ← g.close env r true) :: below)) := by
  rw [readFrom, hp, ht, h]
  simp [hw]

theorem step_word (ht : r.trailing = false) (hw : w.toList.head? ≠ some '-') :
    g.step r w = word r w := by
  rw [step, ht]
  simp only [Bool.false_eq_true, if_false]
  split
  · next h => simp [h] at hw
  · next h => simp [h] at hw
  · next h => simp [h] at hw
  · rfl

/-- A value for the switch that waits for one. -/
theorem word_pending {s : Switch} {given : Given}
    (hp : r.pending = some s) (h : r.given.add s w = .ok given) :
    word r w = .ok { r with given, pending := none } := by
  rw [word, hp]
  simp only [h]
  rfl

end Grammar

namespace Program

variable {env : List (String × String)}

/-- The environment has no port that is none. -/
def Usable (env : List (String × String)) : Prop :=
  ∀ p, env.lookup "CAMWIRE_PORT" = some p → isPort p = true

/-- What a usable environment gives is accepted at every level with switches of its own that take
nothing from it. -/
theorem fromEnvironment_accepted (h : Usable env) {l : Level}
    (hl : ∀ s ∈ l.switches, s.fallback? = none) (given : Given) :
    ((grammar.fromEnvironment l env given).any fun (s, v) => !s.accepts v) = false := by
  rw [List.any_eq_false]
  rintro ⟨s, v⟩ hm
  obtain ⟨x, hx, hv⟩ := List.mem_filterMap.1 hm
  split at hv
  · cases hv
  · obtain ⟨p, hp, he⟩ := Option.map_eq_some_iff.1 hv
    cases he
    obtain hx | hx := List.mem_append.1 hx
    · rw [hl s hx] at hp
      cases hp
    · change s ∈ shared at hx
      simp only [shared, List.mem_cons, List.not_mem_nil, or_false] at hx
      obtain rfl | rfl | rfl | rfl | rfl := hx
      · simp
      · simpa using h v hp
      · cases hp
      · cases hp
      · cases hp

theorem close_root (h : Usable env) :
    grammar.close env { level := grammar.root, path := [grammar.root.name] } true = .ok {} := by
  have hb := fromEnvironment_accepted h (l := grammar.root) (by simp [grammar, Level.switches]) {}
  rw [Grammar.close, hb]
  rfl

/-- A text to decode, given as a word, is read as such. -/
theorem read_decode (h : Usable env) {text : String} (ht : text.toList.head? ≠ some '-') :
    grammar.read env ["decode", text] =
      .ok [("camwire", {}), ("decode", { argument := some text })] := by
  have hb := fromEnvironment_accepted h (l := decode) (by simp [decode, Level.switches])
    { argument := some text }
  rw [Grammar.read, Grammar.readFrom_child decode rfl rfl (by decide) rfl,
    Grammar.readFrom_step rfl ((Grammar.step_word rfl ht).trans rfl), Grammar.readFrom_end]
  rw [Grammar.close, hb, close_root h]
  rfl

end Program

end CameraChannel.CommandLine
