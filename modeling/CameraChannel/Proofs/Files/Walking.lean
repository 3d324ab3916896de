import CameraChannel.Proofs.Files.Paths

/-!
Walks through a file system. Main statements: what is written is read again, and a file that is
written where no directory stands turns no walk aside.
-/
namespace CameraChannel.Files

variable {fs : Files} {here place : Place} {n : String}

/-- Where a name leads from a directory. -/
def enter (here : Place) (n : String) : Except OsError Place :=
  if n = "." then .ok here
  else if n = ".." then .ok here.dropLast
  else if Path.nameLimit < n.utf8ByteSize then .error .nameTooLong
  else .ok (here ++ [n])

theorem walk_cons (fs : Files) (here : Place) (n : String) (ns : List String) :
    fs.walk here (n :: ns) =
      match fs.node? here with
      | none => .error .notFound
      | some (.file _) => .error .notDirectory
      | some .directory => (enter here n).bind fun next => fs.walk next ns := by
  rw [walk]
  rcases fs.node? here with - | - | -
  · rfl
  · rfl
  · dsimp only [enter]
    split
    · rfl
    · split
      · rfl
      · split <;> rfl

/-- A walk goes from a directory to where the first name leads, and on from there. -/
theorem walk_cons_eq_ok {ns : List String} : fs.walk here (n :: ns) = .ok place ↔
    fs.node? here = some .directory ∧ ∃ next, enter here n = .ok next ∧
      fs.walk next ns = .ok place := by
  rw [walk_cons]
  constructor
  · intro h
    split at h
    · cases h
    · cases h
    · next hd =>
      cases he : enter here n with
      | error e =>
        rw [he] at h
        cases h
      | ok next =>
        rw [he] at h
        exact ⟨hd, next, rfl, h⟩
  · rintro ⟨hd, next, he, h⟩
    rw [hd, he]
    exact h

theorem walk_append (fs : Files) (here : Place) (ms ns : List String) :
    fs.walk here (ms ++ ns) = (fs.walk here ms).bind fun place => fs.walk place ns := by
  induction ms generalizing here with
  | nil => rfl
  | cons m ms ih =>
    rw [List.cons_append, walk_cons, walk_cons]
    split
    · rfl
    · rfl
    · cases enter here m with
      | error e => rfl
      | ok next => exact ih next

/-- A name that is looked up in a directory. -/
structure IsEntry (n : String) : Prop where
  notHere : n ≠ "."
  notAbove : n ≠ ".."
  short : n.utf8ByteSize ≤ Path.nameLimit

theorem enter_entry (hn : IsEntry n) (here : Place) : enter here n = .ok (here ++ [n]) := by
  rw [enter, if_neg hn.notHere, if_neg hn.notAbove, if_neg (Nat.not_lt.2 hn.short)]

theorem walk_entry (h : fs.node? here = some .directory) (hn : IsEntry n) (ns : List String) :
    fs.walk here (n :: ns) = fs.walk (here ++ [n]) ns := by
  rw [walk_cons, h, enter_entry hn]
  rfl

/-- The path to a name in a directory leads through the directory. -/
theorem walk_join {directory : String} (h : Path.IsName n) (hn : IsEntry n)
    (hw : fs.walk (fs.start directory) (Path.names directory) = .ok place)
    (hd : fs.node? place = some .directory) :
    fs.walk (fs.start (Path.join directory n)) (Path.names (Path.join directory n)) =
      .ok (place ++ [n]) := by
  rw [start, Path.isAbsolute_join h, ← start, Path.names_join h, walk_append, hw, Except.bind,
    walk_entry hd hn]
  rfl

/-- A walk to a name in a directory went to the directory before. -/
theorem walk_concat {ms : List String} (hn : n ≠ ".") (hn' : n ≠ "..")
    (h : fs.walk here (ms ++ [n]) = .ok place) : ∃ above, fs.walk here ms = .ok above ∧
      fs.node? above = some .directory ∧ IsEntry n ∧ place = above ++ [n] := by
  rw [walk_append] at h
  cases ha : fs.walk here ms with
  | error e =>
    rw [ha] at h
    cases h
  | ok above =>
    rw [ha] at h
    obtain ⟨hd, next, he, hp⟩ := walk_cons_eq_ok.1 h
    cases hp
    rw [enter, if_neg hn, if_neg hn'] at he
    split at he
    · cases he
    · next hs => exact ⟨above, rfl, hd, ⟨hn, hn', Nat.not_lt.1 hs⟩, (Except.ok.inj he).symm⟩

/-- Dots at the start lead nowhere. -/
theorem walk_dropWhile {ns : List String} (h : fs.walk here ns = .ok place) :
    fs.walk here (ns.dropWhile (· == ".")) = .ok place := by
  induction ns with
  | nil => exact h
  | cons n ns ih =>
    rw [List.dropWhile_cons]
    split
    · next hn =>
      obtain ⟨-, next, he, hnext⟩ := walk_cons_eq_ok.1 h
      rw [beq_iff_eq.1 hn] at he
      cases he
      exact ih hnext
    · exact h

theorem lookup_remove (nodes : List (Place × Node)) {p : Place} (h : p ≠ place) :
    (nodes.filter (·.1 != place)).lookup p = nodes.lookup p := by
  induction nodes with
  | nil => rfl
  | cons x nodes ih =>
    rw [List.filter_cons]
    split
    · rw [List.lookup_cons, List.lookup_cons, ih]
    · next hx =>
      have hx : p ≠ x.1 := fun e => hx (by simpa [← e] using h)
      rw [List.lookup_cons, beq_false_of_ne hx, ih]

@[simp] theorem node?_put_self (fs : Files) (h : place ≠ []) (node : Node) :
    (fs.put place node).node? place = some node := by
  simp [node?, put, List.isEmpty_iff, h]

theorem node?_put_of_ne (fs : Files) {p : Place} (h : p ≠ place) (node : Node) :
    (fs.put place node).node? p = fs.node? p := by
  rw [node?, node?, put, List.lookup_cons, beq_false_of_ne h, lookup_remove _ h]

theorem mem_nodes_put {p : Place} {node node' : Node} :
    (p, node') ∈ (fs.put place node).nodes ↔
      p = place ∧ node' = node ∨ p ≠ place ∧ (p, node') ∈ fs.nodes := by
  rw [put, List.mem_cons, List.mem_filter, Prod.mk.injEq, bne_iff_ne]
  exact or_congr_right and_comm

theorem mem_nodes_of_node? {node : Node} (h : fs.node? place = some node) (hne : place ≠ []) :
    (place, node) ∈ fs.nodes := by
  rw [node?, if_neg (by simp [hne])] at h
  obtain ⟨l, r, hl, -⟩ := List.lookup_eq_some_iff.1 h
  rw [hl]
  simp

/-- The root is a directory. -/
theorem ne_nil_of_node? (h : fs.node? place ≠ some .directory) : place ≠ [] := by
  rintro rfl
  exact h rfl

/-- A file is written where no directory stands, and there no walk comes through. -/
theorem walk_put {ns : List String} {q : Place} {contents : Bytes}
    (hd : fs.node? place ≠ some .directory) (h : fs.walk here ns = .ok q) :
    (fs.put place (.file contents)).walk here ns = .ok q := by
  induction ns generalizing here with
  | nil => exact h
  | cons n ns ih =>
    obtain ⟨hn, next, he, hnext⟩ := walk_cons_eq_ok.1 h
    have hne : here ≠ place := fun e => hd (e ▸ hn)
    exact walk_cons_eq_ok.2 ⟨(node?_put_of_ne fs hne _).trans hn, next, he, ih hnext⟩

/-- A directory lists the names of the files in it, and whatever else stands in it is listed as no
file. -/
theorem mem_list {n : String} :
    (n, true) ∈ fs.list place ↔ ∃ contents, (place ++ [n], .file contents) ∈ fs.nodes := by
  rw [list, List.mem_filterMap]
  constructor
  · rintro ⟨⟨p, node⟩, hp, h⟩
    dsimp only at h
    split at h
    · next hd =>
      obtain ⟨hd, hne⟩ := hd
      rw [List.getLast?_eq_some_getLast hne, Option.map_some, Option.some.injEq,
        Prod.mk.injEq] at h
      obtain ⟨hl, hf⟩ := h
      have hp' : p = place ++ [n] := by rw [← hd, ← hl, List.dropLast_concat_getLast]
      cases node with
      | directory => cases hf
      | file contents => exact ⟨contents, hp' ▸ hp⟩
    · cases h
  · rintro ⟨contents, hp⟩
    exact ⟨_, hp, by simp⟩

/-! Finding, reading and writing. -/

theorem locate_of_fault? {path : String} (hf : Path.fault? path = none)
    (hs : path.endsWith "/" = false) :
    fs.locate path = fs.walk (fs.start path) (Path.names path) := by
  simp [locate, hf, hs]

theorem find_eq_ok {path : String} {node : Node} :
    fs.find path = .ok (place, node) ↔ fs.locate path = .ok place ∧ fs.node? place = some node := by
  rw [find]
  cases fs.locate path with
  | error e => simp [bind, Except.bind]
  | ok p =>
    simp only [bind, Except.bind, Except.ok.injEq]
    cases h : fs.node? p with
    | none =>
      refine ⟨nofun, fun ⟨e, k⟩ => ?_⟩
      rw [← e, h] at k
      cases k
    | some nd =>
      simp only [Except.ok.injEq, Prod.mk.injEq]
      refine and_congr_right fun e => ?_
      rw [← e, h, Option.some.injEq]

theorem read_eq_ok {path : String} {contents : Bytes} :
    fs.read path = .ok contents ↔ ∃ place, fs.find path = .ok (place, .file contents) := by
  rw [read]
  cases fs.find path with
  | error e => simp [bind, Except.bind]
  | ok r =>
    obtain ⟨p, nd⟩ := r
    cases nd <;> simp [bind, Except.bind]

theorem write_of_walk {path : String} {contents : Bytes} (hf : Path.fault? path = none)
    (hs : path.endsWith "/" = false)
    (hw : fs.walk (fs.start path) (Path.names path) = .ok place)
    (hd : fs.node? place ≠ some .directory) :
    fs.write path contents = .ok (fs.put place (.file contents)) := by
  simp [write, hf, hs, hw, hd, bind, Except.bind]

/-- A file that is written stands at the place of its path, and no directory stood there. -/
theorem write_eq_ok {fs' : Files} {path : String} {contents : Bytes}
    (h : fs.write path contents = .ok fs') : Path.fault? path = none ∧ path.endsWith "/" = false ∧
      ∃ place, fs.walk (fs.start path) (Path.names path) = .ok place ∧
        fs.node? place ≠ some .directory ∧ fs' = fs.put place (.file contents) := by
  rw [write] at h
  split at h
  · cases h
  · next hf =>
    split at h
    · next hs =>
      -- what a slash follows is no file
      cases hw : fs.walk (fs.start path) ((Path.names path).dropLast ++ ["."]) with
      | error e => simp [hw, bind, Except.bind] at h
      | ok place => simp [hw, bind, Except.bind] at h
    · next hs =>
      refine ⟨hf, Bool.not_eq_true _ ▸ hs, ?_⟩
      cases hw : fs.walk (fs.start path) (Path.names path) with
      | error e =>
        simp [hw, bind, Except.bind] at h
      | ok place =>
        simp only [hw, bind, Except.bind] at h
        split at h
        · cases h
        · next hd => exact ⟨place, rfl, hd, (Except.ok.inj h).symm⟩

/-- What is written is found again. -/
theorem find_write {fs' : Files} {path : String} {contents : Bytes}
    (h : fs.write path contents = .ok fs') :
    ∃ place, fs.walk (fs.start path) (Path.names path) = .ok place ∧
      fs' = fs.put place (.file contents) ∧ fs.node? place ≠ some .directory ∧
      fs'.find path = .ok (place, .file contents) := by
  obtain ⟨hf, hs, place, hw, hd, rfl⟩ := write_eq_ok h
  refine ⟨place, hw, rfl, hd, find_eq_ok.2 ⟨?_, node?_put_self fs (ne_nil_of_node? hd) _⟩⟩
  rw [locate_of_fault? hf hs]
  exact walk_put hd hw

theorem read_write {fs' : Files} {path : String} {contents : Bytes}
    (h : fs.write path contents = .ok fs') : fs'.read path = .ok contents := by
  obtain ⟨place, -, -, -, hfind⟩ := find_write h
  exact read_eq_ok.2 ⟨place, hfind⟩

/-- A directory that is there is not made again. -/
theorem makeDirectories_of_walk {path : String} (hf : Path.fault? path = none)
    (hw : fs.walk (fs.start path) (Path.names path) = .ok place)
    (hd : fs.node? place = some .directory) : fs.makeDirectories path = (.ok (), fs) := by
  have hmake : fs.makeAt (fs.start path) (Path.names path) = .error .exists := by
    simp [makeAt, hw, hd, bind, Except.bind]
  have hthere : fs.isDirectoryAt (fs.start path) (Path.names path) = true := by
    simp [isDirectoryAt, hw, hd]
  have hne : path.isEmpty = false := String.isEmpty_eq_false_iff.2 (Path.fault?_eq_none.1 hf).2.1
  simp [makeDirectories, hne, hf, ensureAt, hmake, hthere]

end CameraChannel.Files
