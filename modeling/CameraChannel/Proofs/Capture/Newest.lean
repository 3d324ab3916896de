import CameraChannel.Proofs.Capture.Naming
import CameraChannel.Proofs.Files.Walking

/-!
The newest capture in a directory. Main statement: it is the file whose name is the last among the
files that are named as captures and whose path can be used, whatever else is in the directory.
-/
namespace CameraChannel.Capture.Artifact

open CameraChannel.Path (IsName opened trail)
open Utf8 (Before)

variable {fs : Files} {directory n : String}

/-- The names in front of a file that is found in a directory. -/
def kept (directory : String) : List String :=
  if Path.isAbsolute directory then Path.names directory
  else (Path.names directory).dropWhile (· == ".")

theorem isName_of_mem_kept (h : n ∈ kept directory) : IsName n := by
  unfold kept at h
  split at h
  · exact Path.isName_of_mem h
  · exact Path.isName_of_mem ((List.dropWhile_sublist _).mem h)

def root (directory : String) : String := if Path.isAbsolute directory then "/" else ""

theorem root_cases (directory : String) : root directory = "" ∨ root directory = "/" := by
  unfold root
  split
  · exact .inr rfl
  · exact .inl rfl

theorem shown_eq (h : directory ≠ "") :
    shown directory = root directory ++ "/".intercalate (kept directory) := by
  have hne : directory.isEmpty = false := String.isEmpty_eq_false_iff.2 h
  unfold shown root kept
  rw [hne, Bool.or_false]
  cases Path.isAbsolute directory <;> rfl

theorem opened_shown (h : directory ≠ "") :
    opened (shown directory) = root directory ++ trail (kept directory) := by
  rw [shown_eq h]
  exact Path.opened_intercalate (root_cases directory) fun _ => isName_of_mem_kept

theorem names_shown (h : directory ≠ "") : Path.names (shown directory) = kept directory := by
  have hn := Path.names_trail fun n (hn : n ∈ kept directory) => isName_of_mem_kept hn
  rw [← Path.names_opened, opened_shown h]
  obtain hr | hr := root_cases directory
  · rw [hr, String.empty_append, hn]
  · rw [hr, Path.names_slash, hn]

theorem isAbsolute_shown (h : directory ≠ "") :
    Path.isAbsolute (shown directory) = Path.isAbsolute directory := by
  rw [← Path.isAbsolute_opened, opened_shown h, root]
  cases Path.isAbsolute directory with
  | true => exact Path.isAbsolute_slash _
  | false => exact Path.isAbsolute_trail fun _ => isName_of_mem_kept

theorem opened_shown_sublist (h : directory ≠ "") :
    (opened (shown directory)).toList.Sublist (opened directory).toList := by
  rw [opened_shown h, root, kept]
  cases ha : Path.isAbsolute directory with
  | true => exact Path.slash_trail_sublist ha
  | false =>
    simp only [Bool.false_eq_true, if_false, String.empty_append]
    refine .trans ?_ (Path.trail_sublist_opened directory)
    rw [Path.toList_trail, Path.toList_trail]
    exact Path.flatMap_sublist _ (List.dropWhile_sublist _)

/-- A file's path as it is found can be used if its path through the directory can. -/
theorem fault?_found (h : directory ≠ "") (hn : IsName n)
    (hf : Path.fault? (Path.join directory n) = none) :
    Path.fault? (Path.join (shown directory) n) = none := by
  refine Path.fault?_sublist ?_ ?_ hf
  · rw [Path.join_eq, Path.join_eq, String.toList_append, String.toList_append]
    exact (opened_shown_sublist h).append (List.Sublist.refl _)
  · intro e
    have hl := congrArg (fun s => s.toList.length) e
    rw [Path.join_eq] at hl
    simp [hn.nonempty] at hl

theorem join_inj {d m n : String} : Path.join d m = Path.join d n ↔ m = n := by
  rw [Path.join_eq, Path.join_eq, ← String.toList_inj, String.toList_append, String.toList_append,
    List.append_cancel_left_eq, String.toList_inj]

/-- A directory as it is shown is where it was. -/
theorem walk_shown {place : Place} (h : directory ≠ "")
    (hw : fs.walk (fs.start directory) (Path.names directory) = .ok place) :
    fs.walk (fs.start (shown directory)) (Path.names (shown directory)) = .ok place := by
  rw [Files.start, isAbsolute_shown h, ← Files.start, names_shown h, kept]
  split
  · exact hw
  · exact Files.walk_dropWhile hw

/-- A file's path as it is found leads to the file. -/
theorem find_found {place : Place} {contents : Bytes} (h : directory ≠ "") (hn : IsName n)
    (he : Files.IsEntry n) (hf : Path.fault? (Path.join (shown directory) n) = none)
    (hw : fs.walk (fs.start directory) (Path.names directory) = .ok place)
    (hd : fs.node? place = some .directory)
    (hfile : fs.node? (place ++ [n]) = some (.file contents)) :
    fs.find (Path.join (shown directory) n) = .ok (place ++ [n], .file contents) := by
  refine Files.find_eq_ok.2 ⟨?_, hfile⟩
  rw [Files.locate_of_fault? hf (Path.join_not_slash hn _)]
  exact Files.walk_join hn he (walk_shown h hw) hd

/-! The files that count. -/

theorem isNamed_iff : isNamed n = true ↔ ∃ middle, n.toList = opening ++ middle ++ ending := by
  rw [isNamed, Bool.and_eq_true, Bool.and_eq_true, List.isPrefixOf_iff_prefix,
    List.isSuffixOf_iff_suffix, decide_eq_true_iff]
  constructor
  · rintro ⟨⟨⟨x, hx⟩, y, hy⟩, hlen⟩
    obtain ⟨middle, rfl, -⟩ | ⟨c, hc, -⟩ := List.append_eq_append_iff.1 (hx.trans hy.symm)
    · exact ⟨middle, hy.symm⟩
    · -- the opening ends before the ending begins
      have hl := congrArg List.length hc
      rw [← hy] at hlen
      simp only [List.length_append] at hl hlen
      obtain rfl := List.eq_nil_of_length_eq_zero (show c.length = 0 by omega)
      exact ⟨[], by rw [hc, List.append_nil, List.append_nil, hy]⟩
  · rintro ⟨middle, hm⟩
    rw [hm]
    refine ⟨⟨⟨middle ++ ending, by simp⟩, opening ++ middle, rfl⟩, ?_⟩
    simp

/-- A regular file of a directory that is named as a capture. -/
structure IsCapture (fs : Files) (directory n : String) : Prop where
  held : ∃ place contents, fs.walk (fs.start directory) (Path.names directory) = .ok place ∧
    (place ++ [n], .file contents) ∈ fs.nodes
  named : ∃ middle, n.toList = opening ++ middle ++ ending

/-- A capture whose path, as it is found, can be used. -/
structure Counts (fs : Files) (directory n : String) : Prop extends IsCapture fs directory n where
  usable : Path.fault? (Path.join (shown directory) n) = none

theorem not_mem_padded {c : Char} (h : (Digits.value? c).isSome = false) (width n : Nat) :
    c ∉ Digits.padded width n :=
  fun hc => Bool.eq_false_iff.1 h (Digits.isSome_value?_of_mem_padded width n c hc)

/-- In a stamp are digits, a sign at most and a mark. -/
theorem not_mem_stamp {c : Char} (h : (Digits.value? c).isSome = false) (hs : c ∉ ['+', '-', '_'])
    (t : Moment) : c ∉ t.stamp := by
  have hp := not_mem_padded h
  simp only [List.mem_cons, List.not_mem_nil, or_false, not_or] at hs
  have hyear : c ∉ Moment.yearText t.year := by
    unfold Moment.yearText
    split
    · split
      · exact hp _ _
      · simp [hp, hs.1]
    · simp [hp, hs.2.1]
  simp [Moment.stamp, hp, hyear, hs.2.2]

theorem toList_name (t : Moment) : (name t).toList = opening ++ t.stamp ++ ending :=
  String.toList_ofList

theorem not_mem_name {c : Char} (h : (Digits.value? c).isSome = false) (hs : c ∉ ['+', '-', '_'])
    (ho : c ∉ opening) (he : c ∉ ending) (t : Moment) : c ∉ (name t).toList := by
  simp [toList_name, ho, he, not_mem_stamp h hs t]

/-- The name of a capture can name a file. -/
theorem isName_name (t : Moment) : IsName (name t) := by
  constructor
  · intro e
    have hl : opening ++ t.stamp ++ ending = [] := by rw [← toList_name, e]; rfl
    have ho : opening = [] := (List.append_eq_nil_iff.1 (List.append_eq_nil_iff.1 hl).1).1
    exact absurd ho (by decide)
  · exact not_mem_name (by decide) (by decide) (by decide) (by decide) t

theorem named_name (t : Moment) : ∃ middle, (name t).toList = opening ++ middle ++ ending :=
  ⟨t.stamp, toList_name t⟩

/-- What has the opening of a capture's name is no dot and no two dots. -/
theorem not_dots_of_named (hn : ∃ middle, n.toList = opening ++ middle ++ ending) :
    n ≠ "." ∧ n ≠ ".." := by
  obtain ⟨middle, hm⟩ := hn
  have hlen : opening.length ≤ n.toList.length := by
    rw [hm, List.length_append, List.length_append]
    omega
  constructor
  · rintro rfl
    exact absurd hlen (by decide)
  · rintro rfl
    exact absurd hlen (by decide)

/-- The name of a capture is looked up in a directory. -/
theorem isEntry_name {t : Moment} (ht : t.IsValid) (ht4 : t.InFourDigits) :
    Files.IsEntry (name t) := by
  obtain ⟨hdot, hdots⟩ := not_dots_of_named (named_name t)
  refine ⟨hdot, hdots, ?_⟩
  rw [size_name ht ht4]
  decide

/-- A capture in a directory has a path that can be used unless the directory's is too long. -/
theorem fault?_path {t : Moment} (ht : t.IsValid) (ht4 : t.InFourDigits)
    (hf : Path.fault? directory = none)
    (hsize : directory.utf8ByteSize + 36 ≤ Path.limit) :
    Path.fault? (path directory t) = none := by
  obtain ⟨hzero, hne, -⟩ := Path.fault?_eq_none.1 hf
  have hopened := Path.size_opened_le directory
  have hname := not_mem_name (c := '\x00') (by decide) (by decide) (by decide) (by decide) t
  rw [path, Path.join_eq, Path.fault?_eq_none, String.toList_append, List.mem_append,
    String.utf8ByteSize_append, size_name ht ht4]
  refine ⟨?_, fun e => (isName_name t).nonempty (String.append_eq_empty_iff.1 e).2, by omega⟩
  rintro (h | h)
  · exact Path.not_mem_opened hzero (by decide) h
  · exact hname h

theorem counts_iff {place : Place}
    (hw : fs.walk (fs.start directory) (Path.names directory) = .ok place) :
    Counts fs directory n ↔ (n, true) ∈ fs.list place ∧ isNamed n = true ∧
      Path.fault? (Path.join (shown directory) n) = none := by
  rw [Files.mem_list, isNamed_iff]
  constructor
  · rintro ⟨⟨⟨place', contents, hw', hmem⟩, hnamed⟩, hf⟩
    obtain rfl := Except.ok.inj (hw.symm.trans hw')
    exact ⟨⟨contents, hmem⟩, hnamed, hf⟩
  · rintro ⟨⟨contents, hmem⟩, hnamed, hf⟩
    exact ⟨⟨⟨place, contents, hw, hmem⟩, hnamed⟩, hf⟩

/-- The last name of those that count decides. -/
theorem latest_eq (fs : Files) (h : directory ≠ "") : ∃ ns, (∀ n, n ∈ ns ↔ Counts fs directory n) ∧
    latest fs directory = (Utf8.greatest ns).map (Path.join (shown directory)) := by
  have hne : directory.isEmpty = false := String.isEmpty_eq_false_iff.2 h
  rw [latest, hne]
  simp only [Bool.false_eq_true, if_false]
  cases hw : fs.walk (fs.start directory) (Path.names directory) with
  | error e =>
    refine ⟨[], fun n => ⟨nofun, fun hc => ?_⟩, rfl⟩
    obtain ⟨place, contents, hw', -⟩ := hc.held
    cases hw.symm.trans hw'
  | ok place =>
    refine ⟨_, fun n => ?_, rfl⟩
    rw [counts_iff hw, List.mem_filter, List.mem_filterMap]
    constructor
    · rintro ⟨⟨⟨m, isFile⟩, hm, he⟩, hnamed⟩
      dsimp only at he
      split at he
      · next hu =>
        obtain ⟨rfl, hu⟩ := Bool.and_eq_true_iff.1 hu
        cases he
        exact ⟨hm, hnamed, Option.isNone_iff_eq_none.1 hu⟩
      · cases he
    · rintro ⟨hm, hnamed, hf⟩
      exact ⟨⟨(n, true), hm, by simp [hf]⟩, hnamed⟩

theorem latest_eq_none (h : directory ≠ "") :
    latest fs directory = none ↔ ∀ n, ¬Counts fs directory n := by
  obtain ⟨ns, hns, he⟩ := latest_eq fs h
  rw [he, Option.map_eq_none_iff, Utf8.greatest_eq_none, List.eq_nil_iff_forall_not_mem]
  exact forall_congr' fun n => not_congr (hns n)

/-- The newest of the captures that count. -/
structure IsNewest (fs : Files) (directory n : String) : Prop extends Counts fs directory n where
  last : ∀ m, Counts fs directory m → m = n ∨ Before m n

/-- What counts is the newest if nothing that counts is later. -/
theorem IsNewest.eq_iff {m : String} (hm : IsNewest fs directory m) (hn : Counts fs directory n) :
    m = n ↔ ∀ k, Counts fs directory k → ¬Before n k := by
  constructor
  · rintro rfl k hk hb
    obtain rfl | hkm := hm.last k hk
    · exact Before.irrefl _ hb
    · exact hb.asymm hkm
  · intro hall
    obtain e | hb := hm.last n hn
    · exact e.symm
    · exact absurd hb (hall m hm.toCounts)

theorem latest_eq_some (h : directory ≠ "") {path : String} :
    latest fs directory = some path ↔
      ∃ n, IsNewest fs directory n ∧ path = Path.join (shown directory) n := by
  obtain ⟨ns, hns, he⟩ := latest_eq fs h
  rw [he, Option.map_eq_some_iff]
  refine exists_congr fun n => and_congr ?_ eq_comm
  rw [Utf8.greatest_eq_some, hns]
  exact ⟨fun ⟨hn, hl⟩ => ⟨hn, fun m hm => hl m ((hns m).2 hm)⟩,
    fun hn => ⟨hn.toCounts, fun m hm => hn.last m ((hns m).1 hm)⟩⟩

/-- Nothing but the captures that count has an influence. -/
theorem latest_congr {gs : Files} (h : directory ≠ "")
    (hc : ∀ n, Counts fs directory n ↔ Counts gs directory n) :
    latest fs directory = latest gs directory := by
  have hn : ∀ n, IsNewest fs directory n ↔ IsNewest gs directory n := fun n =>
    ⟨fun hn => ⟨(hc n).1 hn.toCounts, fun m hm => hn.last m ((hc m).2 hm)⟩,
      fun hn => ⟨(hc n).2 hn.toCounts, fun m hm => hn.last m ((hc m).1 hm)⟩⟩
  refine Option.ext fun path => ?_
  rw [latest_eq_some h, latest_eq_some h]
  exact exists_congr fun n => and_congr_left' (hn n)

def eve : Moment := ⟨2023, 12, 31, 23, 59, 59⟩

def dawn : Moment := ⟨2024, 1, 1, 0, 0, 0⟩

def shelf : Files := { nodes := [
  (["d"], .directory),
  (["d", name dawn], .file [1]),
  (["d", name eve], .file [0]),
  (["d", "camera_capture_notes.txt"], .file [2]),
  (["d", "camera_capture_.pcap"], .directory)] }

theorem walk_d (fs : Files) : fs.walk (fs.start "/d") (Path.names "/d") = .ok ["d"] := by
  have hnames : Path.names "/d" = ["d"] := by decide
  have hstart : fs.start "/d" = [] := if_pos (Path.isAbsolute_iff.2 (by decide))
  rw [hnames, hstart, Files.walk_entry rfl ⟨by decide, by decide, by decide⟩]
  rfl

theorem fault?_d : Path.fault? "/d" = none := by decide

theorem counts_shelf : Counts shelf "/d" n ↔ n = name dawn ∨ n = name eve := by
  have husable {t : Moment} (ht : t.IsValid) (ht4 : t.InFourDigits) :
      Path.fault? (Path.join (shown "/d") (name t)) = none :=
    fault?_found (by decide) (isName_name t) (fault?_path ht ht4 fault?_d (by decide))
  have hnotes : isNamed "camera_capture_notes.txt" = false := by decide
  rw [counts_iff (walk_d shelf), Files.mem_list]
  constructor
  · rintro ⟨⟨contents, hm⟩, hnamed, -⟩
    have hm : n = name dawn ∧ contents = [1] ∨ n = name eve ∧ contents = [0] ∨
        n = "camera_capture_notes.txt" ∧ contents = [2] := by simpa [shelf] using hm
    obtain ⟨rfl, -⟩ | ⟨rfl, -⟩ | ⟨rfl, -⟩ := hm
    · exact .inl rfl
    · exact .inr rfl
    · cases hnotes.symm.trans hnamed
  · rintro (rfl | rfl)
    · exact ⟨⟨[1], by simp [shelf]⟩, isNamed_iff.2 (named_name dawn),
        husable (by decide) (by decide)⟩
    · exact ⟨⟨[0], by simp [shelf]⟩, isNamed_iff.2 (named_name eve),
        husable (by decide) (by decide)⟩

def aside : String := "dddddddddddddddddddddddddddddddddddddddddddddddddddddddddddd"

def detourNames : Nat → List String
  | 0 => []
  | k + 1 => aside :: ".." :: detourNames k

/-- Out to a directory beside and back, again and again. -/
def detour : String := "/" ++ trail (detourNames 60)

def longName : String := String.ofList (opening ++ List.replicate 235 '9' ++ ending)

def crowded : Files := { nodes := [([aside], .directory), ([longName], .file [0])] }

theorem isName_of_mem_detourNames {k : Nat} : ∀ n ∈ detourNames k, IsName n := by
  have ha : IsName aside := ⟨by decide, by decide⟩
  have hup : IsName ".." := ⟨by decide, by decide⟩
  induction k with
  | zero => nofun
  | succ k ih => simpa [detourNames] using ⟨ha, hup, ih⟩

theorem names_detour : Path.names detour = detourNames 60 := by
  rw [detour, Path.names_slash, Path.names_trail isName_of_mem_detourNames]

theorem walk_detourNames (h : fs.node? [aside] = some .directory) (k : Nat) :
    fs.walk [] (detourNames k) = .ok [] := by
  induction k with
  | zero => rfl
  | succ k ih =>
    have he : Files.IsEntry aside := ⟨by decide, by decide, by decide⟩
    have hup : fs.walk [aside] (".." :: detourNames k) = fs.walk [] (detourNames k) := by
      rw [Files.walk_cons, h]
      rfl
    rw [detourNames, Files.walk_entry rfl he, List.nil_append, hup, ih]

/-- The detour leads to the root. -/
theorem walk_detour (h : fs.node? [aside] = some .directory) :
    fs.walk (fs.start detour) (Path.names detour) = .ok [] := by
  rw [Files.start, detour, Path.isAbsolute_slash, ← detour, names_detour]
  exact walk_detourNames h 60

theorem size_trail_detourNames (k : Nat) : (trail (detourNames k)).utf8ByteSize = 64 * k := by
  have hstep : (aside ++ "/").utf8ByteSize + (".." ++ "/").utf8ByteSize = 64 := by decide
  induction k with
  | zero => rfl
  | succ k ih =>
    have hs := String.utf8ByteSize_append (s := ".." ++ "/") (t := trail (detourNames k))
    rw [detourNames, trail, trail, String.utf8ByteSize_append, hs, ih]
    omega

theorem size_detour : detour.utf8ByteSize = 3841 := by
  rw [detour, String.utf8ByteSize_append, size_trail_detourNames]
  rfl

theorem detour_ne_empty : detour ≠ "" := by
  intro e
  have hs := size_detour
  rw [e] at hs
  cases hs

theorem opened_shown_detour : opened (shown detour) = detour := by
  rw [opened_shown detour_ne_empty, root, kept, detour, Path.isAbsolute_slash, ← detour,
    names_detour]
  rfl

theorem zero_not_mem_detour : '\x00' ∉ detour.toList := by
  have hmem : ∀ k, '\x00' ∉ (trail (detourNames k)).toList := by
    intro k
    induction k with
    | zero => decide
    | succ k ih =>
      have ha : '\x00' ∉ (aside ++ "/").toList := by decide
      have hup : '\x00' ∉ (".." ++ "/").toList := by decide
      simp only [detourNames, trail, String.toList_append, List.mem_append] at ha hup ih ⊢
      rintro (h | h | h)
      · exact ha h
      · exact hup h
      · exact ih h
  rw [detour, String.toList_append, List.mem_append]
  rintro (h | h)
  · exact absurd h (by decide)
  · exact hmem 60 h

theorem fault?_detour : Path.fault? detour = none := by
  refine Path.fault?_eq_none.2 ⟨zero_not_mem_detour, detour_ne_empty, ?_⟩
  rw [size_detour]
  decide

theorem size_longName : longName.utf8ByteSize = 255 := by
  have hnines : (Utf8.ofChars (List.replicate 235 '9')).length = 235 := by
    rw [Utf8.ofChars, List.length_flatMap, List.map_replicate, List.sum_replicate_nat]
    decide
  rw [longName, size_named, hnines]

theorem longName_unusable : Path.fault? (Path.join (shown detour) longName) ≠ none := by
  intro hf
  obtain ⟨-, -, hs⟩ := Path.fault?_eq_none.1 hf
  rw [Path.join_eq, opened_shown_detour, String.utf8ByteSize_append, size_detour,
    size_longName] at hs
  exact absurd hs (by decide)

theorem isCapture_longName : IsCapture crowded detour longName :=
  ⟨⟨[], [0], walk_detour rfl, by simp [crowded]⟩, List.replicate 235 '9', String.toList_ofList⟩

end CameraChannel.Capture.Artifact
