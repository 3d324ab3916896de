import CameraChannel.Capture.Canned
import CameraChannel.Proofs.Capture.Newest

/-!
Which recording is summed up after a capture. Main statement: only a completed capture is summed up,
once and through the newest capture in its directory; that is the one just made unless a later name
stands beside it.
-/
namespace CameraChannel.Capture

open Utf8 (Before)
open Artifact (Counts IsNewest name shown)

/-- A facility that remembers which recordings it summed up. -/
def Facility.watched {σ : Type} (f : Facility σ) : Facility (σ × List String) where
  files s := f.files s.1
  capture r cancelled s := ((f.capture r cancelled s.1).1, ((f.capture r cancelled s.1).2, s.2))
  analyze path s := ((f.analyze path s.1).1, ((f.analyze path s.1).2, s.2 ++ [path]))

section Flow

variable {σ : Type} {f : Facility σ} {r : Request} {cancelled : Cancellation} {analyze : Bool}
  {s s' : σ} {a : String}

/-- Watching changes nothing. -/
theorem captureThenAnalyze_watched (f : Facility σ) (r : Request) (cancelled : Cancellation)
    (analyze : Bool) (s : σ) (calls : List String) :
    ((captureThenAnalyze f.watched r cancelled analyze (s, calls)).1,
      (captureThenAnalyze f.watched r cancelled analyze (s, calls)).2.1) =
      captureThenAnalyze f r cancelled analyze s := by
  unfold captureThenAnalyze Facility.watched
  dsimp only
  rcases f.capture r cancelled s with ⟨e | a | -, s'⟩
  · rfl
  · cases analyze with
    | false => rfl
    | true =>
      dsimp only
      rcases f.analyze ((Artifact.latest (f.files s') r.directory).getD a) s' with ⟨e | text, t⟩
      · rfl
      · rfl
  · rfl

theorem captureThenAnalyze_failed {e : Error} (h : f.capture r cancelled s = (.error e, s')) :
    captureThenAnalyze f.watched r cancelled analyze (s, []) = (.error e, (s', [])) := by
  simp [captureThenAnalyze, Facility.watched, h]

theorem captureThenAnalyze_interrupted (h : f.capture r cancelled s = (.ok .interrupted, s')) :
    captureThenAnalyze f.watched r cancelled analyze (s, []) =
      (.ok ⟨.interrupted, none⟩, (s', [])) := by
  simp [captureThenAnalyze, Facility.watched, h]

theorem captureThenAnalyze_off (h : f.capture r cancelled s = (.ok (.completed a), s')) :
    captureThenAnalyze f.watched r cancelled false (s, []) =
      (.ok ⟨.completed a, none⟩, (s', [])) := by
  simp [captureThenAnalyze, Facility.watched, h]

/-- What comes of summing up a recording. -/
def summedUp (f : Facility σ) (a target : String) (s : σ) : Except Error Report × σ × List String :=
  match f.analyze target s with
  | (.error e, t) => (.error e, (t, [target]))
  | (.ok text, t) => (.ok ⟨.completed a, some text⟩, (t, [target]))

@[simp] theorem summedUp_calls (f : Facility σ) (a target : String) (s : σ) :
    (summedUp f a target s).2.2 = [target] := by
  unfold summedUp
  split <;> rfl

theorem summedUp_eq_ok {target text : String} :
    (summedUp f a target s).1 = .ok ⟨.completed a, some text⟩ ↔
      (f.analyze target s).1 = .ok text := by
  unfold summedUp
  rcases f.analyze target s with ⟨e | x, t⟩
  · exact ⟨nofun, nofun⟩
  · simp

theorem captureThenAnalyze_on (h : f.capture r cancelled s = (.ok (.completed a), s')) :
    captureThenAnalyze f.watched r cancelled true (s, []) =
      summedUp f a ((Artifact.latest (f.files s') r.directory).getD a) s' := by
  simp only [captureThenAnalyze, Facility.watched, h, summedUp]
  rcases f.analyze ((Artifact.latest (f.files s') r.directory).getD a) s' with ⟨e | text, t⟩
  · rfl
  · rfl

/-- The recording to sum up after a capture to `a`: the newest in the directory, or this one if
there is none. -/
def IsTarget (fs : Files) (directory a target : String) : Prop :=
  (∃ n, IsNewest fs directory n ∧ target = Path.join (shown directory) n) ∨
    (∀ n, ¬Counts fs directory n) ∧ target = a

theorem isTarget_latest (fs : Files) {directory : String} (h : directory ≠ "") (a : String) :
    IsTarget fs directory a ((Artifact.latest fs directory).getD a) := by
  cases hl : Artifact.latest fs directory with
  | none => exact .inr ⟨(Artifact.latest_eq_none h).1 hl, rfl⟩
  | some path => exact .inl ((Artifact.latest_eq_some h).1 hl)

end Flow

namespace Canned

variable {c : Canned} {r : Request} {cancelled : Cancellation} {w w' : World} {a : String}

def description (c : Canned) (path : String) (contents : Bytes) : String :=
  path ++ ": " ++ Digits.text contents.length ++ " bytes for `" ++ c.filter.expression ++ "`"

theorem analyze_eq (c : Canned) (path : String) (w : World) : c.analyze path w =
    match w.files.read path with
    | .error e => (.error (.os e), w)
    | .ok contents => (.ok (c.description path contents), w) := rfl

theorem capture_eq {fs fs' : Files} (hf : r.filter = c.filter) (hc : cancelled ≠ .before)
    (hm : w.files.makeDirectories r.directory = (.ok (), fs))
    (hw : fs.write (Artifact.path r.directory w.now) c.contents = .ok fs') :
    c.capture r cancelled w = (.ok (.completed (Artifact.path r.directory w.now)),
      { w with requests := w.requests ++ [r], files := fs' }) := by
  simp [capture, hf, hc, hm, hw]

/-- In a directory that is there the recording is put under the present time. -/
theorem capture_in {place : Place} (hf : r.filter = c.filter) (hc : cancelled ≠ .before)
    (ht : w.now.IsValid) (ht4 : w.now.InFourDigits) (hdirectory : Path.fault? r.directory = none)
    (hsize : r.directory.utf8ByteSize + 36 ≤ Path.limit)
    (hw : w.files.walk (w.files.start r.directory) (Path.names r.directory) = .ok place)
    (hd : w.files.node? place = some .directory)
    (hfree : w.files.node? (place ++ [name w.now]) ≠ some .directory) :
    c.capture r cancelled w = (.ok (.completed (Artifact.path r.directory w.now)),
      { w with requests := w.requests ++ [r],
               files := w.files.put (place ++ [name w.now]) (.file c.contents) }) := by
  have hn := Artifact.isName_name w.now
  have hpath := Artifact.fault?_path ht ht4 hdirectory hsize
  have hwalk := Files.walk_join hn (Artifact.isEntry_name ht ht4) hw hd
  exact capture_eq hf hc (Files.makeDirectories_of_walk hdirectory hw hd)
    (Files.write_of_walk hpath (Path.join_not_slash hn _) hwalk hfree)

/-- A completed capture has written its recording under the present time. -/
theorem capture_completed (h : c.capture r cancelled w = (.ok (.completed a), w')) :
    a = Artifact.path r.directory w.now ∧
      ∃ fs : Files, fs.write (Artifact.path r.directory w.now) c.contents = .ok w'.files := by
  unfold capture at h
  dsimp only at h
  split at h
  · cases h
  · split at h
    · cases h
    · split at h
      · cases h
      · next fs _ =>
        split at h
        · cases h
        · next fs' hw =>
          cases h
          exact ⟨rfl, fs, hw⟩

/-- The recording just made is among those that count, and its path as it is found leads to it. -/
theorem capture_found (hd : r.directory ≠ "")
    (h : c.capture r cancelled w = (.ok (.completed a), w')) :
    Counts w'.files r.directory (name w.now) ∧
      ∃ place, w'.files.find a = .ok (place, .file c.contents) ∧
        w'.files.find (Path.join (shown r.directory) (name w.now)) =
          .ok (place, .file c.contents) := by
  obtain ⟨rfl, fs, hw⟩ := capture_completed h
  have hn := Artifact.isName_name w.now
  obtain ⟨hdot, hdots⟩ := Artifact.not_dots_of_named (Artifact.named_name w.now)
  have hf := Artifact.fault?_found hd hn (Files.write_eq_ok hw).1
  obtain ⟨place, hwalk, hput, hno, hfind⟩ := Files.find_write hw
  rw [Artifact.path, Path.names_join hn, Files.start, Path.isAbsolute_join hn] at hwalk
  -- the directory stands as it stood before the recording was written
  obtain ⟨above, hup, habove, hentry, rfl⟩ := Files.walk_concat hdot hdots hwalk
  have hne : above ≠ above ++ [name w.now] := by simp
  have hwalk' : w'.files.walk (w'.files.start r.directory) (Path.names r.directory) =
      .ok above := by
    rw [hput]
    exact Files.walk_put hno hup
  have hnode : w'.files.node? above = some .directory := by
    rw [hput, Files.node?_put_of_ne fs hne, habove]
  have hfile : w'.files.node? (above ++ [name w.now]) = some (.file c.contents) := by
    rw [hput, Files.node?_put_self fs (Files.ne_nil_of_node? hno)]
  refine ⟨⟨⟨⟨above, c.contents, hwalk', ?_⟩, Artifact.named_name w.now⟩, hf⟩, _, hfind,
    Artifact.find_found hd hn hentry hf hwalk' hnode hfile⟩
  rw [hput]
  exact Files.mem_nodes_put.2 (.inl ⟨rfl, rfl⟩)

/-- What stands in front of the last mark is the same in the same text. -/
theorem before_last_mark {p q x y : List Char} {mark : Char} (hx : mark ∉ x) (hy : mark ∉ y)
    (h : p ++ mark :: x = q ++ mark :: y) : p = q := by
  have key : ∀ {x y d : List Char}, mark ∉ x → mark :: x = d ++ mark :: y → d = [] := by
    intro x y d hx h
    cases d with
    | nil => rfl
    | cons e d =>
      obtain ⟨-, rfl⟩ := List.cons.inj h
      simp at hx
  obtain ⟨d, rfl, hd⟩ | ⟨d, rfl, hd⟩ := List.append_eq_append_iff.1 h
  · rw [key hx hd, List.append_nil]
  · rw [key hy hd, List.append_nil]

/-- A description tells the path. -/
theorem description_inj {p q : String} {x y : Bytes}
    (h : c.description p x = c.description q y) : p = q := by
  have hspace : ∀ n, ' ' ∉ Digits.decimal n := by
    intro n hm
    exact absurd (Digits.isSome_value?_of_readFrom (Digits.readFrom_decimal n) _ hm) (by decide)
  have hcut : ∀ t n, t ++ ": ".toList ++ Digits.decimal n =
      (t ++ [':']) ++ ' ' :: Digits.decimal n := by
    intro t n
    rw [List.append_assoc, List.append_assoc]
    rfl
  have hl := congrArg String.toList h
  unfold description Digits.text at hl
  simp only [String.toList_append, List.append_cancel_right_eq, String.toList_ofList, hcut] at hl
  have hpq := before_last_mark (hspace _) (hspace _) hl
  rwa [List.append_cancel_right_eq, String.toList_inj] at hpq

/-- What is summed up is the newest of the captures that count. -/
theorem summedUp_newest (hd : r.directory ≠ "")
    (h : c.capture r cancelled w = (.ok (.completed a), w')) :
    ∃ n, IsNewest w'.files r.directory n ∧
      captureThenAnalyze c.facility.watched r cancelled true (w, []) =
        summedUp c.facility a (Path.join (shown r.directory) n) w' := by
  have hon := captureThenAnalyze_on (f := c.facility) h
  obtain ⟨n, hn, ht⟩ | ⟨hnone, -⟩ := isTarget_latest w'.files hd a
  · exact ⟨n, hn, by rw [hon, ← ht]; rfl⟩
  · exact absurd (capture_found hd h).1 (hnone _)

/-- The description of the recording just made is that of no other. -/
theorem analyze_eq_description (hd : r.directory ≠ "")
    (h : c.capture r cancelled w = (.ok (.completed a), w')) (path : String) :
    (c.analyze path w').1 =
        .ok (c.description (Path.join (shown r.directory) (name w.now)) c.contents) ↔
      path = Path.join (shown r.directory) (name w.now) := by
  constructor
  · intro he
    rw [analyze_eq] at he
    split at he
    · cases he
    · exact description_inj (Except.ok.inj he)
  · rintro rfl
    obtain ⟨-, place, -, hfind⟩ := capture_found hd h
    rw [analyze_eq, Files.read_eq_ok.2 ⟨place, hfind⟩]

theorem calls_eq_iff (hd : r.directory ≠ "")
    (h : c.capture r cancelled w = (.ok (.completed a), w')) :
    (captureThenAnalyze c.facility.watched r cancelled true (w, [])).2.2 =
        [Path.join (shown r.directory) (name w.now)] ↔
      ∀ m, Counts w'.files r.directory m → ¬Before (name w.now) m := by
  obtain ⟨n, hn, hrun⟩ := summedUp_newest hd h
  rw [hrun, summedUp_calls, List.cons.injEq, and_iff_left rfl, Artifact.join_inj,
    hn.eq_iff (capture_found hd h).1]

/-- The recording just made is described unless a later name stands beside it. -/
theorem summary_eq_iff (hd : r.directory ≠ "")
    (h : c.capture r cancelled w = (.ok (.completed a), w')) :
    (captureThenAnalyze c.facility r cancelled true w).1 =
        .ok ⟨.completed a, some (c.description (Path.join (shown r.directory) (name w.now))
          c.contents)⟩ ↔
      ∀ m, Counts w'.files r.directory m → ¬Before (name w.now) m := by
  obtain ⟨n, hn, hrun⟩ := summedUp_newest hd h
  have hresult := congrArg Prod.fst (captureThenAnalyze_watched c.facility r cancelled true w [])
  dsimp only at hresult
  rw [← hresult, hrun, summedUp_eq_ok, ← hn.eq_iff (capture_found hd h).1, ← Artifact.join_inj]
  exact analyze_eq_description hd h _

end Canned

def shelfRequest : Request := ⟨"any", 1000, ⟨"camera", []⟩, "/d", false⟩

def shelfWorld : Canned.World where
  now := Artifact.dawn
  files := { nodes := [(["d"], .directory), (["d", name Artifact.eve], .file [0])] }

def shelfCamera : Canned := { filter := shelfRequest.filter }

def shelfAfter : Files := shelfWorld.files.put ["d", name Artifact.dawn] (.file emptyRecording)

theorem capture_shelf : shelfCamera.capture shelfRequest .never shelfWorld =
    (.ok (.completed (Artifact.path "/d" Artifact.dawn)),
      { shelfWorld with requests := [shelfRequest], files := shelfAfter }) := by
  refine Canned.capture_in (c := shelfCamera) (r := shelfRequest) (w := shelfWorld) rfl (by decide)
    (by decide) (by decide) Artifact.fault?_d (by decide) (Artifact.walk_d shelfWorld.files)
    rfl fun h => ?_
  have hm := Files.mem_nodes_of_node? h (by simp)
  simp [shelfWorld] at hm

theorem counts_shelfAfter {n : String} (h : Counts shelfAfter "/d" n) :
    n = name Artifact.dawn ∨ n = name Artifact.eve := by
  obtain ⟨hmem, -⟩ := (Artifact.counts_iff (Artifact.walk_d shelfAfter)).1 h
  obtain ⟨contents, hmem⟩ := Files.mem_list.1 hmem
  obtain ⟨e, -⟩ | ⟨-, hmem⟩ := Files.mem_nodes_put.1 hmem
  · exact .inl (by simpa using e)
  · have he : n = name Artifact.eve ∧ contents = [0] := by simpa [shelfWorld] using hmem
    exact .inr he.1

def anyRequest : Request := ⟨"any", 1000, ⟨"camera", []⟩, Artifact.detour, false⟩

def newYear : Moment := ⟨2024, 1, 1, 0, 0, 0⟩

def crowdedWorld : Canned.World := { now := newYear, files := Artifact.crowded }

def cannedCamera : Canned := { filter := anyRequest.filter }

theorem newYear_ne_aside : name newYear ≠ Artifact.aside := by decide

/-- The two names differ where one has a two and the other a nine. -/
theorem newYear_before_longName : Before (name newYear) Artifact.longName := by
  have hstamp : ∃ bs, Utf8.ofChars newYear.stamp = 0x32 :: bs := ⟨_, rfl⟩
  have hlong : ∃ bs, Utf8.ofString Artifact.longName =
      Utf8.ofChars Artifact.opening ++ 0x39 :: bs := by
    refine ⟨Utf8.ofChars (List.replicate 234 '9') ++ Utf8.ofChars Artifact.ending, ?_⟩
    rw [Artifact.longName, Utf8.ofString, String.toList_ofList, List.append_assoc,
      Utf8.ofChars_append, Utf8.ofChars_append, List.replicate_succ, Utf8.ofChars_cons]
    rfl
  obtain ⟨as, ha⟩ := hstamp
  obtain ⟨bs, hb⟩ := hlong
  rw [Before, Artifact.ofString_name, ha, hb, Bytes.lt_append_left, List.cons_append,
    List.cons_lt_cons_iff]
  exact .inl (by decide)

def crowdedAfter : Files := Artifact.crowded.put [name newYear] (.file emptyRecording)

/-- The recording is written beside the other. -/
theorem capture_crowded : cannedCamera.capture anyRequest .never crowdedWorld =
    (.ok (.completed (Artifact.path Artifact.detour newYear)),
      { crowdedWorld with requests := [anyRequest], files := crowdedAfter }) := by
  have hsize : Artifact.detour.utf8ByteSize + 36 ≤ Path.limit := by
    rw [Artifact.size_detour]
    decide
  refine Canned.capture_in (c := cannedCamera) (r := anyRequest) (w := crowdedWorld) rfl
    (by decide) (by decide) (by decide) Artifact.fault?_detour hsize (Artifact.walk_detour rfl)
    rfl fun h => ?_
  have hm := Files.mem_nodes_of_node? h (by simp)
  exact newYear_ne_aside (by simpa [crowdedWorld, Artifact.crowded] using hm)

theorem walk_crowdedAfter : crowdedAfter.walk (crowdedAfter.start Artifact.detour)
    (Path.names Artifact.detour) = .ok [] := by
  have hne : [Artifact.aside] ≠ [name newYear] := by simpa using newYear_ne_aside.symm
  exact Artifact.walk_detour (Files.node?_put_of_ne Artifact.crowded hne _)

theorem counts_crowdedAfter {n : String} (h : Counts crowdedAfter Artifact.detour n) :
    n = name newYear := by
  obtain ⟨hmem, -⟩ := (Artifact.counts_iff walk_crowdedAfter).1 h
  obtain ⟨contents, hmem⟩ := Files.mem_list.1 hmem
  obtain ⟨e, -⟩ | ⟨-, hmem⟩ := Files.mem_nodes_put.1 hmem
  · simpa using e
  · have hlong : n = Artifact.longName ∧ contents = [0] := by
      simpa [Artifact.crowded] using hmem
    exact absurd h.usable (hlong.1 ▸ Artifact.longName_unusable)

end CameraChannel.Capture
