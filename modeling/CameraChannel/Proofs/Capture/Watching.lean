import CameraChannel.Capture.Tcpdump
import CameraChannel.Proofs.Text.Words

/-!
How the wait for a capture tool ends, and what comes of the capture. Main statement: it is
interrupted, it fails or it completes by what comes first, and it completes only with its file in
place; a tool that writes more on standard error than a pipe holds never ends by itself.
-/
namespace CameraChannel.Capture

/-- When a capture is called off, if it is. -/
def Cancellation.time? : Cancellation → Option Nat
  | .never => none
  | .before => some 0
  | .after time => some time

/-- A tool's standard error is text, and not blank. -/
def Tool.Complains (tool : Tool) (text : String) : Prop :=
  Utf8.toString? tool.errors = some text ∧ ∃ c ∈ text.toList, Blank.isBlank c = false

namespace Tcpdump

section Waiting

variable {cancelled : Cancellation} {window : Nat} {tool : Tool}

/-- No two of the cancellation, the window's end and the tool's end come at once. -/
structure Apart (cancelled : Cancellation) (window : Nat) (tool : Tool) : Prop where
  cancel_window : cancelled.time? ≠ some window
  exit_window : exitTime? tool ≠ some window
  cancel_exit : ∀ time, cancelled.time? = some time → exitTime? tool ≠ some time

def CancelledFirst (cancelled : Cancellation) (window : Nat) (tool : Tool) : Prop :=
  ∃ time, cancelled.time? = some time ∧ time < window ∧
    ∀ ended, exitTime? tool = some ended → time < ended

def ExitsFirst (cancelled : Cancellation) (window : Nat) (tool : Tool) : Prop :=
  ∃ ended, exitTime? tool = some ended ∧ ended < window ∧
    ∀ time, cancelled.time? = some time → ended < time

theorem CancelledFirst.not_exitsFirst (h : CancelledFirst cancelled window tool) :
    ¬ExitsFirst cancelled window tool := by
  rintro ⟨ended, hended, -, hearly⟩
  obtain ⟨time, htime, -, hfirst⟩ := h
  exact Nat.lt_asymm (hfirst ended hended) (hearly time htime)

/-- A wait ends with what comes first. -/
inductive Watched (cancelled : Cancellation) (window : Nat) (tool : Tool) : Waited → Prop where
  | cancelled (first : CancelledFirst cancelled window tool) :
      Watched cancelled window tool .cancelled
  | exited (first : ExitsFirst cancelled window tool) :
      Watched cancelled window tool (.exited tool.status)
  | elapsed (uncancelled : ¬CancelledFirst cancelled window tool)
      (running : ¬ExitsFirst cancelled window tool) : Watched cancelled window tool .elapsed

theorem wait_eq (tool : Tool) (window : Nat) (cancelled : Cancellation) :
    wait tool window cancelled =
      match cancelled.time? with
      | none => ownEnd tool window
      | some time =>
        if time ≤ (ownEnd tool window).2 then (.cancelled, time) else ownEnd tool window := by
  cases cancelled with
  | never => rfl
  | before => exact (if_pos (Nat.zero_le _)).symm
  | after time => rfl

theorem ownEnd_cases (h : exitTime? tool ≠ some window) :
    (ownEnd tool window = (.elapsed, window) ∧
      ∀ ended, exitTime? tool = some ended → window < ended) ∨
    ∃ ended, ownEnd tool window = (.exited tool.status, ended) ∧ exitTime? tool = some ended ∧
      ended < window := by
  rw [ownEnd]
  cases hx : exitTime? tool with
  | none => exact .inl ⟨rfl, nofun⟩
  | some ended =>
    have hne : ended ≠ window := fun e => h (by rw [hx, e])
    by_cases hl : window < ended
    · refine .inl ⟨if_pos hl, fun ended' he => ?_⟩
      cases he
      exact hl
    · exact .inr ⟨ended, if_neg hl, rfl, by omega⟩

theorem ownEnd_watched (h : exitTime? tool ≠ some window)
    (late : ∀ time, cancelled.time? = some time → (ownEnd tool window).2 < time) :
    Watched cancelled window tool (ownEnd tool window).1 := by
  obtain ⟨hown, hlater⟩ | ⟨ended, hown, hended, hearly⟩ := ownEnd_cases h
  · rw [hown] at late ⊢
    refine .elapsed ?_ ?_
    · rintro ⟨time, htime, hfirst, -⟩
      exact Nat.lt_asymm hfirst (late time htime)
    · rintro ⟨ended, hended, hearly, -⟩
      exact Nat.lt_asymm hearly (hlater ended hended)
  · rw [hown] at late ⊢
    exact .exited ⟨ended, hended, hearly, late⟩

theorem cancelledFirst_of_le (apart : Apart cancelled window tool) {time : Nat}
    (htime : cancelled.time? = some time) (hle : time ≤ (ownEnd tool window).2) :
    CancelledFirst cancelled window tool := by
  have hwindow : time ≠ window := fun e => apart.cancel_window (by rw [htime, e])
  have hexit : ∀ ended, exitTime? tool = some ended → time ≠ ended :=
    fun ended hended e => apart.cancel_exit time htime (by rw [hended, e])
  obtain ⟨hown, hlater⟩ | ⟨ended, hown, hended, hearly⟩ := ownEnd_cases apart.exit_window
  · rw [hown] at hle
    dsimp only at hle
    refine ⟨time, htime, by omega, fun ended hended => ?_⟩
    have := hlater ended hended
    omega
  · rw [hown] at hle
    dsimp only at hle
    refine ⟨time, htime, by omega, fun ended' hended' => ?_⟩
    obtain rfl := Option.some.inj (hended.symm.trans hended')
    have := hexit ended hended
    omega

theorem wait_watched (apart : Apart cancelled window tool) :
    Watched cancelled window tool (wait tool window cancelled).1 := by
  rw [wait_eq]
  cases hc : cancelled.time? with
  | none => exact ownEnd_watched apart.exit_window fun time htime => by cases hc.symm.trans htime
  | some time =>
    dsimp only
    split
    · next hle => exact .cancelled (cancelledFirst_of_le apart hc hle)
    · next hle =>
      refine ownEnd_watched apart.exit_window fun time' htime => ?_
      obtain rfl := Option.some.inj (hc.symm.trans htime)
      exact Nat.lt_of_not_le hle

end Waiting

section Failing

variable {tool : Tool}

/-- A tool that complains fails with its complaint, without the white space around it. -/
theorem failure_of_complaint {text : String} (h : tool.Complains text) (program : String)
    (s : ExitStatus) : failure program tool s = Blank.trim text ∧ Blank.trim text ≠ "" := by
  obtain ⟨htext, c, hc, hblank⟩ := h
  have hne : Blank.trim text ≠ "" := by
    intro he
    rw [Blank.trim_eq_empty_iff.1 he c hc] at hblank
    cases hblank
  refine ⟨?_, hne⟩
  rw [failure, htext]
  exact if_neg (by simpa using hne)

theorem failure_of_silent (h : ∀ text, ¬tool.Complains text) (program : String) (s : ExitStatus) :
    failure program tool s = program ++ " exited with " ++ s.text := by
  rw [failure]
  cases htext : Utf8.toString? tool.errors with
  | none => rfl
  | some text =>
    have hblank : Blank.trim text = "" := by
      rw [Blank.trim_eq_empty_iff]
      intro c hc
      cases hb : Blank.isBlank c with
      | true => rfl
      | false => exact absurd ⟨htext, c, hc, hb⟩ (h text)
    rw [Option.map_some, hblank]
    rfl

theorem failure_ne_empty (program : String) (tool : Tool) (s : ExitStatus) :
    failure program tool s ≠ "" := by
  by_cases h : ∃ text, tool.Complains text
  · obtain ⟨text, htext⟩ := h
    obtain ⟨hfail, hne⟩ := failure_of_complaint htext program s
    rwa [hfail]
  · rw [failure_of_silent (fun text htext => h ⟨text, htext⟩)]
    simp

end Failing

variable {t : Tcpdump} {r : Request} {w w₁ : Workshop} {tool : Tool}

/-- What a capture that may complete comes to. -/
def finished (files : Files) (path : String) : Except Error Outcome :=
  if files.isFile path then .ok (.completed path) else .error (.artifactMissing path)

theorem finished_ne_interrupted (files : Files) (path : String) :
    finished files path ≠ .ok .interrupted := by
  unfold finished
  split <;> simp

theorem finished_ne_failed (files : Files) (path reason : String) :
    finished files path ≠ .error (.toolFailed reason) := by
  unfold finished
  split <;> simp

theorem finished_eq_completed {files : Files} {path p : String}
    (h : finished files path = .ok (.completed p)) : p = path ∧ files.isFile p = true := by
  unfold finished at h
  split at h
  · next hfile =>
    cases h
    exact ⟨rfl, hfile⟩
  · cases h

/-- What a capture comes to by the end of the wait. -/
def outcome (program : String) (tool : Tool) (files : Files) (path : String) :
    Waited → Except Error Outcome
  | .cancelled => .ok .interrupted
  | .elapsed => finished files path
  | .exited s =>
    if s.isSuccess then finished files path
    else .error (.toolFailed (failure program tool s))

theorem capture_eq (cancelled : Cancellation)
    (started : w.start (t.commandLine r (Artifact.path r.directory w.now)) = (.ok tool, w₁)) :
    let path := Artifact.path r.directory w.now
    (t.capture r cancelled w).1 = outcome ((t.commandLine r path).headD "") tool w₁.files path
      (wait tool r.duration cancelled).1 ∧
    (t.capture r cancelled w).2.files = w₁.files := by
  rw [capture, started]
  dsimp only
  obtain ⟨waited, time⟩ := wait tool r.duration cancelled
  cases waited with
  | cancelled => exact ⟨rfl, rfl⟩
  | elapsed => exact ⟨rfl, rfl⟩
  | exited s =>
    dsimp only [outcome]
    split
    · exact ⟨rfl, rfl⟩
    · exact ⟨rfl, rfl⟩

/-- What comes first decides what a capture comes to. -/
theorem outcome_cases {cancelled : Cancellation} {window : Nat}
    (apart : Apart cancelled window tool) (program : String) (files : Files) (path : String) :
    let result := outcome program tool files path (wait tool window cancelled).1
    (CancelledFirst cancelled window tool ∧ result = .ok .interrupted) ∨
    (¬CancelledFirst cancelled window tool ∧ ExitsFirst cancelled window tool ∧
      tool.status ≠ .exited 0 ∧
      result = .error (.toolFailed (failure program tool tool.status))) ∨
    ¬CancelledFirst cancelled window tool ∧
      (ExitsFirst cancelled window tool → tool.status = .exited 0) ∧
      result = finished files path := by
  intro result
  have hwait := wait_watched apart
  simp only [result]
  generalize (wait tool window cancelled).1 = waited at hwait ⊢
  cases hwait with
  | cancelled first => exact .inl ⟨first, rfl⟩
  | exited first =>
    have uncancelled : ¬CancelledFirst cancelled window tool := fun h => h.not_exitsFirst first
    by_cases hs : tool.status = .exited 0
    · have hsuccess : tool.status.isSuccess = true := by
        rw [hs]
        rfl
      exact .inr (.inr ⟨uncancelled, fun _ => hs, if_pos hsuccess⟩)
    · have hfailure : ¬tool.status.isSuccess = true := by simpa [ExitStatus.isSuccess] using hs
      exact .inr (.inl ⟨uncancelled, first, hs, if_neg hfailure⟩)
  | elapsed uncancelled running =>
    exact .inr (.inr ⟨uncancelled, fun h => absurd h running, rfl⟩)

/-- A tool was started and no two things that can end the wait for it come at once. Then the capture
is interrupted just if the cancellation comes first; it fails just if the tool ends first and badly,
and tells the tool's complaint, or else which program ended how; and in all other cases it completes
with the file that was asked for, or misses it. The tool ends after its lifetime, unless it writes
more on standard error than a pipe holds; then it does not end by itself. -/
theorem capture_exact {t : Tcpdump} {r : Request} {cancelled : Cancellation} {w w₁ : Workshop}
    {tool : Tool}
    (started : w.start (t.commandLine r (Artifact.path r.directory w.now)) = (.ok tool, w₁))
    (apart : Apart cancelled r.duration tool) :
    let path := Artifact.path r.directory w.now
    let program := if r.useSudo then "sudo" else t.program
    let result := (t.capture r cancelled w).1
    let left := (t.capture r cancelled w).2.files
    (∃ switches, t.commandLine r path = program :: switches ++ ["-w", path] ++ r.filter.arguments) ∧
    (result = .ok .interrupted ↔ CancelledFirst cancelled r.duration tool) ∧
    ((∃ reason, result = .error (.toolFailed reason)) ↔
      ExitsFirst cancelled r.duration tool ∧ tool.status ≠ .exited 0) ∧
    (∀ reason, result = .error (.toolFailed reason) → reason ≠ "" ∧
      (∀ text, tool.Complains text → reason = Blank.trim text) ∧
      ((∀ text, ¬tool.Complains text) → reason = program ++ " exited with " ++ tool.status.text)) ∧
    (¬CancelledFirst cancelled r.duration tool →
      (ExitsFirst cancelled r.duration tool → tool.status = .exited 0) →
      result = if left.isFile path then .ok (.completed path) else .error (.artifactMissing path)) ∧
    (∀ p, result = .ok (.completed p) → p = path ∧ left.isFile p = true) ∧
    exitTime? tool = if tool.errors.length ≤ 65536 then some tool.lifetime else none := by
  intro path program result left
  have hprogram : (t.commandLine r path).headD "" = program := by
    simp only [commandLine, program]
    split <;> rfl
  obtain ⟨hresult, hleft⟩ := capture_eq cancelled started
  rw [hprogram] at hresult
  change result = _ at hresult
  change left = _ at hleft
  rw [hresult, hleft]
  have hswitches : ∃ switches, t.commandLine r path =
      program :: switches ++ ["-w", path] ++ r.filter.arguments := by
    refine ⟨(if r.useSudo then [t.program] else []) ++ ["-v", "-i", r.interface], ?_⟩
    simp only [commandLine, program]
    split <;> rfl
  refine ⟨hswitches, ?_⟩
  obtain ⟨first, hcase⟩ | ⟨uncancelled, first, hs, hcase⟩ | ⟨uncancelled, well, hcase⟩ :=
    outcome_cases apart program w₁.files path
  · rw [hcase]
    exact ⟨iff_of_true rfl first, iff_of_false (by simp) fun h => first.not_exitsFirst h.1,
      by simp, fun h => absurd first h, by simp, rfl⟩
  · rw [hcase]
    refine ⟨iff_of_false (by simp) uncancelled, iff_of_true ⟨_, rfl⟩ ⟨first, hs⟩, ?_,
      fun _ h => absurd (h first) hs, by simp, rfl⟩
    intro reason h
    obtain rfl : failure program tool tool.status = reason := by simpa using h
    exact ⟨failure_ne_empty _ _ _, fun text htext => (failure_of_complaint htext _ _).1,
      fun silent => failure_of_silent silent _ _⟩
  · rw [hcase]
    refine ⟨iff_of_false (finished_ne_interrupted _ _) uncancelled, iff_of_false ?_ ?_,
      fun reason h => absurd h (finished_ne_failed _ _ reason), fun _ _ => rfl,
      fun p h => finished_eq_completed h, rfl⟩
    · rintro ⟨reason, h⟩
      exact finished_ne_failed _ _ reason h
    · rintro ⟨first, hs⟩
      exact hs (well first)

/-- A place to capture in, where one tool can be started. -/
def oneTool (tool : Tool) : Workshop where
  now := ⟨2026, 1, 2, 3, 4, 5⟩
  files := { nodes := [(["d"], .directory)] }
  programs := [("tcpdump", tool)]

def briefRequest : Request where
  interface := "any"
  duration := 300
  filter := ⟨"camera", []⟩
  directory := "/d"
  useSudo := false

def briefArguments : List String :=
  ({} : Tcpdump).commandLine briefRequest "/d/camera_capture_20260102_030405.pcap"

theorem oneTool_path (tool : Tool) : Artifact.path briefRequest.directory (oneTool tool).now =
    "/d/camera_capture_20260102_030405.pcap" := by
  change Artifact.path "/d" ⟨2026, 1, 2, 3, 4, 5⟩ = _
  decide +kernel

theorem oneTool_start (tool : Tool) : ((oneTool tool).start briefArguments).1 = .ok tool := rfl

theorem oneTool_started (tool : Tool) :
    (oneTool tool).start (({} : Tcpdump).commandLine briefRequest
      (Artifact.path briefRequest.directory (oneTool tool).now)) =
    (.ok tool, ((oneTool tool).start briefArguments).2) := by
  rw [oneTool_path, ← oneTool_start tool]
  rfl

/-- A tool that leaves a file, complains and ends badly. -/
def complaining : Tool where
  contents := some [0]
  errors := Utf8.ofString " bad filter\n"
  lifetime := 5
  status := .exited 3

theorem capture_exact_complaining :
    (oneTool complaining).start (({} : Tcpdump).commandLine briefRequest
      (Artifact.path briefRequest.directory (oneTool complaining).now)) =
      (.ok complaining, ((oneTool complaining).start briefArguments).2) ∧
    Apart (.after 400) briefRequest.duration complaining ∧
    (({} : Tcpdump).capture briefRequest (.after 400) (oneTool complaining)).1 =
      .error (.toolFailed "bad filter") ∧
    ((oneTool complaining).start briefArguments).2.files.isFile
      "/d/camera_capture_20260102_030405.pcap" = true := by
  have started := oneTool_started complaining
  have hexit : exitTime? complaining = some 5 := by decide +kernel
  have apart : Apart (.after 400) briefRequest.duration complaining := by
    refine ⟨by decide, by rw [hexit]; decide, fun time htime => ?_⟩
    cases htime
    rw [hexit]
    decide
  obtain ⟨-, -, hfails, hreason, -⟩ := capture_exact started apart
  have first : ExitsFirst (.after 400) briefRequest.duration complaining := by
    refine ⟨5, hexit, by decide, fun time htime => ?_⟩
    cases htime
    decide
  have complaint : complaining.Complains " bad filter\n" := by
    refine ⟨by decide +kernel, 'b', ?_, ?_⟩ <;> decide +kernel
  obtain ⟨reason, h⟩ := hfails.2 ⟨first, by decide⟩
  obtain rfl := (hreason reason h).2.1 _ complaint
  have htrim : Blank.trim " bad filter\n" = "bad filter" := by decide +kernel
  exact ⟨started, apart, htrim ▸ h, by decide +kernel⟩

/-- A tool that would end badly after a millisecond, but first writes more than a pipe holds. -/
def flooding : Tool where
  contents := some [0]
  errors := Utf8.ofString "bad filter" ++ List.replicate 65536 10
  lifetime := 1
  status := .exited 1

theorem exitTime?_flooding : exitTime? flooding = none := by
  have hlong : ¬flooding.errors.length ≤ pipeLimit := by
    rw [flooding, List.length_append, List.length_replicate]
    decide
  exact if_neg hlong

/-- It is taken to have done well. -/
theorem capture_flooding :
    flooding.lifetime < briefRequest.duration ∧ flooding.status ≠ .exited 0 ∧
    (({} : Tcpdump).capture briefRequest .never (oneTool flooding)).1 =
      .ok (.completed "/d/camera_capture_20260102_030405.pcap") := by
  refine ⟨by decide, by decide, ?_⟩
  have hwait : wait flooding briefRequest.duration .never = (.elapsed, briefRequest.duration) := by
    rw [wait, ownEnd, exitTime?_flooding]
  have hfile : ((oneTool flooding).start briefArguments).2.files.isFile
      "/d/camera_capture_20260102_030405.pcap" = true := by decide +kernel
  rw [(capture_eq .never (oneTool_started flooding)).1, hwait, oneTool_path]
  exact if_pos hfile

end Tcpdump

end CameraChannel.Capture
