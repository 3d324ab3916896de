import CameraChannel.Capture.Artifact

/-!
Moments in time: the seconds of the Gregorian calendar counted from the start of year 0. Main
statement: what comes first on the calendar, by year, month, day and so on, comes first in time.
-/
namespace CameraChannel.Capture.Moment

def daysInYear (year : Int) : Nat := if isLeap year then 366 else 365

/-- The days from the start of year 0 to the start of a year. -/
def daysBeforeYear (year : Int) : Int :=
  365 * year + (year + 3) / 4 - (year + 99) / 100 + (year + 399) / 400

/-- The days of a year before its month. -/
def daysBeforeMonth (year : Int) : Nat → Nat
  | 0 => 0
  | 1 => 0
  | m + 2 => daysBeforeMonth year (m + 1) + daysIn year (m + 1)

/-- The days from the start of year 0. -/
def days (t : Moment) : Int := daysBeforeYear t.year + daysBeforeMonth t.year t.month + (t.day - 1)

/-- The seconds from the start of year 0. -/
def seconds (t : Moment) : Int := ((t.days * 24 + t.hour) * 60 + t.minute) * 60 + t.second

theorem daysBeforeYear_succ (y : Int) :
    daysBeforeYear (y + 1) = daysBeforeYear y + daysInYear y := by
  have hleap : isLeap y = true ↔ y % 4 = 0 ∧ (y % 100 ≠ 0 ∨ y % 400 = 0) := by simp [isLeap]
  rw [daysBeforeYear, daysBeforeYear, daysInYear]
  by_cases h : isLeap y = true
  · rw [if_pos h]
    rw [hleap] at h
    omega
  · rw [if_neg h]
    rw [hleap] at h
    omega

theorem daysBeforeYear_le {y z : Int} (h : y ≤ z) : daysBeforeYear y ≤ daysBeforeYear z := by
  obtain ⟨n, rfl⟩ := Int.le.dest h
  clear h
  induction n with
  | zero => simp
  | succ n ih =>
    have := daysBeforeYear_succ (y + n)
    rw [Int.add_assoc] at this
    push_cast
    omega

/-- The months of a year follow one another and fill it. -/
theorem daysBeforeMonth_lt (y : Int) {m n : Nat} (hm : 1 ≤ m) (h : m < n) :
    daysBeforeMonth y m + daysIn y m ≤ daysBeforeMonth y n := by
  induction n with
  | zero => omega
  | succ n ih =>
    obtain ⟨k, rfl⟩ : ∃ k, n = k + 1 := ⟨n - 1, by omega⟩
    rw [daysBeforeMonth]
    by_cases hmk : m = k + 1
    · subst hmk
      exact Nat.le_refl _
    · have := ih (by omega)
      omega

theorem daysBeforeMonth_year (y : Int) : daysBeforeMonth y 13 = daysInYear y := by
  simp only [daysBeforeMonth, daysIn, daysInYear]
  split <;> rfl

/-- The order of the calendar within a year: by month, then by day, and so on. -/
def PrecedesInYear (t u : Moment) : Prop :=
  t.month < u.month ∨ t.month = u.month ∧ (t.day < u.day ∨ t.day = u.day ∧
    (t.hour < u.hour ∨ t.hour = u.hour ∧
      (t.minute < u.minute ∨ t.minute = u.minute ∧ t.second < u.second)))

/-- The order of the calendar. -/
def Precedes (t u : Moment) : Prop := t.year < u.year ∨ t.year = u.year ∧ t.PrecedesInYear u

theorem precedes_total (t u : Moment) : t = u ∨ t.Precedes u ∨ u.Precedes t := by
  obtain ⟨y, mo, d, h, mi, s⟩ := t
  obtain ⟨y', mo', d', h', mi', s'⟩ := u
  simp only [mk.injEq, Precedes, PrecedesInYear]
  omega

variable {t u : Moment}

theorem IsValid.day_of_year (ht : t.IsValid) :
    daysBeforeMonth t.year t.month + t.day ≤ daysInYear t.year := by
  obtain ⟨-, -, hm, hm', -, hd, -⟩ := ht
  have := daysBeforeMonth_lt t.year hm (show t.month < 13 by omega)
  rw [daysBeforeMonth_year] at this
  omega

/-- An earlier day has fewer days before it. -/
theorem days_lt (ht : t.IsValid) (hu : u.IsValid) (h : t.year < u.year ∨ t.year = u.year ∧
    (t.month < u.month ∨ t.month = u.month ∧ t.day < u.day)) : t.days < u.days := by
  have hyear := ht.day_of_year
  obtain ⟨-, -, hm, -, -, hd, -⟩ := ht
  obtain ⟨-, -, -, -, hd', -⟩ := hu
  rw [days, days]
  obtain hy | ⟨hy, h⟩ := h
  · have hsucc := daysBeforeYear_succ t.year
    have hle := daysBeforeYear_le (show t.year + 1 ≤ u.year by omega)
    omega
  · rw [← hy]
    obtain hlt | ⟨he, hlt⟩ := h
    · have := daysBeforeMonth_lt t.year hm hlt
      omega
    · rw [← he]
      omega

theorem seconds_lt (ht : t.IsValid) (hu : u.IsValid) (h : t.Precedes u) :
    t.seconds < u.seconds := by
  have hlt := days_lt ht hu
  have hday : t.year = u.year → t.month = u.month → t.day = u.day → t.days = u.days := by
    intro hy hm hd
    rw [days, days, hy, hm, hd]
  obtain ⟨-, -, -, -, -, -, hh, hmi, hs⟩ := ht
  obtain ⟨-, -, -, -, -, -, hh', hmi', hs'⟩ := hu
  rw [Precedes, PrecedesInYear] at h
  rw [seconds, seconds]
  omega

/-- The order of the calendar is the order of time. -/
theorem seconds_lt_iff (ht : t.IsValid) (hu : u.IsValid) :
    t.seconds < u.seconds ↔ t.Precedes u := by
  refine ⟨fun h => ?_, seconds_lt ht hu⟩
  obtain rfl | hp | hp := precedes_total t u
  · exact absurd h (Int.lt_irrefl _)
  · exact hp
  · exact absurd (seconds_lt hu ht hp) (Int.lt_asymm h)

end CameraChannel.Capture.Moment
