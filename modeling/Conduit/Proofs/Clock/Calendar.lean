import Conduit.Clock.Calendar
import Mathlib.Order.Monotone.Basic

/-!
# Dates and the count of days

Each year begins where the year before it ends, and each month of a year where
the month before it ends. A day of the count falls into one year and one month,
so that its date is counted back to it; and a date that is earlier by its year,
month and day is an earlier day of the count. Hence the dates of two days stand
in the order of the days.
-/

namespace Conduit.Date

variable {m n year : Nat} {d d' : Date}

/-! ## Years -/

def yearLength (year : Nat) : Nat := if isLeap year then 366 else 365

theorem isLeap_iff : isLeap year = true ↔ year % 4 = 0 ∧ (year % 100 ≠ 0 ∨ year % 400 = 0) := by
  simp [isLeap]

theorem daysBeforeYear_succ (h : 0 < year) :
    daysBeforeYear (year + 1) = daysBeforeYear year + yearLength year := by
  rw [daysBeforeYear, daysBeforeYear, yearLength, Nat.add_sub_cancel]
  by_cases hleap : isLeap year = true
  · rw [if_pos hleap]
    obtain ⟨hfour, hcentury⟩ := isLeap_iff.mp hleap
    omega
  · rw [if_neg hleap]
    by_cases hfour : year % 4 = 0
    · have hcommon := not_or.mp fun h => hleap (isLeap_iff.mpr ⟨hfour, h⟩)
      omega
    · have hfours : year / 4 = (year - 1) / 4 := by omega
      have hcenturies : year / 100 = (year - 1) / 100 := by omega
      have hcycles : year / 400 = (year - 1) / 400 := by omega
      rw [hfours, hcenturies, hcycles]
      omega

theorem daysBeforeYear_mono {year' : Nat} (h : year ≤ year') :
    daysBeforeYear year ≤ daysBeforeYear year' := by
  refine monotone_nat_of_le_succ (fun y => ?_) h
  cases y with
  | zero => decide
  | succ y =>
      rw [daysBeforeYear_succ (Nat.succ_pos y)]
      exact Nat.le_add_right _ _

section Cycles

variable {cycles centuries fours single : Nat}

theorem daysBeforeYear_cycles (hcenturies : centuries ≤ 3) (hfours : fours ≤ 24)
    (hsingle : single ≤ 3) :
    daysBeforeYear (cycles * 400 + centuries * 100 + fours * 4 + single + 1) =
      cycles * 146097 + centuries * 36524 + fours * 1461 + single * 365 := by
  rw [daysBeforeYear, Nat.add_sub_cancel]
  omega

/-- The last of four years is a leap year, but not the last of a century, unless
that is the last of the cycle. -/
theorem yearLength_cycles (hcenturies : centuries ≤ 3) (hfours : fours ≤ 24)
    (hsingle : single ≤ 3) :
    yearLength (cycles * 400 + centuries * 100 + fours * 4 + single + 1) =
      if single = 3 ∧ (fours ≠ 24 ∨ centuries = 3) then 366 else 365 := by
  have hfour : (cycles * 400 + centuries * 100 + fours * 4 + single + 1) % 4 = 0 ↔
      single = 3 := by
    omega
  have hcentury : (cycles * 400 + centuries * 100 + fours * 4 + single + 1) % 100 = 0 ↔
      single = 3 ∧ fours = 24 := by
    omega
  have hcycle : (cycles * 400 + centuries * 100 + fours * 4 + single + 1) % 400 = 0 ↔
      single = 3 ∧ fours = 24 ∧ centuries = 3 := by
    omega
  refine if_congr (isLeap_iff.trans ?_) rfl rfl
  rw [hfour, Ne, hcentury, hcycle]
  omega

end Cycles

/-- The year that a day of the count falls into, and its day in that year. -/
theorem ofDays_eq (n : Nat) :
    ∃ year inYear, 0 < year ∧ daysBeforeYear year + inYear = n ∧ inYear < yearLength year ∧
      ofDays n = ⟨year, (monthDay 1 (monthLengths (isLeap year)) inYear).1,
        (monthDay 1 (monthLengths (isLeap year)) inYear).2⟩ := by
  -- The last of four centuries or years is as long as what is left of the cycle.
  obtain ⟨centuries, hcenturies⟩ : ∃ c, c = min 3 (n % 146097 / 36524) := ⟨_, rfl⟩
  obtain ⟨inCentury, hinCentury⟩ : ∃ k, k = n % 146097 - centuries * 36524 := ⟨_, rfl⟩
  obtain ⟨single, hsingle⟩ : ∃ s, s = min 3 (inCentury % 1461 / 365) := ⟨_, rfl⟩
  have hcenturies_le : centuries ≤ 3 := by omega
  have hfours_le : inCentury / 1461 ≤ 24 := by omega
  have hsingle_le : single ≤ 3 := by omega
  refine ⟨n / 146097 * 400 + centuries * 100 + inCentury / 1461 * 4 + single + 1,
    inCentury % 1461 - single * 365, Nat.succ_pos _, ?_, ?_, ?_⟩
  · rw [daysBeforeYear_cycles hcenturies_le hfours_le hsingle_le]
    omega
  · rw [yearLength_cycles hcenturies_le hfours_le hsingle_le]
    split <;> omega
  · subst hsingle hinCentury hcenturies
    rfl

/-! ## Months -/

/-- The days of months of these lengths. -/
def daysIn (lengths : List Nat) : Nat := lengths.foldl (· + ·) 0

theorem daysIn_cons (first : Nat) (rest : List Nat) :
    daysIn (first :: rest) = first + daysIn rest := by
  have hfrom : ∀ (lengths : List Nat) (start : Nat),
      lengths.foldl (· + ·) start = start + daysIn lengths := by
    intro lengths
    induction lengths with
    | nil => exact fun start => rfl
    | cons length lengths ih =>
        intro start
        rw [daysIn, List.foldl_cons, List.foldl_cons, ih, ih (0 + length)]
        omega
  rw [daysIn, List.foldl_cons, hfrom, Nat.zero_add]

/-- The month that a day of the year falls into, and its day in that month. -/
theorem monthDay_eq (lengths : List Nat) (month : Nat) (h : n < daysIn lengths) :
    ∃ before length after, lengths = before ++ length :: after ∧ daysIn before ≤ n ∧
      n - daysIn before < length ∧
      monthDay month lengths n = (month + before.length, n - daysIn before + 1) := by
  induction lengths generalizing month n with
  | nil => exact absurd h (Nat.not_lt_zero n)
  | cons first rest ih =>
      by_cases hfirst : n < first
      · refine ⟨[], first, rest, rfl, Nat.zero_le n, hfirst, ?_⟩
        rw [monthDay, if_pos hfirst]
        rfl
      · rw [daysIn_cons] at h
        obtain ⟨before, length, after, rfl, hbefore, hlength, hday⟩ :=
          ih (n := n - first) (month + 1) (by omega)
        refine ⟨first :: before, length, after, rfl, ?_, ?_, ?_⟩
        · rw [daysIn_cons]
          omega
        · rw [daysIn_cons]
          omega
        · rw [monthDay, if_neg hfirst, hday, daysIn_cons, List.length_cons, Nat.sub_sub]
          congr 1
          omega

theorem daysIn_monthLengths (leap : Bool) :
    daysIn (monthLengths leap) = if leap then 366 else 365 := by
  cases leap <;> rfl

def monthLength (leap : Bool) (month : Nat) : Nat := ((monthLengths leap)[month - 1]?).getD 0

/-- A date that the calendar has. -/
structure IsValid (d : Date) : Prop where
  year_pos : 0 < d.year
  month_pos : 0 < d.month
  month_le : d.month ≤ 12
  day_pos : 0 < d.day
  day_le : d.day ≤ monthLength (isLeap d.year) d.month

/-- The date of a day is one of the calendar, and it is counted back to the day. -/
theorem ofDays_valid (n : Nat) : (ofDays n).IsValid ∧ (ofDays n).toDays = n := by
  obtain ⟨year, inYear, hyear, rfl, hlt, hdate⟩ := ofDays_eq n
  have hinside : inYear < daysIn (monthLengths (isLeap year)) := by
    rw [daysIn_monthLengths]
    exact hlt
  obtain ⟨before, length, after, hlengths, hbefore, hday, hmonth⟩ := monthDay_eq _ 1 hinside
  rw [hdate, hmonth]
  have hcount : (monthLengths (isLeap year)).length = 12 := rfl
  have hindex : 1 + before.length - 1 = before.length := by omega
  refine ⟨⟨hyear, ?_, ?_, Nat.succ_pos _, ?_⟩, ?_⟩
  · exact Nat.add_pos_left Nat.one_pos _
  · rw [hlengths, List.length_append, List.length_cons] at hcount
    show 1 + before.length ≤ 12
    omega
  · show inYear - daysIn before + 1 ≤ _
    rw [monthLength, hindex, hlengths, List.getElem?_append_right (Nat.le_refl _), Nat.sub_self]
    exact hday
  · show daysBeforeYear year + daysBeforeMonth (isLeap year) (1 + before.length) +
      (inYear - daysIn before + 1 - 1) = daysBeforeYear year + inYear
    rw [daysBeforeMonth, hindex, hlengths, List.take_left]
    show daysBeforeYear year + daysIn before + (inYear - daysIn before) = _
    omega

/-! ## The order of dates -/

/-- A date as one number, with two places each for its month and its day. -/
def index (d : Date) : Nat := (d.year * 100 + d.month) * 100 + d.day

theorem monthLength_le (leap : Bool) : ∀ month ≤ 12, monthLength leap month ≤ 31 := by
  cases leap <;> decide

theorem IsValid.day_lt (h : d.IsValid) : d.day < 32 :=
  Nat.lt_succ_of_le (Nat.le_trans h.day_le (monthLength_le _ _ h.month_le))

/-- A month ends before a later one begins. -/
theorem daysBeforeMonth_le (leap : Bool) :
    ∀ month' ≤ 12, ∀ month < month', 0 < month →
      daysBeforeMonth leap month + monthLength leap month ≤ daysBeforeMonth leap month' := by
  cases leap <;> decide

/-- A month ends with its year at the latest. -/
theorem daysBeforeMonth_le_year (leap : Bool) :
    ∀ month ≤ 12, 0 < month →
      daysBeforeMonth leap month + monthLength leap month ≤ if leap then 366 else 365 := by
  cases leap <;> decide

theorem daysBeforeYear_le_toDays (d : Date) : daysBeforeYear d.year ≤ d.toDays :=
  Nat.le_trans (Nat.le_add_right _ _) (Nat.le_add_right _ _)

theorem IsValid.toDays_lt (h : d.IsValid) : d.toDays < daysBeforeYear (d.year + 1) := by
  have hmonth := daysBeforeMonth_le_year (isLeap d.year) _ h.month_le h.month_pos
  have hday := h.day_le
  have hpos := h.day_pos
  rw [daysBeforeYear_succ h.year_pos, toDays, yearLength]
  omega

theorem IsValid.toDays_le (h : d.IsValid) (h' : d'.IsValid) (hle : d.index ≤ d'.index) :
    d.toDays ≤ d'.toDays := by
  have hyears : d.year < d'.year ∨ d.year = d'.year ∧ (d.month < d'.month ∨
      d.month = d'.month ∧ d.day ≤ d'.day) := by
    have hmonth := h.month_le
    have hmonth' := h'.month_le
    have hday := h.day_lt
    have hday' := h'.day_lt
    unfold index at hle
    omega
  rcases hyears with hyear | ⟨hyear, hmonth | ⟨hmonth, hday⟩⟩
  · calc d.toDays ≤ daysBeforeYear (d.year + 1) := Nat.le_of_lt h.toDays_lt
      _ ≤ daysBeforeYear d'.year := daysBeforeYear_mono hyear
      _ ≤ d'.toDays := daysBeforeYear_le_toDays d'
  · have hends := daysBeforeMonth_le (isLeap d.year) _ h'.month_le _ hmonth h.month_pos
    have hday := h.day_le
    rw [toDays, toDays, ← hyear]
    omega
  · rw [toDays, toDays, ← hyear, ← hmonth]
    omega

/-- The dates of two days stand in the order of the days. -/
theorem index_ofDays_lt (h : m < n) : (ofDays m).index < (ofDays n).index := by
  obtain ⟨hm, hdays⟩ := ofDays_valid m
  obtain ⟨hn, hdays'⟩ := ofDays_valid n
  refine Nat.lt_of_not_le fun hle => ?_
  have hback := hn.toDays_le hm hle
  omega

theorem le_year_ofDays_iff : year ≤ (ofDays n).year ↔ daysBeforeYear year ≤ n := by
  obtain ⟨hvalid, hdays⟩ := ofDays_valid n
  have hfirst := daysBeforeYear_le_toDays (ofDays n)
  have hlast := hvalid.toDays_lt
  rw [hdays] at hfirst hlast
  refine ⟨fun h => Nat.le_trans (daysBeforeYear_mono h) hfirst, fun h => ?_⟩
  refine Nat.le_of_not_lt fun hyear => ?_
  have hnext : daysBeforeYear ((ofDays n).year + 1) ≤ daysBeforeYear year :=
    daysBeforeYear_mono hyear
  omega

end Conduit.Date
