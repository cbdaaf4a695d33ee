import Conduit.Proofs.Clock.Calendar
import Conduit.Proofs.Eval.Alike
import Conduit.Proofs.Text.Decimal
import Conduit.Proofs.Value.Order

/-!
# The order of timestamps

A timestamp is written in places of one width each, the widest span first: the
date, then hours, minutes, seconds and milliseconds. For years of four places it
is the text of a number of milliseconds, and these texts are in the order of the
numbers. An offset is taken off before anything is written, so it does not matter
what time it was where the clock stands.
-/

namespace Conduit

namespace Moment

open Text

variable {m n : Nat}

/-! ## The places of a timestamp -/

/-- The text of a date that is given by its index. -/
def indexText (index : Nat) : List Char :=
  lastDigits 4 (index / 100 / 100) ++ ['-'] ++ lastDigits 2 (index / 100 % 100) ++ ['-'] ++
    lastDigits 2 (index % 100)

theorem sorts_indexText : Sorts 100000000 indexText :=
  ((((sorts_lastDigits 4).append ['-']).pair (sorts_lastDigits 2)).append ['-']).pair
    (sorts_lastDigits 2)

/-- The text of a number of milliseconds since midnight. -/
def clockText (n : Nat) : List Char :=
  lastDigits 2 (n / 1000 / 60 / 60) ++ [':'] ++ lastDigits 2 (n / 1000 / 60 % 60) ++ [':'] ++
    lastDigits 2 (n / 1000 % 60) ++ ['.'] ++ lastDigits 3 (n % 1000)

theorem sorts_clockText : Sorts 86400000 clockText := by
  have hours : Sorts 24 (lastDigits 2) := (sorts_lastDigits 2).mono (by decide)
  have sixty : Sorts 60 (lastDigits 2) := (sorts_lastDigits 2).mono (by decide)
  exact (((((hours.append [':']).pair sixty).append [':']).pair sixty).append ['.']).pair
    (sorts_lastDigits 3)

/-- The text of a number of milliseconds since the start of the calendar. -/
def stampText (n : Nat) : List Char :=
  indexText (Date.ofDays (n / 86400000)).index ++ ['T'] ++ clockText (n % 86400000) ++ ['Z']

/-- The milliseconds of the calendar. -/
def endOfStamps : Nat := Date.daysBeforeYear (Date.lastYear + 1) * 86400000

theorem index_lt (h : n < Date.daysBeforeYear (Date.lastYear + 1)) :
    (Date.ofDays n).index < 100000000 := by
  have hvalid := (Date.ofDays_valid n).1
  have hyear : (Date.ofDays n).year < Date.lastYear + 1 :=
    Nat.lt_of_not_le fun hle => Nat.not_le_of_lt h (Date.le_year_ofDays_iff.mp hle)
  have hmonth := hvalid.month_le
  have hday := hvalid.day_lt
  unfold Date.index
  unfold Date.lastYear at hyear
  omega

theorem sorts_stampText : Sorts endOfStamps stampText := by
  have hdates : Sorts (Date.daysBeforeYear (Date.lastYear + 1)) fun day =>
      indexText (Date.ofDays day).index :=
    sorts_indexText.comp Date.index_ofDays_lt index_lt
  exact ((hdates.append ['T']).pair sorts_clockText).append ['Z']

/-! ## The text of a moment -/

theorem toList_dateText {d : Date} (h : d.IsValid) (hfirst : 1000 ≤ d.year)
    (hlast : d.year ≤ Date.lastYear) :
    (toString d.year ++ "-" ++ padded 2 d.month ++ "-" ++ padded 2 d.day).toList =
      indexText d.index := by
  have hmonth := h.month_le
  have hday := h.day_lt
  have hindex : d.index % 100 = d.day ∧ d.index / 100 % 100 = d.month ∧
      d.index / 100 / 100 = d.year := by
    unfold Date.index
    omega
  have hyear : (toString d.year).toList = lastDigits 4 d.year :=
    toList_toString_places 2 hfirst (Nat.lt_succ_of_le hlast)
  have hmonthText : (padded 2 d.month).toList = lastDigits 2 d.month :=
    toList_padded 1 (Nat.lt_of_le_of_lt hmonth (by decide))
  have hdayText : (padded 2 d.day).toList = lastDigits 2 d.day :=
    toList_padded 1 (Nat.lt_trans hday (by decide))
  simp only [String.toList_append, hyear, hmonthText, hdayText, indexText, hindex]
  rfl

theorem toList_timeText (m : Moment) :
    (m.timeText ++ "." ++ padded 3 (m.fraction / 1000)).toList =
      clockText (m.ticks / 1000 % 86400000) := by
  have hseconds : m.ticks % ticksPerDay / ticksPerSecond = m.ticks / 1000 % 86400000 / 1000 := by
    unfold ticksPerDay ticksPerSecond
    omega
  have hfraction : m.fraction / 1000 = m.ticks / 1000 % 86400000 % 1000 := by
    unfold fraction ticksPerSecond
    omega
  obtain ⟨n, hn⟩ : ∃ n, n = m.ticks / 1000 % 86400000 := ⟨_, rfl⟩
  have hhours : (padded 2 (n / 1000 / 3600)).toList = lastDigits 2 (n / 1000 / 60 / 60) := by
    rw [Nat.div_div_eq_div_mul (n / 1000)]
    exact toList_padded 1 (by show n / 1000 / 3600 < 100; omega)
  have hminutes : (padded 2 (n / 1000 / 60 % 60)).toList = lastDigits 2 (n / 1000 / 60 % 60) :=
    toList_padded 1 (Nat.lt_trans (Nat.mod_lt _ (by decide)) (by decide))
  have hsecondsText : (padded 2 (n / 1000 % 60)).toList = lastDigits 2 (n / 1000 % 60) :=
    toList_padded 1 (Nat.lt_trans (Nat.mod_lt _ (by decide)) (by decide))
  have hfractionText : (padded 3 (n % 1000)).toList = lastDigits 3 (n % 1000) :=
    toList_padded 2 (Nat.mod_lt _ (by decide))
  rw [timeText, hseconds, hfraction, ← hn]
  simp only [String.toList_append, hhours, hminutes, hsecondsText, hfractionText, clockText]
  rfl

theorem toList_stamp (m : Moment) (hfirst : 1000 ≤ m.date.year)
    (hlast : m.date.year ≤ Date.lastYear) : m.stamp.toList = stampText (m.ticks / 1000) := by
  have hdays : m.ticks / 1000 / 86400000 = m.ticks / ticksPerDay := by
    unfold ticksPerDay ticksPerSecond
    omega
  have hvalid : m.date.IsValid := (Date.ofDays_valid _).1
  have hdate := toList_dateText hvalid hfirst hlast
  have htime := toList_timeText m
  rw [stampText, hdays, ← htime]
  change _ = indexText m.date.index ++ _ ++ _ ++ _
  rw [← hdate, stamp]
  simp only [String.toList_append, List.append_assoc]
  rfl

/-! ## Instants -/

/-- The microsecond of universal time that a moment is; a clock of unknown offset
shows universal time. -/
def instant (m : Moment) : Int := (m.ticks : Int) - m.offset.getD 0

/-- In universal time, a moment of a year of four places. -/
def HasLongYear (m : Moment) : Prop :=
  (Date.daysBeforeYear 1000 * ticksPerDay : Nat) ≤ m.instant ∧ m.instant < endOfTime

instance (m : Moment) : Decidable m.HasLongYear :=
  inferInstanceAs (Decidable (_ ∧ _))

variable {m m' : Moment}

/-- The text of a moment is that of its millisecond. -/
theorem HasLongYear.now_eq (h : m.HasLongYear) :
    ∃ t n, m.now = .ok t ∧ t.toList = stampText n ∧ (n : Int) = m.instant / 1000 ∧
      n < endOfStamps := by
  obtain ⟨hfirst, hlast⟩ := h
  obtain ⟨ticks, hticks⟩ : ∃ ticks : Nat, m.instant = ticks := Int.eq_ofNat_of_zero_le (by omega)
  have huniversal : m.universal = .ok ⟨ticks, some 0⟩ := by
    have hinside : 0 ≤ m.instant ∧ m.instant < endOfTime := by omega
    have hnat : m.instant.toNat = ticks := by omega
    rw [← hnat]
    exact if_pos hinside
  rw [hticks, Int.ofNat_le] at hfirst
  rw [hticks, Int.ofNat_lt] at hlast
  have hperDay : 0 < ticksPerDay := by decide
  have hyear : 1000 ≤ (date ⟨ticks, some 0⟩).year :=
    Date.le_year_ofDays_iff.mpr ((Nat.le_div_iff_mul_le hperDay).mpr hfirst)
  have hyear' : (date ⟨ticks, some 0⟩).year ≤ Date.lastYear := by
    refine Nat.le_of_not_lt fun hlater => Nat.not_le_of_lt hlast ?_
    exact (Nat.le_div_iff_mul_le hperDay).mp (Date.le_year_ofDays_iff.mp hlater)
  refine ⟨stamp ⟨ticks, some 0⟩, ticks / 1000, ?_, toList_stamp _ hyear hyear', ?_, ?_⟩
  · rw [now, huniversal]
    rfl
  · rw [hticks]
    omega
  · unfold endOfTime ticksPerDay ticksPerSecond at hlast
    unfold endOfStamps
    omega

/-- The texts of two moments are in the order of their milliseconds. -/
theorem HasLongYear.now_sorts (h : m.HasLongYear) (h' : m'.HasLongYear) :
    ∃ t t', m.now = .ok t ∧ m'.now = .ok t' ∧
      (t = t' ↔ m.instant / 1000 = m'.instant / 1000) ∧
      (t < t' ↔ m.instant / 1000 < m'.instant / 1000) := by
  obtain ⟨t, n, hnow, htext, hn, hbound⟩ := h.now_eq
  obtain ⟨t', n', hnow', htext', hn', hbound'⟩ := h'.now_eq
  refine ⟨t, t', hnow, hnow', ?_, ?_⟩
  · rw [← String.toList_inj, htext, htext', sorts_stampText.eq_iff hbound hbound', ← hn, ← hn',
      Int.ofNat_inj]
  · rw [String.lt_iff, htext, htext', sorts_stampText.lt_iff hbound hbound', ← hn, ← hn',
      Int.ofNat_lt]

end Moment

namespace Expr

variable {σ τ : Type}

theorem run_now {host : Host σ} {w : World σ} {m : Moment} {t : String} (s : Scope)
    (hm : (host.clock w.outside).1 = .ok m) (h : m.now = .ok t) :
    ((eval host .now s).run.run w).1 = .ok (.str t) := by
  have hresult : (Operation.timestamp (host.clock w.outside).1).result = .ok (.str t) := by
    rw [hm, Operation.result]
    dsimp only [bind, Except.bind]
    rw [h]
    rfl
  rw [eval, Action.run_bind, Action.run_readClock]
  refine (Action.run_perform _ _).trans ?_
  rw [hresult]
  rfl

/-- Two clocks that show years of four places, each with an offset of its own or
with none: the texts of the two readings are one text just if the readings are of
one millisecond, and else that of the earlier one is less. -/
theorem eval_now_sorts (host : Host σ) (host' : Host τ) (s s' : Scope) (w : World σ) (w' : World τ)
    {m m' : Moment} (hm : (host.clock w.outside).1 = .ok m)
    (hm' : (host'.clock w'.outside).1 = .ok m') (h : m.HasLongYear) (h' : m'.HasLongYear) :
    ∃ t t', ((eval host .now s).run.run w).1 = .ok (.str t) ∧
      ((eval host' .now s').run.run w').1 = .ok (.str t') ∧
      (t = t' ↔ m.instant / 1000 = m'.instant / 1000) ∧
      ((Value.str t).compare (.str t') = .ok .lt ↔ m.instant / 1000 < m'.instant / 1000) := by
  obtain ⟨t, t', hnow, hnow', heq, hlt⟩ := h.now_sorts h'
  refine ⟨t, t', run_now s hm hnow, run_now s' hm' hnow', heq, ?_⟩
  have hcompare : (Value.str t).compare (.str t') = .ok (Value.compareStrings t t') := rfl
  rw [hcompare, Except.ok.injEq, Value.compareStrings_eq_lt_iff, hlt]

/-- Half an hour before the end of a leap day, an hour behind universal time. -/
def leapEvening : Moment :=
  ⟨Date.toDays ⟨2024, 2, 29⟩ * Moment.ticksPerDay + 84600000000, some (-3600000000)⟩

/-- Half an hour after midnight on the day after it, by a clock of unknown offset. -/
def marchNight (micros : Nat) : Moment :=
  ⟨Date.toDays ⟨2024, 3, 1⟩ * Moment.ticksPerDay + 1800000000 + micros, none⟩

/-- A clock that shows what it is set to. -/
def shownClock : Host Moment := { database := none, clock := fun m => (.ok m, m) }

theorem eval_now_sorts_leapDay :
    leapEvening.HasLongYear ∧ (marchNight 999).HasLongYear ∧ (marchNight 1000).HasLongYear ∧
      ∃ t t' t'',
        ((eval shownClock .now (.ofFields [])).run.run { outside := leapEvening }).1 =
            .ok (.str t) ∧
          ((eval shownClock .now (.ofFields [])).run.run { outside := marchNight 999 }).1 =
            .ok (.str t') ∧
          ((eval shownClock .now (.ofFields [])).run.run { outside := marchNight 1000 }).1 =
            .ok (.str t'') ∧
          t = t' ∧ (Value.str t).compare (.str t'') = .ok .lt ∧ t = "2024-03-01T00:30:00.000Z" := by
  have hevening : leapEvening.HasLongYear := by decide
  have hnight : (marchNight 999).HasLongYear := by decide
  have hlater : (marchNight 1000).HasLongYear := by decide
  obtain ⟨t, t', ht, ht', hsame, -⟩ := eval_now_sorts shownClock shownClock (.ofFields [])
    (.ofFields []) { outside := leapEvening } { outside := marchNight 999 } rfl rfl hevening hnight
  obtain ⟨u, t'', hu, ht'', -, hless⟩ := eval_now_sorts shownClock shownClock (.ofFields [])
    (.ofFields []) { outside := leapEvening } { outside := marchNight 1000 } rfl rfl hevening hlater
  have hsecond : u = t := Value.str.inj (Except.ok.inj (hu.symm.trans ht))
  subst hsecond
  have hwritten : leapEvening.now = .ok "2024-03-01T00:30:00.000Z" := rfl
  have hshown : ((eval shownClock .now (.ofFields [])).run.run { outside := leapEvening }).1 =
      .ok (.str "2024-03-01T00:30:00.000Z") := run_now _ rfl hwritten
  exact ⟨hevening, hnight, hlater, u, t', t'', ht, ht', ht'', hsame.mpr (by decide),
    hless.mpr (by decide), Value.str.inj (Except.ok.inj (ht.symm.trans hshown))⟩

end Expr

end Conduit
