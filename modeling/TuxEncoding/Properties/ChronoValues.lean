import TuxEncoding.Codec.Chrono

/-!
# Chrono values that survive storage

* `survives_iff`: a type that is stored through a raw type survives where the raw form of the value
  is accepted as that value.
* `NaiveDate.survives_iff`, `DateTimeFixed.survives_iff`: a date survives when its year fits sixteen
  bits; an instant when its UTC date does and no minute would have to end in its leap second.
* `NaiveDate.comesBack_iff`, `DateTimeFixed.comesBack_iff`: the conversions lose the same years,
  unless the day happens not to exist in the year that is left of them.
* `chrono_values_survive_iff` puts the four together, for every `chrono` that keeps its word.
-/

set_option linter.unusedSectionVars false

namespace TuxEncoding

open Chrono

/-! ## What is asked of a value -/

/-- `write_to_bytes` refuses the value, or `read_from_reader` decodes its bytes to it. -/
def Survives {α : Type} [TuxIOType α] [WritableObjectType α] [ReadableObjectType α] (a : α) :
    Prop :=
  (∃ e, writeToBytes a = .error e) ∨
    ∃ bytes c, writeToBytes a = .ok bytes ∧ readFromReader ⟨bytes, 0⟩ = .ok (a, c)

/-- Converted to its raw form and back, the value is there again or is refused. -/
def ComesBack {α ρ ε : Type} (toRaw : α → ρ) (tryFrom : ρ → Except ε α) (a : α) : Prop :=
  tryFrom (toRaw a) = .ok a ∨ ∃ e, tryFrom (toRaw a) = .error e

section stored

variable {α ρ : Type} [TuxIOType α] [WritableObjectType α] [ReadableObjectType α]
  [TuxIOType ρ] [WritableObjectType ρ] [ReadableObjectType ρ] [Codec ρ]

/-- A value that is written as its raw form and read by accepting a raw form. -/
lemma survives_iff {f : α → ρ} {g : ρ → Option α} {a : α} (hfit : Codec.Fits (f a))
    (hwrite : (writeToWriter a : Encoder Buffer Unit) = writeToWriter (f a))
    (hread : (readFromReader : Decoder α) = (do
      let raw ← readFromReader
      match g raw with
      | some a => return a
      | none => throw .otherDecodingError)) :
    Survives a ↔ g (f a) = some a := by
  have hbytes : writeToBytes a = .ok (Codec.wire (f a)) := by
    rw [← writeToBytes_of_fits hfit]
    simp only [writeToBytes, hwrite]
  have hraw := Codec.readsAs_wire hfit [] []
  rw [List.nil_append, List.append_nil] at hraw
  have hdecode : (readFromReader : Decoder α) ⟨Codec.wire (f a), 0⟩ =
      (match g (f a) with
        | some a => return a
        | none => throw .otherDecodingError : Decoder α)
        ⟨Codec.wire (f a), 0 + (Codec.wire (f a)).length⟩ := by
    rw [hread]
    show (readFromReader _ >>= fun p => _) = _
    rw [show (readFromReader : Decoder ρ) ⟨Codec.wire (f a), 0⟩ = _ from hraw]
    rfl
  constructor
  · rintro (⟨e, he⟩ | ⟨bytes, c, hb, hr⟩)
    · rw [hbytes] at he
      cases he
    · obtain rfl := Except.ok.inj (hbytes.symm.trans hb)
      rw [hdecode] at hr
      rcases hg : g (f a) with _ | a'
      · rw [hg] at hr
        cases hr
      · rw [hg] at hr
        exact congrArg some (congrArg Prod.fst (Except.ok.inj hr))
  · intro hg
    rw [hg] at hdecode
    exact Or.inr ⟨_, _, hbytes, hdecode⟩

end stored

section chrono

variable [Chrono] [LawfulChrono]

/-! ## Dates -/

/-- A date survives exactly when its year fits the two bytes it is stored in. -/
theorem NaiveDate.survives_iff (date : NaiveDate) : Survives date ↔ YearFits date := by
  have h : Survives date ↔ _ := TuxEncoding.survives_iff (f := RawDate.ofNaiveDate)
    (g := fun raw => fromYmdOpt raw.year.toUInt32.toInt32 raw.month.toUInt32 raw.day.toUInt32)
    trivial rfl <| bind_congr fun raw => by
      rcases fromYmdOpt raw.year.toUInt32.toInt32 raw.month.toUInt32 raw.day.toUInt32 with _ | d
      · rfl
      · rfl
  rw [h, fromYmdOpt_stored, fromYmdOpt_stored_eq_some_iff]

/-- The day of the date exists in the year that is left of its own. -/
def StoredDateExists (date : NaiveDate) : Prop :=
  RealDate (storedYear date) (month date).toNat (day date).toNat

lemma NaiveDate.tryFrom_eq_ok_iff (date date' : NaiveDate) :
    NaiveDate.tryFrom (RawDate.ofNaiveDate date) = .ok date' ↔
      fromYmdOpt ((year date).toUInt32.toUInt16.toUInt32.toInt32) (month date) (day date) =
        some date' := by
  unfold NaiveDate.tryFrom
  rw [fromYmdOpt_stored]
  rcases fromYmdOpt ((year date).toUInt32.toUInt16.toUInt32.toInt32) (month date) (day date) with
    _ | d
  · simp
  · simp

/-- A date comes back exactly when its year fits. -/
lemma NaiveDate.tryFrom_eq_ok_self_iff (date : NaiveDate) :
    NaiveDate.tryFrom (RawDate.ofNaiveDate date) = .ok date ↔ YearFits date := by
  rw [NaiveDate.tryFrom_eq_ok_iff, fromYmdOpt_stored_eq_some_iff]

/-- A date is refused exactly when its day does not exist in the year that is left. -/
lemma NaiveDate.tryFrom_eq_error_iff (date : NaiveDate) :
    (∃ e, NaiveDate.tryFrom (RawDate.ofNaiveDate date) = .error e) ↔ ¬ StoredDateExists date := by
  unfold NaiveDate.tryFrom StoredDateExists
  rw [fromYmdOpt_stored, ← fromYmdOpt_stored_eq_none_iff]
  rcases fromYmdOpt ((year date).toUInt32.toUInt16.toUInt32.toInt32) (month date) (day date) with
    _ | d
  · simp
  · simp

/-- The conversions return a date exactly when its year fits, or refuse it because the day does not
exist in the year that is left. -/
theorem NaiveDate.comesBack_iff (date : NaiveDate) :
    ComesBack RawDate.ofNaiveDate NaiveDate.tryFrom date ↔
      YearFits date ∨ ¬ StoredDateExists date := by
  unfold ComesBack
  rw [NaiveDate.tryFrom_eq_ok_self_iff, NaiveDate.tryFrom_eq_error_iff]

/-! ## Zoned instants -/

/-- The UTC date of an instant. -/
def utcDate (dateTime : DateTimeFixed) : NaiveDate := dateNaive (withTimezoneUtc dateTime)

/-- The UTC time of an instant is one `from_num_seconds_from_midnight_opt` accepts. -/
def UtcTimeFits (dateTime : DateTimeFixed) : Prop :=
  ClockReading (numSecondsFromMidnight (time (withTimezoneUtc dateTime))).toNat
    (nanosecond (time (withTimezoneUtc dateTime))).toNat

/-- The instant is itself again with any date in place of its own exactly when the date is its own.
-/
lemma fromUtcDatetime_eq_iff (dateTime : DateTimeFixed) (date : NaiveDate) :
    fromUtcDatetime (offset dateTime) (newDateTime date (time (withTimezoneUtc dateTime))) =
      dateTime ↔ date = utcDate dateTime := by
  constructor
  · intro h
    rw [utcDate, ← LawfulChrono.dateNaive_fromUtcDatetime (offset dateTime) date
      (time (withTimezoneUtc dateTime)), h]
  · intro h
    apply LawfulChrono.dateTime_ext
    · rw [LawfulChrono.dateNaive_fromUtcDatetime, h, utcDate]
    · rw [LawfulChrono.time_fromUtcDatetime]
    · rw [LawfulChrono.offset_fromUtcDatetime]

/-- A time comes back exactly when it is a clock reading; no other time comes back for it. -/
lemma NaiveTime.tryFrom_eq_ok_iff (t t' : NaiveTime) :
    NaiveTime.tryFrom (RawTime.ofNaiveTime t) = .ok t' ↔
      ClockReading (numSecondsFromMidnight t).toNat (nanosecond t).toNat ∧ t' = t := by
  have hself := fun hclock => fromNumSecondsFromMidnightOpt_self (t := t) hclock
  unfold NaiveTime.tryFrom RawTime.ofNaiveTime
  dsimp only
  rcases ht : fromNumSecondsFromMidnightOpt (numSecondsFromMidnight t) (nanosecond t) with _ | t₁
  · simp only [ht, reduceCtorEq, imp_false] at hself
    simp [hself]
  · have hclock := fromNumSecondsFromMidnightOpt_eq_some ht
    obtain rfl := Option.some.inj (ht.symm.trans (hself hclock))
    simp [hclock, eq_comm]

/-- The conversion back of an instant, one step after the other. -/
lemma DateTimeFixed.tryFrom_ofDateTimeFixed (dateTime : DateTimeFixed) :
    DateTimeFixed.tryFrom (RawDateTime.ofDateTimeFixed dateTime) =
      (NaiveDate.tryFrom (RawDate.ofNaiveDate (utcDate dateTime))).bind fun date =>
        (NaiveTime.tryFrom (RawTime.ofNaiveTime (time (withTimezoneUtc dateTime)))).bind fun t =>
          .ok (fromUtcDatetime (offset dateTime) (newDateTime date t)) := by
  have hzone := FixedOffset.tryFrom_ofFixedOffset (offset dateTime)
  unfold DateTimeFixed.tryFrom
  simp only [RawDateTime.ofDateTimeFixed, hzone]
  rfl

/-- An instant comes back exactly when its UTC date and its UTC time do. -/
lemma DateTimeFixed.tryFrom_eq_ok_iff (dateTime : DateTimeFixed) :
    DateTimeFixed.tryFrom (RawDateTime.ofDateTimeFixed dateTime) = .ok dateTime ↔
      YearFits (utcDate dateTime) ∧ UtcTimeFits dateTime := by
  rw [DateTimeFixed.tryFrom_ofDateTimeFixed]
  constructor
  · intro h
    rcases hdate : NaiveDate.tryFrom (RawDate.ofNaiveDate (utcDate dateTime)) with _ | date
    · rw [hdate] at h
      cases h
    rcases htime : NaiveTime.tryFrom (RawTime.ofNaiveTime (time (withTimezoneUtc dateTime)))
      with _ | t
    · rw [hdate, htime] at h
      cases h
    rw [hdate, htime] at h
    obtain ⟨hclock, rfl⟩ := (NaiveTime.tryFrom_eq_ok_iff _ _).mp htime
    obtain rfl := (fromUtcDatetime_eq_iff dateTime date).mp (Except.ok.inj h)
    exact ⟨(NaiveDate.tryFrom_eq_ok_self_iff _).mp hdate, hclock⟩
  · rintro ⟨hyear, hclock⟩
    rw [(NaiveDate.tryFrom_eq_ok_self_iff _).mpr hyear,
      (NaiveTime.tryFrom_eq_ok_iff _ _).mpr ⟨hclock, rfl⟩]
    exact congrArg Except.ok ((fromUtcDatetime_eq_iff dateTime _).mpr rfl)

/-- An instant is refused exactly when its UTC date or its UTC time is. -/
lemma DateTimeFixed.tryFrom_eq_error_iff (dateTime : DateTimeFixed) :
    (∃ e, DateTimeFixed.tryFrom (RawDateTime.ofDateTimeFixed dateTime) = .error e) ↔
      ¬ StoredDateExists (utcDate dateTime) ∨ ¬ UtcTimeFits dateTime := by
  rw [DateTimeFixed.tryFrom_ofDateTimeFixed, ← NaiveDate.tryFrom_eq_error_iff]
  rcases NaiveDate.tryFrom (RawDate.ofNaiveDate (utcDate dateTime)) with e | date
  · simp [Except.bind]
  · have hok := NaiveTime.tryFrom_eq_ok_iff (time (withTimezoneUtc dateTime))
    rcases htime : NaiveTime.tryFrom (RawTime.ofNaiveTime (time (withTimezoneUtc dateTime)))
      with e | t
    · have hclock : ¬ UtcTimeFits dateTime := fun hclock => by
        have := (hok _).mpr ⟨hclock, rfl⟩
        rw [htime] at this
        cases this
      simp [Except.bind, hclock]
    · simp [Except.bind, UtcTimeFits, ((hok t).mp htime).1]

/-- An instant survives exactly when the year of its UTC date fits the two bytes it is stored in
and its UTC time is not a leap second that no minute ends with. -/
theorem DateTimeFixed.survives_iff (dateTime : DateTimeFixed) :
    Survives dateTime ↔ YearFits (utcDate dateTime) ∧ UtcTimeFits dateTime := by
  have h : Survives dateTime ↔ _ := TuxEncoding.survives_iff (f := RawDateTime.ofDateTimeFixed)
    (g := fun raw => (DateTimeFixed.tryFrom raw).toOption) trivial rfl <| bind_congr fun raw => by
      rcases DateTimeFixed.tryFrom raw with e | dateTime
      · rfl
      · rfl
  rw [h, ← DateTimeFixed.tryFrom_eq_ok_iff]
  rcases DateTimeFixed.tryFrom (RawDateTime.ofDateTimeFixed dateTime) with e | d
  · simp [Except.toOption]
  · simp [Except.toOption]

theorem DateTimeFixed.comesBack_iff (dateTime : DateTimeFixed) :
    ComesBack RawDateTime.ofDateTimeFixed DateTimeFixed.tryFrom dateTime ↔
      (YearFits (utcDate dateTime) ∧ UtcTimeFits dateTime) ∨
        ¬ StoredDateExists (utcDate dateTime) ∨ ¬ UtcTimeFits dateTime := by
  unfold ComesBack
  rw [DateTimeFixed.tryFrom_eq_ok_iff, DateTimeFixed.tryFrom_eq_error_iff]

/-- Which dates and instants of `chrono` survive storage, and which of them the conversions return
or refuse. -/
theorem chrono_values_survive_iff :
    (∀ date : NaiveDate, Survives date ↔ YearFits date) ∧
    (∀ dateTime : DateTimeFixed,
      Survives dateTime ↔ YearFits (utcDate dateTime) ∧ UtcTimeFits dateTime) ∧
    (∀ date : NaiveDate, ComesBack RawDate.ofNaiveDate NaiveDate.tryFrom date ↔
      YearFits date ∨ ¬ StoredDateExists date) ∧
    (∀ dateTime : DateTimeFixed,
      ComesBack RawDateTime.ofDateTimeFixed DateTimeFixed.tryFrom dateTime ↔
      (YearFits (utcDate dateTime) ∧ UtcTimeFits dateTime) ∨
        ¬ StoredDateExists (utcDate dateTime) ∨ ¬ UtcTimeFits dateTime) :=
  ⟨NaiveDate.survives_iff, DateTimeFixed.survives_iff, NaiveDate.comesBack_iff,
    DateTimeFixed.comesBack_iff⟩

end chrono

/-! ## A calendar -/

structure CalendarDate where
  year : Int32
  month : UInt32
  day : UInt32
  inRange : InYearRange year.toInt
  real : RealDate year.toInt month.toNat day.toNat

/-- A leap second may stand in any second of the day: `with_nanosecond` puts it there. -/
structure ClockTime where
  seconds : UInt32
  nanoseconds : UInt32
  seconds_lt : seconds.toNat < 86400
  nanoseconds_lt : nanoseconds.toNat < 2000000000

structure ZoneOffset where
  seconds : Int32
  bounds : -86400 < seconds.toInt ∧ seconds.toInt < 86400

def CalendarDate.fromYmdOpt (y : Int32) (m d : UInt32) : Option CalendarDate :=
  if h : InYearRange y.toInt ∧ RealDate y.toInt m.toNat d.toNat then some ⟨y, m, d, h.1, h.2⟩
  else none

lemma CalendarDate.fromYmdOpt_isSome_iff (y : Int32) (m d : UInt32) :
    (fromYmdOpt y m d).isSome ↔ InYearRange y.toInt ∧ RealDate y.toInt m.toNat d.toNat := by
  unfold fromYmdOpt
  split
  · simp [*]
  · simp [*]

lemma CalendarDate.fromYmdOpt_eq_some_iff (y : Int32) (m d : UInt32) (date : CalendarDate) :
    fromYmdOpt y m d = some date ↔ date.year = y ∧ date.month = m ∧ date.day = d := by
  obtain ⟨y', m', d', hrange, hreal⟩ := date
  unfold fromYmdOpt
  constructor
  · intro h
    split at h
    · simpa [eq_comm] using h
    · cases h
  · rintro ⟨rfl, rfl, rfl⟩
    exact dif_pos ⟨hrange, hreal⟩

def ClockTime.fromNumSecondsFromMidnightOpt (s n : UInt32) : Option ClockTime :=
  if h : ClockReading s.toNat n.toNat then some ⟨s, n, h.1, h.2.1⟩ else none

lemma ClockTime.fromNumSecondsFromMidnightOpt_eq_some_iff (s n : UInt32) (t : ClockTime) :
    fromNumSecondsFromMidnightOpt s n = some t ↔
      ClockReading s.toNat n.toNat ∧ t.seconds = s ∧ t.nanoseconds = n := by
  obtain ⟨s', n', hs, hn⟩ := t
  unfold fromNumSecondsFromMidnightOpt
  constructor
  · intro h
    split at h
    · rename_i hclock
      exact ⟨hclock, by simpa [eq_comm] using h⟩
    · cases h
  · rintro ⟨hclock, rfl, rfl⟩
    exact dif_pos hclock

def ZoneOffset.eastOpt (o : Int32) : Option ZoneOffset :=
  if h : -86400 < o.toInt ∧ o.toInt < 86400 then some ⟨o, h⟩ else none

lemma ZoneOffset.eastOpt_eq_some_iff (o : Int32) (z : ZoneOffset) :
    eastOpt o = some z ↔ z.seconds = o := by
  obtain ⟨o', hbounds⟩ := z
  unfold eastOpt
  constructor
  · intro h
    split at h
    · simpa [eq_comm] using h
    · cases h
  · rintro rfl
    exact dif_pos hbounds

/-- The calendar as `chrono` documents it. -/
@[reducible] def gregorian : Chrono where
  NaiveDate := CalendarDate
  NaiveTime := ClockTime
  NaiveDateTime := CalendarDate × ClockTime
  FixedOffset := ZoneOffset
  DateTimeUtc := CalendarDate × ClockTime
  DateTimeFixed := (CalendarDate × ClockTime) × ZoneOffset
  year := CalendarDate.year
  month := CalendarDate.month
  day := CalendarDate.day
  fromYmdOpt := CalendarDate.fromYmdOpt
  numSecondsFromMidnight := ClockTime.seconds
  nanosecond := ClockTime.nanoseconds
  fromNumSecondsFromMidnightOpt := ClockTime.fromNumSecondsFromMidnightOpt
  localMinusUtc := ZoneOffset.seconds
  eastOpt := ZoneOffset.eastOpt
  newDateTime d t := (d, t)
  withTimezoneUtc := Prod.fst
  dateNaive := Prod.fst
  time := Prod.snd
  offset := Prod.snd
  fromUtcDatetime z utc := (utc, z)

lemma lawful_gregorian : @LawfulChrono gregorian :=
  letI := gregorian
  { fromYmdOpt_isSome_iff := CalendarDate.fromYmdOpt_isSome_iff
    fromYmdOpt_eq_some_iff := CalendarDate.fromYmdOpt_eq_some_iff
    fromNumSecondsFromMidnightOpt_eq_some_iff := ClockTime.fromNumSecondsFromMidnightOpt_eq_some_iff
    eastOpt_eq_some_iff := ZoneOffset.eastOpt_eq_some_iff
    dateNaive_fromUtcDatetime := fun _ _ _ => rfl
    time_fromUtcDatetime := fun _ _ _ => rfl
    offset_fromUtcDatetime := fun _ _ _ => rfl
    dateTime_ext := fun _ _ hdate htime hoffset => Prod.ext (Prod.ext hdate htime) hoffset }

attribute [local instance] gregorian lawful_gregorian

/-- The first day of the year before the year 0. -/
def yearBeforeZero : @NaiveDate gregorian := (⟨-1, 1, 1, by decide, by decide⟩ : CalendarDate)

/-- The first day of the year −1 is written without an error, as the first day of the year 65535. -/
theorem year_before_zero_is_lost :
    writeToBytes yearBeforeZero = .ok [255, 255, 1, 1] ∧ ¬ Survives yearBeforeZero ∧
      ∃ date : NaiveDate, NaiveDate.tryFrom (RawDate.ofNaiveDate yearBeforeZero) = .ok date ∧
        year date = 65535 := by
  refine ⟨by decide, ?_, (⟨65535, 1, 1, by decide, by decide⟩ : CalendarDate), by rfl, rfl⟩
  rw [NaiveDate.survives_iff]
  show ¬ (0 ≤ (-1 : Int32).toInt ∧ (-1 : Int32).toInt ≤ 65535)
  decide

/-- Midnight of a leap day, two hours east of Greenwich. -/
def leapDay : @DateTimeFixed gregorian :=
  (((⟨2024, 2, 29, by decide, by decide⟩ : CalendarDate),
    (⟨0, 0, by decide, by decide⟩ : ClockTime)), (⟨7200, by decide⟩ : ZoneOffset))

theorem leap_day_survives : Survives (utcDate leapDay) ∧ Survives leapDay :=
  ⟨(chrono_values_survive_iff.1 _).mpr
      (show 0 ≤ (2024 : Int32).toInt ∧ (2024 : Int32).toInt ≤ 65535 by decide),
    (chrono_values_survive_iff.2.1 _).mpr
      ⟨show 0 ≤ (2024 : Int32).toInt ∧ (2024 : Int32).toInt ≤ 65535 by decide,
        show ClockReading (0 : UInt32).toNat (0 : UInt32).toNat by decide⟩⟩

end TuxEncoding
