import Mathlib.Data.Int.Notation
import TuxEncoding.Codec.Types

/-!
# Chrono values

`src/types/time/chrono_impl.rs`: how `chrono`'s dates, times, offsets and zoned instants are
encoded through the raw types, and the conversions between the two.

* `Chrono` is what the crate calls of `chrono`, with `chrono`'s own integer types.
* `LawfulChrono` is what `chrono` documents of these functions: `from_ymd_opt` and its siblings
  accept exactly the values they name, and a zoned instant is its UTC date and time with an offset.
* `RawDate.ofNaiveDate`, `NaiveDate.tryFrom` and their siblings are the `From` and `TryFrom` impls;
  the trait instances follow them in the order of the file.
-/

set_option linter.unusedSectionVars false

namespace TuxEncoding

/-! ## What is used of `chrono` -/

/-- The types and functions of `chrono` that the crate uses. -/
class Chrono where
  NaiveDate : Type
  NaiveTime : Type
  NaiveDateTime : Type
  FixedOffset : Type
  /-- `DateTime<Utc>`. -/
  DateTimeUtc : Type
  /-- `DateTime<FixedOffset>`. -/
  DateTimeFixed : Type
  year : NaiveDate → Int32
  month : NaiveDate → UInt32
  day : NaiveDate → UInt32
  fromYmdOpt : Int32 → UInt32 → UInt32 → Option NaiveDate
  numSecondsFromMidnight : NaiveTime → UInt32
  nanosecond : NaiveTime → UInt32
  fromNumSecondsFromMidnightOpt : UInt32 → UInt32 → Option NaiveTime
  localMinusUtc : FixedOffset → Int32
  eastOpt : Int32 → Option FixedOffset
  /-- `NaiveDateTime::new`. -/
  newDateTime : NaiveDate → NaiveTime → NaiveDateTime
  /-- `with_timezone(&Utc)`. -/
  withTimezoneUtc : DateTimeFixed → DateTimeUtc
  dateNaive : DateTimeUtc → NaiveDate
  time : DateTimeUtc → NaiveTime
  offset : DateTimeFixed → FixedOffset
  fromUtcDatetime : FixedOffset → NaiveDateTime → DateTimeFixed

open Chrono

/-- The leap years of the proleptic Gregorian calendar. -/
def IsLeapYear (year : ℤ) : Prop := year % 4 = 0 ∧ (year % 100 ≠ 0 ∨ year % 400 = 0)

instance (year : ℤ) : Decidable (IsLeapYear year) := inferInstanceAs (Decidable (_ ∧ _))

def daysInMonth (year : ℤ) (month : ℕ) : ℕ :=
  if month = 2 then (if IsLeapYear year then 29 else 28)
  else if month ∈ [4, 6, 9, 11] then 30 else 31

/-- The day exists in the calendar. -/
def RealDate (year : ℤ) (month day : ℕ) : Prop :=
  (1 ≤ month ∧ month ≤ 12) ∧ 1 ≤ day ∧ day ≤ daysInMonth year month

instance (year : ℤ) (month day : ℕ) : Decidable (RealDate year month day) :=
  inferInstanceAs (Decidable (_ ∧ _))

/-- The years a `NaiveDate` reaches, from `NaiveDate::MIN` to `NaiveDate::MAX`. -/
def InYearRange (year : ℤ) : Prop := -262143 ≤ year ∧ year ≤ 262142

instance (year : ℤ) : Decidable (InYearRange year) := inferInstanceAs (Decidable (_ ∧ _))

/-- A second of the day with its nanoseconds. The second billion of nanoseconds is a leap second
and follows the last second of a minute. -/
def ClockReading (seconds nanoseconds : ℕ) : Prop :=
  seconds < 86400 ∧ nanoseconds < 2000000000 ∧ (1000000000 ≤ nanoseconds → seconds % 60 = 59)

instance (seconds nanoseconds : ℕ) : Decidable (ClockReading seconds nanoseconds) :=
  inferInstanceAs (Decidable (_ ∧ _))

/-- What `chrono` documents of the functions the crate uses. -/
class LawfulChrono [Chrono] : Prop where
  fromYmdOpt_isSome_iff : ∀ (y : Int32) (m d : UInt32),
    (fromYmdOpt y m d).isSome ↔ InYearRange y.toInt ∧ RealDate y.toInt m.toNat d.toNat
  /-- A date is given by its year, month and day. -/
  fromYmdOpt_eq_some_iff : ∀ (y : Int32) (m d : UInt32) (date : NaiveDate),
    fromYmdOpt y m d = some date ↔ year date = y ∧ month date = m ∧ day date = d
  fromNumSecondsFromMidnightOpt_eq_some_iff : ∀ (s n : UInt32) (t : NaiveTime),
    fromNumSecondsFromMidnightOpt s n = some t ↔
      ClockReading s.toNat n.toNat ∧ numSecondsFromMidnight t = s ∧ nanosecond t = n
  eastOpt_eq_some_iff : ∀ (o : Int32) (z : FixedOffset),
    eastOpt o = some z ↔ localMinusUtc z = o
  /-- An instant built from a UTC date and time and an offset has them. -/
  dateNaive_fromUtcDatetime : ∀ (z : FixedOffset) (d : NaiveDate) (t : NaiveTime),
    dateNaive (withTimezoneUtc (fromUtcDatetime z (newDateTime d t))) = d
  time_fromUtcDatetime : ∀ (z : FixedOffset) (d : NaiveDate) (t : NaiveTime),
    time (withTimezoneUtc (fromUtcDatetime z (newDateTime d t))) = t
  offset_fromUtcDatetime : ∀ (z : FixedOffset) (d : NaiveDate) (t : NaiveTime),
    offset (fromUtcDatetime z (newDateTime d t)) = z
  /-- UTC date, time and offset determine an instant. -/
  dateTime_ext : ∀ a b : DateTimeFixed,
    dateNaive (withTimezoneUtc a) = dateNaive (withTimezoneUtc b) →
    time (withTimezoneUtc a) = time (withTimezoneUtc b) → offset a = offset b → a = b

/-! ## Conversions -/

/-- `ChronoError`. -/
inductive ChronoError
  | invalidNaiveDate (raw : RawDate)
  | invalidNaiveTime (raw : RawTime)
  | invalidFixedOffset (raw : RawTimeZone)
  deriving DecidableEq

section chrono

variable [Chrono]

/-- `RawDate::from(NaiveDate)`: the year, the month and the day are cast. -/
def RawDate.ofNaiveDate (value : NaiveDate) : RawDate where
  year := (Chrono.year value).toUInt32.toUInt16
  month := (Chrono.month value).toUInt8
  day := (Chrono.day value).toUInt8

/-- `NaiveDate::try_from(RawDate)`. -/
def NaiveDate.tryFrom (value : RawDate) : Except ChronoError NaiveDate :=
  match fromYmdOpt value.year.toUInt32.toInt32 value.month.toUInt32 value.day.toUInt32 with
  | some date => .ok date
  | none => .error (.invalidNaiveDate value)

/-- `RawTime::from(NaiveTime)`. -/
def RawTime.ofNaiveTime (value : NaiveTime) : RawTime where
  secondsFromMidnight := numSecondsFromMidnight value
  nanoseconds := nanosecond value

/-- `NaiveTime::try_from(RawTime)`. -/
def NaiveTime.tryFrom (value : RawTime) : Except ChronoError NaiveTime :=
  match fromNumSecondsFromMidnightOpt value.secondsFromMidnight value.nanoseconds with
  | some time => .ok time
  | none => .error (.invalidNaiveTime value)

/-- `RawTimeZone::from(FixedOffset)`. -/
def RawTimeZone.ofFixedOffset (value : FixedOffset) : RawTimeZone where
  offset := localMinusUtc value

/-- `FixedOffset::try_from(RawTimeZone)`. -/
def FixedOffset.tryFrom (value : RawTimeZone) : Except ChronoError FixedOffset :=
  match eastOpt value.offset with
  | some offset => .ok offset
  | none => .error (.invalidFixedOffset value)

/-- `RawDateTime::from(DateTime<FixedOffset>)`. -/
def RawDateTime.ofDateTimeFixed (value : DateTimeFixed) : RawDateTime where
  date := .ofNaiveDate (dateNaive (withTimezoneUtc value))
  time := .ofNaiveTime (Chrono.time (withTimezoneUtc value))
  timezone := .ofFixedOffset (Chrono.offset value)

/-- `DateTime<FixedOffset>::try_from(RawDateTime)`. -/
def DateTimeFixed.tryFrom (value : RawDateTime) : Except ChronoError DateTimeFixed := do
  let date ← NaiveDate.tryFrom value.date
  let time ← NaiveTime.tryFrom value.time
  let dateTime := newDateTime date time
  let timezone ← FixedOffset.tryFrom value.timezone
  return fromUtcDatetime timezone dateTime

/-! ## The traits -/

instance : TuxIOType NaiveDate where
  constSize _ := some 4
  size _ := 4

instance : TypedObjectType NaiveDate where
  typeKey := 13

instance : ReadableObjectType NaiveDate where
  readSize := pure 4
  readFromReader := do
    let rawDate : RawDate ← readFromReader
    match fromYmdOpt rawDate.year.toUInt32.toInt32 rawDate.month.toUInt32
        rawDate.day.toUInt32 with
    | some date => return date
    | none => throw .otherDecodingError

instance : WritableObjectType NaiveDate where
  writeToWriter date :=
    writeToWriter (⟨(year date).toUInt32.toUInt16, (month date).toUInt8, (day date).toUInt8⟩ :
      RawDate)

instance : TuxIOType NaiveTime where
  constSize _ := some 8
  size _ := 8

instance : TypedObjectType NaiveTime where
  typeKey := 14

instance : ReadableObjectType NaiveTime where
  readSize := pure 8
  readFromReader := do
    let rawTime : RawTime ← readFromReader
    match fromNumSecondsFromMidnightOpt rawTime.secondsFromMidnight rawTime.nanoseconds with
    | some time => return time
    | none => throw .otherDecodingError

instance : WritableObjectType NaiveTime where
  writeToWriter time :=
    writeToWriter (⟨numSecondsFromMidnight time, nanosecond time⟩ : RawTime)

instance : TuxIOType FixedOffset where
  constSize _ := some 4
  size _ := 4

instance : TypedObjectType FixedOffset where
  typeKey := 15

instance : ReadableObjectType FixedOffset where
  readSize := pure 4
  readFromReader := do
    let rawTimeZone : RawTimeZone ← readFromReader
    match eastOpt rawTimeZone.offset with
    | some offset => return offset
    | none => throw .otherDecodingError

instance : WritableObjectType FixedOffset where
  writeToWriter offset := writeToWriter (RawTimeZone.ofFixedOffset offset)

instance : TuxIOType DateTimeFixed where
  constSize _ := some 16
  size _ := 16

instance : TypedObjectType DateTimeFixed where
  typeKey := 16

instance : ReadableObjectType DateTimeFixed where
  readSize := pure 16
  readFromReader := do
    let rawDateTime : RawDateTime ← readFromReader
    match DateTimeFixed.tryFrom rawDateTime with
    | .ok dateTime => return dateTime
    | .error _ => throw .otherDecodingError

instance : WritableObjectType DateTimeFixed where
  writeToWriter dateTime := writeToWriter (RawDateTime.ofDateTimeFixed dateTime)

/-! ## What the conversions keep -/

/-- The casts `i32 as u16` and `u16 as i32` in a row. -/
lemma toInt_cast_year (y : Int32) :
    (y.toUInt32.toUInt16.toUInt32.toInt32).toInt = y.toInt % 65536 := by
  rw [← Int32.toInt_toBitVec, ← Int32.toInt_toBitVec]
  simp only [UInt32.toBitVec_toInt32, UInt16.toBitVec_toUInt32, UInt32.toBitVec_toUInt16,
    Int32.toBitVec_toUInt32]
  rw [BitVec.toInt_eq_toNat_cond, BitVec.toInt_eq_toNat_cond]
  simp only [BitVec.toNat_setWidth]
  have := y.toBitVec.isLt
  split <;> split <;> omega

/-- The casts `u32 as u8` and `u8 as u32` in a row. -/
lemma cast_byte {n : UInt32} (h : n.toNat < 256) : n.toUInt8.toUInt32 = n := by
  apply UInt32.toNat_inj.mp
  simp only [UInt8.toNat_toUInt32, UInt32.toNat_toUInt8]
  omega

/-- The year of the date fits the two bytes it is stored in. -/
def YearFits (date : NaiveDate) : Prop := 0 ≤ (year date).toInt ∧ (year date).toInt ≤ 65535

/-- The year the date is stored with. -/
def storedYear (date : NaiveDate) : ℤ := (year date).toInt % 65536

lemma storedYear_eq_iff (date : NaiveDate) :
    storedYear date = (year date).toInt ↔ YearFits date := by
  unfold storedYear YearFits
  omega

lemma inYearRange_storedYear (date : NaiveDate) : InYearRange (storedYear date) := by
  unfold storedYear InYearRange
  omega

lemma daysInMonth_le (y : ℤ) (m : ℕ) : daysInMonth y m ≤ 31 := by
  unfold daysInMonth
  split
  · split <;> decide
  · split <;> decide

section lawful

variable [LawfulChrono]

/-- Every date of `chrono` exists. -/
lemma realDate (date : NaiveDate) :
    InYearRange (year date).toInt ∧
      RealDate (year date).toInt (month date).toNat (day date).toNat := by
  rw [← LawfulChrono.fromYmdOpt_isSome_iff,
    (LawfulChrono.fromYmdOpt_eq_some_iff _ _ _ date).mpr ⟨rfl, rfl, rfl⟩]
  rfl

/-- What is read back of a stored date has its month and its day, and its year modulo 65536. -/
lemma fromYmdOpt_stored (date : NaiveDate) :
    fromYmdOpt (RawDate.ofNaiveDate date).year.toUInt32.toInt32
        (RawDate.ofNaiveDate date).month.toUInt32 (RawDate.ofNaiveDate date).day.toUInt32 =
      fromYmdOpt ((year date).toUInt32.toUInt16.toUInt32.toInt32) (month date) (day date) := by
  obtain ⟨-, hmonth, hday⟩ := realDate date
  have hdays := daysInMonth_le (year date).toInt (month date).toNat
  have hm : (month date).toUInt8.toUInt32 = month date := cast_byte (by omega)
  have hd : (day date).toUInt8.toUInt32 = day date := cast_byte (by omega)
  simp only [RawDate.ofNaiveDate, hm, hd]

/-- A stored date comes back exactly when its year was not cut. -/
lemma fromYmdOpt_stored_eq_some_iff (date : NaiveDate) :
    fromYmdOpt ((year date).toUInt32.toUInt16.toUInt32.toInt32) (month date) (day date) =
        some date ↔
      YearFits date := by
  rw [LawfulChrono.fromYmdOpt_eq_some_iff, ← storedYear_eq_iff]
  constructor
  · rintro ⟨hyear, -, -⟩
    rw [storedYear, ← toInt_cast_year, ← hyear]
  · intro h
    refine ⟨Int32.toInt_inj.mp ?_, rfl, rfl⟩
    rw [toInt_cast_year]
    exact h.symm

/-- A stored date is refused exactly when its day does not exist in the year it is stored with. -/
lemma fromYmdOpt_stored_eq_none_iff (date : NaiveDate) :
    fromYmdOpt ((year date).toUInt32.toUInt16.toUInt32.toInt32) (month date) (day date) = none ↔
      ¬ RealDate (storedYear date) (month date).toNat (day date).toNat := by
  rw [← Option.not_isSome_iff_eq_none, LawfulChrono.fromYmdOpt_isSome_iff, toInt_cast_year]
  exact not_congr (and_iff_right (inYearRange_storedYear date))

lemma fromNumSecondsFromMidnightOpt_eq_some {t t' : NaiveTime}
    (h : fromNumSecondsFromMidnightOpt (numSecondsFromMidnight t) (nanosecond t) = some t') :
    ClockReading (numSecondsFromMidnight t).toNat (nanosecond t).toNat :=
  ((LawfulChrono.fromNumSecondsFromMidnightOpt_eq_some_iff _ _ t').mp h).1

/-- A time comes back, unless it is a leap second that no minute ends with. -/
lemma fromNumSecondsFromMidnightOpt_self {t : NaiveTime}
    (h : ClockReading (numSecondsFromMidnight t).toNat (nanosecond t).toNat) :
    fromNumSecondsFromMidnightOpt (numSecondsFromMidnight t) (nanosecond t) = some t :=
  (LawfulChrono.fromNumSecondsFromMidnightOpt_eq_some_iff _ _ t).mpr ⟨h, rfl, rfl⟩

/-- An offset always comes back. -/
lemma FixedOffset.tryFrom_ofFixedOffset (z : FixedOffset) :
    FixedOffset.tryFrom (RawTimeZone.ofFixedOffset z) = .ok z := by
  have : eastOpt (localMinusUtc z) = some z := (LawfulChrono.eastOpt_eq_some_iff _ z).mpr rfl
  simp only [FixedOffset.tryFrom, RawTimeZone.ofFixedOffset, this]

end lawful

end chrono

end TuxEncoding
