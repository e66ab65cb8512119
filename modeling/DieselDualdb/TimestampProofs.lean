import DieselDualdb.Timestamp
import DieselDualdb.Lib.FallibleRun
import DieselDualdb.Lib.FixedDigits

/-!
# The instant each backend stores

`Documented` is what chrono and diesel promise: `format` writes the fields of
the instant, `parse_from_rfc3339` reads such fields back and takes four-digit
years only, and the `timestamptz` arms count microseconds from 2000, rounding
toward zero, and add them back.

The SQLite arm then returns the instant truncated to the microsecond, unless it is
a leap second that chrono was made to put before the end of a minute.
The Postgres arm returns it for instants from 2000 on, and before 2000 only
when there is nothing to round; a leap second it never returns.
-/

namespace DualdbTimestamp

open Calendar FixedDigits FallibleRun

/-! ## What chrono and diesel are documented to do -/

/-- `YYYY-MM-DDThh:mm:ss.ffffffZ` -/
def rfc3339Text (y mo d h mi s us : Nat) : String :=
  String.ofList (padded 4 y ++ '-' :: (padded 2 mo ++ '-' :: (padded 2 d
    ++ 'T' :: (padded 2 h ++ ':' :: (padded 2 mi ++ ':' :: (padded 2 s
    ++ '.' :: (padded 6 us ++ ['Z'])))))))

/-- 1 January 2000, where `timestamptz` counts from. -/
def pgEpoch : Int := daysBeforeYear 2000

/-- Nanoseconds since the epoch; a leap second's are counted on. -/
def nanosSinceEpoch (t : DateTime) : Int :=
  ((t.day - pgEpoch) * 86400 + t.secs) * 10 ^ 9 + t.frac

/-- A year that `%Y` writes with four digits and RFC 3339 has. -/
def FourDigitYear (y : Int) : Prop := 0 ≤ y ∧ y ≤ 9999

instance (y : Int) : Decidable (FourDigitYear y) :=
  inferInstanceAs (Decidable (0 ≤ y ∧ y ≤ 9999))

/-- The instant with these fields: second 60 is a leap second. -/
structure HasFields (c : CivilDate) (h mi s us : Nat) (t : DateTime) :
    Prop where
  day : t.day = c.dayNumber
  secs : t.secs = h * 3600 + mi * 60 + min s 59
  frac : t.frac = us * 1000 + if s = 60 then 10 ^ 9 else 0

structure Documented (d : Drivers) : Prop where
  format_fields : ∀ t : DateTime, FourDigitYear t.date.year →
    d.format t sqliteFormat = rfc3339Text t.date.year.toNat t.date.month
      t.date.day t.hour t.minute t.second t.micros
  format_signed : ∀ t : DateTime, ¬ FourDigitYear t.date.year →
    ∃ c rest, (c = '+' ∨ c = '-')
      ∧ (d.format t sqliteFormat).toList = c :: rest
  parse_fields : ∀ (c : CivilDate) (h mi s us : Nat) (t : DateTime),
    FourDigitYear c.year → h < 24 → mi < 60 → s ≤ 60 → us < 10 ^ 6 →
    HasFields c h mi s us t →
    d.parseFromRfc3339 (rfc3339Text c.year.toNat c.month c.day h mi s us)
      = .ok ⟨t, 0⟩
  parse_signed : ∀ (s : String) (c : Char) (rest : List Char),
    c = '+' ∨ c = '-' → s.toList = c :: rest →
    ∀ t, d.parseFromRfc3339 s ≠ .ok t
  pg_write : ∀ t : DateTime,
    -2 ^ 63 ≤ (nanosSinceEpoch t).tdiv 1000 →
    (nanosSinceEpoch t).tdiv 1000 < 2 ^ 63 →
    d.timestamptzToSql t = .ok ((nanosSinceEpoch t).tdiv 1000)
  pg_read : ∀ (n : Int) (t : DateTime), d.timestamptzFromSql n = .ok t ↔
    t.frac < 10 ^ 9 ∧ nanosSinceEpoch t = n * 1000

/-! ## The SQLite arm -/

theorem DateTime.hasFields_truncated {t : DateTime} (hleap : t.LeapLast) :
    HasFields t.date t.hour t.minute t.second t.micros t.truncated := by
  have hsecs := t.secs_lt
  have hfrac := t.frac_lt
  refine ⟨(CivilDate.dayNumber_ofDayNumber t.day).symm, ?_, ?_⟩
  · simp only [DateTime.truncated, DateTime.hour, DateTime.minute,
      DateTime.second]
    by_cases h : 10 ^ 9 ≤ t.frac
    · have := hleap h
      omega
    · omega
  · simp only [DateTime.truncated, DateTime.micros]
    by_cases h : 10 ^ 9 ≤ t.frac
    · have hsecond : t.second = 60 := by
        have := hleap h
        rw [DateTime.second]
        omega
      rw [if_pos hsecond]
      omega
    · have hsecond : t.second ≠ 60 := by
        rw [DateTime.second]
        omega
      rw [if_neg hsecond]
      omega

theorem DateTime.second_le (t : DateTime) : t.second ≤ 60 := by
  have hfrac := t.frac_lt
  rw [DateTime.second]
  omega

theorem DateTime.hour_lt (t : DateTime) : t.hour < 24 := by
  have hsecs := t.secs_lt
  rw [DateTime.hour]
  omega

theorem DateTime.minute_lt (t : DateTime) : t.minute < 60 :=
  Nat.mod_lt _ (by decide)

theorem DateTime.micros_lt (t : DateTime) : t.micros < 10 ^ 6 := by
  rw [DateTime.micros]
  omega

/-- A leap second elsewhere is written as the next second. -/
def DateTime.carried (t : DateTime) (h : ¬ t.LeapLast) : DateTime where
  day := t.day
  secs := t.secs + 1
  frac := t.truncated.frac - 10 ^ 9
  day_ge := t.day_ge
  day_lt := t.day_lt
  secs_lt := by
    have hsecs := t.secs_lt
    rw [DateTime.LeapLast] at h
    omega
  frac_lt := Nat.lt_of_le_of_lt (Nat.sub_le _ _) t.truncated.frac_lt

theorem DateTime.hasFields_carried {t : DateTime} (h : ¬ t.LeapLast) :
    HasFields t.date t.hour t.minute t.second t.micros (t.carried h) := by
  have hsecs := t.secs_lt
  have hfrac := t.frac_lt
  obtain ⟨hpast, hnot⟩ : 10 ^ 9 ≤ t.frac ∧ t.secs % 60 ≠ 59 := by
    rw [DateTime.LeapLast] at h
    omega
  have hsecond : t.second = t.secs % 60 + 1 := by
    rw [DateTime.second]
    omega
  refine ⟨(CivilDate.dayNumber_ofDayNumber t.day).symm, ?_, ?_⟩
  · simp only [DateTime.carried, DateTime.hour, DateTime.minute, hsecond]
    omega
  · rw [if_neg (by omega)]
    simp only [DateTime.carried, DateTime.truncated, DateTime.micros]
    omega

/-- What the text of a four-digit year is read as. -/
theorem reads_fields {d : Drivers} (hd : Documented d) {t : Timestamp}
    {u : DateTime} (hyear : FourDigitYear t.value.date.year)
    (hu : HasFields t.value.date t.value.hour t.value.minute t.value.second
      t.value.micros u) :
    Timestamp.fromSqlSqlite d (t.toSqlSqlite d) = .ok ⟨u⟩ := by
  have hread := hd.parse_fields t.value.date _ _ _ _ u hyear t.value.hour_lt
    t.value.minute_lt t.value.second_le t.value.micros_lt hu
  rw [Timestamp.toSqlSqlite, hd.format_fields t.value hyear]
  exact bind_ok.mpr ⟨_, mapError_ok.mpr hread, rfl⟩

/-- The text of a four-digit year is read back. -/
theorem reads_back {d : Drivers} (hd : Documented d) {t : Timestamp}
    (hyear : FourDigitYear t.value.date.year) (hleap : t.value.LeapLast) :
    Timestamp.fromSqlSqlite d (t.toSqlSqlite d) = .ok t.truncated :=
  reads_fields hd hyear (DateTime.hasFields_truncated hleap)

/-- A text that is accepted back has a four-digit year. -/
theorem written_of_accepted {d : Drivers} (hd : Documented d)
    {t u : Timestamp}
    (h : Timestamp.fromSqlSqlite d (t.toSqlSqlite d) = .ok u) :
    FourDigitYear t.value.date.year := by
  by_contra hyear
  obtain ⟨dt, hparse, -⟩ := bind_ok.mp h
  obtain ⟨c, rest, hc, htext⟩ := hd.format_signed t.value hyear
  exact hd.parse_signed _ c rest hc htext dt (mapError_ok.mp hparse)

/-- **THE SQLITE ARM TRUNCATES**: a text that is accepted back is read as the
    written instant truncated to the microsecond, unless a leap second was carried
    into the next second. -/
theorem sqlite_truncates_iff {d : Drivers} (hd : Documented d) {t u : Timestamp}
    (h : Timestamp.fromSqlSqlite d (t.toSqlSqlite d) = .ok u) :
    u = t.truncated ↔ t.value.LeapLast := by
  have hyear := written_of_accepted hd h
  constructor
  · rintro rfl
    by_contra hleap
    have hcarried := reads_fields hd hyear (DateTime.hasFields_carried hleap)
    rw [h, Except.ok.injEq] at hcarried
    have hsecs := congrArg (fun v : Timestamp => v.value.secs) hcarried
    exact absurd hsecs (Nat.ne_of_lt (Nat.lt_succ_self t.value.secs))
  · intro hleap
    have hread := reads_back hd hyear hleap
    exact Except.ok.inj (h.symm.trans hread)

/-! ## The Postgres arm -/

theorem tdiv_thousand (n : Int) :
    n.tdiv 1000 = if 0 ≤ n then n / 1000 else -(-n / 1000) := by
  by_cases h : 0 ≤ n
  · rw [if_pos h, Int.tdiv_eq_ediv_of_nonneg h]
  · rw [if_neg h, ← Int.tdiv_eq_ediv_of_nonneg (by omega), Int.neg_tdiv,
      Int.neg_neg]

/-- Every instant chrono has fits the `i64`. -/
theorem micros_fit (t : DateTime) :
    -2 ^ 63 ≤ (nanosSinceEpoch t).tdiv 1000 ∧
      (nanosSinceEpoch t).tdiv 1000 < 2 ^ 63 := by
  have h₁ := t.day_ge
  have h₂ := t.day_lt
  have h₃ := t.secs_lt
  have h₄ := t.frac_lt
  have hbound : -2 ^ 63 * 1000 < nanosSinceEpoch t
      ∧ nanosSinceEpoch t < 2 ^ 63 * 1000 := by
    rw [nanosSinceEpoch, pgEpoch]
    simp only [daysBeforeYear] at h₁ h₂ ⊢
    omega
  rw [tdiv_thousand]
  by_cases h : 0 ≤ nanosSinceEpoch t
  · rw [if_pos h]
    omega
  · rw [if_neg h]
    omega

/-- Outside leap seconds the sign of the count tells the century. -/
theorem nanosSinceEpoch_nonneg_iff {t : DateTime} (hleap : t.frac < 10 ^ 9) :
    0 ≤ nanosSinceEpoch t ↔ pgEpoch ≤ t.day := by
  have hsecs := t.secs_lt
  rw [nanosSinceEpoch]
  omega

theorem nanosSinceEpoch_truncated (t : DateTime) :
    nanosSinceEpoch t.truncated = nanosSinceEpoch t - (t.frac % 1000 : Nat) := by
  simp only [nanosSinceEpoch, DateTime.truncated]
  omega

/-- Where rounding toward zero is truncation. -/
theorem tdiv_mul_eq_truncated_iff {t : DateTime} (hleap : t.frac < 10 ^ 9) :
    nanosSinceEpoch t.truncated = (nanosSinceEpoch t).tdiv 1000 * 1000 ↔
      pgEpoch ≤ t.day ∨ t.frac % 1000 = 0 := by
  have hmod : nanosSinceEpoch t % 1000 = (t.frac % 1000 : Nat) := by
    rw [nanosSinceEpoch]
    omega
  rw [nanosSinceEpoch_truncated, tdiv_thousand,
    ← nanosSinceEpoch_nonneg_iff hleap]
  by_cases h : 0 ≤ nanosSinceEpoch t
  · rw [if_pos h]
    omega
  · rw [if_neg h]
    omega

/-- What the Postgres arm gives back. -/
def Timestamp.postgresRoundTrip (d : Drivers) (t : Timestamp) :
    Except String Timestamp := do
  let bytes ← t.toSqlPg d
  Timestamp.fromSqlPg d bytes

/-- **THE POSTGRES ARM, EXACTLY**: it truncates from 2000 on, before 2000 when
    there is nothing below the microsecond, and never in a leap second. -/
theorem postgres_truncates_iff {d : Drivers} (hd : Documented d)
    (t : Timestamp) :
    t.postgresRoundTrip d = .ok t.truncated ↔
      t.value.frac < 10 ^ 9
        ∧ (pgEpoch ≤ t.value.day ∨ t.value.frac % 1000 = 0) := by
  obtain ⟨hlow, hhigh⟩ := micros_fit t.value
  have hwrite := hd.pg_write t.value hlow hhigh
  have htrip : t.postgresRoundTrip d = .ok t.truncated ↔
      d.timestamptzFromSql ((nanosSinceEpoch t.value).tdiv 1000)
        = .ok t.value.truncated := by
    rw [Timestamp.postgresRoundTrip, Timestamp.toSqlPg, hwrite]
    show Timestamp.mk <$> d.timestamptzFromSql _ = Except.ok t.truncated ↔ _
    rw [map_ok]
    constructor
    · rintro ⟨u, hu, hut⟩
      have hvalue : u = t.value.truncated := congrArg Timestamp.value hut
      rw [hu, hvalue]
    · intro hu
      exact ⟨_, hu, rfl⟩
  rw [htrip, hd.pg_read]
  have hfrac : t.value.truncated.frac < 10 ^ 9 ↔ t.value.frac < 10 ^ 9 := by
    simp only [DateTime.truncated]
    omega
  rw [hfrac]
  exact and_congr_right tdiv_mul_eq_truncated_iff

/-! ## Both arms -/

/-- **ONE INSTANT ON BOTH BACKENDS, EXACTLY**: for an instant whose text is
    accepted back, the two arms return it truncated to the microsecond if and
    only if it is no leap second and lies in 2000 or later or has no
    nanoseconds below the microsecond. -/
theorem arms_agree_iff {d : Drivers} (hd : Documented d) {t u : Timestamp}
    (hback : Timestamp.fromSqlSqlite d (t.toSqlSqlite d) = .ok u) :
    (u = t.truncated ∧ t.postgresRoundTrip d = .ok u) ↔
      t.value.frac < 10 ^ 9
        ∧ (pgEpoch ≤ t.value.day ∨ t.value.frac % 1000 = 0) := by
  rw [← postgres_truncates_iff hd t]
  constructor
  · rintro ⟨rfl, h⟩
    exact h
  · intro h
    have hleap : t.value.LeapLast := by
      have hfrac := ((postgres_truncates_iff hd t).mp h).1
      exact fun hpast => absurd hfrac (Nat.not_lt.mpr hpast)
    have hu := (sqlite_truncates_iff hd hback).mpr hleap
    exact ⟨hu, hu ▸ h⟩

/-! ## Drivers that behave as documented -/

section Drivers

def signedYear (y : Int) : List Char :=
  (if y < 0 then '-' else '+') :: Nat.toDigits 10 y.natAbs

def formatDateTime (t : DateTime) (_ : String) : String :=
  if FourDigitYear t.date.year then
    rfc3339Text t.date.year.toNat t.date.month t.date.day t.hour t.minute
      t.second t.micros
  else String.ofList (signedYear t.date.year)

/-- The instant with these components, if there is one. -/
def DateTime.ofParts (day : Int) (secs frac : Nat) : Option DateTime :=
  if h : (daysBeforeYear (-262143) ≤ day ∧ day < daysBeforeYear 262143) ∧
      secs < 86400 ∧ frac < 2 * 10 ^ 9 then
    some ⟨day, secs, frac, h.1.1, h.1.2, h.2.1, h.2.2⟩
  else none

theorem DateTime.ofParts_self (t : DateTime) :
    DateTime.ofParts t.day t.secs t.frac = some t :=
  dif_pos ⟨⟨t.day_ge, t.day_lt⟩, t.secs_lt, t.frac_lt⟩

/-- The day of a year, month and day as written. -/
def writtenDay (y mo d : Nat) : Int :=
  daysBeforeYear y + (daysBeforeMonth (isLeap y) mo + (d - 1) : Nat)

def parseText (s : String) : Option FixedDateTime := do
  let (y, cs) ← scanNumber 4 s.toList
  let cs ← scanChar '-' cs
  let (mo, cs) ← scanNumber 2 cs
  let cs ← scanChar '-' cs
  let (d, cs) ← scanNumber 2 cs
  let cs ← scanChar 'T' cs
  let (h, cs) ← scanNumber 2 cs
  let cs ← scanChar ':' cs
  let (mi, cs) ← scanNumber 2 cs
  let cs ← scanChar ':' cs
  let (sec, cs) ← scanNumber 2 cs
  let cs ← scanChar '.' cs
  let (us, cs) ← scanNumber 6 cs
  let _ ← scanChar 'Z' cs
  let t ← DateTime.ofParts (writtenDay y mo d)
    (h * 3600 + mi * 60 + min sec 59)
    (us * 1000 + if sec = 60 then 10 ^ 9 else 0)
  pure ⟨t, 0⟩

def readMicros (n : Int) : Option DateTime :=
  DateTime.ofParts (pgEpoch + n / 86400000000)
    (n % 86400000000 / 1000000).toNat (n % 1000000 * 1000).toNat

def plainDrivers : Drivers where
  format := formatDateTime
  parseFromRfc3339 s := (parseText s).elim (.error "input is invalid") .ok
  debugStr s := "\"" ++ s ++ "\""
  timestamptzToSql t := .ok ((nanosSinceEpoch t).tdiv 1000)
  timestamptzFromSql n := (readMicros n).elim (.error "too large") .ok

theorem elim_ok {α : Type} {o : Option α} {e : String} {a : α} :
    o.elim (Except.error e) Except.ok = Except.ok a ↔ o = some a := by
  cases o with
  | none => exact iff_of_false error_ne_ok (Option.some_ne_none a).symm
  | some b =>
      constructor
      · intro h
        exact congrArg some (Except.ok.inj h)
      · intro h
        exact congrArg Except.ok (Option.some.inj h)

theorem parseText_fields {c : CivilDate} {h mi s us : Nat} {t : DateTime}
    (hy : FourDigitYear c.year) (hh : h < 24) (hmi : mi < 60) (hs : s ≤ 60)
    (hus : us < 10 ^ 6) (ht : HasFields c h mi s us t) :
    parseText (rfc3339Text c.year.toNat c.month c.day h mi s us)
      = some ⟨t, 0⟩ := by
  obtain ⟨hy₀, hy₁⟩ := hy
  have hyear : c.year.toNat < 10 ^ 4 := by omega
  have hwritten : writtenDay c.year.toNat c.month c.day = t.day := by
    rw [ht.day, writtenDay, CivilDate.dayNumber, Int.toNat_of_nonneg hy₀]
  -- each number is read back up to its separator
  rw [parseText, rfc3339Text, String.toList_ofList, scanNumber_padded hyear]
  simp only [Option.bind_eq_bind, Option.bind_some, scanChar_cons,
    scanNumber_padded c.month_lt, scanNumber_padded c.day_lt,
    scanNumber_padded (show h < 10 ^ 2 by omega),
    scanNumber_padded (show mi < 10 ^ 2 by omega),
    scanNumber_padded (show s < 10 ^ 2 by omega), scanNumber_padded hus,
    hwritten, ← ht.secs, ← ht.frac, DateTime.ofParts_self]
  rfl

theorem readMicros_eq_some {n : Int} {t : DateTime} :
    readMicros n = some t ↔
      t.frac < 10 ^ 9 ∧ nanosSinceEpoch t = n * 1000 := by
  rw [readMicros]
  constructor
  · intro h
    rw [DateTime.ofParts] at h
    split at h
    · cases Option.some.inj h
      simp only [nanosSinceEpoch]
      omega
    · cases h
  · rintro ⟨hfrac, hnanos⟩
    have hsecs := t.secs_lt
    rw [nanosSinceEpoch] at hnanos
    have hday : pgEpoch + n / 86400000000 = t.day := by omega
    have hsec : (n % 86400000000 / 1000000).toNat = t.secs := by omega
    have hfr : (n % 1000000 * 1000).toNat = t.frac := by omega
    rw [hday, hsec, hfr, DateTime.ofParts_self]

theorem plainDrivers_documented : Documented plainDrivers where
  format_fields t ht := if_pos ht
  format_signed t ht := by
    refine ⟨if t.date.year < 0 then '-' else '+',
      Nat.toDigits 10 t.date.year.natAbs, ?_, ?_⟩
    · by_cases h : t.date.year < 0
      · exact Or.inr (if_pos h)
      · exact Or.inl (if_neg h)
    · show (formatDateTime t sqliteFormat).toList = _
      rw [formatDateTime, if_neg ht, String.toList_ofList, signedYear]
  parse_fields c h mi s us t hy hh hmi hs hus ht :=
    elim_ok.mpr (parseText_fields hy hh hmi hs hus ht)
  parse_signed s c rest hc hs t h := by
    have hparse := elim_ok.mp h
    rw [parseText] at hparse
    rw [hs] at hparse
    rcases hc with rfl | rfl
    · cases hparse
    · cases hparse
  pg_write t _ _ := rfl
  pg_read n t := elim_ok.trans readMicros_eq_some

/-- 2010-01-01T00:00:00.123456789Z -/
def in2010 : Timestamp :=
  ⟨⟨daysBeforeYear 2010, 0, 123456789, by decide, by decide, by decide,
    by decide⟩⟩

/-- 2010-01-01T00:00:01Z -/
def secondLater : Timestamp :=
  ⟨⟨daysBeforeYear 2010, 1, 0, by decide, by decide, by decide,
    by decide⟩⟩

/-- 2010-01-01T00:00:04 and 1333333333 nanoseconds -/
def earlyLeap : Timestamp :=
  ⟨⟨daysBeforeYear 2010, 4, 1333333333, by decide, by decide, by decide,
    by decide⟩⟩

/-- 10000-01-01T00:00:00Z -/
def year10000 : Timestamp :=
  ⟨⟨daysBeforeYear 10000, 0, 0, by decide, by decide, by decide,
    by decide⟩⟩

theorem arms_agree_iff_of_2010 :
    ∃ u, Timestamp.fromSqlSqlite plainDrivers (in2010.toSqlSqlite plainDrivers)
        = .ok u ∧ u = in2010.truncated ∧
      in2010.postgresRoundTrip plainDrivers = .ok u := by
  obtain ⟨u, hu⟩ := exists_ok_of_isOk (x := Timestamp.fromSqlSqlite
    plainDrivers (in2010.toSqlSqlite plainDrivers)) (by decide +kernel)
  have h := (arms_agree_iff plainDrivers_documented hu).mpr
    ⟨by decide, Or.inl (by decide)⟩
  exact ⟨u, hu, h.1, h.2⟩

/-- 1999-12-31T23:59:59.000000001Z -/
def before2000 : Timestamp :=
  ⟨⟨daysBeforeYear 2000 - 1, 86399, 1, by decide, by decide, by decide,
    by decide⟩⟩

/-- SQLite gives back 23:59:59.000000, Postgres 23:59:59.000001. -/
theorem before_2000_rounds_up :
    Timestamp.fromSqlSqlite plainDrivers (before2000.toSqlSqlite plainDrivers)
        = .ok before2000.truncated ∧
      before2000.truncated.value.frac = 0 ∧
      before2000.postgresRoundTrip plainDrivers
        = .ok ⟨⟨daysBeforeYear 2000 - 1, 86399, 1000, by decide, by decide,
          by decide, by decide⟩⟩ ∧
      before2000.postgresRoundTrip plainDrivers
        ≠ .ok before2000.truncated := by
  decide +kernel

end Drivers

end DualdbTimestamp
