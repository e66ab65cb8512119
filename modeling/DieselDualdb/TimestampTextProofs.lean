import DieselDualdb.TimestampProofs
import DieselDualdb.Lib.TextOrder

/-!
# The text SQLite stores for an instant

The text of a four-digit year is fields of fixed width, largest unit first, so
comparing two of them byte by byte compares the instants truncated to the
microsecond, leap seconds at the end of a minute included.  These are the texts
that are accepted back: for any other year one is written that cannot be read.
-/

namespace DualdbTimestamp

open Calendar FixedDigits FallibleRun TextOrder

/-! ## Days in calendar order -/

/-- Year, then month, then day of the month. -/
def compareDates (c c' : CivilDate) : Ordering :=
  (compare c.year c'.year).then
    ((compare c.month c'.month).then (compare c.day c'.day))

/-- **DATES COMPARE AS DAYS**. -/
theorem compareDates_eq (c c' : CivilDate) :
    compareDates c c' = compare c.dayNumber c'.dayNumber := by
  refine ordering_ext ?_ ?_
  · rw [Int.compare_eq_lt, CivilDate.dayNumber_lt_iff, compareDates,
      Ordering.then_eq_lt, Ordering.then_eq_lt, Int.compare_eq_lt,
      Int.compare_eq_eq, Nat.compare_eq_lt, Nat.compare_eq_eq,
      Nat.compare_eq_lt]
  · rw [Int.compare_eq_gt, CivilDate.dayNumber_lt_iff, compareDates,
      Ordering.then_eq_gt, Ordering.then_eq_gt, Int.compare_eq_gt,
      Int.compare_eq_eq, Nat.compare_eq_gt, Nat.compare_eq_eq,
      Nat.compare_eq_gt, eq_comm (a := c'.year), eq_comm (a := c'.month)]

/-! ## The time of day -/

/-- chrono's order: by day, second of the day and fraction. -/
def DateTime.compareTo (t u : DateTime) : Ordering :=
  (compare t.day u.day).then
    ((compare t.secs u.secs).then (compare t.frac u.frac))

/-- The fields of the time as they are written. -/
def DateTime.compareTimes (t u : DateTime) : Ordering :=
  (compare t.hour u.hour).then ((compare t.minute u.minute).then
    ((compare t.second u.second).then (compare t.micros u.micros)))

/-- A leap second's field is 60, so its fraction never runs into the next
    minute. -/
theorem DateTime.fields_lt_iff {t u : DateTime} (ht : t.LeapLast)
    (hu : u.LeapLast) :
    (t.hour < u.hour ∨ t.hour = u.hour ∧ (t.minute < u.minute ∨
      t.minute = u.minute ∧ (t.second < u.second ∨
        t.second = u.second ∧ t.micros < u.micros))) ↔
      (t.secs < u.secs ∨ t.secs = u.secs ∧
        t.truncated.frac < u.truncated.frac) := by
  have htf := t.frac_lt
  have huf := u.frac_lt
  simp only [DateTime.hour, DateTime.minute, DateTime.second, DateTime.micros,
    DateTime.truncated]
  -- either fraction is below a second or runs on in a leap second
  by_cases hlt : 10 ^ 9 ≤ t.frac
  · have hts := ht hlt
    by_cases hlu : 10 ^ 9 ≤ u.frac
    · have hus := hu hlu
      omega
    · omega
  · by_cases hlu : 10 ^ 9 ≤ u.frac
    · have hus := hu hlu
      omega
    · omega

theorem DateTime.compareTimes_eq {t u : DateTime} (ht : t.LeapLast)
    (hu : u.LeapLast) :
    t.compareTimes u = (compare t.truncated.secs u.truncated.secs).then
      (compare t.truncated.frac u.truncated.frac) := by
  refine ordering_ext ?_ ?_
  · rw [DateTime.compareTimes]
    simp only [Ordering.then_eq_lt, Nat.compare_eq_lt, Nat.compare_eq_eq]
    exact DateTime.fields_lt_iff ht hu
  · rw [DateTime.compareTimes]
    simp only [Ordering.then_eq_gt, Nat.compare_eq_gt, Nat.compare_eq_eq,
      eq_comm (a := t.hour), eq_comm (a := t.minute), eq_comm (a := t.second),
      eq_comm (a := t.truncated.secs)]
    exact DateTime.fields_lt_iff hu ht

/-! ## The written text -/

/-- The text of an instant with a four-digit year. -/
def DateTime.text (t : DateTime) : String :=
  rfc3339Text t.date.year.toNat t.date.month t.date.day t.hour t.minute
    t.second t.micros

/-- **TEXTS COMPARE AS INSTANTS**, truncated to the microsecond. -/
theorem compareText_text {t u : DateTime} (ht : FourDigitYear t.date.year)
    (hu : FourDigitYear u.date.year) (htl : t.LeapLast) (hul : u.LeapLast) :
    compareText t.text u.text = t.truncated.compareTo u.truncated := by
  obtain ⟨ht₀, ht₁⟩ := ht
  obtain ⟨hu₀, hu₁⟩ := hu
  have hdate : (compare t.date.year.toNat u.date.year.toNat).then
      ((compare t.date.month u.date.month).then
        (compare t.date.day u.date.day))
      = compare t.day u.day := by
    have hyear : compare t.date.year.toNat u.date.year.toNat
        = compare t.date.year u.date.year := by
      refine ordering_ext ?_ ?_
      · rw [Nat.compare_eq_lt, Int.compare_eq_lt]
        omega
      · rw [Nat.compare_eq_gt, Int.compare_eq_gt]
        omega
    have hdays := compareDates_eq t.date u.date
    rw [DateTime.date, DateTime.date, CivilDate.dayNumber_ofDayNumber,
      CivilDate.dayNumber_ofDayNumber] at hdays
    rw [hyear]
    exact hdays
  have ht₆₀ := t.second_le
  have hu₆₀ := u.second_le
  have ht₂₄ := t.hour_lt
  have hu₂₄ := u.hour_lt
  have htm := t.minute_lt
  have hum := u.minute_lt
  -- field by field, and the separators are the same
  rw [compareText, DateTime.text, DateTime.text, rfc3339Text, rfc3339Text,
    String.toList_ofList, String.toList_ofList,
    compareChars_padded 4 (by omega) (by omega), compareChars_cons,
    compareChars_padded 2 t.date.month_lt u.date.month_lt, compareChars_cons,
    compareChars_padded 2 t.date.day_lt u.date.day_lt, compareChars_cons,
    compareChars_padded 2 (by omega) (by omega), compareChars_cons,
    compareChars_padded 2 (by omega) (by omega), compareChars_cons,
    compareChars_padded 2 (by omega) (by omega), compareChars_cons,
    compareChars_padded 6 t.micros_lt u.micros_lt, compareChars_self,
    Ordering.then_eq, ← Ordering.then_assoc, ← Ordering.then_assoc,
    Ordering.then_assoc _ (compare t.date.month _), hdate]
  rw [DateTime.compareTo, ← DateTime.compareTimes_eq htl hul]
  rfl

theorem length_text (t : DateTime) : t.text.length = 27 := by
  rw [DateTime.text, rfc3339Text, String.length_ofList]
  simp only [List.length_append, List.length_cons, length_padded,
    List.length_nil]

/-! ## What is accepted back -/

/-- The truncated instant has the same fields. -/
theorem DateTime.text_truncated (t : DateTime) :
    t.truncated.text = t.text := by
  have hfrac := t.frac_lt
  have hsecond : t.truncated.second = t.second := by
    simp only [DateTime.second, DateTime.truncated]
    omega
  have hmicros : t.truncated.micros = t.micros := by
    simp only [DateTime.micros, DateTime.truncated]
    omega
  rw [DateTime.text, hsecond, hmicros]
  rfl

variable {d : Drivers}

theorem toSqlSqlite_text (hd : Documented d) {t : Timestamp}
    (hyear : FourDigitYear t.value.date.year) :
    t.toSqlSqlite d = t.value.text :=
  hd.format_fields t.value hyear

/-- **STORED TEXT SORTS AS TIME**: of two instants whose texts are accepted
    back, with leap seconds at the end of a minute only, the texts compare byte by
    byte as the instants truncated to the microsecond, and are of one length. -/
theorem stored_text_sorts (hd : Documented d) {t₁ t₂ u₁ u₂ : Timestamp}
    (hleap₁ : t₁.value.LeapLast) (hleap₂ : t₂.value.LeapLast)
    (h₁ : Timestamp.fromSqlSqlite d (t₁.toSqlSqlite d) = .ok u₁)
    (h₂ : Timestamp.fromSqlSqlite d (t₂.toSqlSqlite d) = .ok u₂) :
    compareText (t₁.toSqlSqlite d) (t₂.toSqlSqlite d)
        = t₁.truncated.value.compareTo t₂.truncated.value ∧
      (t₁.toSqlSqlite d).length = (t₂.toSqlSqlite d).length := by
  have hyear₁ := written_of_accepted hd h₁
  have hyear₂ := written_of_accepted hd h₂
  rw [toSqlSqlite_text hd hyear₁, toSqlSqlite_text hd hyear₂]
  refine ⟨compareText_text hyear₁ hyear₂ hleap₁ hleap₂, ?_⟩
  rw [length_text, length_text]

/-- The fraction of the first text does not outweigh the second of the other. -/
theorem stored_text_sorts_of_2010 :
    compareText (in2010.toSqlSqlite plainDrivers)
        (secondLater.toSqlSqlite plainDrivers) = .lt ∧
      (in2010.toSqlSqlite plainDrivers).length
        = (secondLater.toSqlSqlite plainDrivers).length := by
  have h₁ := reads_back plainDrivers_documented (t := in2010) (by decide)
    (by decide)
  have h₂ := reads_back plainDrivers_documented (t := secondLater) (by decide)
    (by decide)
  obtain ⟨hcompare, hlength⟩ := stored_text_sorts plainDrivers_documented
    (by decide) (by decide) h₁ h₂
  refine ⟨hcompare.trans ?_, hlength⟩
  decide

/-! ## Reading what was written -/

/-- Read a stored text and write the value again. -/
def Timestamp.rewritten (d : Drivers) (s : String) : Except String String :=
  (Timestamp.toSqlSqlite d) <$> Timestamp.fromSqlSqlite d s

/-- The truncated instant is written as the instant is. -/
theorem toSqlSqlite_truncated (hd : Documented d) {t : Timestamp}
    (hyear : FourDigitYear t.value.date.year) :
    t.truncated.toSqlSqlite d = t.toSqlSqlite d := by
  rw [toSqlSqlite_text hd hyear, toSqlSqlite_text (t := t.truncated) hd hyear]
  exact t.value.text_truncated

/-- **STORED TEXT IS READ BACK, EXACTLY**: an instant that is written is read
    back truncated to the microsecond exactly if its year is one of 0 to 9999 and
    no leap second stands before the end of a minute; and so for a text that is
    accepted, whose rewritten text is then rewritten to itself. -/
theorem stored_text_reads_back_iff (hd : Documented d) :
    (∀ t : Timestamp,
      Timestamp.fromSqlSqlite d (t.toSqlSqlite d) = .ok t.truncated ↔
        FourDigitYear t.value.date.year ∧ t.value.LeapLast) ∧
    ∀ (s : String) (u : Timestamp), Timestamp.fromSqlSqlite d s = .ok u →
      ((Timestamp.fromSqlSqlite d (u.toSqlSqlite d) = .ok u.truncated ∧
          Timestamp.rewritten d s = .ok (u.toSqlSqlite d) ∧
          Timestamp.rewritten d (u.toSqlSqlite d) = .ok (u.toSqlSqlite d)) ↔
        FourDigitYear u.value.date.year ∧ u.value.LeapLast) := by
  have hback : ∀ t : Timestamp,
      Timestamp.fromSqlSqlite d (t.toSqlSqlite d) = .ok t.truncated ↔
        FourDigitYear t.value.date.year ∧ t.value.LeapLast := by
    intro t
    constructor
    · intro h
      exact ⟨written_of_accepted hd h, (sqlite_truncates_iff hd h).mp rfl⟩
    · rintro ⟨hyear, hleap⟩
      exact reads_back hd hyear hleap
  refine ⟨hback, ?_⟩
  intro s u hu
  constructor
  · rintro ⟨hread, -, -⟩
    exact (hback u).mp hread
  · rintro ⟨hyear, hleap⟩
    have hread := reads_back hd hyear hleap
    refine ⟨hread, map_ok.mpr ⟨u, hu, rfl⟩, map_ok.mpr ⟨_, hread, ?_⟩⟩
    exact toSqlSqlite_truncated hd hyear

theorem stored_text_reads_back_iff_of_2010 :
    Timestamp.fromSqlSqlite plainDrivers (in2010.toSqlSqlite plainDrivers)
        = .ok in2010.truncated ∧
      Timestamp.fromSqlSqlite plainDrivers
        (earlyLeap.toSqlSqlite plainDrivers) ≠ .ok earlyLeap.truncated ∧
      Timestamp.rewritten plainDrivers "2010-01-01T00:00:01.000000Z"
        = .ok "2010-01-01T00:00:01.000000Z" := by
  obtain ⟨hwritten, hstored⟩ :=
    stored_text_reads_back_iff plainDrivers_documented
  refine ⟨(hwritten in2010).mpr (by decide), ?_, ?_⟩
  · intro h
    exact absurd ((hwritten earlyLeap).mp h).2 (by decide)
  have hread : Timestamp.fromSqlSqlite plainDrivers
      "2010-01-01T00:00:01.000000Z" = .ok secondLater := by decide +kernel
  obtain ⟨-, hrewritten, -⟩ := (hstored _ _ hread).mpr (by decide)
  rw [hrewritten]
  decide +kernel

/-! ## A year of five digits -/

section FiveDigits

/-- `%Y` outside four digits: a sign and at least four digits. -/
def writtenYear (y : Int) : List Char :=
  (if y < 0 then '-' else '+') ::
    (if y.natAbs < 10 ^ 4 then padded 4 y.natAbs
    else Nat.toDigits 10 y.natAbs)

def formatAnyYear (t : DateTime) (_ : String) : String :=
  if FourDigitYear t.date.year then t.text
  else String.ofList (writtenYear t.date.year ++ t.text.toList.drop 4)

/-- The drivers with the whole text of any year. -/
def anyYearDrivers : Drivers := { plainDrivers with format := formatAnyYear }

theorem anyYearDrivers_documented : Documented anyYearDrivers :=
  { plainDrivers_documented with
    format_fields := fun _ ht => if_pos ht
    format_signed := by
      intro t ht
      have htext : (anyYearDrivers.format t sqliteFormat).toList
          = writtenYear t.date.year ++ t.text.toList.drop 4 := by
        show (formatAnyYear t sqliteFormat).toList = _
        rw [formatAnyYear, if_neg ht, String.toList_ofList]
      refine ⟨if t.date.year < 0 then '-' else '+', _, ?_, htext⟩
      by_cases h : t.date.year < 0
      · exact Or.inr (if_pos h)
      · exact Or.inl (if_neg h) }

/-- It is written with a sign and five digits, and refused when read. -/
theorem year_10000_is_lost :
    Documented anyYearDrivers ∧
      year10000.toSqlSqlite anyYearDrivers
        = "+10000-01-01T00:00:00.000000Z" ∧
      Timestamp.fromSqlSqlite anyYearDrivers
        (year10000.toSqlSqlite anyYearDrivers) ≠ .ok year10000.truncated := by
  refine ⟨anyYearDrivers_documented, ?_, ?_⟩
  · decide +kernel
  · decide +kernel

end FiveDigits

end DualdbTimestamp
