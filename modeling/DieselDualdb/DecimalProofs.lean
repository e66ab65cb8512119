import DieselDualdb.Decimal
import DieselDualdb.Lib.FixedDigits
import Mathlib.Algebra.Group.Int.Defs
import Mathlib.Data.Rat.Cast.Defs
import Mathlib.Tactic.FieldSimp
import Mathlib.Tactic.NormNum

/-!
# One number, several decimal texts

The text of a decimal shows its scale unless it is zero, so two decimals that are
equal as numbers are stored as one text only if they are zero or show the same
scale.  Reading is not affected: whatever the scale, the text gives back an equal
number.
-/

namespace DualdbDecimal

open FixedDigits

variable {c : BigDecimals}

/-! ## What a text shows -/

theorem BigDecimal.number_zero {a : BigDecimal} (h : a.int = 0) :
    a.number = 0 := by
  rw [BigDecimal.number, h, Int.cast_zero, zero_mul]

theorem BigDecimal.number_plain {a : BigDecimal} (h : a.scale < 0) :
    a.plain.number = a.number := by
  have hscale : ((-a.scale).toNat : Int) = -a.scale :=
    Int.toNat_of_nonneg (by omega)
  have hplain : a.plain.number = (a.int * 10 ^ (-a.scale).toNat : Int)
      * 10 ^ (-(0 : Int)) := rfl
  rw [hplain, neg_zero, zpow_zero, mul_one, Int.cast_mul, Int.cast_pow,
    ← zpow_natCast, hscale]
  rfl

/-- Writing the zeros of a scale out does not change the number. -/
theorem number_shown (c : BigDecimals) (a : BigDecimal) :
    (c.shown a).number = a.number := by
  rw [BigDecimals.shown]
  by_cases hint : a.int = 0
  · rw [if_pos hint, BigDecimal.number_zero hint, BigDecimal.number_zero rfl]
  · rw [if_neg hint]
    by_cases h : a.scale < 0 ∧ c.plainZeros a
    · rw [if_pos h, BigDecimal.number_plain h.1]
    · rw [if_neg h]

/-- A scale that is not negative is shown as it is, but for zero. -/
theorem shown_of_scale {a : BigDecimal} (hint : a.int ≠ 0) (h : 0 ≤ a.scale) :
    c.shown a = a := by
  rw [BigDecimals.shown, if_neg hint]
  exact if_neg fun hplain => absurd hplain.1 (by omega)

/-- Texts are equal exactly when they show the same. -/
theorem toText_eq_iff (hc : Documented c) (a b : BigDecimal) :
    c.toText a = c.toText b ↔ c.Alike a b := by
  constructor
  · intro h
    have hread : Except.ok (ε := String) (c.shown a) = .ok (c.shown b) := by
      rw [← hc.fromStr_toText a, ← hc.fromStr_toText b, h]
    exact Except.ok.inj hread
  · exact hc.toText_alike

/-- Where no scale is negative, a text stands for one integer and scale, or for
    zero. -/
theorem alike_iff_of_scale {a b : BigDecimal} (hint : a.int ≠ 0)
    (ha : 0 ≤ a.scale) (hb : 0 ≤ b.scale) : c.Alike a b ↔ a = b := by
  rw [BigDecimals.Alike, shown_of_scale hint ha]
  by_cases hint' : b.int = 0
  · have hzero : c.shown b = .zero := if_pos hint'
    rw [hzero]
    constructor
    · rintro rfl
      exact absurd rfl hint
    · rintro rfl
      exact absurd hint' hint
  · rw [shown_of_scale hint' hb]

/-- All zeros are written alike. -/
theorem alike_of_zero {a b : BigDecimal} (ha : a.int = 0) (hb : b.int = 0) :
    c.Alike a b := by
  rw [BigDecimals.Alike, BigDecimals.shown, BigDecimals.shown, if_pos ha,
    if_pos hb]

/-! ## The two arms -/

/-- What a canonical text would do: one text for each number, which is read
    back as that number. -/
structure Canonical (c : BigDecimals) (a b : Decimal) : Prop where
  same_text : a.toSqlSqlite c = b.toSqlSqlite c ↔ a.number = b.number
  reads_back : ∃ v, Decimal.fromSqlSqlite c (a.toSqlSqlite c) = .ok v ∧
    v.number = a.number

theorem fromSql_toSql (hc : Documented c) (a : Decimal) :
    Decimal.fromSqlSqlite c (a.toSqlSqlite c) = .ok ⟨c.shown a.value⟩ := by
  rw [Decimal.fromSqlSqlite, Decimal.toSqlSqlite, hc.fromStr_toText]
  rfl

/-- **READING KEEPS THE NUMBER**, at every scale. -/
theorem stored_text_reads_back (hc : Documented c) (a : Decimal) :
    ∃ v, Decimal.fromSqlSqlite c (a.toSqlSqlite c) = .ok v ∧
      v.number = a.number :=
  ⟨_, fromSql_toSql hc a, number_shown c a.value⟩

/-- One text is only ever written for one number. -/
theorem number_of_text (hc : Documented c) {a b : Decimal}
    (h : a.toSqlSqlite c = b.toSqlSqlite c) : a.number = b.number := by
  have hshown : c.shown a.value = c.shown b.value :=
    (toText_eq_iff hc a.value b.value).mp h
  calc a.value.number = (c.shown a.value).number := (number_shown c _).symm
    _ = (c.shown b.value).number := by rw [hshown]
    _ = b.value.number := number_shown c _

/-- **EQUAL DECIMALS SHARE A TEXT** exactly when they are printed alike. -/
theorem stored_text_canonical_iff (hc : Documented c) (a b : Decimal) :
    Canonical c a b ↔ (a.number = b.number → c.Alike a.value b.value) := by
  constructor
  · intro h hnumber
    exact (toText_eq_iff hc _ _).mp (h.same_text.mpr hnumber)
  · intro halike
    refine ⟨⟨number_of_text hc, ?_⟩, stored_text_reads_back hc a⟩
    intro hnumber
    exact (toText_eq_iff hc _ _).mpr (halike hnumber)

/-! ## Decimals without an exponent -/

section Plain

/-- The text of a number without its sign, its whole part in `i` digits. -/
def plainDigits (i n scale : Nat) : List Char :=
  padded i (n / 10 ^ scale) ++
    if scale = 0 then [] else '.' :: padded scale n

def plainText (a : BigDecimal) : String :=
  let n := a.int.natAbs
  let scale := a.scale.toNat
  let i := (Nat.toDigits 10 (n / 10 ^ scale)).length
  String.ofList ((if a.int < 0 then ['-'] else []) ++ plainDigits i n scale)

/-- The integer and the scale of a text without its sign. -/
def readUnsigned (cs : List Char) : Option (Nat × Nat) :=
  let whole := cs.takeWhile (· ≠ '.')
  let frac := (cs.dropWhile (· ≠ '.')).tail
  (scanNumber (whole.length + frac.length) (whole ++ frac)).map
    fun (n, _) => (n, frac.length)

def readPlain (s : String) : Except String BigDecimal :=
  let negative := s.toList.head? = some '-'
  match readUnsigned (if negative then s.toList.tail else s.toList) with
  | some (n, scale) =>
      if h : (scale : Int) < 2 ^ 63 then
        .ok ⟨if negative then -n else n, scale, by omega, h⟩
      else .error "the scale overflowed"
  | none => .error "invalid digit found in string"

theorem digit_ne {c x : Char} (h : c.isDigit) (hx : x.isDigit = false) :
    c ≠ x := by
  rintro rfl
  rw [hx] at h
  exact absurd h (by decide)

/-- The whole part ends at the point. -/
theorem cut_at_point (i n scale : Nat) :
    (plainDigits i n scale).takeWhile (· ≠ '.') = padded i (n / 10 ^ scale) ∧
      ((plainDigits i n scale).dropWhile (· ≠ '.')).tail
        = padded scale n := by
  have hwhole : ∀ c ∈ padded i (n / 10 ^ scale), decide (c ≠ '.') = true := by
    intro c hc
    exact decide_eq_true (digit_ne (isDigit_of_mem_padded hc) (by decide))
  rw [plainDigits, List.takeWhile_append_of_pos hwhole,
    List.dropWhile_append_of_pos hwhole]
  by_cases h : scale = 0
  · rw [if_pos h, h, List.takeWhile_nil, List.append_nil]
    exact ⟨rfl, rfl⟩
  · rw [if_neg h, List.takeWhile_cons_of_neg (by decide), List.append_nil,
      List.dropWhile_cons_of_neg (by decide), List.tail_cons]
    exact ⟨rfl, rfl⟩

theorem head_plainDigits {i : Nat} (h : 0 < i) (n scale : Nat) :
    (plainDigits i n scale).head? ≠ some '-' := by
  intro hhead
  obtain ⟨c, cs, hcs⟩ : ∃ c cs, padded i (n / 10 ^ scale) = c :: cs := by
    refine List.exists_cons_of_length_pos ?_
    rw [length_padded]
    exact h
  have hdigit : c.isDigit := isDigit_of_mem_padded (hcs ▸ List.mem_cons_self)
  rw [plainDigits, hcs, List.cons_append, List.head?_cons,
    Option.some.injEq] at hhead
  exact digit_ne hdigit (by decide) hhead

/-- The sign is taken off, and nothing else. -/
theorem unsigned_plainText {i : Nat} (hi : 0 < i) (negative : Prop)
    [Decidable negative] (n scale : Nat) :
    let cs := (if negative then ['-'] else []) ++ plainDigits i n scale
    (cs.head? = some '-' ↔ negative) ∧
      (if cs.head? = some '-' then cs.tail else cs)
        = plainDigits i n scale := by
  intro cs
  by_cases h : negative
  · have hcs : cs = '-' :: plainDigits i n scale := by
      show (if negative then ['-'] else []) ++ _ = _
      rw [if_pos h]
      rfl
    rw [hcs, List.head?_cons, if_pos rfl, List.tail_cons]
    exact ⟨⟨fun _ => h, fun _ => rfl⟩, rfl⟩
  · have hcs : cs = plainDigits i n scale := by
      show (if negative then ['-'] else []) ++ _ = _
      rw [if_neg h, List.nil_append]
    rw [hcs, if_neg (head_plainDigits hi n scale)]
    exact ⟨⟨fun hhead => absurd hhead (head_plainDigits hi n scale),
      fun hneg => absurd hneg h⟩, rfl⟩

/-- The whole part has room for its digits. -/
theorem lt_of_width (n scale : Nat) :
    n < 10 ^ ((Nat.toDigits 10 (n / 10 ^ scale)).length + scale) := by
  have hwidth : n / 10 ^ scale
      < 10 ^ (Nat.toDigits 10 (n / 10 ^ scale)).length :=
    (Nat.length_toDigits_le_iff (by decide) Nat.length_toDigits_pos).mp
      (Nat.le_refl _)
  rwa [Nat.pow_add, ← Nat.div_lt_iff_lt_mul (Nat.pow_pos (by decide))]

theorem readUnsigned_plainDigits (n scale : Nat) :
    readUnsigned (plainDigits (Nat.toDigits 10 (n / 10 ^ scale)).length n scale)
      = some (n, scale) := by
  obtain ⟨hwhole, hfrac⟩ :=
    cut_at_point (Nat.toDigits 10 (n / 10 ^ scale)).length n scale
  have hscan := scanNumber_padded (lt_of_width n scale) []
  rw [List.append_nil, padded_add] at hscan
  rw [readUnsigned, hwhole, hfrac, length_padded, length_padded, hscan]
  rfl

/-- **A PLAIN DECIMAL READS BACK**, with its integer and its scale. -/
theorem readPlain_plainText {a : BigDecimal} (h : 0 ≤ a.scale) :
    readPlain (plainText a) = .ok a := by
  have hi : 0 < (Nat.toDigits 10 (a.int.natAbs / 10 ^ a.scale.toNat)).length :=
    Nat.length_toDigits_pos
  obtain ⟨hsign, hdigits⟩ := unsigned_plainText hi (a.int < 0) a.int.natAbs
    a.scale.toNat
  have hscale : (a.scale.toNat : Int) = a.scale := Int.toNat_of_nonneg h
  simp only [readPlain, plainText, String.toList_ofList, hdigits,
    readUnsigned_plainDigits]
  rw [dif_pos (by rw [hscale]; exact a.scale_lt)]
  congr 1
  ext
  · show (if _ then -(a.int.natAbs : Int) else a.int.natAbs) = a.int
    simp only [hsign]
    by_cases hneg : a.int < 0
    · rw [if_pos hneg]
      omega
    · rw [if_neg hneg]
      omega
  · exact hscale

/-- A zero as `0`, and every other scale written out. -/
def plainBigDecimals : BigDecimals where
  toText a :=
    plainText (if a.int = 0 then .zero
      else if a.scale < 0 ∧ true then a.plain else a)
  fromStr := readPlain
  debugStr s := "\"" ++ s ++ "\""
  plainZeros _ := true

theorem plainBigDecimals_shown_scale (a : BigDecimal) :
    0 ≤ (plainBigDecimals.shown a).scale := by
  rw [BigDecimals.shown]
  by_cases hint : a.int = 0
  · rw [if_pos hint]
    exact Int.le_refl 0
  · rw [if_neg hint]
    by_cases h : a.scale < 0 ∧ plainBigDecimals.plainZeros a
    · rw [if_pos h]
      exact Int.le_refl 0
    · rw [if_neg h]
      by_contra hneg
      exact h ⟨by omega, rfl⟩

theorem plainBigDecimals_toText (a : BigDecimal) :
    plainBigDecimals.toText a = plainText (plainBigDecimals.shown a) :=
  rfl

theorem plainBigDecimals_documented : Documented plainBigDecimals where
  toText_alike h := by
    rw [plainBigDecimals_toText, plainBigDecimals_toText, h]
  fromStr_toText a := by
    rw [plainBigDecimals_toText]
    exact readPlain_plainText (plainBigDecimals_shown_scale a)

/-- A decimal with few digits after the point. -/
def decimalOf (int : Int) (scale : Fin 16) : Decimal :=
  ⟨⟨int, scale, by omega, by omega⟩⟩

theorem stored_text_canonical_iff_of_amounts :
    Canonical plainBigDecimals (decimalOf 15 1) (decimalOf (-15) 1) ∧
      Canonical plainBigDecimals (decimalOf 0 1) (decimalOf 0 2) ∧
      ¬ Canonical plainBigDecimals (decimalOf 15 1) (decimalOf 150 2) := by
  have hiff := stored_text_canonical_iff plainBigDecimals_documented
  refine ⟨?_, (hiff _ _).mpr fun _ => alike_of_zero rfl rfl, ?_⟩
  · refine (hiff _ _).mpr fun hnumber => ?_
    norm_num [decimalOf, Decimal.number, BigDecimal.number] at hnumber
  · intro hcanonical
    have hnumber : (decimalOf 15 1).number = (decimalOf 150 2).number := by
      norm_num [decimalOf, Decimal.number, BigDecimal.number]
    have halike := (hiff _ _).mp hcanonical hnumber
    have hshown := congrArg BigDecimal.scale halike
    exact absurd hshown (by decide +kernel)

/-- The number one is stored as `1.0` and as `1.00`. -/
theorem one_has_two_texts :
    Documented plainBigDecimals ∧
      (decimalOf 10 1).number = (decimalOf 100 2).number ∧
      (decimalOf 10 1).toSqlSqlite plainBigDecimals = "1.0" ∧
      (decimalOf 100 2).toSqlSqlite plainBigDecimals = "1.00" ∧
      ¬ Canonical plainBigDecimals (decimalOf 10 1) (decimalOf 100 2) := by
  have hnumber : (decimalOf 10 1).number = (decimalOf 100 2).number := by
    norm_num [decimalOf, Decimal.number, BigDecimal.number]
  have hone : (decimalOf 10 1).toSqlSqlite plainBigDecimals = "1.0" := by
    decide +kernel
  have htwo : (decimalOf 100 2).toSqlSqlite plainBigDecimals = "1.00" := by
    decide +kernel
  refine ⟨plainBigDecimals_documented, hnumber, hone, htwo, ?_⟩
  intro hcanonical
  have htext := hcanonical.same_text.mpr hnumber
  rw [hone, htwo] at htext
  exact absurd htext (by decide)

end Plain

end DualdbDecimal
