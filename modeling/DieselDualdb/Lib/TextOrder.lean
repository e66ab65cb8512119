import DieselDualdb.Lib.FixedDigits
import Mathlib.Order.Compare

/-!
# Texts in byte order

Rust and SQLite compare texts by the bytes of their UTF-8 encoding.  A common
beginning does not count, and numbers written with a fixed count of digits
compare as numbers, so that a text of such fields compares field by field.
-/

namespace TextOrder

open FixedDigits

/-- The bytes of a text. -/
def utf8 (cs : List Char) : List UInt8 := cs.flatMap String.utf8EncodeChar

/-- `memcmp` on the bytes, a proper beginning first. -/
def compareChars (cs ds : List Char) : Ordering := compare (utf8 cs) (utf8 ds)

/-- Byte by byte. -/
def compareText (s t : String) : Ordering := compareChars s.toList t.toList

theorem compare_append (bs xs ys : List UInt8) :
    compare (bs ++ xs) (bs ++ ys) = compare xs ys := by
  induction bs with
  | nil => rfl
  | cons b bs ih =>
      rw [List.cons_append, List.cons_append, List.compare_cons_cons, ih]
      have hself : compare b b = .eq := Std.ReflCmp.compare_self
      rw [hself, Ordering.eq_then]

/-- A common beginning does not count. -/
theorem compareChars_append (cs xs ys : List Char) :
    compareChars (cs ++ xs) (cs ++ ys) = compareChars xs ys := by
  rw [compareChars, utf8, utf8, List.flatMap_append, List.flatMap_append,
    compare_append]
  rfl

theorem compareChars_cons (c : Char) (xs ys : List Char) :
    compareChars (c :: xs) (c :: ys) = compareChars xs ys :=
  compareChars_append [c] xs ys

theorem compareChars_self (cs : List Char) : compareChars cs cs = .eq := by
  have happend := compareChars_append cs [] []
  rwa [List.append_nil] at happend

/-! ## Numbers -/

/-- A digit is one byte, and digits compare as numbers. -/
theorem compareChars_digit {d e : Nat} (hd : d < 10) (he : e < 10)
    (xs ys : List Char) :
    compareChars (Nat.digitChar d :: xs) (Nat.digitChar e :: ys)
      = (compare d e).then (compareChars xs ys) := by
  have hbyte : ∀ n < 10, String.utf8EncodeChar (Nat.digitChar n)
      = [UInt8.ofNat (48 + n)] := by decide
  have hcompare : ∀ m < 10, ∀ n < 10,
      compare (UInt8.ofNat (48 + m)) (UInt8.ofNat (48 + n)) = compare m n := by
    decide
  rw [compareChars, utf8, utf8, List.flatMap_cons, List.flatMap_cons,
    hbyte d hd, hbyte e he, List.singleton_append, List.singleton_append,
    List.compare_cons_cons, hcompare d hd e he]
  rfl

/-- A number is its leading digits and then its last one. -/
theorem compare_div_then_mod (m n : Nat) :
    (compare (m / 10) (n / 10)).then (compare (m % 10) (n % 10))
      = compare m n := by
  rcases Nat.lt_trichotomy m n with h | rfl | h
  · rw [Nat.compare_eq_lt.mpr h, Ordering.then_eq_lt, Nat.compare_eq_lt,
      Nat.compare_eq_eq, Nat.compare_eq_lt]
    omega
  · rw [Nat.compare_eq_eq.mpr rfl, Nat.compare_eq_eq.mpr rfl,
      Nat.compare_eq_eq.mpr rfl, Ordering.eq_then]
  · rw [Nat.compare_eq_gt.mpr h, Ordering.then_eq_gt, Nat.compare_eq_gt,
      Nat.compare_eq_eq, Nat.compare_eq_gt]
    omega

/-- **PADDED NUMBERS COMPARE AS NUMBERS**, and then what follows them. -/
theorem compareChars_padded (w : Nat) {m n : Nat} (hm : m < 10 ^ w)
    (hn : n < 10 ^ w) (xs ys : List Char) :
    compareChars (padded w m ++ xs) (padded w n ++ ys)
      = (compare m n).then (compareChars xs ys) := by
  induction w generalizing m n xs ys with
  | zero =>
      have hm₀ : m = 0 := by omega
      have hn₀ : n = 0 := by omega
      rw [hm₀, hn₀, Nat.compare_eq_eq.mpr rfl, Ordering.eq_then]
      rfl
  | succ w ih =>
      rw [Nat.pow_succ] at hm hn
      rw [padded, padded, List.append_assoc, List.append_assoc,
        ih (by omega) (by omega), List.singleton_append, List.singleton_append,
        compareChars_digit (Nat.mod_lt m (by decide))
          (Nat.mod_lt n (by decide)),
        ← Ordering.then_assoc, compare_div_then_mod]

/-! ## Comparisons by several fields -/

/-- Two outcomes are the same if they are the same strictly. -/
theorem ordering_ext {o o' : Ordering} (hlt : o = .lt ↔ o' = .lt)
    (hgt : o = .gt ↔ o' = .gt) : o = o' := by
  cases o <;> cases o' <;> simp at hlt hgt <;> rfl

end TextOrder
