import Mathlib.Data.Rat.Defs
import Mathlib.Algebra.Order.Field.Rat

/-!
# The decimal type on SQLite

`Decimal` wraps a `bigdecimal` value: an integer and the scale that divides it.
SQLite stores the text that `bigdecimal` prints.  The printer and the parser
are a parameter (`BigDecimals`); what they are documented to do is
`Documented`, and every result about the two arms assumes no more than that.
-/

namespace DualdbDecimal

/-- `int / 10 ^ scale`, the scale an `i64`. -/
@[ext] structure BigDecimal where
  int : Int
  scale : Int
  scale_ge : -2 ^ 63 ≤ scale
  scale_lt : scale < 2 ^ 63
deriving DecidableEq

namespace BigDecimal

/-- The number itself; `==` of the crate compares these. -/
def number (a : BigDecimal) : ℚ := a.int * 10 ^ (-a.scale)

/-- The integer with the zeros of its negative scale written out. -/
def plain (a : BigDecimal) : BigDecimal where
  int := a.int * 10 ^ (-a.scale).toNat
  scale := 0
  scale_ge := by decide
  scale_lt := by decide

/-- The integer `0` at scale `0`. -/
def zero : BigDecimal where
  int := 0
  scale := 0
  scale_ge := by decide
  scale_lt := by decide

end BigDecimal

/-- What the SQLite arms use of `bigdecimal`. -/
structure BigDecimals where
  /-- `BigDecimal::to_string` -/
  toText : BigDecimal → String
  /-- `BigDecimal::from_str`, the error as displayed. -/
  fromStr : String → Except String BigDecimal
  /-- `Debug` of a text. -/
  debugStr : String → String
  /-- Which negative scales are written as zeros, not as an exponent. -/
  plainZeros : BigDecimal → Bool

namespace BigDecimals

/-- The integer and the scale that the text of a value shows; every zero shows
    as `0`. -/
def shown (c : BigDecimals) (a : BigDecimal) : BigDecimal :=
  if a.int = 0 then .zero
  else if a.scale < 0 ∧ c.plainZeros a then a.plain else a

/-- The same integer, the same scale. -/
def Alike (c : BigDecimals) (a b : BigDecimal) : Prop := c.shown a = c.shown b

end BigDecimals

/-- The documented behaviour of the printer and of the parser. -/
structure Documented (c : BigDecimals) : Prop where
  /-- What is printed is a function of what the text shows. -/
  toText_alike : ∀ {a b}, c.Alike a b → c.toText a = c.toText b
  fromStr_toText : ∀ a, c.fromStr (c.toText a) = .ok (c.shown a)

@[ext] structure Decimal where
  value : BigDecimal
deriving DecidableEq

namespace Decimal

def toSqlSqlite (c : BigDecimals) (a : Decimal) : String := c.toText a.value

def fromSqlSqlite (c : BigDecimals) (s : String) : Except String Decimal := do
  let value ← (c.fromStr s).mapError fun e =>
    "invalid decimal " ++ c.debugStr s ++ ": " ++ e
  pure ⟨value⟩

/-- `==` of two decimals is equality of these. -/
def number (a : Decimal) : ℚ := a.value.number

end Decimal

end DualdbDecimal
