import Mathlib.Algebra.Group.Nat.Defs
import Mathlib.Tactic.Common

/-!
# Fixed-width decimal numbers

Writing a number with a fixed count of digits, and scanning it back off the
front of a text.
-/

namespace FixedDigits

/-- The last `w` decimal digits of `n`, zero-padded. -/
def padded : (w n : Nat) → List Char
  | 0, _ => []
  | w + 1, n => padded w (n / 10) ++ [Nat.digitChar (n % 10)]

def digitValue (c : Char) : Option Nat :=
  if c.isDigit then some (c.toNat - '0'.toNat) else none

/-- Read `w` digits, onto the number read so far. -/
def scanDigits : (w acc : Nat) → List Char → Option (Nat × List Char)
  | 0, acc, cs => some (acc, cs)
  | _ + 1, _, [] => none
  | w + 1, acc, c :: cs =>
      match digitValue c with
      | some d => scanDigits w (acc * 10 + d) cs
      | none => none

def scanNumber (w : Nat) (cs : List Char) : Option (Nat × List Char) :=
  scanDigits w 0 cs

def scanChar (c : Char) : List Char → Option (List Char)
  | x :: cs => if x = c then some cs else none
  | [] => none

theorem scanChar_cons (c : Char) (cs : List Char) :
    scanChar c (c :: cs) = some cs :=
  if_pos rfl

theorem digitValue_digitChar {d : Nat} (h : d < 10) :
    digitValue (Nat.digitChar d) = some d := by
  match d, h with
  | 0, _ | 1, _ | 2, _ | 3, _ | 4, _ | 5, _ | 6, _ | 7, _ | 8, _ | 9, _ => rfl

theorem length_padded (w n : Nat) : (padded w n).length = w := by
  induction w generalizing n with
  | zero => rfl
  | succ w ih => rw [padded, List.length_append, ih, List.length_singleton]

theorem isDigit_of_mem_padded {c : Char} {w n : Nat} (h : c ∈ padded w n) :
    c.isDigit := by
  have hdigit : ∀ d < 10, (Nat.digitChar d).isDigit := by decide
  induction w generalizing n with
  | zero => exact absurd h List.not_mem_nil
  | succ w ih =>
      rcases List.mem_append.mp h with hinit | hlast
      · exact ih hinit
      · rw [List.mem_singleton.mp hlast]
        exact hdigit _ (Nat.mod_lt n (by decide))

/-- A padded number cut before its last digits. -/
theorem padded_add (v w n : Nat) :
    padded (v + w) n = padded v (n / 10 ^ w) ++ padded w n := by
  induction w generalizing n with
  | zero => rw [Nat.pow_zero, Nat.div_one, padded, List.append_nil]; rfl
  | succ w ih =>
      rw [← Nat.add_assoc, padded, ih, padded, List.append_assoc,
        Nat.div_div_eq_div_mul, Nat.pow_succ']

/-- The first digits are scanned before the last one. -/
theorem scanDigits_padded_append (w n acc : Nat) (rest : List Char) :
    scanDigits w acc (padded w n ++ rest)
      = some (acc * 10 ^ w + n % 10 ^ w, rest) := by
  have hscan : ∀ v w n acc rest, scanDigits (w + v) acc (padded w n ++ rest)
      = scanDigits v (acc * 10 ^ w + n % 10 ^ w) rest := by
    intro v w
    induction w generalizing v with
    | zero =>
        intro n acc rest
        rw [Nat.zero_add, Nat.pow_zero, Nat.mod_one, Nat.mul_one, padded,
          List.nil_append, Nat.add_zero]
    | succ w ih =>
        intro n acc rest
        have hd : n % 10 < 10 := Nat.mod_lt _ (by decide)
        rw [padded, List.append_assoc, Nat.add_assoc, Nat.add_comm 1 v, ih,
          List.singleton_append, scanDigits, digitValue_digitChar hd]
        have hmod : n % 10 ^ (w + 1) = n / 10 % 10 ^ w * 10 + n % 10 := by
          rw [Nat.pow_succ, Nat.mul_comm, Nat.mod_mul]
          omega
        show scanDigits v ((acc * 10 ^ w + n / 10 % 10 ^ w) * 10 + n % 10) rest
          = _
        rw [hmod, Nat.pow_succ, Nat.add_mul, Nat.mul_assoc, Nat.add_assoc]
  exact hscan 0 w n acc rest

/-- **A PADDED NUMBER SCANS BACK**, and the rest of the text is left. -/
theorem scanNumber_padded {w n : Nat} (h : n < 10 ^ w) (rest : List Char) :
    scanNumber w (padded w n ++ rest) = some (n, rest) := by
  rw [scanNumber, scanDigits_padded_append, Nat.zero_mul, Nat.zero_add,
    Nat.mod_eq_of_lt h]

end FixedDigits
