import DieselDualdb.Lib.RustStr

/-!
# What a SQLite column makes of a value

A column of SQLite has no type but an affinity, which is read off the words in its
declared type, and a value is converted to the affinity of its column when it is
stored.  The numbers and their conversions are a parameter (`Numbers`).

Blobs are kept by every column.  A text is kept where the affinity is that of texts
or blobs; elsewhere it is kept only if it does not look like a number
(`keeps_text_iff`).
-/

namespace SqliteStorage

open RustStr

inductive Affinity where
  | integer
  | text
  | blob
  | real
  | numeric
deriving DecidableEq

def occurs (word : List Char) : List Char → Bool
  | [] => word.isEmpty
  | c :: cs => word.isPrefixOf (c :: cs) || occurs word cs

def hasWord (declared word : String) : Bool :=
  occurs word.toList declared.toList

/-- The rules for lower-case text, the first one that applies. -/
def affinityLower (declared : String) : Affinity :=
  if hasWord declared "int" then .integer
  else if hasWord declared "char" || hasWord declared "clob"
      || hasWord declared "text" then .text
  else if hasWord declared "blob" || declared.isEmpty then .blob
  else if hasWord declared "real" || hasWord declared "floa"
      || hasWord declared "doub" then .real
  else .numeric

/-- The affinity of a column that is declared with this type. -/
def affinity (declared : String) : Affinity :=
  affinityLower (toAsciiLowercase declared)

/-- A stored value, by its storage class; integers and reals are numbers. -/
inductive Value (N : Type) where
  | null
  | number (n : N)
  | text (s : String)
  | blob (bytes : List UInt8)
deriving DecidableEq

/-- Numbers and how columns convert them. -/
structure Numbers (N : Type) where
  toText : N → String
  /-- The number that a text is converted to, if it looks like one. -/
  ofText : String → Option N
  /-- A number in a column of the integer or the numeric affinity. -/
  asNumeric : N → N
  /-- A number in a column of the real affinity. -/
  asReal : N → N

variable {N : Type}

def storeNumber (c : Numbers N) (n : N) : Affinity → Value N
  | .text => .text (c.toText n)
  | .blob => .number n
  | .real => .number (c.asReal n)
  | .integer | .numeric => .number (c.asNumeric n)

def storeText (c : Numbers N) (s : String) (a : Affinity) : Value N :=
  match c.ofText s with
  | none => .text s
  | some n =>
      match a with
      | .text | .blob => .text s
      | .integer | .real | .numeric => storeNumber c n a

/-- What is stored of a value in a column of this affinity. -/
def store (c : Numbers N) (a : Affinity) : Value N → Value N
  | .null => .null
  | .number n => storeNumber c n a
  | .text s => storeText c s a
  | .blob bytes => .blob bytes

/-- The value is stored as it is. -/
def Keeps (c : Numbers N) (a : Affinity) (v : Value N) : Prop := store c a v = v

theorem keeps_blob (c : Numbers N) (a : Affinity) (bytes : List UInt8) :
    Keeps c a (.blob bytes) := rfl

/-- **WHICH TEXTS A COLUMN KEEPS**: all of them, or those that look like no
    number. -/
theorem keeps_text_iff {c : Numbers N} {a : Affinity} {s : String} :
    Keeps c a (.text s) ↔ a = .text ∨ a = .blob ∨ c.ofText s = none := by
  show storeText c s a = .text s ↔ _
  rw [storeText]
  cases c.ofText s with
  | none => exact iff_of_true rfl (Or.inr (Or.inr rfl))
  | some n =>
      cases a with
      | text => exact iff_of_true rfl (Or.inl rfl)
      | blob => exact iff_of_true rfl (Or.inr (Or.inl rfl))
      | integer | real | numeric =>
          simp [storeNumber]

end SqliteStorage
