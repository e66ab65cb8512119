import Mathlib.Tactic.Common

/-!
# Identifiers of Rust

An identifier starts with a character of Unicode's `XID_Start`, or with `_` and
at least one more character; the rest is of `XID_Continue`.  The two tables
are a parameter, fixed on ASCII (`XidTables`).  A keyword is not an identifier.
-/

namespace RustIdents

structure XidTables where
  start : Char → Bool
  continues : Char → Bool
  start_ascii : ∀ c : Char, c.toNat < 128 → start c = c.isAlpha
  continues_ascii : ∀ c : Char, c.toNat < 128 →
    continues c = (c.isAlphanum || c == '_')

/-- The strict and the reserved keywords of the 2021 edition. -/
def keywords : List String :=
  ["as", "break", "const", "continue", "crate", "else", "enum", "extern",
    "false", "fn", "for", "if", "impl", "in", "let", "loop", "match", "mod",
    "move", "mut", "pub", "ref", "return", "self", "Self", "static", "struct",
    "super", "trait", "true", "type", "unsafe", "use", "where", "while",
    "async", "await", "dyn", "abstract", "become", "box", "do", "final",
    "macro", "override", "priv", "typeof", "unsized", "virtual", "yield",
    "try"]

/-- The characters of an identifier. -/
def IdentChars (x : XidTables) : List Char → Prop
  | [] => False
  | c :: cs => (x.start c = true ∨ c = '_' ∧ cs ≠ []) ∧
      ∀ d ∈ cs, x.continues d = true

/-- A legal identifier that is no keyword. -/
def IsIdent (x : XidTables) (s : String) : Prop :=
  IdentChars x s.toList ∧ s ∉ keywords

-- letter by letter, not over all of Unicode
instance (x : XidTables) : ∀ cs, Decidable (IdentChars x cs)
  | [] => isFalse id
  | _ :: cs =>
      haveI : Decidable (∀ d ∈ cs, x.continues d = true) :=
        List.decidableBAll _ cs
      inferInstanceAs (Decidable (_ ∧ _))

instance (x : XidTables) (s : String) : Decidable (IsIdent x s) :=
  inferInstanceAs (Decidable (_ ∧ _))

/-- A text that is an identifier. -/
structure Identifier (x : XidTables) where
  text : String
  legal : IsIdent x text

/-- An ASCII word that starts with a letter. -/
def IsAsciiWord (s : String) : Prop :=
  ∃ c ∈ s.toList.head?, c.isAlpha = true ∧
    (s.toList.all fun d =>
      decide (d.toNat < 128) && (d.isAlphanum || d == '_')) = true ∧
    s ∉ keywords

theorem isIdent_of_asciiWord (x : XidTables) {s : String}
    (h : IsAsciiWord s) : IsIdent x s := by
  obtain ⟨c, hhead, halpha, hword, hkeyword⟩ := h
  have hall : ∀ d ∈ s.toList,
      d.toNat < 128 ∧ (d.isAlphanum || d == '_') = true := by
    intro d hd
    have hd := List.all_eq_true.mp hword d hd
    rw [Bool.and_eq_true] at hd
    exact ⟨of_decide_eq_true hd.1, hd.2⟩
  refine ⟨?_, hkeyword⟩
  cases hs : s.toList with
  | nil => rw [hs] at hhead; cases hhead
  | cons d cs =>
      rw [hs] at hhead hall
      cases Option.some.inj hhead
      refine ⟨Or.inl ?_, fun e he => ?_⟩
      · rw [x.start_ascii c (hall c List.mem_cons_self).1]
        exact halpha
      · obtain ⟨hascii, hword⟩ := hall e (List.mem_cons_of_mem c he)
        rw [x.continues_ascii e hascii]
        exact hword

/-- The tables cut down to ASCII. -/
def asciiTables : XidTables where
  start := Char.isAlpha
  continues c := c.isAlphanum || c == '_'
  start_ascii _ _ := rfl
  continues_ascii _ _ := rfl

example : IsIdent asciiTables "user_id" ∧ ¬ IsIdent asciiTables "type" := by
  decide

end RustIdents
