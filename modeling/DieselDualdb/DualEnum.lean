import DieselDualdb.Lib.FallibleRun
import DieselDualdb.Lib.Pointwise

/-!
# `#[derive(DualEnum)]`: the macro and the code it generates

`dualEnumImpl` is the macro on the parts of the `syn` input it looks at.  What
it generates for a definition are two matches over one list of arms, one from
variant to label and one from label to variant, and a pair of conversions
around them for each backend.  A match takes the first arm that fits, so the
generated functions are first-match recursions over the list.

The lower-casing and `{:?}` of Rust's standard library only reach an attribute
and an error message, and are parameters (`RustText`).
-/

namespace DualdbEnum

open FallibleRun Pointwise

/-! ## The macro's input -/

/-- An item of a `#[dualdb(…)]` list: its path, and the string literal that
    follows, or the parse error where none does. -/
structure MetaItem where
  path : String
  value : Except String String

/-- An attribute as `parse_nested_meta` walks it: its items, and the parse
    error after them, if there is one. -/
structure Attribute where
  path : String
  items : List MetaItem
  malformed : Option String

structure Variant where
  ident : String
  attrs : List Attribute
  /-- `Fields::Unit` -/
  isUnit : Bool

/-- The compiler refuses an enum with two variants of one name, so the list
    comes with the proof that there are none. -/
inductive Data where
  | enum (variants : List Variant)
      (distinct : (variants.map Variant.ident).Nodup)
  | structOrUnion

structure DeriveInput where
  ident : String
  attrs : List Attribute
  data : Data

structure RustText where
  toLowercase : String → String
  /-- `{:?}` of a string. -/
  debug : String → String

/-! ## The macro -/

/-- The closure given to `parse_nested_meta`: the option sets the text. -/
def readItem (option : String) (_ : String) (m : MetaItem) :
    Except String String :=
  if m.path = option then m.value
  else .error ("unknown `dualdb` option (expected `" ++ option ++ "`)")

/-- One round of the loop over the attributes. -/
def readAttribute (option text : String) (a : Attribute) :
    Except String String :=
  if a.path = "dualdb" then do
    let text ← a.items.foldlM (readItem option) text
    match a.malformed with
    | some e => .error e
    | none => pure text
  else pure text

def readAttributes (option text : String) (attrs : List Attribute) :
    Except String String :=
  attrs.foldlM (readAttribute option) text

/-- One arm of the generated matches: the variant and its stored label. -/
structure Arm where
  ident : String
  label : String
deriving DecidableEq

def variantArm (v : Variant) : Except String Arm :=
  if v.isUnit then do
    let label ← readAttributes "rename" v.ident v.attrs
    pure ⟨v.ident, label⟩
  else .error "DualEnum variants must be unit (fieldless)"

/-- What the generated code is made of. -/
structure Derived where
  enumIdent : String
  marker : String
  pgType : String
  arms : List Arm
deriving DecidableEq

def dualEnumImpl (rust : RustText) (input : DeriveInput) :
    Except String Derived :=
  match input.data with
  | .structOrUnion => .error "DualEnum can only be derived for enums"
  | .enum variants _ => do
      let pgType ←
        readAttributes "pg_type" (rust.toLowercase input.ident) input.attrs
      let arms ← variants.mapM variantArm
      if arms.isEmpty then .error "DualEnum needs at least one variant"
      else pure ⟨input.ident, input.ident ++ "SqlType", pgType, arms⟩

/-! ## The generated code -/

/-- A value of the enum: one of its variants. -/
def Derived.Value (e : Derived) : Type :=
  { ident : String // ident ∈ e.arms.map Arm.ident }

/-- `match value { … }`: the first arm of that variant. -/
def matchValue : (arms : List Arm) → (ident : String) →
    ident ∈ arms.map Arm.ident → String
  | [], _, h => absurd h List.not_mem_nil
  | a :: arms, ident, h =>
      if hid : ident = a.ident then a.label
      else matchValue arms ident (List.mem_of_ne_of_mem hid h)

def Derived.label (e : Derived) (v : e.Value) : String :=
  matchValue e.arms v.1 v.2

/-- `match s { … }`: the first arm of that label. -/
def matchLabel (unrecognized : String) : List Arm → String →
    Except String String
  | [], _ => .error unrecognized
  | a :: arms, s =>
      if s = a.label then .ok a.ident else matchLabel unrecognized arms s

def Derived.fromLabel (rust : RustText) (e : Derived) (s : String) :
    Except String String :=
  matchLabel ("unrecognized `" ++ e.pgType ++ "` enum label: "
    ++ rust.debug s) e.arms s

/-- `ToSql<_, Pg>` -/
def Derived.toSqlPg (e : Derived) (v : e.Value) : ByteArray :=
  (e.label v).toUTF8

/-- `FromSql<_, Pg>` -/
def Derived.fromSqlPg (rust : RustText) (e : Derived) (value : ByteArray) :
    Except String String :=
  match String.fromUTF8? value with
  | some s => e.fromLabel rust s
  | none => .error "invalid utf-8 sequence"

/-- What the SQLite arm uses of `diesel`: a value that holds a text, and
    reading a value as `Text`. -/
structure SqliteText where
  Value : Type
  setValue : String → Value
  read : Value → Except String String
  read_setValue : ∀ s, read (setValue s) = .ok s

/-- `ToSql<_, Sqlite>` -/
def Derived.toSqlSqlite (c : SqliteText) (e : Derived) (v : e.Value) :
    c.Value :=
  c.setValue (e.label v)

/-- `FromSql<_, Sqlite>` -/
def Derived.fromSqlSqlite (rust : RustText) (c : SqliteText) (e : Derived)
    (value : c.Value) : Except String String := do
  let s ← c.read value
  e.fromLabel rust s

/-! ## What the macro accepts -/

/-- The items of all `#[dualdb(…)]` attributes, in order. -/
def dualdbItems (attrs : List Attribute) : List MetaItem :=
  (attrs.filter (·.path = "dualdb")).flatMap Attribute.items

/-- The text the options set: the last one given. -/
def lastOption (attrs : List Attribute) : Option String :=
  ((dualdbItems attrs).filterMap (·.value.toOption)).getLast?

/-- The label a `rename` gives to the variant. -/
def Variant.renamed (v : Variant) : Option String := lastOption v.attrs

/-- The label the variant is stored under. -/
def Variant.storedLabel (v : Variant) : String := v.renamed.getD v.ident

theorem readItems_ok {option text out : String} {items : List MetaItem}
    (h : items.foldlM (readItem option) text = .ok out) :
    out = ((items.filterMap (·.value.toOption)).getLast?).getD text := by
  induction items generalizing text with
  | nil => exact (foldlM_nil_ok.mp h).symm
  | cons m items ih =>
      obtain ⟨t, ht, hrest⟩ := foldlM_cons_ok.mp h
      rw [readItem] at ht
      split at ht
      · rw [ih hrest, List.filterMap_cons, ht]
        simp only [Except.toOption, List.getLast?_cons, Option.getD_some]
      · cases ht

theorem readAttributes_ok {option text out : String} {attrs : List Attribute}
    (h : readAttributes option text attrs = .ok out) :
    out = (lastOption attrs).getD text := by
  induction attrs generalizing text with
  | nil => exact (foldlM_nil_ok.mp h).symm
  | cons a attrs ih =>
      obtain ⟨t, ht, hrest⟩ := foldlM_cons_ok.mp h
      have hout := ih hrest
      rw [readAttribute] at ht
      by_cases ha : a.path = "dualdb"
      · rw [if_pos ha] at ht
        obtain ⟨t', ht', hend⟩ := bind_ok.mp ht
        have htt : t' = t := by
          cases hm : a.malformed with
          | none => rw [hm] at hend; exact pure_ok.mp hend
          | some e => rw [hm] at hend; cases hend
        have hitems := readItems_ok ht'
        rw [htt] at hitems
        -- the last option of this attribute, unless a later one has some
        rw [hout, hitems, lastOption, lastOption, dualdbItems, dualdbItems,
          List.filter_cons_of_pos (by simpa using ha), List.flatMap_cons,
          List.filterMap_append, List.getLast?_append]
        cases ((attrs.filter (·.path = "dualdb")).flatMap
            Attribute.items |>.filterMap (·.value.toOption)).getLast? with
        | none => rfl
        | some l => rfl
      · rw [if_neg ha] at ht
        rw [hout, ← pure_ok.mp ht, lastOption, lastOption, dualdbItems,
          dualdbItems, List.filter_cons_of_neg (by simpa using ha)]

/-- The arm of an accepted variant is the variant with its stored label. -/
theorem variantArm_ok {v : Variant} {a : Arm} (h : variantArm v = .ok a) :
    a = ⟨v.ident, v.storedLabel⟩ := by
  rw [variantArm] at h
  split at h
  · obtain ⟨label, hlabel, h⟩ := bind_ok.mp h
    rw [← pure_ok.mp h, readAttributes_ok hlabel]
    rfl
  · cases h

/-- **WHAT THE MACRO GENERATES**: one arm for each variant, in order. -/
theorem dualEnumImpl_ok {rust : RustText} {input : DeriveInput} {e : Derived}
    (h : dualEnumImpl rust input = .ok e) :
    ∃ variants distinct, input.data = .enum variants distinct ∧
      e.arms = variants.map fun v => ⟨v.ident, v.storedLabel⟩ := by
  rw [dualEnumImpl] at h
  cases hdata : input.data with
  | structOrUnion => rw [hdata] at h; cases h
  | enum variants distinct =>
      rw [hdata] at h
      obtain ⟨pgType, -, h⟩ := bind_ok.mp h
      obtain ⟨arms, harms, h⟩ := bind_ok.mp h
      refine ⟨variants, distinct, rfl, ?_⟩
      have hmap : arms = variants.map fun v => ⟨v.ident, v.storedLabel⟩ :=
        eq_map_of_forall₂ ((mapM_ok.mp harms).imp fun _ _ => variantArm_ok)
      split at h
      · cases h
      · rw [← pure_ok.mp h]
        exact hmap

end DualdbEnum
