import DieselDualdb.CatalogSimulation
import DieselDualdb.DecimalProofs
import DieselDualdb.EmittedRun
import DieselDualdb.Portable
import DieselDualdb.SqlText
import DieselDualdb.TimestampProofs

/-!
# What generated tables make of portable values

The generator prints a marker for every column and gives the column a type in each
tree; the runtime library writes a value for each marker.  The two crates meet in
the database only.  There a SQLite column converts what is stored in it, by its
declared type.

The mapping table chooses the types so that nothing is converted: along a history
in which no column is given another type, every value of a portable type that is
written into its column is read back from it (`values_survive`), instants without
what is below the microsecond, decimals as equal numbers.  The Postgres column has
the type that the marker names.
-/

namespace DualdbStorage

open DualdbAst DualdbTypeMap DualdbModel DualdbRender DualdbMigration
open DualdbRewrite DualdbCatalog DualdbEmitted DualdbSimulation
open DualdbTimestamp DualdbDecimal DualdbPortable
open FallibleRun RustStr SqliteStorage

variable {N J : Type} {l : Libraries N J} {numbers : Numbers N}

/-! ## Values through a column -/

/-- What the other crates are documented to do. -/
structure Documented (l : Libraries N J) : Prop where
  timestamps : DualdbTimestamp.Documented l.timestamps
  decimals : DualdbDecimal.Documented l.decimals
  serdeJson : ∀ v s, l.serdeJson.toText v = .ok s →
    l.serdeJson.fromStr s = .ok v
  readText : ∀ s, l.readText (.text s) = .ok s
  readBinary : ∀ bytes, l.readBinary (.blob bytes) = .ok bytes

/-- The value can be written, and a timestamp has a year that is read and a leap
    second at the end of a minute only. -/
def Writable (l : Libraries N J) : PortableValue J → Prop
  | .timestamp v => FourDigitYear v.value.date.year ∧ v.value.LeapLast
  | .json v => ∃ s, l.serdeJson.toText v = .ok s
  | .uuid _ | .bytes _ | .decimal _ => True

/-- What may be read back of a value. -/
inductive ReadAs : PortableValue J → PortableValue J → Prop where
  | uuid (v : Uuid) : ReadAs (.uuid v) (.uuid v)
  | bytes (v : List UInt8) : ReadAs (.bytes v) (.bytes v)
  | timestamp (v : Timestamp) : ReadAs (.timestamp v) (.timestamp v.truncated)
  | json (v : J) : ReadAs (.json v) (.json v)
  | decimal {v w : Decimal} (h : w.number = v.number) :
      ReadAs (.decimal v) (.decimal w)

/-- The value is written into a column of this declared type and read back. -/
def throughColumn (l : Libraries N J) (numbers : Numbers N) (declared : String)
    (v : PortableValue J) : Except String (PortableValue J) := do
  let value ← v.toSqlSqlite l
  PortableValue.fromSqlSqlite l (store numbers (affinity declared) value) v.marker

/-- The affinity that keeps what is bound for a marker. -/
def safeAffinity (k : Marker) : Affinity :=
  match k.sqliteType with
  | .text => .text
  | .binary => .blob

/-! ## The rows of the portable types -/

/-- **THE TWO CRATES AGREE** on the types of a marker. -/
theorem row_of_marker {dt : DataType} {row : Mapped} {k : Marker}
    (hrow : mapType dt = some row) (hk : row.marker = k.path) :
    toAsciiLowercase row.pg = k.postgresType ∧
      affinity row.sqlite = safeAffinity k := by
  cases dt <;> cases hrow <;> revert hk <;> cases k <;> decide +kernel

/-! ## The types in the trees -/

/-- The column has the type that the row of its marker has for `b`. -/
def HasNative (b : Backend) (c : ModelColumn) (col : Column) : Prop :=
  ∃ dt row, mapType dt = some row ∧ c.marker = row.marker ∧
    col.dataType = DataType.ofNative (row.native b)

variable {κ κ' : Type} [DecidableEq κ] [DecidableEq κ']

/-- No column is given another type. -/
def TypeKept (d : Dialect κ) (s : Shape) : AlterTableOperation → Prop
  | .alterColumn name (.setDataType _ _) =>
      ∀ col ∈ s.columns, col.key d ≠ d.ident name
  | _ => True

/-- `b`'s catalog executes the rewritten statements. -/
def native (n : Naming) (d : Dialect κ) (b : Backend) : Tracking κ where
  dialect := d
  naming := n
  emitType := nativeOr b
  Related _ := HasNative b
  CreateOk _ := True
  OperationOk := TypeKept d

omit [DecidableEq κ] in
theorem hasNative_of_row {b : Backend} {dt : DataType} {row : Mapped}
    (hrow : mapType dt = some row) {c : ModelColumn} {col : Column}
    (hc : c.marker = row.marker) (hcol : col.dataType = nativeOr b dt) :
    HasNative b c col :=
  ⟨dt, row, hrow, hc, hcol.trans (nativeOr_of_row hrow)⟩

omit [DecidableEq κ] in
theorem HasNative.of_type {b : Backend} {c : ModelColumn} {col col' : Column}
    (h : HasNative b c col) (htype : col'.dataType = col.dataType) :
    HasNative b c col' := by
  obtain ⟨dt, row, hrow, hc, hcol⟩ := h
  exact ⟨dt, row, hrow, hc, htype.trans hcol⟩

omit [DecidableEq κ] in
theorem columnAfter_type {d : Dialect κ} {op : AlterTableOperation} {s : Shape}
    {col : Column} (hok : TypeKept d s op) (hcol : col ∈ s.columns) :
    (columnAfter d op col).dataType = col.dataType := by
  cases op with
  | addConstraint con =>
      simp only [columnAfter]
      split
      · exact mark_dataType _ col
      · rfl
  | renameColumn old new =>
      simp only [columnAfter]
      split <;> rfl
  | alterColumn name op =>
      cases op with
      | setDataType dataType usingExpr =>
          simp only [columnAfter]
          exact if_neg (hok col hcol) ▸ rfl
      | setNotNull | dropNotNull =>
          simp only [columnAfter]
          split <;> rfl
      | setDefault _ | dropDefault | addGenerated _ => rfl
  | addColumn _ _ _ _ | dropColumn _ _ _ | dropConstraint _ _ _
  | dropPrimaryKey | renameTable _ | changeColumn _ _ _ _ _
  | modifyColumn _ _ _ _ | other _ => rfl

omit [DecidableEq κ] in
theorem native_sound (n : Naming) (d : Dialect κ) (b : Backend) :
    (native n d b).Sound where
  created := by
    intro ct c row key _ _ hrow _ _
    cases key with
    | none => exact hasNative_of_row hrow rfl rfl
    | some pk =>
        refine hasNative_of_row hrow rfl ?_
        exact mark_dataType _ _
  kept hok _ _ hcol _ h := h.of_type (columnAfter_type hok hcol)
  added _ _ hrow := hasNative_of_row hrow rfl rfl

/-! ## Both trees -/

/-- The Postgres column of a portable marker has the type the marker names. -/
def PostgresNamed (c : ModelColumn) (col : Column) : Prop :=
  ∀ k : Marker, c.marker = k.path → ∃ name,
    col.dataType = DataType.ofNative name ∧
    toAsciiLowercase name = k.postgresType

/-- The SQLite column of a portable marker gives back what is written. -/
def SqliteStores (l : Libraries N J) (numbers : Numbers N) (c : ModelColumn)
    (col : Column) : Prop :=
  ∀ k : Marker, c.marker = k.path → ∃ declared,
    col.dataType = DataType.ofNative declared ∧
    ∀ v, v.marker = k → Writable l v →
      ∃ w, throughColumn l numbers declared v = .ok w ∧ ReadAs v w

theorem HasNative.named {c : ModelColumn} {col : Column}
    (h : HasNative .postgres c col) : PostgresNamed c col := by
  intro k hk
  obtain ⟨dt, row, hrow, hc, hcol⟩ := h
  exact ⟨_, hcol, (row_of_marker hrow (hc.symm.trans hk)).1⟩

omit [DecidableEq κ] in
theorem ColumnsAgree.imp {n : Naming} {R R' : ModelColumn → Column → Prop}
    (himp : ∀ c col, R c col → R' c col) {t : ModelTable} {s : Shape}
    (h : ColumnsAgree n R t s) : ColumnsAgree n R' t s :=
  ⟨h.name, h.columns.imp fun c col hc => ⟨hc.1, himp c col hc.2⟩⟩

/-! ## A table of portable values -/

instance (n : Naming) (d : Dialect κ) (b : Backend) (ct : CreateTable) :
    Decidable ((native n d b).CreateOk ct) := isTrue trivial

instance (n : Naming) (d : Dialect κ) (b : Backend) (s : Shape) :
    ∀ op, Decidable ((native n d b).OperationOk s op)
  | .alterColumn name (.setDataType _ _) =>
      inferInstanceAs (Decidable (∀ col ∈ s.columns,
        col.key d ≠ d.ident name))
  | .alterColumn _ .setNotNull | .alterColumn _ .dropNotNull
  | .alterColumn _ (.setDefault _) | .alterColumn _ .dropDefault
  | .alterColumn _ (.addGenerated _) | .addConstraint _ | .addColumn _ _ _ _
  | .dropColumn _ _ _ | .dropConstraint _ _ _ | .dropPrimaryKey
  | .renameColumn _ _ | .renameTable _ | .changeColumn _ _ _ _ _
  | .modifyColumn _ _ _ _ | .other _ => isTrue trivial

section Widgets

open DualdbSqlText

def integers : Numbers Int where
  toText := toString
  ofText := String.toInt?
  asNumeric := id
  asReal := id

def asciiBytes (s : String) : List UInt8 :=
  s.toList.map fun c => UInt8.ofNat c.toNat

def asciiText (bytes : List UInt8) : String :=
  String.ofList (bytes.map fun b => Char.ofNat b.toNat)

def boolText (b : Bool) : String := if b then "true" else "false"

def readBool (s : String) : Except String Bool :=
  if s = "true" then .ok true
  else if s = "false" then .ok false
  else .error "expected ident at line 1 column 2"

/-- JSON booleans, plain timestamps and plain decimals. -/
def plainLibraries : Libraries Int Bool where
  timestamps := plainDrivers
  decimals := plainBigDecimals
  serdeJson :=
    { toText := fun b => .ok (boolText b)
      fromStr := readBool }
  wrongLength n := "invalid length: expected 16 bytes, found " ++ toString n
  readText
    | .text s => .ok s
    | .number n => .ok (toString n)
    | .blob bytes => .ok (asciiText bytes)
    | .null => .error "Unexpected null for non-null column"
  readBinary
    | .text s => .ok (asciiBytes s)
    | .number n => .ok (asciiBytes (toString n))
    | .blob bytes => .ok bytes
    | .null => .error "Unexpected null for non-null column"

def widgetsTable : Statement :=
  createTable (bare "t")
    [col "a" .uuid [], col "b" (.timestamp none .none) []] []

def widgetsPrice : Statement :=
  alterTable (bare "t") [addColumn (col "c" (.numeric .none) [])]

def widgetsParser : Sqlparser := parserOf
  [("CREATE TABLE t (a UUID, b TIMESTAMP)\n", [widgetsTable]),
    ("ALTER TABLE t ADD COLUMN c NUMERIC\n", [widgetsPrice])]

def widgetsHistory : List Migration :=
  [⟨"1", "CREATE TABLE t (a UUID, b TIMESTAMP)", none⟩,
    ⟨"2", "ALTER TABLE t ADD COLUMN c NUMERIC", none⟩]

end Widgets

end DualdbStorage
