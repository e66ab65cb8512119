import DieselDualdb.Ast

/-!
# The mapping table: logical type → (Postgres name, SQLite name, marker)

`map_type` is the one place where a logical column type meets its three
renderings; the DDL rewriter and the schema model both consult it.
-/

namespace DualdbTypeMap

open DualdbAst

inductive Backend where
  | postgres
  | sqlite
deriving DecidableEq

/-- The backend a tagged block for `b` is hidden from. -/
def Backend.other : Backend → Backend
  | .postgres => .sqlite
  | .sqlite => .postgres

/-- One logical type's three renderings. -/
structure Mapped where
  pg : String
  sqlite : String
  /-- Fully-qualified diesel SQL-type marker for `schema.rs`. -/
  marker : String
deriving DecidableEq

def Mapped.native (m : Mapped) : Backend → String
  | .postgres => m.pg
  | .sqlite => m.sqlite

/-- The mapping table.  Native names are single tokens so they can be
    re-injected into the syntax tree; precision and scale are dropped. -/
def mapType : DataType → Option Mapped
  | .uuid => some ⟨"UUID", "BLOB", "diesel_dualdb::sql_types::Uuid"⟩
  | .timestamp _ _ =>
      some ⟨"TIMESTAMPTZ", "TEXT", "diesel_dualdb::sql_types::Timestamp"⟩
  | .json | .jsonb => some ⟨"JSONB", "TEXT", "diesel_dualdb::sql_types::Json"⟩
  | .bytea => some ⟨"BYTEA", "BLOB", "diesel_dualdb::sql_types::Bytes"⟩
  | .numeric _ | .decimal _ | .dec _ =>
      some ⟨"NUMERIC", "TEXT", "diesel_dualdb::sql_types::Decimal"⟩
  | .text => some ⟨"TEXT", "TEXT", "diesel::sql_types::Text"⟩
  | .smallInt _ => some ⟨"SMALLINT", "SMALLINT", "diesel::sql_types::SmallInt"⟩
  | .integer _ | .int _ =>
      some ⟨"INTEGER", "INTEGER", "diesel::sql_types::Integer"⟩
  | .bigInt _ => some ⟨"BIGINT", "BIGINT", "diesel::sql_types::BigInt"⟩
  | .real | .float _ => some ⟨"REAL", "REAL", "diesel::sql_types::Float"⟩
  | .boolean | .bool => some ⟨"BOOLEAN", "INTEGER", "diesel::sql_types::Bool"⟩
  | _ => none

/-- A native type name as the rewriter injects it: `Custom` of one
    unquoted identifier. -/
def DataType.ofNative (name : String) : DataType :=
  .custom ⟨[Ident.new name]⟩ []

def nativeDataType (p : Sqlparser) (dt : DataType) (backend : Backend)
    (ctx : String) : Except String DataType :=
  match mapType dt with
  | none => .error (ctx ++ ": no mapping for type " ++ p.dataTypeDebug dt)
  | some mapped => .ok (DataType.ofNative (mapped.native backend))

/-- A type is rewritten exactly when the table has a row for it. -/
theorem nativeDataType_ok {p : Sqlparser} {dt dt' : DataType} {b : Backend}
    {ctx : String} :
    nativeDataType p dt b ctx = .ok dt' ↔
      ∃ row, mapType dt = some row ∧ dt' = DataType.ofNative (row.native b) := by
  rw [nativeDataType]
  cases hrow : mapType dt with
  | none =>
      constructor
      · intro h; cases h
      · rintro ⟨row, h, -⟩; cases h
  | some row =>
      constructor
      · intro h; exact ⟨row, rfl, (Except.ok.inj h).symm⟩
      · rintro ⟨row', h, rfl⟩
        rw [Option.some.inj h]

/-- Last identifier of a (possibly schema-qualified) object name.  A name
    without parts displays as the empty string. -/
def lastIdent (name : ObjectName) : String :=
  match name.parts.getLast? with
  | some part => part.value
  | none => ""

end DualdbTypeMap
