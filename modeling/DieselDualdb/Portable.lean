import DieselDualdb.Timestamp
import DieselDualdb.Decimal
import DieselDualdb.Lib.FallibleRun
import DieselDualdb.Lib.SqliteStorage

/-!
# The portable types

`sql_types` has the markers that the generator prints, `types` a newtype for each
of them with a SQLite arm of its own: bytes are bound as a blob, everything else as
a text.  The bridge binds a value with its marker, and by the marker it knows how
to read it back.

diesel, `uuid` and `serde_json` are a parameter (`Libraries`), and so are the
printers and parsers of the two types that have modules of their own.
-/

namespace DualdbPortable

open DualdbTimestamp DualdbDecimal FallibleRun SqliteStorage

/-! ## The markers -/

inductive Marker where
  | uuid
  | bytes
  | timestamp
  | json
  | decimal
deriving DecidableEq

/-- `sqlite_type` of a marker. -/
inductive SqliteType where
  | text
  | binary
deriving DecidableEq

def Marker.path : Marker → String
  | .uuid => "diesel_dualdb::sql_types::Uuid"
  | .bytes => "diesel_dualdb::sql_types::Bytes"
  | .timestamp => "diesel_dualdb::sql_types::Timestamp"
  | .json => "diesel_dualdb::sql_types::Json"
  | .decimal => "diesel_dualdb::sql_types::Decimal"

def Marker.postgresType : Marker → String
  | .uuid => "uuid"
  | .bytes => "bytea"
  | .timestamp => "timestamptz"
  | .json => "jsonb"
  | .decimal => "numeric"

def Marker.sqliteType : Marker → SqliteType
  | .uuid | .bytes => .binary
  | .timestamp | .json | .decimal => .text

/-! ## The libraries -/

/-- `uuid::Uuid` -/
@[ext] structure Uuid where
  bytes : List UInt8
  length_eq : bytes.length = 16
deriving DecidableEq

/-- `serde_json` for one type of values. -/
structure SerdeJson (J : Type) where
  toText : J → Except String String
  fromStr : String → Except String J

/-- What the arms use of other crates.  `N` are the numbers of SQLite. -/
structure Libraries (N J : Type) where
  timestamps : Drivers
  decimals : BigDecimals
  serdeJson : SerdeJson J
  /-- The error of `Uuid::from_slice`, as displayed. -/
  wrongLength : Nat → String
  /-- `FromSql<Text, Sqlite>` for `String` -/
  readText : Value N → Except String String
  /-- `FromSql<Binary, Sqlite>` for `Vec<u8>` -/
  readBinary : Value N → Except String (List UInt8)

variable {N J : Type} (l : Libraries N J)

/-! ## The arms -/

namespace Uuid

def fromSlice (bytes : List UInt8) : Except String Uuid :=
  if h : bytes.length = 16 then .ok ⟨bytes, h⟩
  else .error (l.wrongLength bytes.length)

def toSqlSqlite (v : Uuid) : Value N := .blob v.bytes

def fromSqlSqlite (value : Value N) : Except String Uuid := do
  let blob ← l.readBinary value
  (fromSlice l blob).mapError ("invalid UUID bytes: " ++ ·)

end Uuid

namespace Bytes

def toSqlSqlite (v : List UInt8) : Value N := .blob v

def fromSqlSqlite (value : Value N) : Except String (List UInt8) :=
  l.readBinary value

end Bytes

namespace Json

def toSqlSqlite (v : J) : Except String (Value N) :=
  Value.text <$> l.serdeJson.toText v

def fromSqlSqlite (value : Value N) : Except String J := do
  let s ← l.readText value
  l.serdeJson.fromStr s

end Json

/-- `Timestamp` and `Decimal` write and read texts. -/
def Timestamp.fromValue (value : Value N) : Except String Timestamp := do
  let s ← l.readText value
  Timestamp.fromSqlSqlite l.timestamps s

def Decimal.fromValue (value : Value N) : Except String Decimal := do
  let s ← l.readText value
  Decimal.fromSqlSqlite l.decimals s

/-! ## The bridge -/

/-- A value with its marker. -/
inductive PortableValue (J : Type) where
  | uuid (v : Uuid)
  | bytes (v : List UInt8)
  | timestamp (v : Timestamp)
  | json (v : J)
  | decimal (v : Decimal)
deriving DecidableEq

def PortableValue.marker : PortableValue J → Marker
  | .uuid _ => .uuid
  | .bytes _ => .bytes
  | .timestamp _ => .timestamp
  | .json _ => .json
  | .decimal _ => .decimal

def PortableValue.toSqlSqlite : PortableValue J → Except String (Value N)
  | .uuid v => .ok v.toSqlSqlite
  | .bytes v => .ok (Bytes.toSqlSqlite v)
  | .timestamp v => .ok (.text (v.toSqlSqlite l.timestamps))
  | .json v => Json.toSqlSqlite l v
  | .decimal v => .ok (.text (v.toSqlSqlite l.decimals))

def PortableValue.fromSqlSqlite (value : Value N) :
    Marker → Except String (PortableValue J)
  | .uuid => .uuid <$> Uuid.fromSqlSqlite l value
  | .bytes => .bytes <$> Bytes.fromSqlSqlite l value
  | .timestamp => .timestamp <$> Timestamp.fromValue l value
  | .json => .json <$> Json.fromSqlSqlite l value
  | .decimal => .decimal <$> Decimal.fromValue l value

end DualdbPortable
