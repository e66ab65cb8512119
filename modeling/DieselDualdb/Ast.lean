import Mathlib.Data.List.Basic

/-!
# The parsed statements the generator traverses

The generator never looks at SQL text itself: it hands a shared chunk to
`sqlparser` (0.52, `GenericDialect`) and works on the statements that come back.
This file is the part of that syntax tree the generator reads or rewrites, and
the part the reference catalog needs to say what a statement does.  A clause
nobody looks into (an expression, an `ON DELETE` action, a storage option) is
kept as the text it stands for, so that "left untouched" still says something
about it.

The crate's functions are a parameter, `Sqlparser`: the parser, and the
`Display`/`Debug` forms that reach the emitted DDL and the error messages.
-/

namespace DualdbAst

/-- A name as written: the text inside the quotes, and the quote, if any. -/
structure Ident where
  value : String
  quoteStyle : Option Char
deriving DecidableEq

/-- An unquoted name. -/
def Ident.new (value : String) : Ident := ⟨value, none⟩

/-- A possibly schema-qualified name, outermost qualifier first. -/
structure ObjectName where
  parts : List Ident
deriving DecidableEq

inductive TimezoneInfo where
  | none
  | withTimeZone
  | withoutTimeZone
  | tz
deriving DecidableEq

inductive ExactNumberInfo where
  | none
  | precision (p : Nat)
  | precisionAndScale (p s : Nat)
deriving DecidableEq

/-- Column types: the variants `map_type` knows, the `Custom` form the rewriter
    injects, and `other` for the rest, told apart by their `Debug` text. -/
inductive DataType where
  | uuid
  | timestamp (precision : Option Nat) (zone : TimezoneInfo)
  | json
  | jsonb
  | bytea
  | numeric (info : ExactNumberInfo)
  | decimal (info : ExactNumberInfo)
  | dec (info : ExactNumberInfo)
  | text
  | smallInt (width : Option Nat)
  | integer (width : Option Nat)
  | int (width : Option Nat)
  | bigInt (width : Option Nat)
  | real
  | float (precision : Option Nat)
  | boolean
  | bool
  | custom (name : ObjectName) (modifiers : List String)
  | other (debug : String)
deriving DecidableEq

/-- An expression, as its text. -/
abbrev Expr := String

/-- `ON DELETE`, `ON UPDATE` and constraint characteristics, as their text. -/
abbrev Clause := String

inductive ColumnOption where
  | null
  | notNull
  | default (value : Expr)
  | unique (isPrimary : Bool) (characteristics : Clause)
  | foreignKey (foreignTable : ObjectName) (referredColumns : List Ident)
      (actions : Clause)
  | check (expr : Expr)
  | other (text : Clause)
deriving DecidableEq

structure ColumnOptionDef where
  name : Option Ident
  option : ColumnOption
deriving DecidableEq

structure ColumnDef where
  name : Ident
  dataType : DataType
  collation : Option ObjectName
  options : List ColumnOptionDef
deriving DecidableEq

inductive TableConstraint where
  | unique (name : Option Ident) (columns : List Ident) (rest : Clause)
  | primaryKey (name : Option Ident) (columns : List Ident) (rest : Clause)
  | foreignKey (name : Option Ident) (columns : List Ident)
      (foreignTable : ObjectName) (referredColumns : List Ident)
      (actions : Clause)
  | check (name : Option Ident) (expr : Expr)
  | other (text : Clause)
deriving DecidableEq

inductive AlterColumnOperation where
  | setNotNull
  | dropNotNull
  | setDefault (value : Expr)
  | dropDefault
  | setDataType (dataType : DataType) (usingExpr : Option Expr)
  | addGenerated (text : Clause)
deriving DecidableEq

inductive AlterTableOperation where
  | addConstraint (constraint : TableConstraint)
  | addColumn (columnKeyword ifNotExists : Bool) (columnDef : ColumnDef)
      (columnPosition : Option Clause)
  | dropColumn (columnName : Ident) (ifExists cascade : Bool)
  | dropConstraint (ifExists : Bool) (name : Ident) (cascade : Bool)
  | dropPrimaryKey
  | renameColumn (oldColumnName newColumnName : Ident)
  | renameTable (tableName : ObjectName)
  | changeColumn (oldName newName : Ident) (dataType : DataType)
      (options : List ColumnOption) (columnPosition : Option Clause)
  | modifyColumn (colName : Ident) (dataType : DataType)
      (options : List ColumnOption) (columnPosition : Option Clause)
  | alterColumn (columnName : Ident) (op : AlterColumnOperation)
  | other (text : Clause)
deriving DecidableEq

structure CreateTable where
  orReplace : Bool
  ifNotExists : Bool
  name : ObjectName
  columns : List ColumnDef
  constraints : List TableConstraint
  /-- `AS SELECT …` -/
  query : Option Clause
  like : Option ObjectName
  clone : Option ObjectName
  /-- Storage, partitioning and dialect options. -/
  clauses : Clause
deriving DecidableEq

structure CreateIndex where
  name : Option ObjectName
  tableName : ObjectName
  columns : List Expr
  unique : Bool
  ifNotExists : Bool
  clauses : Clause
deriving DecidableEq

inductive ObjectType where
  | table
  | other (kind : String)
deriving DecidableEq

inductive Statement where
  | createTable (ct : CreateTable)
  | alterTable (name : ObjectName) (ifExists only : Bool)
      (operations : List AlterTableOperation) (clauses : Clause)
  | drop (objectType : ObjectType) (ifExists : Bool) (names : List ObjectName)
      (cascade restrict : Bool)
  | createIndex (index : CreateIndex)
  | other (sql : Clause)
deriving DecidableEq

/-- What the generator uses of the `sqlparser` crate. -/
structure Sqlparser where
  /-- `Parser::parse_sql(&GenericDialect {}, sql)`, the error as displayed. -/
  parseSql : String → Except String (List Statement)
  /-- `Display` of a statement: the SQL that is emitted. -/
  statementDisplay : Statement → String
  /-- `Display` of a type, as it stands inside an emitted statement. -/
  dataTypeDisplay : DataType → String
  /-- `Debug` of a type, as it stands in an error message. -/
  dataTypeDebug : DataType → String
  /-- `Display` of a name, quotes included. -/
  identDisplay : Ident → String

end DualdbAst
