import DieselDualdb.Ast
import DieselDualdb.Lib.RustStr

/-!
# The canonical text of the modelled statements

`sqlparser`'s `Display` for the statements the generator sees, and a parser
that knows a finite list of scripts.  Results about the generator hold for
every `Sqlparser`; these two make one to run it with.
-/

namespace DualdbSqlText

open DualdbAst RustStr

/-- The text between quotes `q`: a quote inside is doubled, unless it is doubled
    or behind a backslash already.  `paired` says that the quote before is one
    that was printed twice, `previous` what stands before. -/
def escapeQuoted (q : Char) : Bool → Char → List Char → List Char
  | _, _, [] => []
  | paired, previous, c :: cs =>
      if c ≠ q then c :: escapeQuoted q false c cs
      else if paired then escapeQuoted q false previous cs
      else if previous = '\\' then c :: escapeQuoted q false previous cs
      else c :: c :: escapeQuoted q true c cs

/-- A name in its quotes. -/
def identText (i : Ident) : String :=
  match i.quoteStyle with
  | some '[' => "[" ++ i.value ++ "]"
  | some q =>
      String.ofList (q :: escapeQuoted q false ' ' i.value.toList ++ [q])
  | none => i.value

def nameText (n : ObjectName) : String :=
  join "." (n.parts.map identText)

def columnList (cols : List Ident) : String :=
  "(" ++ join ", " (cols.map identText) ++ ")"

def widthText (name : String) : Option Nat → String
  | none => name
  | some w => name ++ "(" ++ toString w ++ ")"

def numberText (name : String) : ExactNumberInfo → String
  | .none => name
  | .precision p => name ++ "(" ++ toString p ++ ")"
  | .precisionAndScale p s => name ++ "(" ++ toString p ++ "," ++ toString s ++ ")"

def timestampText (precision : Option Nat) : TimezoneInfo → String
  | .none => widthText "TIMESTAMP" precision
  | .withTimeZone => widthText "TIMESTAMP" precision ++ " WITH TIME ZONE"
  | .withoutTimeZone => widthText "TIMESTAMP" precision ++ " WITHOUT TIME ZONE"
  | .tz => widthText "TIMESTAMPTZ" precision

def typeText : DataType → String
  | .uuid => "UUID"
  | .timestamp w z => timestampText w z
  | .json => "JSON"
  | .jsonb => "JSONB"
  | .bytea => "BYTEA"
  | .numeric i => numberText "NUMERIC" i
  | .decimal i => numberText "DECIMAL" i
  | .dec i => numberText "DEC" i
  | .text => "TEXT"
  | .smallInt w => widthText "SMALLINT" w
  | .integer w => widthText "INTEGER" w
  | .int w => widthText "INT" w
  | .bigInt w => widthText "BIGINT" w
  | .real => "REAL"
  | .float w => widthText "FLOAT" w
  | .boolean => "BOOLEAN"
  | .bool => "BOOL"
  | .custom name [] => nameText name
  | .custom name mods => nameText name ++ "(" ++ join ", " mods ++ ")"
  | .other debug => debug

/-- A clause with a space before it; nothing for the empty clause. -/
def spaced (text : String) : String :=
  if text.isEmpty then "" else " " ++ text

def optionText : ColumnOption → String
  | .null => "NULL"
  | .notNull => "NOT NULL"
  | .default e => "DEFAULT " ++ e
  | .unique true ch => "PRIMARY KEY" ++ spaced ch
  | .unique false ch => "UNIQUE" ++ spaced ch
  | .foreignKey table cols actions =>
      "REFERENCES " ++ nameText table
        ++ (if cols.isEmpty then "" else " " ++ columnList cols)
        ++ spaced actions
  | .check e => "CHECK (" ++ e ++ ")"
  | .other text => text

def constraintName : Option Ident → String
  | none => ""
  | some n => "CONSTRAINT " ++ identText n ++ " "

def columnText (c : ColumnDef) : String :=
  identText c.name ++ " " ++ typeText c.dataType
    ++ (match c.collation with
      | none => ""
      | some n => " COLLATE " ++ nameText n)
    ++ join "" (c.options.map fun o =>
      " " ++ constraintName o.name ++ optionText o.option)

def constraintText : TableConstraint → String
  | .unique n cols rest =>
      constraintName n ++ "UNIQUE " ++ columnList cols ++ spaced rest
  | .primaryKey n cols rest =>
      constraintName n ++ "PRIMARY KEY " ++ columnList cols ++ spaced rest
  | .foreignKey n cols table refs actions =>
      constraintName n ++ "FOREIGN KEY " ++ columnList cols ++ " REFERENCES "
        ++ nameText table ++ columnList refs ++ spaced actions
  | .check n e => constraintName n ++ "CHECK (" ++ e ++ ")"
  | .other text => text

def alterColumnText : AlterColumnOperation → String
  | .setNotNull => "SET NOT NULL"
  | .dropNotNull => "DROP NOT NULL"
  | .setDefault e => "SET DEFAULT " ++ e
  | .dropDefault => "DROP DEFAULT"
  | .setDataType dt none => "SET DATA TYPE " ++ typeText dt
  | .setDataType dt (some e) => "SET DATA TYPE " ++ typeText dt ++ " USING " ++ e
  | .addGenerated text => "ADD GENERATED " ++ text

def ifText (flag : Bool) (text : String) : String :=
  if flag then text else ""

def operationText : AlterTableOperation → String
  | .addConstraint con => "ADD " ++ constraintText con
  | .addColumn kw ine c pos =>
      "ADD" ++ ifText kw " COLUMN" ++ ifText ine " IF NOT EXISTS" ++ " "
        ++ columnText c ++ spaced (pos.getD "")
  | .dropColumn c ie cascade =>
      "DROP COLUMN " ++ ifText ie "IF EXISTS " ++ identText c
        ++ ifText cascade " CASCADE"
  | .dropConstraint ie n cascade =>
      "DROP CONSTRAINT " ++ ifText ie "IF EXISTS " ++ identText n
        ++ ifText cascade " CASCADE"
  | .dropPrimaryKey => "DROP PRIMARY KEY"
  | .renameColumn old new =>
      "RENAME COLUMN " ++ identText old ++ " TO " ++ identText new
  | .renameTable n => "RENAME TO " ++ nameText n
  | .changeColumn old new dt opts pos =>
      "CHANGE COLUMN " ++ identText old ++ " " ++ identText new ++ " "
        ++ typeText dt ++ spaced (join " " (opts.map optionText))
        ++ spaced (pos.getD "")
  | .modifyColumn c dt opts pos =>
      "MODIFY COLUMN " ++ identText c ++ " " ++ typeText dt
        ++ spaced (join " " (opts.map optionText)) ++ spaced (pos.getD "")
  | .alterColumn c op => "ALTER COLUMN " ++ identText c ++ " " ++ alterColumnText op
  | .other text => text

/-- What a table declares; nothing when it declares nothing and is filled from
    elsewhere. -/
def elementsText (ct : CreateTable) : String :=
  let elements := ct.columns.map columnText ++ ct.constraints.map constraintText
  if elements.isEmpty && (ct.query.isSome || ct.like.isSome || ct.clone.isSome)
  then "" else " (" ++ join ", " elements ++ ")"

def statementText : Statement → String
  | .createTable ct =>
      "CREATE " ++ ifText ct.orReplace "OR REPLACE " ++ "TABLE "
        ++ ifText ct.ifNotExists "IF NOT EXISTS " ++ nameText ct.name
        ++ elementsText ct
        ++ (match ct.like with | none => "" | some n => " LIKE " ++ nameText n)
        ++ (match ct.clone with | none => "" | some n => " CLONE " ++ nameText n)
        ++ spaced ct.clauses
        ++ (match ct.query with | none => "" | some q => " AS " ++ q)
  | .alterTable name ie only ops clauses =>
      "ALTER TABLE " ++ ifText ie "IF EXISTS " ++ ifText only "ONLY "
        ++ nameText name ++ " " ++ join ", " (ops.map operationText)
        ++ spaced clauses
  | .drop kind ie names cascade restrict =>
      "DROP " ++ (match kind with | .table => "TABLE" | .other k => k)
        ++ ifText ie " IF EXISTS" ++ " " ++ join ", " (names.map nameText)
        ++ ifText cascade " CASCADE" ++ ifText restrict " RESTRICT"
  | .createIndex ci =>
      "CREATE " ++ ifText ci.unique "UNIQUE " ++ "INDEX "
        ++ ifText ci.ifNotExists "IF NOT EXISTS "
        ++ (match ci.name with | none => "" | some n => nameText n ++ " ")
        ++ "ON " ++ nameText ci.tableName ++ "(" ++ join "," ci.columns ++ ")"
        ++ spaced ci.clauses
  | .other sql => sql

/-- A parser that knows these scripts and no other. -/
def parserOf (scripts : List (String × List Statement)) : Sqlparser where
  parseSql sql :=
    match scripts.find? fun s => s.1 == sql with
    | some (_, stmts) => .ok stmts
    | none => .error "sql parser error: unknown script"
  statementDisplay := statementText
  dataTypeDisplay := typeText
  dataTypeDebug := typeText
  identDisplay := identText

/-! ## Short forms for scripts -/

/-- An unquoted, unqualified object name. -/
def bare (name : String) : ObjectName := ⟨[Ident.new name]⟩

def col (name : String) (dt : DataType) (options : List ColumnOption) :
    ColumnDef :=
  ⟨Ident.new name, dt, none, options.map fun o => ⟨none, o⟩⟩

def createTable (name : ObjectName) (columns : List ColumnDef)
    (constraints : List TableConstraint) : Statement :=
  .createTable
    { orReplace := false, ifNotExists := false, name, columns, constraints
      query := none, like := none, clone := none, clauses := "" }

def alterTable (name : ObjectName) (ops : List AlterTableOperation) :
    Statement :=
  .alterTable name false false ops ""

def addColumn (c : ColumnDef) : AlterTableOperation :=
  .addColumn true false c none

def pk : ColumnOption := .unique true ""

/-! ## Reading a script statement by statement -/

/-- The characters of a text that are not whitespace. -/
def visible (s : String) : List Char := s.toList.filter (!isWhitespace ·)

theorem filter_dropWhile {α : Type} (q : α → Bool) (l : List α) :
    (l.dropWhile q).filter (!q ·) = l.filter (!q ·) := by
  induction l with
  | nil => rfl
  | cons a l ih =>
      cases hq : q a with
      | true =>
          rw [List.dropWhile_cons_of_pos hq, ih,
            List.filter_cons_of_neg (by rw [hq]; exact Bool.false_ne_true)]
      | false =>
          rw [List.dropWhile_cons_of_neg (by rw [hq]; exact Bool.false_ne_true)]

theorem visible_trim (s : String) : visible (trim s) = visible s := by
  rw [visible, trim, toList_trimEnd, List.filter_reverse, filter_dropWhile,
    ← List.filter_reverse, List.reverse_reverse, toList_trimStart,
    filter_dropWhile, visible]

theorem visible_eq_of_trim_eq {s t : String} (h : trim s = trim t) :
    visible s = visible t := by
  rw [← visible_trim, h, visible_trim]

/-- The non-empty stretches between `;`, the first one read up to `cur`. -/
def stretches (cur : List Char) : List Char → List (List Char)
  | [] => if cur.isEmpty then [] else [cur.reverse]
  | c :: cs =>
      if c = ';' then
        if cur.isEmpty then stretches [] cs
        else cur.reverse :: stretches [] cs
      else stretches (c :: cur) cs

theorem stretches_append {xs : List Char} (ys : List Char)
    (h : xs.getLast? = some ';') :
    ∀ cur, stretches cur (xs ++ ys) = stretches cur xs ++ stretches [] ys := by
  induction xs with
  | nil => cases h
  | cons c cs ih =>
      intro cur
      rw [List.cons_append, stretches, stretches]
      cases cs with
      | nil =>
          have hc : c = ';' := Option.some.inj h
          rw [if_pos hc, if_pos hc]
          by_cases hcur : cur.isEmpty = true
          · rw [if_pos hcur, if_pos hcur]
            rfl
          · rw [if_neg hcur, if_neg hcur]
            rfl
      | cons d ds =>
          have hrest := ih h
          by_cases hc : c = ';'
          · rw [if_pos hc, if_pos hc, hrest]
            by_cases hcur : cur.isEmpty = true
            · rw [if_pos hcur, if_pos hcur]
            · rw [if_neg hcur, if_neg hcur, List.cons_append]
          · rw [if_neg hc, if_neg hc, hrest]

/-- A parser for scripts of these statements, each known by its visible
    characters. -/
def stretchParser (known : List (String × Statement)) : Sqlparser where
  parseSql sql := .ok ((stretches [] (visible sql)).map fun cs =>
    match known.find? fun k => k.1 == String.ofList cs with
    | some (_, stmt) => stmt
    | none => .other (String.ofList cs))
  statementDisplay := statementText
  dataTypeDisplay := typeText
  dataTypeDebug := typeText
  identDisplay := identText

example : statementText (createTable (bare "users")
      [col "id" .uuid [pk, .notNull], col "email" .text []] [])
    = "CREATE TABLE users (id UUID PRIMARY KEY NOT NULL, email TEXT)" := by
  decide

end DualdbSqlText
