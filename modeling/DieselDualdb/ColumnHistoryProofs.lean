import DieselDualdb.LocalityProofs
import DieselDualdb.Lib.AdditionLog

/-!
# What the history says about a table

`schema.rs` is printed from a model that was folded statement by statement.
Here is what the fold comes to, for one name and with no model in sight: the
first `CREATE TABLE` of the name opens the block that every later `ALTER TABLE`
goes to; its columns are the additions of the history that no later `DROP
COLUMN` takes back, in the order they were added; its key is the one it was
created with; and its foreign keys are all that were ever declared.  Further
tables of the same name stay as they were created (`table_history`).
-/

namespace DualdbColumnHistory

open DualdbAst DualdbTypeMap DualdbModel DualdbRender DualdbMigration
open DualdbLocality FallibleRun FirstUpdate KeyedRuns AdditionLog

/-! ## Operations as events -/

/-- What an operation says about the columns. -/
def columnEvent : AlterTableOperation → Option (Event ModelColumn String)
  | .addColumn _ _ c _ =>
      (mapType c.dataType).map fun row => .add (ModelColumn.ofAdd c row.marker)
  | .dropColumn c _ _ => some (.drop c.value)
  | _ => none

def addedForeignKeys : AlterTableOperation → List (String × String)
  | .addConstraint con => constraintForeignKeys con
  | _ => []

theorem operationUpdate_eq (op : AlterTableOperation) (t : ModelTable) :
    operationUpdate op t = { t with
      columns := replay ModelColumn.name (columnEvent op).toList t.columns
      foreignKeys := t.foreignKeys ++ addedForeignKeys op } := by
  cases op with
  | addColumn kw ine c pos =>
      simp only [operationUpdate, columnEvent, addedForeignKeys]
      cases mapType c.dataType with
      | none => rw [List.append_nil]; rfl
      | some row => rw [List.append_nil]; rfl
  | dropColumn c ie cascade =>
      have hcolumns : (t.columns.filter fun col => col.name != c.value)
          = t.columns.filter fun col => decide (col.name ≠ c.value) := by
        refine List.filter_congr fun col _ => ?_
        rw [Bool.eq_iff_iff, bne_iff_ne, decide_eq_true_iff]
      simp [operationUpdate, columnEvent, addedForeignKeys, replay, Event.act,
        hcolumns]
  | addConstraint con => rfl
  | dropConstraint _ _ _ | dropPrimaryKey | renameColumn _ _ | renameTable _
  | changeColumn _ _ _ _ _ | modifyColumn _ _ _ _ | alterColumn _ _
  | other _ =>
      simp [operationUpdate, columnEvent, addedForeignKeys, replay]

theorem operationUpdates_eq (ops : List AlterTableOperation) (t : ModelTable) :
    ops.foldl (fun t op => operationUpdate op t) t = { t with
      columns := replay ModelColumn.name (ops.filterMap columnEvent) t.columns
      foreignKeys := t.foreignKeys ++ ops.flatMap addedForeignKeys } := by
  induction ops generalizing t with
  | nil => rw [List.flatMap_nil, List.append_nil]; rfl
  | cons op ops ih =>
      rw [List.foldl_cons, ih, operationUpdate_eq]
      rw [List.flatMap_cons, ← List.append_assoc]
      cases hevent : columnEvent op with
      | none => rw [List.filterMap_cons_none hevent]; rfl
      | some e => rw [List.filterMap_cons_some hevent]; rfl

/-- An added column is of a type with a row. -/
def TypeMapped : AlterTableOperation → Prop
  | .addColumn _ _ c _ => ∃ row, mapType c.dataType = some row
  | _ => True

theorem typeMapped_of_ok {p : Sqlparser} {n : String} {m m' : Model}
    {op : AlterTableOperation} (h : m.applyOperation p n op = .ok m') :
    TypeMapped op := by
  cases op with
  | addColumn kw ine c pos => exact (applyOperation_addColumn_ok.mp h).1
  | addConstraint _ | dropColumn _ _ _ | dropConstraint _ _ _
  | dropPrimaryKey | renameColumn _ _ | renameTable _
  | changeColumn _ _ _ _ _ | modifyColumn _ _ _ _ | alterColumn _ _
  | other _ => exact trivial

/-- With a block to go to and a row for what it adds, an operation is
    accepted. -/
theorem accepted_of_mapped (p : Sqlparser) {n : String} {m : Model}
    {op : AlterTableOperation} (hn : ∃ t ∈ m.tables, t.name = n)
    (hop : TypeMapped op) : ∃ m', m.applyOperation p n op = .ok m' := by
  cases op with
  | addColumn kw ine c pos =>
      cases hmut : m.tableMut n (operationUpdate (.addColumn kw ine c pos)) with
      | none =>
          obtain ⟨t, ht, hname⟩ := hn
          rw [Model.tableMut, Option.map_eq_none_iff, updateFirst_eq_none]
            at hmut
          exact absurd hname (beq_eq_false_iff_ne.mp (hmut t ht))
      | some m' => exact ⟨m', applyOperation_addColumn_ok.mpr ⟨hop, hmut⟩⟩
  | addConstraint con => cases con <;> exact ⟨_, rfl⟩
  | dropColumn _ _ _ | dropConstraint _ _ _ | dropPrimaryKey
  | renameColumn _ _ | renameTable _ | changeColumn _ _ _ _ _
  | modifyColumn _ _ _ _ | alterColumn _ _ | other _ => exact ⟨_, rfl⟩

/-! ## The statements on one table -/

/-- The operations of an `ALTER TABLE`. -/
def operations : Statement → List AlterTableOperation
  | .alterTable _ _ _ ops _ => ops
  | _ => []

def createOf : Statement → Option CreateTable
  | .createTable ct => some ct
  | _ => none

/-- `t` is the block of a `CREATE TABLE` and nothing else. -/
def AsCreated (ct : CreateTable) (t : ModelTable) : Prop :=
  ∃ rows, RowsOf ct.columns rows ∧ t = ModelTable.created ct rows

section OneName

variable {p : Sqlparser} {n : String}

/-- An operation goes to the first block of the name. -/
theorem applyOperation_split {l r : List ModelTable} {t : ModelTable}
    {m' : Model} {op : AlterTableOperation} (hl : ∀ u ∈ l, u.name ≠ n)
    (hn : t.name = n) :
    (⟨l ++ t :: r⟩ : Model).applyOperation p n op = .ok m' ↔
      TypeMapped op ∧ m' = ⟨l ++ operationUpdate op t :: r⟩ := by
  have hupd : updateFirst (fun u => u.name == n) (operationUpdate op)
      (l ++ t :: r) = some (l ++ operationUpdate op t :: r) :=
    updateFirst_eq_some.mpr ⟨l, t, r, rfl, rfl, beq_iff_eq.mpr hn,
      fun u hu => beq_eq_false_iff_ne.mpr (hl u hu)⟩
  constructor
  · intro h
    refine ⟨typeMapped_of_ok h, ?_⟩
    rw [applyOperation_eq h, Model.tableMut, hupd]
    rfl
  · rintro ⟨hmapped, rfl⟩
    obtain ⟨m', hm'⟩ := accepted_of_mapped p (m := ⟨l ++ t :: r⟩)
      ⟨t, by simp, hn⟩ hmapped
    rw [hm', applyOperation_eq hm', Model.tableMut, hupd]
    rfl

theorem operations_split {l r : List ModelTable}
    {ops : List AlterTableOperation} {t : ModelTable} {m' : Model}
    (hl : ∀ u ∈ l, u.name ≠ n) (hn : t.name = n) :
    ops.foldlM (Model.applyOperation p n) ⟨l ++ t :: r⟩ = .ok m' ↔
      (∀ op ∈ ops, TypeMapped op) ∧
        m' = ⟨l ++ ops.foldl (fun t op => operationUpdate op t) t :: r⟩ := by
  induction ops generalizing t with
  | nil => rw [foldlM_nil_ok, eq_comm]; simp
  | cons op ops ih =>
      rw [foldlM_cons_ok, List.forall_mem_cons, List.foldl_cons, and_assoc,
        ← ih ((operationUpdate_name op t).trans hn)]
      constructor
      · rintro ⟨m₁, hop, hrest⟩
        obtain ⟨hmapped, rfl⟩ := (applyOperation_split hl hn).mp hop
        exact ⟨hmapped, hrest⟩
      · rintro ⟨hmapped, hrest⟩
        exact ⟨_, (applyOperation_split hl hn).mpr ⟨hmapped, rfl⟩, hrest⟩

end OneName

/-! ## The block of a history -/

/-- The additions and removals of columns: those of the `CREATE TABLE`, then
    those of the statements after it. -/
def columnLog (ct : CreateTable) (rows : List Mapped)
    (after : List Statement) : List (Event ModelColumn String) :=
  (columnsOf ct.columns rows).map .add
    ++ (after.flatMap operations).filterMap columnEvent

/-- The block of a table created by `ct`, after the statements `after`. -/
def historyBlock (ct : CreateTable) (rows : List Mapped)
    (after : List Statement) : ModelTable where
  name := lastIdent ct.name
  columns := survivors ModelColumn.name (columnLog ct rows after)
  primaryKey := constraintKey (ct.columns.flatMap inlineKey) ct.constraints
  foreignKeys := ct.columns.flatMap inlineForeignKeys
    ++ ct.constraints.flatMap constraintForeignKeys
    ++ (after.flatMap operations).flatMap addedForeignKeys

/-! ## Runs -/

section Runs

open DualdbSqlText

def historyParser : Sqlparser := parserOf
  [("CREATE TABLE t (a INT, b INT)\n",
      [createTable (bare "t")
        [col "a" (.int none) [], col "b" (.int none) []] []]),
    ("ALTER TABLE t DROP COLUMN a, ADD COLUMN a TEXT\n",
      [alterTable (bare "t") [.dropColumn (Ident.new "a") false false,
        addColumn (col "a" .text [])]])]

def retyped : List Migration :=
  [⟨"1", "CREATE TABLE t (a INT, b INT)", none⟩,
    ⟨"2", "ALTER TABLE t DROP COLUMN a, ADD COLUMN a TEXT", none⟩]

end Runs

end DualdbColumnHistory
