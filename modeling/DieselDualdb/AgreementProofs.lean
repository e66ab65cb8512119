import DieselDualdb.CatalogSimulation
import DieselDualdb.SqlText

/-!
# The schema model against the catalog

The model and the catalog are folded over the same shared statements.  A block
agrees with a table when the printed name denotes the table and the printed
columns are its columns in the same order, each with the marker of the column's
type.

The comparison is an instance of `CatalogSimulation`: all it adds to the
condition on the names is that a new type has the marker of the old one.
-/

namespace DualdbAgreement

open DualdbAst DualdbTypeMap DualdbModel DualdbRender DualdbMigration
open DualdbRewrite DualdbCatalog DualdbSimulation FallibleRun

variable {κ : Type} [DecidableEq κ]

/-! ## What agrees, and what has to be tracked -/

/-- The marker `map_type` gives a logical type. -/
def markerOf (dt : DataType) : Option String := (mapType dt).map Mapped.marker

/-- The column prints with the marker of its type. -/
def MarkerAgrees (c : ModelColumn) (col : Column) : Prop :=
  some c.marker = markerOf col.dataType

/-- A `table!` block describes a table. -/
def TableAgrees (d : Dialect κ) (t : ModelTable) (s : Shape) : Prop :=
  ColumnsAgree (.reached d) MarkerAgrees t s

/-- A new type has the marker of the old one. -/
def MarkerKept (d : Dialect κ) (s : Shape) : AlterTableOperation → Prop
  | .alterColumn name (.setDataType dataType _) => ∀ col ∈ s.columns,
      col.key d = d.ident name → markerOf dataType = markerOf col.dataType
  | _ => True

/-- The catalog executes the shared statements as they are. -/
def tracking (d : Dialect κ) : Tracking κ where
  dialect := d
  naming := .reached d
  emitType := id
  Related _ := MarkerAgrees
  CreateOk _ := True
  OperationOk := MarkerKept d

theorem emit_eq (d : Dialect κ) (s : Statement) : (tracking d).emit s = s := by
  cases s with
  | createTable ct =>
      have hid : (tracking d).emitColumn = id := rfl
      show Statement.createTable ((tracking d).emitCreate ct) = _
      rw [Tracking.emitCreate, hid, List.map_id]
  | alterTable name ie only ops cl =>
      have hid : (tracking d).emitOperation = id := by
        funext op
        cases op <;> rfl
      show Statement.alterTable name ie only
        (ops.map (tracking d).emitOperation) cl = _
      rw [hid, List.map_id]
  | drop _ _ _ _ _ | createIndex _ | other _ => rfl

theorem step_eq (d : Dialect κ) : (tracking d).step = execTables d := by
  funext c s
  rw [Tracking.step, emit_eq]
  rfl

theorem markerOf_row {dt : DataType} {row : Mapped}
    (h : mapType dt = some row) : some row.marker = markerOf dt := by
  rw [markerOf, h]
  rfl

omit [DecidableEq κ] in
/-- No operation but a new type changes the marker of a column it keeps. -/
theorem marker_kept {d : Dialect κ} {op : AlterTableOperation} {s : Shape}
    {c : ModelColumn} {col : Column} (hok : MarkerKept d s op)
    (hcol : col ∈ s.columns) (h : MarkerAgrees c col) :
    MarkerAgrees c (columnAfter d op col) := by
  cases op with
  | addConstraint con =>
      -- a key changes no type
      simp only [columnAfter]
      split
      · rwa [MarkerAgrees, mark_dataType]
      · exact h
  | renameColumn old new =>
      simp only [columnAfter]
      split <;> exact h
  | alterColumn name op =>
      cases op with
      | setDataType dataType usingExpr =>
          simp only [columnAfter]
          split
          · next hkey => exact h.trans (hok col hcol hkey).symm
          · exact h
      | setNotNull | dropNotNull =>
          simp only [columnAfter]
          split <;> exact h
      | setDefault _ | dropDefault | addGenerated _ => exact h
  | addColumn _ _ _ _ | dropColumn _ _ _ | dropConstraint _ _ _
  | dropPrimaryKey | renameTable _ | changeColumn _ _ _ _ _
  | modifyColumn _ _ _ _ | other _ => exact h

theorem tracking_sound (d : Dialect κ) : (tracking d).Sound where
  created := by
    intro ct c row key _ _ hrow _ _
    cases key with
    | none => exact markerOf_row hrow
    | some pk =>
        show some row.marker = markerOf (Column.mark (d := d) _ _).dataType
        rw [mark_dataType]
        exact markerOf_row hrow
  kept hok _ _ hcol _ h := marker_kept hok hcol h
  added _ _ hrow := markerOf_row hrow

/-! ## Catalog agreement -/

/-- **CATALOG AGREEMENT**: when every statement of an accepted list is one the
    model tracks, the printed blocks describe exactly the catalog the
    statements leave.  The condition is on the tables before each statement. -/
theorem catalog_agreement {p : Sqlparser} (d : Dialect κ)
    {ms : List Migration} {g : Generated} {stmts : List Statement}
    {c : Catalog κ} (h : generate p ms = .ok g)
    (hstmts : allStatements p ms = .ok stmts)
    (hc : stmts.foldlM (exec d) Catalog.empty = .ok c)
    (htracked : Along₂ (execTables d) (Model.apply p) ((tracking d).Tracked p)
      Catalog.empty Model.empty stmts) :
    ∃ m, finalModel p ms = .ok m ∧ renderSchemaRs m = .ok g.schemaRs ∧
      List.Forall₂ (TableAgrees d) m.tables c.shapes := by
  obtain ⟨m, hm, hrs, hfold⟩ := generate_run h hstmts
  have hrun := foldlM_view Catalog.bare (fun _ _ _ => exec_bare) hc
  rw [← step_eq] at hrun htracked
  have hagrees : (tracking d).Agrees m c.bare :=
    Tracking.run (tracking_sound d) agrees_empty htracked hrun hfold
  exact ⟨m, hm, hrs, hagrees⟩

/-! ## Runs on fixed histories -/

instance (d : Dialect κ) (ct : CreateTable) :
    Decidable ((tracking d).CreateOk ct) := isTrue trivial

instance (d : Dialect κ) (s : Shape) :
    ∀ op, Decidable ((tracking d).OperationOk s op)
  | .alterColumn name (.setDataType dataType _) =>
      inferInstanceAs (Decidable (∀ col ∈ s.columns,
        col.key d = d.ident name →
          markerOf dataType = markerOf col.dataType))
  | .alterColumn _ .setNotNull | .alterColumn _ .dropNotNull
  | .alterColumn _ (.setDefault _) | .alterColumn _ .dropDefault
  | .alterColumn _ (.addGenerated _) | .addConstraint _ | .addColumn _ _ _ _
  | .dropColumn _ _ _ | .dropConstraint _ _ _ | .dropPrimaryKey
  | .renameColumn _ _ | .renameTable _ | .changeColumn _ _ _ _ _
  | .modifyColumn _ _ _ _ | .other _ => isTrue trivial

section Runs

open DualdbSqlText

def catalogParser : Sqlparser := parserOf
  [("CREATE TABLE t (a INT, b INT)\n",
      [createTable (bare "t")
        [col "a" (.int none) [], col "b" (.int none) []] []]),
    ("ALTER TABLE t ADD COLUMN c JSON\n",
      [alterTable (bare "t") [addColumn (col "c" .json [])]]),
    ("ALTER TABLE t DROP COLUMN a\n",
      [alterTable (bare "t") [.dropColumn (Ident.new "a") false false]]),
    ("ALTER TABLE t RENAME COLUMN a TO c\n",
      [alterTable (bare "t") [.renameColumn (Ident.new "a") (Ident.new "c")]])]

def trackedHistory : List Migration :=
  [⟨"1", "CREATE TABLE t (a INT, b INT)", none⟩,
    ⟨"2", "ALTER TABLE t ADD COLUMN c JSON", none⟩,
    ⟨"3", "ALTER TABLE t DROP COLUMN a", none⟩]

theorem catalog_agreement_of_add_and_drop :
    ∃ g stmts c m, generate catalogParser trackedHistory = .ok g ∧
      allStatements catalogParser trackedHistory = .ok stmts ∧
      stmts.foldlM (exec folding) Catalog.empty = .ok c ∧
      renderSchemaRs m = .ok g.schemaRs ∧
      List.Forall₂ (TableAgrees folding) m.tables c.shapes := by
  obtain ⟨g, hg⟩ := exists_ok_of_isOk
    (x := generate catalogParser trackedHistory) (by decide +kernel)
  have hstmts : allStatements catalogParser trackedHistory = .ok
      [createTable (bare "t")
          [col "a" (.int none) [], col "b" (.int none) []] [],
        alterTable (bare "t") [addColumn (col "c" .json [])],
        alterTable (bare "t") [.dropColumn (Ident.new "a") false false]] := by
    decide +kernel
  obtain ⟨c, hc⟩ := exists_ok_of_isOk (x := List.foldlM (exec folding)
    Catalog.empty
    [createTable (bare "t")
        [col "a" (.int none) [], col "b" (.int none) []] [],
      alterTable (bare "t") [addColumn (col "c" .json [])],
      alterTable (bare "t") [.dropColumn (Ident.new "a") false false]])
    (by decide +kernel)
  obtain ⟨m, -, hrs, hagrees⟩ :=
    catalog_agreement folding hg hstmts hc (by decide +kernel)
  exact ⟨g, _, c, m, hg, hstmts, hc, hrs, hagrees⟩

def renamedHistory : List Migration :=
  [⟨"1", "CREATE TABLE t (a INT, b INT)", none⟩,
    ⟨"2", "ALTER TABLE t RENAME COLUMN a TO c", none⟩]

/-- The catalog has columns `c` and `b`; the block prints `a` and `b`. -/
theorem renamed_column_is_missed :
    ∃ g stmts c m, generate catalogParser renamedHistory = .ok g ∧
      allStatements catalogParser renamedHistory = .ok stmts ∧
      stmts.foldlM (exec folding) Catalog.empty = .ok c ∧
      renderSchemaRs m = .ok g.schemaRs ∧
      m.tables.map (fun t => t.columns.map ModelColumn.name)
        = [["a", "b"]] ∧
      c.shapes.map (fun s => s.columns.map fun col => col.name.value)
        = [["c", "b"]] ∧
      ¬ List.Forall₂ (TableAgrees folding) m.tables c.shapes := by
  obtain ⟨g, hg⟩ := exists_ok_of_isOk
    (x := generate catalogParser renamedHistory) (by decide +kernel)
  obtain ⟨m, hm, hrs, -, -⟩ := generate_ok.mp hg
  have hfinal : finalModel catalogParser renamedHistory = .ok ⟨[⟨"t",
      [⟨"a", "diesel::sql_types::Integer", true⟩,
        ⟨"b", "diesel::sql_types::Integer", true⟩], [], []⟩]⟩ := by
    decide +kernel
  have hstmts : allStatements catalogParser renamedHistory = .ok
      [createTable (bare "t")
          [col "a" (.int none) [], col "b" (.int none) []] [],
        alterTable (bare "t")
          [.renameColumn (Ident.new "a") (Ident.new "c")]] := by
    decide +kernel
  have hc : List.foldlM (exec folding) Catalog.empty
      [createTable (bare "t")
          [col "a" (.int none) [], col "b" (.int none) []] [],
        alterTable (bare "t")
          [.renameColumn (Ident.new "a") (Ident.new "c")]]
      = .ok ⟨[⟨⟨bare "t", [⟨Ident.new "c", .int none, false, false⟩,
          ⟨Ident.new "b", .int none, false, false⟩], none⟩, []⟩], []⟩ := by
    decide +kernel
  rw [Except.ok.inj (hm.symm.trans hfinal)] at hrs
  refine ⟨g, _, _, _, hg, hstmts, hc, hrs, rfl, rfl, ?_⟩
  -- the model still has the old name
  intro h
  cases h with
  | cons ht _ =>
      cases ht.columns with
      | cons hcol _ => exact absurd hcol.1 (by decide)

end Runs

end DualdbAgreement
