import DieselDualdb.ColumnHistoryProofs
import DieselDualdb.DanglingProofs
import DieselDualdb.Catalog
import Mathlib.Data.List.Nodup

/-!
# Guarded statements, and names that are there twice

`Model.apply` reads no `IF EXISTS` and no `IF NOT EXISTS`.  A statement that a
database skips because of its guard (`Skipped`, on the catalog that the same
statements leave) is therefore folded in like any other: `CREATE TABLE` pushes
a second block, `ADD COLUMN` a second column or an error about the table, and
`DROP COLUMN` takes a column that the database has lost or renamed before.
`Steady` says which statements leave the model alone all the same.

No insertion looks for the name either.  The names of a model are distinct
(`DistinctNames`) as long as every step brings names that are not there
(`StepFresh`); the two step lemmas say that this condition is the exact one.
-/

namespace DualdbGuard

open DualdbAst DualdbTypeMap DualdbModel DualdbCatalog DualdbDangling
open DualdbColumnHistory FallibleRun FirstUpdate AdditionLog

/-! ## Statements a database skips -/

section Skipped

variable {κ : Type} [DecidableEq κ] (d : Dialect κ)

/-- An operation whose guard makes a database leave the table alone. -/
inductive SkippedOperation (t : Table κ) : AlterTableOperation → Prop where
  | addColumn {kw : Bool} {c : ColumnDef} {pos : Option Clause}
      (h : t.has d (d.ident c.name) = true) :
      SkippedOperation t (.addColumn kw true c pos)
  | dropColumn {name : Ident} {cascade : Bool}
      (h : t.has d (d.ident name) = false) :
      SkippedOperation t (.dropColumn name true cascade)

/-- A statement whose guards make a database with this catalog do nothing. -/
inductive Skipped (c : Catalog κ) : Statement → Prop where
  | createTable {ct : CreateTable} (hguard : ct.ifNotExists = true)
      (hreplace : ct.orReplace = false)
      (h : (c.lookup d (d.table ct.name)).isSome) :
      Skipped c (.createTable ct)
  | missingTable {name : ObjectName} {only : Bool}
      {ops : List AlterTableOperation} {cl : Clause}
      (h : c.find d (d.table name) = none) :
      Skipped c (.alterTable name true only ops cl)
  | operations {name : ObjectName} {ie only : Bool} {i : Nat} {t : Table κ}
      {ops : List AlterTableOperation} {cl : Clause}
      (hfind : c.find d (d.table name) = some i) (ht : c.tables[i]? = some t)
      (h : ∀ op ∈ ops, SkippedOperation d t op) :
      Skipped c (.alterTable name ie only ops cl)

variable {d}

omit [DecidableEq κ] in
theorem setTable_self {c : Catalog κ} {i : Nat} {t : Table κ}
    (ht : c.tables[i]? = some t) : c.setTable i t = c := by
  rw [Catalog.setTable, set_self ht]

theorem skipped_execOperation {c : Catalog κ} {i : Nat} {t : Table κ}
    {op : AlterTableOperation} (ht : c.tables[i]? = some t)
    (h : SkippedOperation d t op) : execOperation d i c op = .ok c := by
  rw [execOperation, ht]
  cases h with
  | addColumn h =>
      refine bind_ok.mpr ⟨t.toShape, by simp only [shapeOperation, h]; rfl, ?_⟩
      show foreignKeyEffect d t.toShape i (c.setTable i t) t _ = _
      rw [setTable_self ht]
      simp only [foreignKeyEffect, h, if_true]
  | dropColumn h =>
      refine bind_ok.mpr ⟨t.toShape, by simp only [shapeOperation, h]; rfl, ?_⟩
      show foreignKeyEffect d t.toShape i (c.setTable i t) t _ = _
      rw [setTable_self ht]
      simp only [foreignKeyEffect, h]
      rfl

/-- A database does nothing for a skipped statement. -/
theorem skipped_exec {c : Catalog κ} {s : Statement} (h : Skipped d c s) :
    exec d c s = .ok c := by
  cases h with
  | createTable hguard hreplace h =>
      simp only [exec, hreplace, h, hguard, if_true, Bool.false_eq_true,
        if_false]
  | missingTable h => simp only [exec, h, if_true]
  | @operations name ie only i t ops cl hfind ht h =>
      simp only [exec, hfind]
      induction ops with
      | nil => rfl
      | cons op ops ih =>
          refine foldlM_cons_ok.mpr ⟨c, skipped_execOperation ht ?_, ih ?_⟩
          · exact h op List.mem_cons_self
          · exact fun x hx => h x (List.mem_cons_of_mem op hx)

end Skipped

/-! ## Statements the model skips -/

def isAddColumn : AlterTableOperation → Bool
  | .addColumn _ _ _ _ => true
  | _ => false

/-- The columns the operations add and do not drop again. -/
def broughtBy (ops : List AlterTableOperation) : List ModelColumn :=
  survivors ModelColumn.name (ops.filterMap columnEvent)

/-- The operations drop a column of that name. -/
def DroppedBy (ops : List AlterTableOperation) (name : String) : Prop :=
  Drops (ops.filterMap columnEvent) name

instance (ops : List AlterTableOperation) (name : String) :
    Decidable (DroppedBy ops name) :=
  inferInstanceAs (Decidable (Drops _ name))

/-- The operations take from the block its last columns, or none, and bring
    these and no others; they declare no foreign key. -/
structure Restores (ops : List AlterTableOperation) (t : ModelTable) :
    Prop where
  mapped : ∀ op ∈ ops, TypeMapped op
  foreignKeys : ops.flatMap addedForeignKeys = []
  columns : ∃ kept, t.columns = kept ++ broughtBy ops ∧
    (∀ c ∈ kept, ¬ DroppedBy ops c.name) ∧
    ∀ c ∈ broughtBy ops, DroppedBy ops c.name

/-- What a statement has to be like for the model to stay as it is. -/
def Steady (m : Model) : Statement → Prop
  | .createTable _ => False
  | .alterTable name _ _ ops _ =>
      match Model.named m (lastIdent name) with
      | some t => Restores ops t
      | none => ∀ op ∈ ops, isAddColumn op = false
  | _ => True

/-- With no table to go to, an `ADD COLUMN` is refused and the rest idle. -/
theorem missing_operation {p : Sqlparser} {tname : String} {m m' : Model}
    (hm : ∀ t ∈ m.tables, t.name ≠ tname) (op : AlterTableOperation) :
    m.applyOperation p tname op = .ok m' ↔ isAddColumn op = false ∧ m' = m := by
  constructor
  · intro h
    refine ⟨?_, unnamed_operation hm h⟩
    cases op with
    | addColumn kw ine c pos =>
        obtain ⟨-, hmut⟩ := applyOperation_addColumn_ok.mp h
        rw [Model.tableMut, updateFirst_eq_none.mpr] at hmut
        · cases hmut
        · intro t ht
          exact beq_eq_false_iff_ne.mpr (hm t ht)
    | addConstraint _ | dropColumn _ _ _ | dropConstraint _ _ _
    | dropPrimaryKey | renameColumn _ _ | renameTable _
    | changeColumn _ _ _ _ _ | modifyColumn _ _ _ _ | alterColumn _ _
    | other _ => rfl
  · rintro ⟨hop, rfl⟩
    have haccepted : ∃ m₁, m'.applyOperation p tname op = .ok m₁ := by
      cases op with
      | addColumn _ _ _ _ => cases hop
      | addConstraint con => cases con <;> exact ⟨_, rfl⟩
      | dropColumn _ _ _ | dropConstraint _ _ _ | dropPrimaryKey
      | renameColumn _ _ | renameTable _ | changeColumn _ _ _ _ _
      | modifyColumn _ _ _ _ | alterColumn _ _ | other _ => exact ⟨_, rfl⟩
    obtain ⟨m₁, hm₁⟩ := haccepted
    rw [hm₁, unnamed_operation hm hm₁]

theorem missing_run {p : Sqlparser} {tname : String} {m : Model}
    (hm : ∀ t ∈ m.tables, t.name ≠ tname) (ops : List AlterTableOperation) :
    ops.foldlM (Model.applyOperation p tname) m = .ok m ↔
      ∀ op ∈ ops, isAddColumn op = false := by
  induction ops with
  | nil => exact iff_of_true rfl (fun _ h => absurd h List.not_mem_nil)
  | cons op ops ih =>
      rw [foldlM_cons_ok, List.forall_mem_cons, ← ih]
      constructor
      · rintro ⟨m', hop, hrun⟩
        obtain ⟨hadd, rfl⟩ := (missing_operation hm op).mp hop
        exact ⟨hadd, hrun⟩
      · rintro ⟨hadd, hrun⟩
        exact ⟨m, (missing_operation hm op).mpr ⟨hadd, rfl⟩, hrun⟩

/-- Operations on a block that is there leave it alone exactly when they bring
    what they take. -/
theorem restored_run {p : Sqlparser} {m : Model} {l r : List ModelTable}
    {t : ModelTable} {tname : String} {ops : List AlterTableOperation}
    (htables : m.tables = l ++ t :: r) (hl : ∀ u ∈ l, u.name ≠ tname)
    (hname : t.name = tname) :
    ops.foldlM (Model.applyOperation p tname) m = .ok m ↔ Restores ops t := by
  have hm : m = ⟨l ++ t :: r⟩ := by rw [← htables]
  rw [hm, operations_split hl hname, operationUpdates_eq, Model.mk.injEq]
  constructor
  · rintro ⟨hmapped, h⟩
    have htable := (List.cons.inj (List.append_cancel_left h)).1
    have hcolumns := congrArg ModelTable.columns htable
    have hkeys := congrArg ModelTable.foreignKeys htable
    exact ⟨hmapped, List.append_right_eq_self.mp hkeys.symm,
      replay_eq_self_iff.mp hcolumns.symm⟩
  · rintro ⟨hmapped, hkeys, hcolumns⟩
    refine ⟨hmapped, ?_⟩
    rw [replay_eq_self_iff.mpr hcolumns, hkeys, List.append_nil]

/-- **WHEN THE MODEL STAYS AS IT IS**: exactly under `Steady`. -/
theorem apply_self_iff {p : Sqlparser} {m : Model} {s : Statement} :
    m.apply p s = .ok m ↔ Steady m s := by
  cases s with
  | createTable ct =>
      refine iff_of_false (fun hok => ?_) id
      -- a block is pushed, whether or not there is one
      obtain ⟨rows, -, hm⟩ := apply_createTable_ok.mp hok
      have hlength := congrArg (fun m : Model => m.tables.length) hm
      simp only [List.length_append, List.length_singleton] at hlength
      omega
  | alterTable name ie only ops cl =>
      show ops.foldlM (Model.applyOperation p (lastIdent name)) m = .ok m ↔ _
      rw [Steady]
      cases hnamed : Model.named m (lastIdent name) with
      | none =>
          refine missing_run (fun t ht hname => ?_) ops
          exact List.find?_eq_none.mp hnamed t ht (beq_iff_eq.mpr hname)
      | some t =>
          obtain ⟨hname, l, r, htables, hl⟩ :=
            List.find?_eq_some_iff_append.mp hnamed
          refine restored_run htables (fun u hu => ?_) (eq_of_beq hname)
          have hother := hl u hu
          rw [Bool.not_eq_true'] at hother
          exact beq_eq_false_iff_ne.mp hother
  | drop _ _ _ _ _ | createIndex _ | other _ => exact iff_of_true rfl trivial

/-! ## Distinct names -/

structure DistinctNames (m : Model) : Prop where
  tables : (Model.tableNames m).Nodup
  columns : ∀ t ∈ m.tables, (ModelTable.columnNames t).Nodup

theorem distinctNames_empty : DistinctNames Model.empty :=
  ⟨List.nodup_nil, fun _ ht => absurd ht List.not_mem_nil⟩

/-- The table is not there, and its columns have names of their own. -/
structure CreateFresh (m : Model) (ct : CreateTable) : Prop where
  table : lastIdent ct.name ∉ Model.tableNames m
  columns : (CreateTable.columnNames ct).Nodup

/-- An added column is not in the table it goes to. -/
def OperationFresh (tname : String) (m : Model) : AlterTableOperation → Prop
  | .addColumn _ _ c _ => ∀ t, Model.named m tname = some t →
      c.name.value ∉ ModelTable.columnNames t
  | _ => True

/-- **STEP LEMMA FOR `CREATE TABLE`**: the condition is the exact one. -/
theorem createTable_distinct_iff {p : Sqlparser} {m m' : Model}
    {ct : CreateTable} (hm : DistinctNames m)
    (h : m.apply p (.createTable ct) = .ok m') :
    DistinctNames m' ↔ CreateFresh m ct := by
  obtain ⟨rows, hrows, rfl⟩ := apply_createTable_ok.mp h
  have hnames := tableNames_created m ct rows
  have hcols := columnNames_created hrows
  constructor
  · intro hinv
    have htables := hinv.tables
    rw [hnames, List.nodup_append] at htables
    refine ⟨fun hmem => ?_, ?_⟩
    · exact htables.2.2 _ hmem _ List.mem_cons_self rfl
    · rw [← hcols]
      exact hinv.columns _ (List.mem_append_right _ List.mem_cons_self)
  · intro hfresh
    refine ⟨?_, fun t ht => ?_⟩
    · rw [hnames, List.nodup_append]
      refine ⟨hm.tables, List.nodup_singleton _, fun a ha b hb hab => ?_⟩
      rw [hab, List.mem_singleton.mp hb] at ha
      exact hfresh.table ha
    · rcases List.mem_append.mp ht with ht | ht
      · exact hm.columns t ht
      · rw [List.mem_singleton.mp ht, hcols]
        exact hfresh.columns

/-- What the update of the table does to its column names. -/
theorem operationUpdate_distinct_iff {t : ModelTable}
    (ht : (ModelTable.columnNames t).Nodup) (op : AlterTableOperation)
    (hmapped : ∀ kw ine c pos, op = .addColumn kw ine c pos →
      ∃ row, mapType c.dataType = some row) :
    (ModelTable.columnNames (operationUpdate op t)).Nodup ↔
      match op with
      | .addColumn _ _ c _ => c.name.value ∉ ModelTable.columnNames t
      | _ => True := by
  cases op with
  | addColumn kw ine c pos =>
      obtain ⟨row, hrow⟩ := hmapped kw ine c pos rfl
      have hcolumns : ModelTable.columnNames
          (operationUpdate (.addColumn kw ine c pos) t)
          = ModelTable.columnNames t ++ [c.name.value] := by
        simp [ModelTable.columnNames, operationUpdate, hrow, ModelColumn.ofAdd]
      rw [hcolumns, List.nodup_append]
      constructor
      · rintro ⟨-, -, hdisjoint⟩ hmem
        exact hdisjoint _ hmem _ List.mem_cons_self rfl
      · intro hfresh
        refine ⟨ht, List.nodup_singleton _, fun a ha b hb hab => ?_⟩
        rw [hab, List.mem_singleton.mp hb] at ha
        exact hfresh ha
  | dropColumn c ie cascade =>
      refine iff_of_true ?_ trivial
      exact ht.sublist (List.filter_sublist.map _)
  | addConstraint _ | dropConstraint _ _ _ | dropPrimaryKey
  | renameColumn _ _ | renameTable _ | changeColumn _ _ _ _ _
  | modifyColumn _ _ _ _ | alterColumn _ _ | other _ =>
      exact iff_of_true ht trivial

/-- **STEP LEMMA FOR `ALTER TABLE`**: the condition is the exact one. -/
theorem applyOperation_distinct_iff {p : Sqlparser} {tname : String}
    {m m' : Model} {op : AlterTableOperation} (hm : DistinctNames m)
    (h : m.applyOperation p tname op = .ok m') :
    DistinctNames m' ↔ OperationFresh tname m op := by
  have hmapped : ∀ kw ine c pos, op = .addColumn kw ine c pos →
      ∃ row, mapType c.dataType = some row := by
    rintro kw ine c pos rfl
    exact (applyOperation_addColumn_ok.mp h).1
  rcases applyOperation_cases h with ⟨rfl, hnone⟩ | hupd
  · refine iff_of_true hm ?_
    cases op with
    | addColumn kw ine c pos =>
        intro t ht
        cases (named_eq_none hnone).symm.trans ht
    | addConstraint _ | dropColumn _ _ _ | dropConstraint _ _ _
    | dropPrimaryKey | renameColumn _ _ | renameTable _
    | changeColumn _ _ _ _ _ | modifyColumn _ _ _ _ | alterColumn _ _
    | other _ => exact trivial
  · obtain ⟨l, t, r, htables, htables', htname, hl⟩ :=
      updateFirst_eq_some.mp hupd
    have hnamed := named_of_split htables htname hl
    have hnames : Model.tableNames m' = Model.tableNames m :=
      applyOperation_map (operationUpdate_name op) h
    have hfresh : OperationFresh tname m op ↔
        (ModelTable.columnNames (operationUpdate op t)).Nodup := by
      rw [operationUpdate_distinct_iff (hm.columns t (by rw [htables]; simp))
        op hmapped]
      cases op with
      | addColumn kw ine c pos =>
          refine ⟨fun hop => hop t hnamed, fun hop t' ht' => ?_⟩
          rw [← Option.some.inj (hnamed.symm.trans ht')]
          exact hop
      | addConstraint _ | dropColumn _ _ _ | dropConstraint _ _ _
      | dropPrimaryKey | renameColumn _ _ | renameTable _
      | changeColumn _ _ _ _ _ | modifyColumn _ _ _ _ | alterColumn _ _
      | other _ => exact Iff.rfl
    rw [hfresh]
    constructor
    · intro hinv
      exact hinv.columns _ (by rw [htables']; simp)
    · intro hupdated
      refine ⟨by rw [hnames]; exact hm.tables, fun x hx => ?_⟩
      rw [htables'] at hx
      -- only the block that took the update can have two of a name
      rcases List.mem_append.mp hx with hx | hx
      · exact hm.columns x (by rw [htables]; exact List.mem_append_left _ hx)
      · rcases List.mem_cons.mp hx with rfl | hx
        · exact hupdated
        · exact hm.columns x (by rw [htables]; simp [hx])

/-! ## Runs -/

/-- The condition on a statement and the model it is folded into. -/
def StepFresh (p : Sqlparser) (m : Model) : Statement → Prop
  | .createTable ct => CreateFresh m ct
  | .alterTable name _ _ ops _ =>
      Along (Model.applyOperation p (lastIdent name))
        (OperationFresh (lastIdent name)) m ops
  | _ => True

/-- A statement that brings new names leaves them distinct. -/
theorem apply_distinctNames {p : Sqlparser} {m m' : Model} {s : Statement}
    (hm : DistinctNames m) (hs : StepFresh p m s)
    (h : m.apply p s = .ok m') : DistinctNames m' := by
  cases s with
  | createTable ct => exact (createTable_distinct_iff hm h).mpr hs
  | alterTable name ie only ops cl =>
      exact run_invariant_along
        (fun _ _ _ hm hop h => (applyOperation_distinct_iff hm h).mpr hop)
        ops m m' hm hs h
  | drop _ _ _ _ _ | createIndex _ | other _ =>
      rw [← Except.ok.inj h]; exact hm

/-- **GUARDS AND DISTINCT NAMES**: a statement that a database skips after the
    statements that led to the model leaves the model alone exactly when it is
    `Steady`; and every run whose steps bring new names keeps the names
    distinct. -/
theorem guarded_statements_iff (p : Sqlparser) :
    (∀ {κ : Type} [DecidableEq κ] (d : Dialect κ) (stmts : List Statement)
        (c : Catalog κ) (m : Model) (s : Statement),
      stmts.foldlM (exec d) Catalog.empty = .ok c →
      stmts.foldlM (Model.apply p) Model.empty = .ok m → Skipped d c s →
      exec d c s = .ok c ∧ (m.apply p s = .ok m ↔ Steady m s)) ∧
    ∀ stmts m, Along (Model.apply p) (StepFresh p) Model.empty stmts →
      stmts.foldlM (Model.apply p) Model.empty = .ok m → DistinctNames m :=
  ⟨fun _ _ _ _ _ _ _ h => ⟨skipped_exec h, apply_self_iff⟩,
    fun stmts m hsteps hrun =>
      run_invariant_along (fun _ _ _ => apply_distinctNames) stmts _ m
        distinctNames_empty hsteps hrun⟩

instance (m : Model) (ct : CreateTable) : Decidable (CreateFresh m ct) :=
  decidable_of_iff (_ ∧ _)
    ⟨fun ⟨table, columns⟩ => ⟨table, columns⟩,
      fun h => ⟨h.table, h.columns⟩⟩

instance (tname : String) (m : Model) :
    ∀ op, Decidable (OperationFresh tname m op)
  | .addColumn _ _ c _ =>
      decidable_of_iff (∀ t ∈ (Model.named m tname).toList,
        c.name.value ∉ ModelTable.columnNames t)
        ⟨fun h t ht => h t (Option.mem_toList.mpr ht),
          fun h t ht => h t (Option.mem_toList.mp ht)⟩
  | .addConstraint _ | .dropColumn _ _ _ | .dropConstraint _ _ _
  | .dropPrimaryKey | .renameColumn _ _ | .renameTable _
  | .changeColumn _ _ _ _ _ | .modifyColumn _ _ _ _ | .alterColumn _ _
  | .other _ => isTrue trivial

instance (p : Sqlparser) (m : Model) : ∀ s, Decidable (StepFresh p m s)
  | .createTable ct => inferInstanceAs (Decidable (CreateFresh m ct))
  | .alterTable name _ _ ops _ =>
      inferInstanceAs (Decidable
        (Along (Model.applyOperation p (lastIdent name))
          (OperationFresh (lastIdent name)) m ops))
  | .drop _ _ _ _ _ | .createIndex _ | .other _ => isTrue trivial

section Statements

open DualdbSqlText

def createOne : Statement :=
  createTable (bare "t") [col "a" (.int none) []] []

/-- What `CREATE TABLE t (a INT)` leaves. -/
def oneTable : Model :=
  ⟨[⟨"t", [⟨"a", "diesel::sql_types::Integer", true⟩], [], []⟩]⟩

def oneTableThere : Catalog (List String) :=
  ⟨[⟨⟨bare "t", [⟨Ident.new "a", .int none, false, false⟩], none⟩, []⟩], []⟩

/-- `ALTER TABLE t DROP COLUMN IF EXISTS b` -/
def dropMissing : Statement :=
  alterTable (bare "t") [.dropColumn (Ident.new "b") true false]

/-- `CREATE TABLE IF NOT EXISTS t (a INT)` -/
def createAgain : Statement :=
  .createTable ⟨false, true, bare "t", [col "a" (.int none) []], [], none, none,
    none, ""⟩

theorem guarded_statements_iff_of_drop_column :
    (exec folding oneTableThere dropMissing = .ok oneTableThere ∧
      oneTable.apply (parserOf []) dropMissing = .ok oneTable) ∧
      ∃ m, [createOne,
          alterTable (bare "t") [addColumn (col "b" (.int none) [])]].foldlM
          (Model.apply (parserOf [])) Model.empty = .ok m ∧
        DistinctNames m := by
  obtain ⟨hskipped, hruns⟩ := guarded_statements_iff (parserOf [])
  constructor
  · obtain ⟨hexec, hsteady⟩ := hskipped folding [createOne] oneTableThere
      oneTable dropMissing (by decide +kernel) (by decide +kernel) (by
        refine .operations (i := 0) rfl rfl fun op hop => ?_
        rw [List.mem_singleton.mp hop]
        exact .dropColumn (by decide +kernel))
    refine ⟨hexec, hsteady.mpr ⟨?_, rfl,
      [⟨"a", "diesel::sql_types::Integer", true⟩], rfl, ?_, ?_⟩⟩
    · intro op hop
      rw [List.mem_singleton.mp hop]
      trivial
    · decide
    · exact fun c hc => absurd hc List.not_mem_nil
  · obtain ⟨m, hm⟩ := exists_ok_of_isOk
      (x := [createOne,
        alterTable (bare "t") [addColumn (col "b" (.int none) [])]].foldlM
        (Model.apply (parserOf [])) Model.empty) (by decide +kernel)
    exact ⟨m, hm, hruns _ m (by decide +kernel) hm⟩

/-- A second `CREATE TABLE`, guarded, is skipped and pushes a second block. -/
theorem create_if_not_exists_pushes :
    [createOne].foldlM (exec folding) Catalog.empty = .ok oneTableThere ∧
      [createOne].foldlM (Model.apply (parserOf [])) Model.empty
        = .ok oneTable ∧
      Skipped folding oneTableThere createAgain ∧
      ∃ m, oneTable.apply (parserOf []) createAgain = .ok m ∧
        m ≠ oneTable ∧ Model.tableNames m = ["t", "t"] ∧ ¬ DistinctNames m := by
  refine ⟨by decide +kernel, by decide +kernel, ?_,
    ⟨oneTable.tables ++ oneTable.tables⟩, ?_⟩
  · exact .createTable rfl rfl (by decide +kernel)
  · refine ⟨by decide +kernel, by decide, by decide, fun h => ?_⟩
    exact absurd h.tables (by decide)

end Statements

end DualdbGuard
