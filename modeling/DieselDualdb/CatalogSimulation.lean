import DieselDualdb.Catalog
import DieselDualdb.RewriteProofs
import DieselDualdb.Lib.Pointwise

/-!
# Simulating the model by a catalog

One simulation, used by every comparison of the schema model with a catalog.
A `Tracking` says what is compared (`Related`, on a table's block and its
shape) and under which conditions on a step; `Sound` is what has to be checked
for one operation.  `Tracking.run` then carries the relation through runs of
any length: tables are matched by position, the catalog executes what is
emitted for a statement while the model folds the statement itself.  Indexes
are left out on the catalog's side.

A block describes a table when the names it prints stand for the table and its
columns.  What a printed name stands for is a `Naming`: the objects spelled so,
or those that diesel reaches under it.  Diesel quotes what is printed and gives
no schema, so a name that is folded or qualified where it is created may not be
reached.  `Model.apply` follows `CREATE TABLE`, `ADD COLUMN` and `DROP COLUMN`,
and finds a table by the last part of its name (`Found`).
-/

namespace DualdbSimulation

open DualdbAst DualdbTypeMap DualdbModel DualdbRewrite DualdbCatalog
open FallibleRun FirstUpdate Pointwise

/-- Which tables and columns a printed name stands for. -/
structure Naming where
  table : String → ObjectName → Bool
  column : String → Ident → Bool

/-- A name stands for what is spelled so, whatever its schema and quotes. -/
def Naming.spelled : Naming where
  table name n := name == lastIdent n
  column name i := name == i.value

/-- The table that diesel asks for under a printed name. -/
def tableCalled {κ : Type} (d : Dialect κ) (name : String) : κ :=
  d.table ⟨[⟨name, some '"'⟩]⟩

/-- The column that diesel asks for under a printed name. -/
def columnCalled {κ : Type} (d : Dialect κ) (name : String) : String :=
  d.ident ⟨name, some '"'⟩

/-- A name stands for what diesel reaches under it. -/
def Naming.reached {κ : Type} [DecidableEq κ] (d : Dialect κ) : Naming where
  table name n := decide (tableCalled d name = d.table n)
  column name i := columnCalled d name == d.ident i

/-- A comparison of `table!` blocks with the tables of a catalog. -/
structure Tracking (κ : Type) where
  dialect : Dialect κ
  naming : Naming
  /-- The column type that is emitted for a logical one. -/
  emitType : DataType → DataType
  /-- What is compared of a column, given the key of its table. -/
  Related : Option PrimaryKey → ModelColumn → Column → Prop
  /-- The condition on a `CREATE TABLE`. -/
  CreateOk : CreateTable → Prop
  /-- The condition on an operation, given the table before it. -/
  OperationOk : Shape → AlterTableOperation → Prop

/-- The printed name stands for the table, and the printed columns for its columns
    one by one. -/
structure ColumnsAgree (n : Naming) (R : ModelColumn → Column → Prop)
    (t : ModelTable) (s : Shape) : Prop where
  name : n.table t.name s.name = true
  columns : List.Forall₂
    (fun c col => n.column c.name col.name = true ∧ R c col)
    t.columns s.columns

/-- The model finds, under this name, the table at position `i`. -/
def Found (m : Model) (tname : String) (i : Nat) : Prop :=
  m.tables.findIdx? (fun t => t.name == tname) = some i

instance (m : Model) (tname : String) (i : Nat) : Decidable (Found m tname i) :=
  inferInstanceAs (Decidable (_ = some i))

/-- Operations that change the columns of a block. -/
def Follows : AlterTableOperation → Prop
  | .addColumn _ _ _ _ | .dropColumn _ _ _ => True
  | _ => False

instance : DecidablePred Follows
  | .addColumn _ _ _ _ | .dropColumn _ _ _ => isTrue trivial
  | .addConstraint _ | .dropConstraint _ _ _ | .dropPrimaryKey
  | .renameColumn _ _ | .renameTable _ | .changeColumn _ _ _ _ _
  | .modifyColumn _ _ _ _ | .alterColumn _ _ | .other _ => isFalse id

variable {κ : Type} [DecidableEq κ]

/-- The condition on the names of an operation on table `i`, looked up by the
    model as `tname`: columns are added to and dropped from the table the model
    finds; a printed name stands for the column it is added for, and for the
    table and the columns that are renamed; and the model drops the columns that
    the database drops. -/
def TrackedNames (n : Naming) (d : Dialect κ) (i : Nat) (tname : String)
    (m : Model) (s : Shape) : AlterTableOperation → Prop
  | .addColumn _ _ column _ => Found m tname i ∧
      s.has d (d.ident column.name) = false ∧
      n.column column.name.value column.name = true
  | .dropColumn name _ _ => Found m tname i ∧ ∀ t ∈ m.tables[i]?,
      ∀ c ∈ t.columns, ∀ col ∈ s.columns, n.column c.name col.name = true →
        (col.key d = d.ident name ↔ c.name = name.value)
  | .renameColumn old new => ∀ t ∈ m.tables[i]?, ∀ c ∈ t.columns,
      ∀ col ∈ s.columns, n.column c.name col.name = true →
        col.key d = d.ident old → n.column c.name new = true
  | .renameTable name => ∀ t ∈ m.tables[i]?,
      n.table t.name (renamed s.name name) = true
  | _ => True

instance (n : Naming) (d : Dialect κ) (i : Nat) (tname : String) (m : Model)
    (s : Shape) : ∀ op, Decidable (TrackedNames n d i tname m s op)
  | .addColumn _ _ column _ =>
      inferInstanceAs (Decidable (Found m tname i ∧
        s.has d (d.ident column.name) = false ∧
        n.column column.name.value column.name = true))
  | .dropColumn name _ _ =>
      inferInstanceAs (Decidable (Found m tname i ∧ ∀ t ∈ m.tables[i]?,
        ∀ c ∈ t.columns, ∀ col ∈ s.columns, n.column c.name col.name = true →
          (col.key d = d.ident name ↔ c.name = name.value)))
  | .renameColumn old new =>
      inferInstanceAs (Decidable (∀ t ∈ m.tables[i]?, ∀ c ∈ t.columns,
        ∀ col ∈ s.columns, n.column c.name col.name = true →
          col.key d = d.ident old → n.column c.name new = true))
  | .renameTable name =>
      inferInstanceAs (Decidable (∀ t ∈ m.tables[i]?,
        n.table t.name (renamed s.name name) = true))
  | .addConstraint _ | .dropConstraint _ _ _ | .dropPrimaryKey
  | .changeColumn _ _ _ _ _ | .modifyColumn _ _ _ _ | .alterColumn _ _
  | .other _ => isTrue trivial

variable (T : Tracking κ)

def Tracking.emitColumn (c : ColumnDef) : ColumnDef :=
  { c with dataType := T.emitType c.dataType }

def Tracking.emitOperation : AlterTableOperation → AlterTableOperation
  | .addColumn kw ine c pos => .addColumn kw ine (T.emitColumn c) pos
  | op => op

def Tracking.emitCreate (ct : CreateTable) : CreateTable :=
  { ct with columns := ct.columns.map T.emitColumn }

/-- What the catalog executes for a statement the model folds. -/
def Tracking.emit : Statement → Statement
  | .createTable ct => .createTable (T.emitCreate ct)
  | .alterTable name ie only ops cl =>
      .alterTable name ie only (ops.map T.emitOperation) cl
  | s => s

/-- Execute what is emitted for a statement, as far as the tables go. -/
def Tracking.step (c : Catalog κ) (s : Statement) :
    Except Refusal (Catalog κ) :=
  execTables T.dialect c (T.emit s)

def Tracking.operationStep (i : Nat) (c : Catalog κ)
    (op : AlterTableOperation) : Except Refusal (Catalog κ) :=
  execOperation T.dialect i c (T.emitOperation op)

/-- The condition on one operation on table `i`. -/
def Tracking.TrackedOperation (i : Nat) (tname : String) (c : Catalog κ)
    (m : Model) (op : AlterTableOperation) : Prop :=
  ∀ s ∈ c.shapes[i]?,
    TrackedNames T.naming T.dialect i tname m s op ∧ T.OperationOk s op

/-- The created table has the columns it declares, and the names that are printed
    stand for it and its columns. -/
def Tracking.TrackedCreate (shapes : List Shape) (ct : CreateTable) : Prop :=
  T.naming.table (lastIdent ct.name) ct.name = true ∧
    (∀ c ∈ ct.columns, T.naming.column c.name.value c.name = true) ∧
    createdColumns T.dialect shapes (T.emitCreate ct)
      = .ok ((T.emitCreate ct).columns.map Column.ofDef)

instance (shapes : List Shape) (ct : CreateTable) :
    Decidable (T.TrackedCreate shapes ct) :=
  inferInstanceAs (Decidable (_ ∧ _))

/-- The condition on one statement: a table is created anew, with the columns
    and under the names that are printed; no table is dropped, a guard skips
    nothing the model does not skip, and the operations of an `ALTER TABLE` meet
    theirs. -/
def Tracking.Tracked (p : Sqlparser) (c : Catalog κ) (m : Model) :
    Statement → Prop
  | .createTable ct =>
      (c.lookup T.dialect (T.dialect.table ct.name)).isNone ∧
        T.TrackedCreate c.shapes ct ∧ T.CreateOk ct
  | .alterTable name _ _ ops _ =>
      match c.find T.dialect (T.dialect.table name) with
      | some i =>
          Along₂ (T.operationStep i) (Model.applyOperation p (lastIdent name))
            (T.TrackedOperation i (lastIdent name)) c m ops
      | none => ∀ t ∈ m.tables, t.name ≠ lastIdent name
  | .drop .table _ names _ _ =>
      ∀ name ∈ names, (c.lookup T.dialect (T.dialect.table name)).isNone
  | _ => True

instance [∀ s op, Decidable (T.OperationOk s op)] (i : Nat) (tname : String)
    (c : Catalog κ) (m : Model) (op : AlterTableOperation) :
    Decidable (T.TrackedOperation i tname c m op) :=
  inferInstanceAs (Decidable (∀ s ∈ c.shapes[i]?,
    TrackedNames T.naming T.dialect i tname m s op ∧ T.OperationOk s op))

instance (p : Sqlparser) (c : Catalog κ) (m : Model)
    [∀ ct, Decidable (T.CreateOk ct)]
    [∀ s op, Decidable (T.OperationOk s op)] :
    ∀ s, Decidable (T.Tracked p c m s)
  | .createTable ct =>
      inferInstanceAs (Decidable
        ((c.lookup T.dialect (T.dialect.table ct.name)).isNone = true ∧
          T.TrackedCreate c.shapes ct ∧ T.CreateOk ct))
  | .alterTable name _ _ ops _ =>
      match h : c.find T.dialect (T.dialect.table name) with
      | some i =>
          decidable_of_iff (Along₂ (T.operationStep i)
            (Model.applyOperation p (lastIdent name))
            (T.TrackedOperation i (lastIdent name)) c m ops)
            (by simp only [Tracking.Tracked, h])
      | none =>
          decidable_of_iff (∀ t ∈ m.tables, t.name ≠ lastIdent name)
            (by simp only [Tracking.Tracked, h])
  | .drop .table _ names _ _ =>
      inferInstanceAs (Decidable (∀ name ∈ names,
        (c.lookup T.dialect (T.dialect.table name)).isNone = true))
  | .drop (.other _) _ _ _ _ | .createIndex _ | .other _ => isTrue trivial

/-- The keys a `CREATE TABLE` declares, on columns and as constraints. -/
def declaredKeys (ct : CreateTable) : List (List Ident) :=
  (declaredConstraints ct).filterMap primaryKeyOf

/-- The column as it stands under a key. -/
def markedBy (d : Dialect κ) (key : Option PrimaryKey) (col : Column) :
    Column :=
  match key with
  | some pk => col.mark (d := d) pk.columns
  | none => col

/-- What has to be checked of a comparison, column by column. -/
structure Tracking.Sound : Prop where
  /-- A created column: `key` is the one key of the table, if it has one. -/
  created : ∀ {ct : CreateTable} {c : ColumnDef} {row : Mapped}
    {key : Option PrimaryKey}, T.CreateOk ct → c ∈ ct.columns →
    mapType c.dataType = some row →
    (ct.columns.map fun c => T.dialect.ident c.name).Nodup →
    declaredKeys ct = [] ∧ key = none
      ∨ (∃ cols n, declaredKeys ct = [cols]
        ∧ key = some ⟨n, cols.map T.dialect.ident⟩) →
    T.Related key (ModelColumn.ofDef c row.marker)
      (markedBy T.dialect key (Column.ofDef (T.emitColumn c)))
  /-- A column the operation keeps. -/
  kept : ∀ {op : AlterTableOperation} {s s' : Shape} {taken : List String}
    {c : ModelColumn} {col : Column}, T.OperationOk s op →
    shapeOperation T.dialect taken s (T.emitOperation op) = .ok s' →
    (∀ kw ine cd pos, op = .addColumn kw ine cd pos →
      s.has T.dialect (T.dialect.ident cd.name) = false) →
    col ∈ s.columns → keptBy T.dialect op col = true →
    T.Related s.primaryKey c col →
    T.Related s'.primaryKey c (columnAfter T.dialect op col)
  /-- The column an operation adds. -/
  added : ∀ {kw ine : Bool} {cd : ColumnDef} {pos : Option Clause}
    {s : Shape} {row : Mapped} (key : Option PrimaryKey),
    T.OperationOk s (.addColumn kw ine cd pos) →
    mapType cd.dataType = some row →
    T.Related key (ModelColumn.ofAdd cd row.marker)
      (addedColumn (T.emitColumn cd))

/-- The blocks and the tables agree one by one. -/
def Tracking.Agrees (m : Model) (c : Catalog κ) : Prop :=
  List.Forall₂ (fun t s => ColumnsAgree T.naming (T.Related s.primaryKey) t s)
    m.tables c.shapes

variable {T}

omit [DecidableEq κ] in
theorem agrees_empty : T.Agrees Model.empty Catalog.empty :=
  .nil

theorem ColumnsAgree.frame {n : Naming} {R : ModelColumn → Column → Prop}
    {t t' : ModelTable} {s : Shape} (hname : t'.name = t.name)
    (hcols : t'.columns = t.columns) (h : ColumnsAgree n R t s) :
    ColumnsAgree n R t' s :=
  ⟨by rw [hname]; exact h.name, by rw [hcols]; exact h.columns⟩

/-! ## `CREATE TABLE` -/

omit [DecidableEq κ] in
theorem declaredKeys_emit (ct : CreateTable) :
    declaredKeys (T.emitCreate ct) = declaredKeys ct := by
  simp only [Tracking.emitCreate, declaredKeys, declaredConstraints,
    List.flatMap_map]
  rfl

omit [DecidableEq κ] in
/-- A created block agrees with the created table. -/
theorem created_agrees (hT : T.Sound) {ct : CreateTable} {rows : List Mapped}
    {shapes : List Shape} {s : Shape} (htracked : T.TrackedCreate shapes ct)
    (hok : T.CreateOk ct) (hrows : RowsOf ct.columns rows)
    (hs : createShape T.dialect shapes (T.emitCreate ct) = .ok s) :
    ColumnsAgree T.naming (T.Related s.primaryKey)
      (ModelTable.created ct rows) s := by
  obtain ⟨hcalled, hplain, hcopied⟩ := htracked
  obtain ⟨columns, hcolumns, hnodup, hdeclare⟩ := createShape_ok hs
  cases Except.ok.inj (hcopied.symm.trans hcolumns)
  have hnodup' : (ct.columns.map fun c => T.dialect.ident c.name).Nodup := by
    simp only [Tracking.emitCreate, List.map_map] at hnodup
    exact hnodup
  -- at most one key is declared, and it only marks columns
  have hshape : s.name = ct.name ∧
      s.columns = (ct.columns.map fun c => Column.ofDef (T.emitColumn c)).map
        (markedBy T.dialect s.primaryKey) ∧
      (declaredKeys ct = [] ∧ s.primaryKey = none
        ∨ ∃ cols n, declaredKeys ct = [cols]
          ∧ s.primaryKey = some ⟨n, cols.map T.dialect.ident⟩) := by
    rcases declares_ok hdeclare with ⟨hnone, rfl⟩ | ⟨cols, n, hone, -, rfl⟩
    · refine ⟨rfl, ?_, Or.inl ⟨(declaredKeys_emit ct).symm.trans hnone, rfl⟩⟩
      show _ = List.map id _
      rw [List.map_id]
      exact List.map_map
    · refine ⟨rfl, ?_, Or.inr ⟨cols, n,
        (declaredKeys_emit ct).symm.trans hone, rfl⟩⟩
      simp only [Shape.withKey, Tracking.emitCreate, List.map_map]
      rfl
  obtain ⟨hname, hcols, hkey⟩ := hshape
  refine ⟨by rw [hname]; exact hcalled, ?_⟩
  rw [hcols]
  have hcreated : ∀ c ∈ ct.columns, ∀ row, mapType c.dataType = some row →
      T.Related s.primaryKey (ModelColumn.ofDef c row.marker)
        (markedBy T.dialect s.primaryKey (Column.ofDef (T.emitColumn c))) :=
    fun c hc row hrow => hT.created hok hc hrow hnodup' hkey
  have hmarked : ∀ (key : Option PrimaryKey) (col : Column),
      (markedBy T.dialect key col).name = col.name := by
    intro key col
    cases key with
    | none => rfl
    | some pk => exact mark_name _ col
  show List.Forall₂ _ (columnsOf ct.columns rows) _
  -- the columns alone are left, one row each
  clear hcols hkey hnodup hnodup' hdeclare hs hcopied hcolumns
  generalize ct.columns = cs at hrows hcreated hplain
  induction hrows with
  | nil => exact .nil
  | @cons c row cs rows hrow _ ih =>
      refine .cons ⟨?_, hcreated c List.mem_cons_self row hrow⟩
        (ih (fun c hc => hcreated c (List.mem_cons_of_mem _ hc))
          fun c hc => hplain c (List.mem_cons_of_mem _ hc))
      rw [hmarked]
      exact hplain c List.mem_cons_self

/-! ## One operation -/

omit [DecidableEq κ] in
/-- A printed name keeps standing for the column that the operation keeps. -/
theorem columnAfter_named {n : Naming} {d : Dialect κ} {i : Nat}
    {tname : String} {m : Model} {t : ModelTable} {s : Shape}
    {op : AlterTableOperation} (h : TrackedNames n d i tname m s op)
    (ht : m.tables[i]? = some t) {c : ModelColumn} {col : Column}
    (hc : c ∈ t.columns) (hcol : col ∈ s.columns)
    (hnamed : n.column c.name col.name = true) :
    n.column c.name (columnAfter d op col).name = true := by
  cases op with
  | renameColumn old new =>
      simp only [columnAfter]
      split
      · next hold => exact h t ht c hc col hcol hnamed hold
      · exact hnamed
  | addConstraint con =>
      simp only [columnAfter]
      split
      · rw [mark_name]
        exact hnamed
      · exact hnamed
  | alterColumn name op =>
      cases op with
      | setNotNull | dropNotNull | setDataType _ _ =>
          simp only [columnAfter]
          split <;> exact hnamed
      | setDefault _ | dropDefault | addGenerated _ => exact hnamed
  | addColumn _ _ _ _ | dropColumn _ _ _ | dropConstraint _ _ _
  | dropPrimaryKey | renameTable _ | changeColumn _ _ _ _ _
  | modifyColumn _ _ _ _ | other _ => exact hnamed

omit [DecidableEq κ] in
theorem nameAfter_named {n : Naming} {d : Dialect κ} {i : Nat}
    {tname : String} {m : Model} {t : ModelTable} {s : Shape}
    {op : AlterTableOperation} (h : TrackedNames n d i tname m s op)
    (ht : m.tables[i]? = some t) (hnamed : n.table t.name s.name = true) :
    n.table t.name (nameAfter op s.name) = true := by
  cases op with
  | renameTable name => exact h t ht
  | addConstraint _ | addColumn _ _ _ _ | dropColumn _ _ _
  | dropConstraint _ _ _ | dropPrimaryKey | renameColumn _ _
  | changeColumn _ _ _ _ _ | modifyColumn _ _ _ _ | alterColumn _ _
  | other _ => exact hnamed

omit [DecidableEq κ] in
/-- **ONE OPERATION, ONE TABLE**: the updated block agrees with the table after
    the operation. -/
theorem operation_agrees (hT : T.Sound) {i : Nat} {tname : String}
    {m : Model} {t : ModelTable} {s s' : Shape} {taken : List String}
    {op : AlterTableOperation}
    (hnames : TrackedNames T.naming T.dialect i tname m s op)
    (hok : T.OperationOk s op)
    (hmapped : ∀ dt, addedType op = some dt → ∃ row, mapType dt = some row)
    (hop : shapeOperation T.dialect taken s (T.emitOperation op) = .ok s')
    (ht : m.tables[i]? = some t)
    (h : ColumnsAgree T.naming (T.Related s.primaryKey) t s) :
    ColumnsAgree T.naming (T.Related s'.primaryKey) (operationUpdate op t)
      s' := by
  have hnew : ∀ kw ine cd pos, op = .addColumn kw ine cd pos →
      s.has T.dialect (T.dialect.ident cd.name) = false := by
    rintro kw ine cd pos rfl
    exact hnames.2.1
  have hname : T.naming.table t.name s'.name = true := by
    have hafter : s'.name = nameAfter op s.name := by
      rw [shapeOperation_name hop]
      cases op <;> rfl
    rw [hafter]
    exact nameAfter_named hnames ht h.name
  have hcolumns : s'.columns
      = columnsAfter T.dialect (T.emitOperation op) s.columns := by
    refine shapeOperation_columns ?_ hop
    intro kw ine cd pos hadd
    cases op with
    | addColumn kw' ine' cd' pos' =>
        cases hadd
        exact hnames.2.1
    | addConstraint _ | dropColumn _ _ _ | dropConstraint _ _ _
    | dropPrimaryKey | renameColumn _ _ | renameTable _
    | changeColumn _ _ _ _ _ | modifyColumn _ _ _ _ | alterColumn _ _
    | other _ => cases hadd
  -- what happens to a column that is kept
  have hkept : ∀ c ∈ t.columns, ∀ col, (T.naming.column c.name col.name = true
      ∧ T.Related s.primaryKey c col) → col ∈ s.columns →
      keptBy T.dialect op col = true →
      T.naming.column c.name (columnAfter T.dialect op col).name = true
        ∧ T.Related s'.primaryKey c (columnAfter T.dialect op col) := by
    rintro c hmem col ⟨hc, hrel⟩ hcol hkeep
    exact ⟨columnAfter_named hnames ht hmem hcol hc,
      hT.kept hok hop hnew hcol hkeep hrel⟩
  refine ⟨by rw [operationUpdate_name]; exact hname, ?_⟩
  rw [hcolumns]
  cases op with
  | addColumn kw ine cd pos =>
      obtain ⟨row, hrow⟩ := hmapped cd.dataType rfl
      simp only [operationUpdate, hrow]
      refine List.rel_append ?_
        (.cons ⟨hnames.2.2, hT.added _ hok hrow⟩ .nil)
      have hall : List.Forall₂ (fun c col =>
          T.naming.column c.name col.name = true
            ∧ T.Related s'.primaryKey c col) t.columns (s.columns.map id) :=
        forall₂_map_right_mem h.columns
          fun c col hc hmem hcol => hkept c hmem col hc hcol rfl
      rwa [List.map_id] at hall
  | dropColumn name ie cascade =>
      -- model and catalog drop the same column
      have hfilter := forall₂_filter (p := fun c => c.name != name.value)
        (q := keptBy T.dialect (.dropColumn name ie cascade)) h.columns ?_
      · show List.Forall₂ _ _ (List.map id _)
        refine forall₂_map_right_mem hfilter ?_
        intro c col hc hmem hcol
        obtain ⟨hcol, hkeep⟩ := List.mem_filter.mp hcol
        exact hkept c (List.mem_of_mem_filter hmem) col hc hcol hkeep
      · intro c col hc hmem hcol
        rw [Bool.eq_iff_iff, bne_iff_ne, keptBy, bne_iff_ne]
        exact (not_congr (hnames.2 t ht c hmem col hcol hc.1)).symm
  | addConstraint _ | dropConstraint _ _ _ | dropPrimaryKey
  | renameColumn _ _ | renameTable _ | changeColumn _ _ _ _ _
  | modifyColumn _ _ _ _ | alterColumn _ _ | other _ =>
      show List.Forall₂ _ t.columns
        ((s.columns.filter fun _ => true).map (columnAfter T.dialect _))
      rw [List.filter_true]
      exact forall₂_map_right_mem h.columns
        fun c col hc hmem hcol => hkept c hmem col hc hcol rfl

theorem unfollowed_update {op : AlterTableOperation} (h : ¬ Follows op)
    (t : ModelTable) : (operationUpdate op t).columns = t.columns := by
  cases op with
  | addColumn _ _ _ _ | dropColumn _ _ _ => exact absurd trivial h
  | addConstraint _ | dropConstraint _ _ _ | dropPrimaryKey
  | renameColumn _ _ | renameTable _ | changeColumn _ _ _ _ _
  | modifyColumn _ _ _ _ | alterColumn _ _ | other _ => rfl

omit [DecidableEq κ] in
theorem found_of_follows {n : Naming} {d : Dialect κ}
    {op : AlterTableOperation} {i : Nat} {tname : String} {m : Model} {s : Shape}
    (h : Follows op) (ht : TrackedNames n d i tname m s op) :
    Found m tname i := by
  cases op with
  | addColumn _ _ _ _ => exact ht.1
  | dropColumn _ _ _ => exact ht.1
  | addConstraint _ | dropConstraint _ _ _ | dropPrimaryKey
  | renameColumn _ _ | renameTable _ | changeColumn _ _ _ _ _
  | modifyColumn _ _ _ _ | alterColumn _ _ | other _ => cases h

theorem tableMut_of_found {m : Model} {tname : String} {i : Nat}
    (h : Found m tname i) (f : ModelTable → ModelTable) :
    m.tableMut tname f = some ⟨m.tables.modify i f⟩ := by
  rw [Model.tableMut, updateFirst_eq_modify h]
  rfl

omit [DecidableEq κ] in
/-- An unfollowed operation changes no block that is compared. -/
theorem forall₂_unfollowed {op : AlterTableOperation} (h : ¬ Follows op)
    {p : Sqlparser} {m m' : Model} {tname : String} {ss : List Shape}
    (hm : m.applyOperation p tname op = .ok m')
    (hss : List.Forall₂
      (fun t s => ColumnsAgree T.naming (T.Related s.primaryKey) t s)
      m.tables ss) :
    List.Forall₂
      (fun t s => ColumnsAgree T.naming (T.Related s.primaryKey) t s)
      m'.tables ss := by
  rcases applyOperation_cases hm with ⟨rfl, -⟩ | hupd
  · exact hss
  · refine forall₂_updateFirst ?_ hss hupd
    intro t s hts
    exact hts.frame (operationUpdate_name op t) (unfollowed_update h t)

/-- **STEP LEMMA FOR `ALTER TABLE`**: an operation that meets its condition
    keeps the blocks and the tables in step. -/
theorem applyOperation_agrees (hT : T.Sound) {p : Sqlparser} {i : Nat}
    {tname : String} {c c' : Catalog κ} {m m' : Model}
    {op : AlterTableOperation} (h : T.Agrees m c)
    (hok : T.TrackedOperation i tname c m op)
    (hc : T.operationStep i c op = .ok c')
    (hm : m.applyOperation p tname op = .ok m') : T.Agrees m' c' := by
  obtain ⟨u, s, hu, hs, hshapes⟩ := execOperation_shapes hc
  have hui : c.shapes[i]? = some u.toShape := by
    rw [Catalog.shapes, List.getElem?_map, hu]; rfl
  obtain ⟨t, ht, hts⟩ := forall₂_getElem? h hui
  obtain ⟨hnames, hok⟩ := hok u.toShape hui
  -- the model accepted the added column, so its type has a row
  have hmapped : ∀ dt, addedType op = some dt →
      ∃ row, mapType dt = some row := by
    intro dt hdt
    cases op with
    | addColumn kw ine col pos =>
        rw [← Option.some.inj hdt]
        exact (applyOperation_addColumn_ok.mp hm).1
    | addConstraint _ | dropColumn _ _ _ | dropConstraint _ _ _
    | dropPrimaryKey | renameColumn _ _ | renameTable _
    | changeColumn _ _ _ _ _ | modifyColumn _ _ _ _ | alterColumn _ _
    | other _ => cases hdt
  have hstep := operation_agrees hT hnames hok hmapped hs ht hts
  show List.Forall₂ _ m'.tables c'.shapes
  rw [hshapes]
  -- the model updates the block of the same position, or nothing
  by_cases hfollows : Follows op
  · rw [applyOperation_eq hm, tableMut_of_found (found_of_follows hfollows
      hnames)]
    show List.Forall₂ _ (m.tables.modify i _) _
    rw [modify_eq_set ht]
    exact forall₂_set (R := fun t (s : Shape) =>
      ColumnsAgree T.naming (T.Related s.primaryKey) t s) h i hstep
  · have hkept := hstep.frame (operationUpdate_name op t).symm
      (unfollowed_update hfollows t).symm
    have hset := forall₂_set (R := fun t (s : Shape) =>
      ColumnsAgree T.naming (T.Related s.primaryKey) t s) h i hkept
    rw [set_self ht] at hset
    exact forall₂_unfollowed hfollows hm hset

/-! ## Statements and runs -/

/-- Dropping tables that are not there changes no shape. -/
theorem dropTables_shapes {d : Dialect κ} {c c' : Catalog κ} {ie : Bool}
    {names : List ObjectName} {cascade : Bool}
    (h : ∀ name ∈ names, (c.lookup d (d.table name)).isNone)
    (hc : c.dropTables d ie names cascade = .ok c') :
    c'.shapes = c.shapes := by
  have hdropped : (names.map d.table).filter
      (fun k => (c.lookup d k).isSome) = [] := by
    rw [List.filter_eq_nil_iff]
    intro k hk
    obtain ⟨name, hname, rfl⟩ := List.mem_map.mp hk
    have := h name hname
    simpa using this
  simp only [Catalog.dropTables] at hc
  split at hc
  · cases hc
  · rw [hdropped] at hc
    split at hc
    · cases hc
    · rw [← Except.ok.inj hc, filterForeignKeys_shapes]
      simp only [List.contains_nil, Bool.not_false, List.filter_true]

/-- **STEP LEMMA**: a statement that meets the condition keeps the model and
    the catalog in step. -/
theorem apply_agrees (hT : T.Sound) {p : Sqlparser} {c c' : Catalog κ}
    {m m' : Model} {s : Statement} (h : T.Agrees m c)
    (htracked : T.Tracked p c m s) (hc : T.step c s = .ok c')
    (hm : m.apply p s = .ok m') : T.Agrees m' c' := by
  have hshapes : c'.shapes = c.shapes → T.Agrees m c' := by
    intro hs
    show List.Forall₂ _ m.tables c'.shapes
    rw [hs]
    exact h
  cases s with
  | createTable ct =>
      -- a free name: both sides append
      have hc : exec T.dialect c (.createTable (T.emitCreate ct)) = .ok c' :=
        hc
      obtain ⟨sh, t, hsh, -, htsh, rfl⟩ := exec_createTable_ok hc htracked.1
      obtain ⟨rows, hrows, rfl⟩ := apply_createTable_ok.mp hm
      have hcreated := created_agrees hT htracked.2.1 htracked.2.2 hrows hsh
      show List.Forall₂ _ (m.tables ++ [_])
        (List.map Table.toShape (c.tables ++ [t]))
      rw [List.map_append]
      refine List.rel_append h (.cons ?_ .nil)
      rw [htsh]
      exact hcreated
  | alterTable name ie only ops cl =>
      simp only [Tracking.step, Tracking.emit, execTables, exec] at hc
      simp only [Tracking.Tracked] at htracked
      cases hfind : c.find T.dialect (T.dialect.table name) with
      | some i =>
          simp only [hfind] at hc htracked
          rw [List.foldlM_map] at hc
          -- operation by operation, on the table of one position
          refine run_simulation (R := fun c m => T.Agrees m c)
            (P := T.TrackedOperation i (lastIdent name)) ?_ ops c m c' m' h
            htracked hc hm
          intro _ _ _ _ _ h hok hc hm
          exact applyOperation_agrees hT h hok hc hm
      | none =>
          simp only [hfind] at hc htracked
          -- no table has the name, so the model skips every operation
          have hm' : m' = m := by
            refine run_invariant (I := fun m₁ : Model => m₁ = m) ?_ ops m m'
              rfl hm
            rintro _ op m₂ rfl hop
            exact unnamed_operation htracked hop
          split at hc
          · rw [hm', ← Except.ok.inj hc]
            exact h
          · cases hc
  | drop kind ie names cascade restrict =>
      rw [← Except.ok.inj hm]
      cases kind with
      | table => exact hshapes (dropTables_shapes htracked hc)
      | other kind =>
          rw [exec_dropOther_ok hc]
          exact h
  | createIndex ci =>
      rw [← Except.ok.inj hm, ← Except.ok.inj hc]
      exact h
  | other sql =>
      rw [← Except.ok.inj hm, exec_other_ok hc]
      exact h

/-- **THE SIMULATION**: along a run whose statements meet the condition, the
    blocks and the tables stay related. -/
theorem Tracking.run (hT : T.Sound) {p : Sqlparser} {stmts : List Statement}
    {c c' : Catalog κ} {m m' : Model} (h : T.Agrees m c)
    (htracked : Along₂ T.step (Model.apply p) (T.Tracked p) c m stmts)
    (hc : stmts.foldlM T.step c = .ok c')
    (hm : stmts.foldlM (Model.apply p) m = .ok m') : T.Agrees m' c' := by
  refine run_simulation (R := fun c m => T.Agrees m c) (P := T.Tracked p) ?_
    stmts c m c' m' h htracked hc hm
  intro _ _ _ _ _ h ht hc hm
  exact apply_agrees hT h ht hc hm

end DualdbSimulation
