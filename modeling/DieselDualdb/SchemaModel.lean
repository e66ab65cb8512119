import DieselDualdb.TypeMap
import DieselDualdb.Lib.FallibleRun
import DieselDualdb.Lib.FirstUpdate

/-!
# The schema model: what `schema.rs` is printed from

`Model.apply` folds one parsed statement into the model.  The definitions keep
the shape of the source: one loop over the columns of a `CREATE TABLE`, inside
it one loop over the column's options, then one loop over the table
constraints; and one loop over the operations of an `ALTER TABLE`.  What each
loop accumulates is then stated in closed form (`pushColumns_ok`,
`pushConstraints`, `apply_createTable_ok`), and every later file uses those
forms.
-/

namespace DualdbModel

open DualdbAst DualdbTypeMap FallibleRun FirstUpdate

structure ModelColumn where
  name : String
  marker : String
  nullable : Bool
deriving DecidableEq

structure ModelTable where
  name : String
  columns : List ModelColumn
  primaryKey : List String
  /-- (local column, parent table) -/
  foreignKeys : List (String × String)
deriving DecidableEq

/-- The key tuple of the `table!` block: the recorded key, or else the first
    column. -/
def ModelTable.primaryKeyCols (t : ModelTable) : List String :=
  if t.primaryKey.isEmpty then
    match t.columns.head? with
    | some c => [c.name]
    | none => []
  else t.primaryKey

theorem primaryKeyCols_of_nil {t : ModelTable} (h : t.primaryKey = []) :
    t.primaryKeyCols = (t.columns.head?.map ModelColumn.name).toList := by
  rw [ModelTable.primaryKeyCols, h]
  cases t.columns.head? with
  | none => rfl
  | some c => rfl

theorem primaryKeyCols_of_ne_nil {t : ModelTable} (h : t.primaryKey ≠ []) :
    t.primaryKeyCols = t.primaryKey := by
  rw [ModelTable.primaryKeyCols, if_neg (by rwa [List.isEmpty_iff])]

structure Model where
  tables : List ModelTable
deriving DecidableEq

def Model.empty : Model := ⟨[]⟩

/-- Update the first table of that name; `none` when there is none. -/
def Model.tableMut (m : Model) (name : String) (f : ModelTable → ModelTable) :
    Option Model :=
  (updateFirst (fun t => t.name == name) f m.tables).map Model.mk

/-! ## `CREATE TABLE` -/

/-- What the loop over one column's options accumulates. -/
structure OptionScan where
  nullable : Bool
  primaryKey : List String
  foreignKeys : List (String × String)

def scanOption (column : Ident) (acc : OptionScan) (opt : ColumnOptionDef) :
    OptionScan :=
  match opt.option with
  | .notNull => { acc with nullable := false }
  | .unique true _ =>
      { acc with
        primaryKey := acc.primaryKey ++ [column.value]
        nullable := false }
  | .foreignKey foreignTable _ _ =>
      { acc with
        foreignKeys :=
          acc.foreignKeys ++ [(column.value, lastIdent foreignTable)] }
  | _ => acc

/-- One round of the column loop, onto the table built so far. -/
def ModelTable.pushColumn (p : Sqlparser) (t : ModelTable) (c : ColumnDef) :
    Except String ModelTable :=
  match mapType c.dataType with
  | none =>
      .error ("table `" ++ t.name ++ "`, column `" ++ p.identDisplay c.name
        ++ "`: no mapping for type " ++ p.dataTypeDebug c.dataType)
  | some mapped =>
      let scan := c.options.foldl (scanOption c.name)
        ⟨true, t.primaryKey, t.foreignKeys⟩
      .ok { t with
        columns := t.columns ++ [⟨c.name.value, mapped.marker, scan.nullable⟩]
        primaryKey := scan.primaryKey
        foreignKeys := scan.foreignKeys }

/-- One round of the loop over the table constraints. -/
def ModelTable.pushConstraint (t : ModelTable) (con : TableConstraint) :
    ModelTable :=
  match con with
  | .primaryKey _ columns _ => { t with primaryKey := columns.map Ident.value }
  | .foreignKey _ columns foreignTable _ _ =>
      { t with
        foreignKeys := t.foreignKeys
          ++ columns.map fun col => (col.value, lastIdent foreignTable) }
  | _ => t

def ModelTable.ofCreate (p : Sqlparser) (ct : CreateTable) :
    Except String ModelTable := do
  let t ← ct.columns.foldlM (ModelTable.pushColumn p)
    ⟨lastIdent ct.name, [], [], []⟩
  pure (ct.constraints.foldl ModelTable.pushConstraint t)

/-! ## `ALTER TABLE` -/

def isNotNull (opt : ColumnOptionDef) : Bool :=
  match opt.option with
  | .notNull => true
  | _ => false

/-- One operation of an `ALTER TABLE` on the table called `tname`. -/
def Model.applyOperation (p : Sqlparser) (tname : String) (m : Model) :
    AlterTableOperation → Except String Model
  | .addColumn _ _ columnDef _ =>
      match mapType columnDef.dataType with
      | none =>
          .error ("ALTER `" ++ tname ++ "` ADD `"
            ++ p.identDisplay columnDef.name ++ "`: no mapping for type "
            ++ p.dataTypeDebug columnDef.dataType)
      | some mapped =>
          let nullable := !columnDef.options.any isNotNull
          let col := ⟨columnDef.name.value, mapped.marker, nullable⟩
          match m.tableMut tname
            (fun t => { t with columns := t.columns ++ [col] }) with
          | some m' => .ok m'
          | none => .error ("ALTER on unknown table `" ++ tname ++ "`")
  | .dropColumn columnName _ _ =>
      .ok ((m.tableMut tname fun t =>
        { t with columns := t.columns.filter (·.name != columnName.value) }
        ).getD m)
  | .addConstraint (.foreignKey _ columns foreignTable _ _) =>
      .ok ((m.tableMut tname fun t =>
        { t with
          foreignKeys := t.foreignKeys
            ++ columns.map fun col => (col.value, lastIdent foreignTable) }
        ).getD m)
  | _ => .ok m

/-- Fold a parsed statement into the model (the `schema.rs` source of truth). -/
def Model.apply (p : Sqlparser) (m : Model) :
    Statement → Except String Model
  | .createTable ct => do
      let t ← ModelTable.ofCreate p ct
      pure ⟨m.tables ++ [t]⟩
  | .alterTable name _ _ operations _ =>
      operations.foldlM (Model.applyOperation p (lastIdent name)) m
  | _ => .ok m

/-! ## Closed forms of the `CREATE TABLE` loops -/

/-- The column declares a key of its own. -/
def isPrimary (opt : ColumnOptionDef) : Bool :=
  match opt.option with
  | .unique true _ => true
  | _ => false

/-- The key entries a column's options push: its name, once per option. -/
def inlineKey (c : ColumnDef) : List String :=
  (c.options.filter isPrimary).map fun _ => c.name.value

def optionForeignKey (column : Ident) (opt : ColumnOptionDef) :
    Option (String × String) :=
  match opt.option with
  | .foreignKey foreignTable _ _ => some (column.value, lastIdent foreignTable)
  | _ => none

def inlineForeignKeys (c : ColumnDef) : List (String × String) :=
  c.options.filterMap (optionForeignKey c.name)

def inlineNullable (c : ColumnDef) : Bool :=
  !c.options.any fun o => isNotNull o || isPrimary o

/-- The column entry a definition with marker `marker` pushes. -/
def ModelColumn.ofDef (c : ColumnDef) (marker : String) : ModelColumn :=
  ⟨c.name.value, marker, inlineNullable c⟩

theorem scanOptions (column : Ident) (opts : List ColumnOptionDef)
    (acc : OptionScan) :
    opts.foldl (scanOption column) acc =
      ⟨acc.nullable && !opts.any (fun o => isNotNull o || isPrimary o),
        acc.primaryKey ++ (opts.filter isPrimary).map (fun _ => column.value),
        acc.foreignKeys ++ opts.filterMap (optionForeignKey column)⟩ := by
  induction opts generalizing acc with
  | nil => simp
  | cons o opts ih =>
      obtain ⟨name, opt⟩ := o
      rw [List.foldl_cons, ih]
      cases opt with
      | unique primary ch =>
          cases primary <;>
            simp [scanOption, isNotNull, isPrimary, optionForeignKey,
              List.filterMap_cons, List.filter_cons]
      | foreignKey ft refs act =>
          simp [scanOption, isNotNull, isPrimary, optionForeignKey]
      | notNull | null | default e | check e | other e =>
          simp [scanOption, isNotNull, isPrimary, optionForeignKey,
            List.filterMap_cons]

/-- One accepted round of the column loop. -/
theorem pushColumn_ok {p : Sqlparser} {t t' : ModelTable} {c : ColumnDef} :
    t.pushColumn p c = .ok t' ↔
      ∃ row, mapType c.dataType = some row ∧
        t' = { t with
          columns := t.columns ++ [ModelColumn.ofDef c row.marker]
          primaryKey := t.primaryKey ++ inlineKey c
          foreignKeys := t.foreignKeys ++ inlineForeignKeys c } := by
  rw [ModelTable.pushColumn]
  cases hrow : mapType c.dataType with
  | none =>
      constructor
      · intro h; cases h
      · rintro ⟨row, h, -⟩; cases h
  | some row =>
      simp only [scanOptions, Except.ok.injEq, Option.some.injEq,
        exists_eq_left', Bool.true_and]
      exact eq_comm

/-- The rows of the mapping table the columns stand in, one by one. -/
def RowsOf (cs : List ColumnDef) (rows : List Mapped) : Prop :=
  List.Forall₂ (fun c row => mapType c.dataType = some row) cs rows

/-- The column entries of a `CREATE TABLE` whose columns have these rows. -/
def columnsOf (cs : List ColumnDef) (rows : List Mapped) : List ModelColumn :=
  List.zipWith (fun c row => ModelColumn.ofDef c row.marker) cs rows

/-- The whole column loop. -/
theorem pushColumns_ok {p : Sqlparser} {cs : List ColumnDef}
    {t t' : ModelTable} :
    cs.foldlM (ModelTable.pushColumn p) t = .ok t' ↔
      ∃ rows, RowsOf cs rows ∧
        t' = { t with
          columns := t.columns ++ columnsOf cs rows
          primaryKey := t.primaryKey ++ cs.flatMap inlineKey
          foreignKeys := t.foreignKeys ++ cs.flatMap inlineForeignKeys } := by
  induction cs generalizing t with
  | nil =>
      rw [foldlM_nil_ok]
      constructor
      · rintro rfl
        exact ⟨[], .nil, by simp [columnsOf]⟩
      · rintro ⟨rows, hrows, rfl⟩
        simp [columnsOf]
  | cons c cs ih =>
      rw [foldlM_cons_ok]
      constructor
      · rintro ⟨t₁, h₁, hrest⟩
        -- each column takes one row and appends what it declares
        obtain ⟨row, hrow, rfl⟩ := pushColumn_ok.mp h₁
        obtain ⟨rows, hrows, rfl⟩ := ih.mp hrest
        exact ⟨row :: rows, .cons hrow hrows,
          by simp [columnsOf, List.append_assoc]⟩
      · rintro ⟨rows, hrows, rfl⟩
        cases hrows with
        | @cons _ row _ rows hrow hrows =>
            refine ⟨_, pushColumn_ok.mpr ⟨row, hrow, rfl⟩, ih.mpr ?_⟩
            exact ⟨rows, hrows, by simp [columnsOf, List.append_assoc]⟩

/-- The key after the constraint loop: the last table-level key, or else the
    key the loop started with. -/
def constraintKey (key : List String) : List TableConstraint → List String
  | [] => key
  | .primaryKey _ columns _ :: cons =>
      constraintKey (columns.map Ident.value) cons
  | _ :: cons => constraintKey key cons

def primaryKeyOf : TableConstraint → Option (List Ident)
  | .primaryKey _ columns _ => some columns
  | _ => none

/-- The loop keeps the last table-level key. -/
theorem constraintKey_eq (key : List String) (cons : List TableConstraint) :
    constraintKey key cons =
      match (cons.filterMap primaryKeyOf).getLast? with
      | some cols => cols.map Ident.value
      | none => key := by
  induction cons generalizing key with
  | nil => rfl
  | cons con cons ih =>
      cases con with
      | primaryKey n cols rest =>
          rw [constraintKey, ih, List.filterMap_cons]
          simp only [primaryKeyOf, List.getLast?_cons]
          cases (cons.filterMap primaryKeyOf).getLast? <;> rfl
      | unique _ _ _ | foreignKey _ _ _ _ _ | check _ _ | other _ =>
          rw [constraintKey, ih, List.filterMap_cons]
          · rfl
          all_goals intro _ _ _ h; cases h

def constraintForeignKeys : TableConstraint → List (String × String)
  | .foreignKey _ columns foreignTable _ _ =>
      columns.map fun col => (col.value, lastIdent foreignTable)
  | _ => []

/-- The whole constraint loop. -/
theorem pushConstraints (cons : List TableConstraint) (t : ModelTable) :
    cons.foldl ModelTable.pushConstraint t =
      { t with
        primaryKey := constraintKey t.primaryKey cons
        foreignKeys := t.foreignKeys ++ cons.flatMap constraintForeignKeys } := by
  induction cons generalizing t with
  | nil => simp [constraintKey]
  | cons con cons ih =>
      rw [List.foldl_cons, ih]
      cases con <;>
        simp [ModelTable.pushConstraint, constraintKey, constraintForeignKeys]

/-- The table a `CREATE TABLE` with these rows pushes. -/
def ModelTable.created (ct : CreateTable) (rows : List Mapped) : ModelTable where
  name := lastIdent ct.name
  columns := columnsOf ct.columns rows
  primaryKey := constraintKey (ct.columns.flatMap inlineKey) ct.constraints
  foreignKeys := ct.columns.flatMap inlineForeignKeys
    ++ ct.constraints.flatMap constraintForeignKeys

theorem ofCreate_ok {p : Sqlparser} {ct : CreateTable} {t : ModelTable} :
    ModelTable.ofCreate p ct = .ok t ↔
      ∃ rows, RowsOf ct.columns rows ∧ t = ModelTable.created ct rows := by
  rw [ModelTable.ofCreate, bind_ok]
  constructor
  · rintro ⟨t₀, h₀, h⟩
    obtain ⟨rows, hrows, rfl⟩ := pushColumns_ok.mp h₀
    refine ⟨rows, hrows, ?_⟩
    rw [← pure_ok.mp h, pushConstraints]
    simp [ModelTable.created]
  · rintro ⟨rows, hrows, rfl⟩
    refine ⟨_, pushColumns_ok.mpr ⟨rows, hrows, rfl⟩, ?_⟩
    rw [pure_ok, pushConstraints]
    simp [ModelTable.created]

/-- **WHAT `CREATE TABLE` DOES TO THE MODEL**: one table is pushed. -/
theorem apply_createTable_ok {p : Sqlparser} {m m' : Model}
    {ct : CreateTable} :
    m.apply p (.createTable ct) = .ok m' ↔
      ∃ rows, RowsOf ct.columns rows ∧
        m' = ⟨m.tables ++ [ModelTable.created ct rows]⟩ := by
  show (ModelTable.ofCreate p ct >>= fun t =>
    (pure ⟨m.tables ++ [t]⟩ : Except String Model)) = .ok m' ↔ _
  rw [bind_ok]
  constructor
  · rintro ⟨t, ht, h⟩
    obtain ⟨rows, hrows, rfl⟩ := ofCreate_ok.mp ht
    exact ⟨rows, hrows, (pure_ok.mp h).symm⟩
  · rintro ⟨rows, hrows, rfl⟩
    exact ⟨_, ofCreate_ok.mpr ⟨rows, hrows, rfl⟩, rfl⟩

/-! ## What one `ALTER TABLE` operation does -/

/-- The column entry an `ADD COLUMN` of a type with marker `marker` pushes. -/
def ModelColumn.ofAdd (c : ColumnDef) (marker : String) : ModelColumn :=
  ⟨c.name.value, marker, !c.options.any isNotNull⟩

/-- The table update an operation performs; the identity for the operations
    the model does not follow. -/
def operationUpdate : AlterTableOperation → ModelTable → ModelTable
  | .addColumn _ _ c _, t =>
      match mapType c.dataType with
      | some row =>
          { t with columns := t.columns ++ [ModelColumn.ofAdd c row.marker] }
      | none => t
  | .dropColumn c _ _, t =>
      { t with columns := t.columns.filter (·.name != c.value) }
  | .addConstraint con, t =>
      { t with foreignKeys := t.foreignKeys ++ constraintForeignKeys con }
  | _, t => t

theorem operationUpdate_name (op : AlterTableOperation) (t : ModelTable) :
    (operationUpdate op t).name = t.name := by
  cases op with
  | addColumn kw ine c pos =>
      simp only [operationUpdate]
      cases mapType c.dataType <;> rfl
  | addConstraint _ | dropColumn _ _ _ | dropConstraint _ _ _
  | dropPrimaryKey | renameColumn _ _ | renameTable _
  | changeColumn _ _ _ _ _ | modifyColumn _ _ _ _ | alterColumn _ _
  | other _ => rfl

/-- No operation touches the recorded key. -/
theorem operationUpdate_primaryKey (op : AlterTableOperation)
    (t : ModelTable) :
    (operationUpdate op t).primaryKey = t.primaryKey := by
  cases op with
  | addColumn kw ine c pos =>
      simp only [operationUpdate]
      cases mapType c.dataType <;> rfl
  | addConstraint _ | dropColumn _ _ _ | dropConstraint _ _ _
  | dropPrimaryKey | renameColumn _ _ | renameTable _
  | changeColumn _ _ _ _ _ | modifyColumn _ _ _ _ | alterColumn _ _
  | other _ => rfl

theorem tableMut_of_update_id {m : Model} {name : String}
    {f : ModelTable → ModelTable} (hf : ∀ t, f t = t) :
    (m.tableMut name f).getD m = m := by
  rw [Model.tableMut]
  cases h : updateFirst (fun t => t.name == name) f m.tables with
  | none => rfl
  | some ts =>
      obtain ⟨l, a, r, has, hts, -, -⟩ := updateFirst_eq_some.mp h
      show (⟨ts⟩ : Model) = m
      rw [hts, hf, ← has]

/-- An accepted `ADD COLUMN` has a mapped type and a table to go to. -/
theorem applyOperation_addColumn_ok {p : Sqlparser} {tname : String}
    {m m' : Model} {kw ine : Bool} {c : ColumnDef} {pos : Option Clause} :
    m.applyOperation p tname (.addColumn kw ine c pos) = .ok m' ↔
      (∃ row, mapType c.dataType = some row) ∧
        m.tableMut tname (operationUpdate (.addColumn kw ine c pos))
          = some m' := by
  cases hrow : mapType c.dataType with
  | none => simp [Model.applyOperation, hrow]
  | some row =>
      have hupd : operationUpdate (.addColumn kw ine c pos) = fun t =>
          { t with columns := t.columns
              ++ [ModelColumn.ofAdd c row.marker] } := by
        funext t; simp only [operationUpdate, hrow]
      simp only [Model.applyOperation, hrow, hupd, ModelColumn.ofAdd]
      split
      · next m₁ hm₁ => rw [hm₁]; simp
      · next hnone => rw [hnone]; simp

/-- **WHAT AN ACCEPTED OPERATION DOES**: its update, on the first table of
    that name, and nothing at all when no table has the name. -/
theorem applyOperation_eq {p : Sqlparser} {tname : String} {m m' : Model}
    {op : AlterTableOperation}
    (h : m.applyOperation p tname op = .ok m') :
    m' = (m.tableMut tname (operationUpdate op)).getD m := by
  cases op with
  | addColumn kw ine c pos =>
      rw [(applyOperation_addColumn_ok.mp h).2]; rfl
  | dropColumn c ie cascade => exact (Except.ok.inj h).symm
  | addConstraint con =>
      cases con with
      | foreignKey n cols ft refs act => exact (Except.ok.inj h).symm
      | unique _ _ _ | primaryKey _ _ _ | check _ _ | other _ =>
          rw [← Except.ok.inj h, tableMut_of_update_id]
          intro t
          simp [operationUpdate, constraintForeignKeys]
  | dropConstraint _ _ _ | dropPrimaryKey | renameColumn _ _ | renameTable _
  | changeColumn _ _ _ _ _ | modifyColumn _ _ _ _ | alterColumn _ _
  | other _ =>
      rw [← Except.ok.inj h, tableMut_of_update_id]
      intro t; rfl

/-- The two ways an accepted operation can go. -/
theorem applyOperation_cases {p : Sqlparser} {tname : String} {m m' : Model}
    {op : AlterTableOperation} (h : m.applyOperation p tname op = .ok m') :
    (m' = m ∧ ∀ t ∈ m.tables, t.name ≠ tname) ∨
      updateFirst (fun t => t.name == tname) (operationUpdate op) m.tables
        = some m'.tables := by
  rw [applyOperation_eq h, Model.tableMut]
  cases hupd : updateFirst (fun t => t.name == tname) (operationUpdate op)
      m.tables with
  | none =>
      refine Or.inl ⟨rfl, fun t ht hname => ?_⟩
      exact beq_eq_false_iff_ne.mp (updateFirst_eq_none.mp hupd t ht) hname
  | some ts => exact Or.inr rfl

/-- An `ALTER TABLE` that finds no block changes none. -/
theorem unnamed_operation {p : Sqlparser} {tname : String} {m m' : Model}
    {op : AlterTableOperation} (h : ∀ t ∈ m.tables, t.name ≠ tname)
    (hm : m.applyOperation p tname op = .ok m') : m' = m := by
  rcases applyOperation_cases hm with ⟨rfl, -⟩ | hupd
  · rfl
  · obtain ⟨l, t, r, htables, -, hname, -⟩ := updateFirst_eq_some.mp hupd
    exact absurd (eq_of_beq hname) (h t (by rw [htables]; simp))

/-- A field no operation touches is the same in every table afterwards. -/
theorem applyOperation_map {p : Sqlparser} {tname : String} {m m' : Model}
    {op : AlterTableOperation} {α : Type} {f : ModelTable → α}
    (hf : ∀ t, f (operationUpdate op t) = f t)
    (h : m.applyOperation p tname op = .ok m') :
    m'.tables.map f = m.tables.map f := by
  rcases applyOperation_cases h with ⟨rfl, -⟩ | hupd
  · rfl
  · obtain ⟨l, t, r, htables, htables', -, -⟩ := updateFirst_eq_some.mp hupd
    rw [htables, htables']
    simp only [List.map_append, List.map_cons, hf]

end DualdbModel
