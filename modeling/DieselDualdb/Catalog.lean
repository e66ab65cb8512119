import DieselDualdb.SchemaModel

/-!
# A reference SQL catalog

What a database holds after executing the statements the generator emits:
tables with their columns, primary keys and foreign keys, and indexes as far
as they go with their table.  The catalog is a second reading of the same
statements, written from SQL and not from the generator; the two are compared
in the files that follow.

Names are kept as written, and a `Dialect` says which names denote the same
object, so nothing depends on how a database folds case or resolves schemas.
It also says which columns `CREATE TABLE … AS SELECT` gives a table, since the
query is not looked into.  A statement the catalog refuses has no effect; what
neither backend executes (`CREATE OR REPLACE TABLE`, `CHANGE COLUMN`, …) is
refused.

A table's `Shape` is all of it but the foreign keys.  An `ALTER TABLE`
operation first changes the shape of its table (`shapeOperation`) and then the
foreign keys of all tables (`foreignKeyEffect`), which leaves shapes alone.
-/

namespace DualdbCatalog

open DualdbAst DualdbModel FallibleRun

inductive Refusal where
  | tableExists
  | noTable
  | columnExists
  | noColumn
  | secondKey
  | noKey
  | keyColumn
  | dependents
  | unsupported
deriving DecidableEq

structure Column where
  name : Ident
  dataType : DataType
  /-- Declared or altered to be `NOT NULL`. -/
  notNull : Bool
  /-- Made a member of a primary key. -/
  keyed : Bool
deriving DecidableEq

structure PrimaryKey where
  name : String
  columns : List String
deriving DecidableEq

structure Shape where
  name : ObjectName
  columns : List Column
  primaryKey : Option PrimaryKey
deriving DecidableEq

/-- How a database reads names, what it copies into a new table, and which of
    the remaining statements and operations it executes without touching a
    table. -/
structure Dialect (κ : Type) where
  /-- The table a name denotes. -/
  table : ObjectName → κ
  /-- The column or constraint a name denotes, within its table. -/
  ident : Ident → String
  /-- The name of an unnamed constraint on these columns of the table, given
      the names in use. -/
  generatedName : κ → List String → List String → String
  /-- The columns of a table created with `AS SELECT`, `LIKE` or `CLONE`, given
      the tables there are. -/
  copied : CreateTable → List Shape → Except Refusal (List Column)
  inert : Statement → Bool
  inertOperation : Clause → Bool

structure ForeignKey (κ : Type) where
  name : String
  columns : List String
  parent : κ
  referred : List String
deriving DecidableEq

structure Table (κ : Type) extends Shape where
  foreignKeys : List (ForeignKey κ)
deriving DecidableEq

structure Index (κ : Type) where
  name : Option κ
  table : κ
deriving DecidableEq

structure Catalog (κ : Type) where
  tables : List (Table κ)
  indexes : List (Index κ)
deriving DecidableEq

def Catalog.empty {κ : Type} : Catalog κ := ⟨[], []⟩

variable {κ : Type} [DecidableEq κ] (d : Dialect κ)

/-! ## Shapes -/

def Column.key (c : Column) : String := d.ident c.name

def Column.ofDef (c : ColumnDef) : Column :=
  ⟨c.name, c.dataType, c.options.any isNotNull, false⟩

def Shape.key (s : Shape) : κ := d.table s.name

def Shape.has (s : Shape) (key : String) : Bool :=
  s.columns.any fun c => c.key d == key

def Shape.mapColumn (s : Shape) (key : String) (f : Column → Column) : Shape :=
  { s with columns := s.columns.map fun c => if c.key d = key then f c else c }

def constraintName (name : Option Ident) (table : κ) (keys taken : List String) :
    String :=
  match name with
  | some n => d.ident n
  | none => d.generatedName table keys taken

/-- `PRIMARY KEY (cols)`. -/
def Shape.declareKey (taken : List String) (s : Shape) (name : Option Ident)
    (cols : List Ident) : Except Refusal Shape :=
  let keys := cols.map d.ident
  if s.primaryKey.isSome then .error .secondKey
  else if !keys.all (s.has d) then .error .noColumn
  else .ok { s with
    columns := s.columns.map fun c =>
      if keys.contains (c.key d) then { c with keyed := true } else c
    primaryKey := some ⟨constraintName d name (s.key d) keys taken, keys⟩ }

/-- The part of a constraint that concerns the shape. -/
def Shape.declare (taken : List String) (s : Shape) :
    TableConstraint → Except Refusal Shape
  | .primaryKey name cols _ => s.declareKey d taken name cols
  | _ => .ok s

/-- A constraint given as a column option, as a table constraint. -/
def inlineConstraint (column : Ident) (o : ColumnOptionDef) :
    Option TableConstraint :=
  match o.option with
  | .unique true characteristics =>
      some (.primaryKey o.name [column] characteristics)
  | .foreignKey foreignTable referredColumns actions =>
      some (.foreignKey o.name [column] foreignTable referredColumns actions)
  | _ => none

def inlineConstraints (c : ColumnDef) : List TableConstraint :=
  c.options.filterMap (inlineConstraint c.name)

/-- `DROP COLUMN` takes the key it is part of with it. -/
def Shape.dropColumn (s : Shape) (key : String) : Shape :=
  { s with
    columns := s.columns.filter fun c => c.key d != key
    primaryKey := s.primaryKey.filter fun pk => !pk.columns.contains key }

def renameKey (old new : String) (keys : List String) : List String :=
  keys.map fun k => if k = old then new else k

def Shape.renameColumn (s : Shape) (old new : Ident) : Shape :=
  { s.mapColumn d (d.ident old) ({ · with name := new }) with
    primaryKey := s.primaryKey.map fun pk =>
      { pk with columns := renameKey (d.ident old) (d.ident new) pk.columns } }

/-- `RENAME TO` an unqualified name stays in the schema. -/
def renamed (old new : ObjectName) : ObjectName :=
  if new.parts.length ≤ 1 then ⟨old.parts.dropLast ++ new.parts⟩ else new

def Shape.alterColumn (s : Shape) (name : Ident) :
    AlterColumnOperation → Except Refusal Shape
  | .setNotNull =>
      .ok (s.mapColumn d (d.ident name) ({ · with notNull := true }))
  | .dropNotNull =>
      if s.primaryKey.any fun pk => pk.columns.contains (d.ident name) then
        .error .keyColumn
      else .ok (s.mapColumn d (d.ident name)
        ({ · with notNull := false, keyed := false }))
  | .setDataType dataType _ =>
      .ok (s.mapColumn d (d.ident name) ({ · with dataType := dataType }))
  | _ => .ok s

/-- What an operation does to the shape of its table. -/
def shapeOperation (taken : List String) (s : Shape) :
    AlterTableOperation → Except Refusal Shape
  | .addConstraint con => s.declare d taken con
  | .addColumn _ ifNotExists c position =>
      if s.has d (d.ident c.name) then
        if ifNotExists then .ok s else .error .columnExists
      else if position.isSome then .error .unsupported
      else (inlineConstraints c).foldlM (Shape.declare d taken)
        { s with columns := s.columns ++ [Column.ofDef c] }
  | .dropColumn name ifExists _ =>
      if s.has d (d.ident name) then .ok (s.dropColumn d (d.ident name))
      else if ifExists then .ok s else .error .noColumn
  | .dropConstraint _ name _ =>
      .ok { s with
        primaryKey := s.primaryKey.filter fun pk => pk.name != d.ident name }
  | .renameColumn old new =>
      if !s.has d (d.ident old) then .error .noColumn
      else if s.has d (d.ident new) then .error .columnExists
      else .ok (s.renameColumn d old new)
  | .renameTable name => .ok { s with name := renamed s.name name }
  | .alterColumn name op =>
      if !s.has d (d.ident name) then .error .noColumn
      else s.alterColumn d name op
  | .dropPrimaryKey | .changeColumn _ _ _ _ _ | .modifyColumn _ _ _ _ =>
      .error .unsupported
  | .other text => if d.inertOperation text then .ok s else .error .unsupported

/-! ## Foreign keys -/

def Catalog.lookup (c : Catalog κ) (k : κ) : Option (Table κ) :=
  c.tables.find? fun t => decide (t.key d = k)

def Catalog.find (c : Catalog κ) (k : κ) : Option Nat :=
  c.tables.findIdx? fun t => decide (t.key d = k)

def Catalog.setTable (c : Catalog κ) (i : Nat) (t : Table κ) : Catalog κ :=
  { c with tables := c.tables.set i t }

def Catalog.mapTables (c : Catalog κ) (f : Table κ → Table κ) : Catalog κ :=
  { c with tables := c.tables.map f }

def Table.constraintNames (t : Table κ) : List String :=
  (t.primaryKey.map PrimaryKey.name).toList
    ++ t.foreignKeys.map ForeignKey.name

/-- The columns a `REFERENCES` clause refers to. -/
def referredColumns (parent : Shape) (refs : List Ident) :
    Option (List String) :=
  if refs.isEmpty then parent.primaryKey.map PrimaryKey.columns
  else some (refs.map d.ident)

/-- The table a foreign key of `t` refers to: `t` itself, or another. -/
def Catalog.parentOf (c : Catalog κ) (t : Table κ) (k : κ) : Option Shape :=
  if t.key d = k then some t.toShape else (c.lookup d k).map Table.toShape

/-- The part of a constraint that concerns the foreign keys. -/
def Catalog.addForeignKey (c : Catalog κ) (t : Table κ) :
    TableConstraint → Except Refusal (Table κ)
  | .foreignKey name cols foreignTable refs _ =>
      let keys := cols.map d.ident
      if !keys.all (t.has d) then .error .noColumn
      else
        match c.parentOf d t (d.table foreignTable) with
        | none => .error .noTable
        | some parent =>
            match referredColumns d parent refs with
            | none => .error .noKey
            | some referred =>
                if referred.length = keys.length ∧ referred.all (parent.has d)
                then
                  let n := constraintName d name (t.key d) keys
                    t.constraintNames
                  .ok { t with
                    foreignKeys := t.foreignKeys
                      ++ [⟨n, keys, d.table foreignTable, referred⟩] }
                else .error .noColumn
  | _ => .ok t

/-- Keep the foreign keys that satisfy `keep`, which is told the owner. -/
def Catalog.filterForeignKeys (c : Catalog κ)
    (keep : κ → ForeignKey κ → Bool) : Catalog κ :=
  c.mapTables fun t =>
    { t with foreignKeys := t.foreignKeys.filter (keep (t.key d)) }

def Catalog.anyForeignKey (c : Catalog κ) (p : κ → ForeignKey κ → Bool) :
    Bool :=
  c.tables.any fun t => t.foreignKeys.any (p (t.key d))

/-- Drop the foreign keys that depend on something dropped, or refuse. -/
def Catalog.dropDependents (c : Catalog κ) (cascade : Bool)
    (blocks drops : κ → ForeignKey κ → Bool) : Except Refusal (Catalog κ) :=
  if !cascade && c.anyForeignKey d blocks then .error .dependents
  else .ok (c.filterForeignKeys d fun owner fk => !drops owner fk)

def renameInForeignKey (table : κ) (old new : String) (owner : κ)
    (fk : ForeignKey κ) : ForeignKey κ :=
  { fk with
    columns := if owner = table then renameKey old new fk.columns
      else fk.columns
    referred := if fk.parent = table then renameKey old new fk.referred
      else fk.referred }

/-- What an operation on table `i` does to the foreign keys.  The catalog has
    the table's new shape already; `old` is the one before. -/
def foreignKeyEffect (old : Shape) (i : Nat) (c : Catalog κ) (t : Table κ) :
    AlterTableOperation → Except Refusal (Catalog κ)
  | .addConstraint con => c.setTable i <$> c.addForeignKey d t con
  | .addColumn _ _ column _ =>
      if old.has d (d.ident column.name) then .ok c
      else c.setTable i
        <$> (inlineConstraints column).foldlM (c.addForeignKey d) t
  | .dropColumn name _ cascade =>
      if !old.has d (d.ident name) then .ok c
      else
        let refers := fun fk : ForeignKey κ =>
          decide (fk.parent = old.key d) && fk.referred.contains (d.ident name)
        c.dropDependents d cascade
          (fun owner fk => decide (owner ≠ old.key d) && refers fk)
          (fun owner fk => refers fk
            || (decide (owner = old.key d)
              && fk.columns.contains (d.ident name)))
  | .dropConstraint _ name cascade =>
      let named := fun owner (fk : ForeignKey κ) =>
        decide (owner = old.key d) && fk.name == d.ident name
      match old.primaryKey.filter fun pk => pk.name == d.ident name with
      | none => c.dropDependents d cascade (fun _ _ => false) named
      | some pk =>
          let refers := fun fk : ForeignKey κ =>
            decide (fk.parent = old.key d) && fk.referred == pk.columns
          c.dropDependents d cascade (fun _ => refers)
            (fun owner fk => refers fk || named owner fk)
  | .renameColumn oldName newName =>
      .ok (c.mapTables fun u =>
        { u with
          foreignKeys := u.foreignKeys.map
            (renameInForeignKey (old.key d) (d.ident oldName)
              (d.ident newName) (u.key d)) })
  | .renameTable _ =>
      if (c.tables.eraseIdx i).any fun u => decide (u.key d = t.key d) then
        .error .tableExists
      else
        let redirect := fun k => if k = old.key d then t.key d else k
        .ok ⟨c.tables.map fun u =>
            { u with
              foreignKeys := u.foreignKeys.map fun fk =>
                { fk with parent := redirect fk.parent } },
          c.indexes.map fun ix => { ix with table := redirect ix.table }⟩
  | _ => .ok c

/-- One operation of an `ALTER TABLE` on table `i`. -/
def execOperation (i : Nat) (c : Catalog κ) (op : AlterTableOperation) :
    Except Refusal (Catalog κ) :=
  match c.tables[i]? with
  | none => .error .noTable
  | some t => do
      let s ← shapeOperation d t.constraintNames t.toShape op
      let t' := { t with toShape := s }
      foreignKeyEffect d t.toShape i (c.setTable i t') t' op

/-! ## Statements -/

def Catalog.shapes (c : Catalog κ) : List Shape := c.tables.map Table.toShape

def declaredConstraints (ct : CreateTable) : List TableConstraint :=
  ct.columns.flatMap inlineConstraints ++ ct.constraints

/-- The table gets its columns from elsewhere. -/
def copies (ct : CreateTable) : Bool :=
  ct.query.isSome || ct.like.isSome || ct.clone.isSome

/-- The columns of a created table: those it declares, or those it copies. -/
def createdColumns (shapes : List Shape) (ct : CreateTable) :
    Except Refusal (List Column) :=
  if copies ct then d.copied ct shapes else .ok (ct.columns.map Column.ofDef)

/-- The shape with these columns that a `CREATE TABLE` declares. -/
def shapeWith (ct : CreateTable) (columns : List Column) :
    Except Refusal Shape :=
  if ¬ (columns.map (Column.key d)).Nodup then .error .columnExists
  else (declaredConstraints ct).foldlM (Shape.declare d [])
    ⟨ct.name, columns, none⟩

/-- The shape of a created table, given the tables there are. -/
def createShape (shapes : List Shape) (ct : CreateTable) :
    Except Refusal Shape := do
  shapeWith d ct (← createdColumns d shapes ct)

def Catalog.dropTables (c : Catalog κ) (ifExists : Bool)
    (names : List ObjectName) (cascade : Bool) : Except Refusal (Catalog κ) :=
  let keys := names.map d.table
  if !ifExists && keys.any fun k => (c.lookup d k).isNone then .error .noTable
  else
    let dropped := keys.filter fun k => (c.lookup d k).isSome
    let rest : Catalog κ :=
      ⟨c.tables.filter fun t => !dropped.contains (t.key d),
        c.indexes.filter fun ix => !dropped.contains ix.table⟩
    if !cascade && rest.anyForeignKey d fun _ fk => dropped.contains fk.parent
    then .error .dependents
    else .ok (rest.filterForeignKeys d fun _ fk => !dropped.contains fk.parent)

def Catalog.createIndex (c : Catalog κ) (ci : CreateIndex) :
    Except Refusal (Catalog κ) :=
  let name := ci.name.map d.table
  if (c.lookup d (d.table ci.tableName)).isNone then .error .noTable
  else if name.isSome && c.indexes.any fun ix => decide (ix.name = name) then
    if ci.ifNotExists then .ok c else .error .tableExists
  else .ok { c with indexes := c.indexes ++ [⟨name, d.table ci.tableName⟩] }

/-- Execute one statement. -/
def exec (c : Catalog κ) : Statement → Except Refusal (Catalog κ)
  | .createTable ct =>
      if ct.orReplace then .error .unsupported
      else if (c.lookup d (d.table ct.name)).isSome then
        if ct.ifNotExists then .ok c else .error .tableExists
      else do
        let s ← createShape d c.shapes ct
        let t ← (declaredConstraints ct).foldlM (c.addForeignKey d) ⟨s, []⟩
        pure { c with tables := c.tables ++ [t] }
  | .alterTable name ifExists _ operations _ =>
      match c.find d (d.table name) with
      | none => if ifExists then .ok c else .error .noTable
      | some i => operations.foldlM (execOperation d i) c
  | .drop .table ifExists names cascade _ =>
      c.dropTables d ifExists names cascade
  | .drop (.other kind) ifExists names cascade restrict =>
      if d.inert (.drop (.other kind) ifExists names cascade restrict) then
        .ok c
      else .error .unsupported
  | .createIndex ci => c.createIndex d ci
  | .other sql => if d.inert (.other sql) then .ok c else .error .unsupported

variable {d}

/-! ## Lookups -/

theorem lookup_isSome {c : Catalog κ} {k : κ} :
    (c.lookup d k).isSome ↔ ∃ t ∈ c.tables, t.key d = k := by
  rw [Catalog.lookup, List.find?_isSome]
  simp only [decide_eq_true_iff]

theorem lookup_eq_none {c : Catalog κ} {k : κ} :
    c.lookup d k = none ↔ ∀ t ∈ c.tables, t.key d ≠ k := by
  rw [Catalog.lookup, List.find?_eq_none]
  simp only [decide_eq_true_iff]

theorem lookup_some {c : Catalog κ} {k : κ} {t : Table κ}
    (h : c.lookup d k = some t) : t ∈ c.tables ∧ t.key d = k :=
  ⟨List.mem_of_find?_eq_some h,
    of_decide_eq_true (List.find?_some (p := fun t : Table κ =>
      decide (t.key d = k)) h)⟩

/-! ## Statements about other objects -/

theorem exec_dropOther_ok {c c' : Catalog κ} {kind : String}
    {ifExists cascade restrict : Bool} {names : List ObjectName}
    (h : exec d c (.drop (.other kind) ifExists names cascade restrict)
      = .ok c') : c' = c := by
  rw [exec] at h
  split at h
  · exact (Except.ok.inj h).symm
  · cases h

theorem exec_other_ok {c c' : Catalog κ} {sql : String}
    (h : exec d c (.other sql) = .ok c') : c' = c := by
  rw [exec] at h
  split at h
  · exact (Except.ok.inj h).symm
  · cases h

/-! ## Shapes after an operation -/

omit [DecidableEq κ] in
theorem shapes_mapTables {c : Catalog κ} {f : Table κ → Table κ}
    (hf : ∀ t, (f t).toShape = t.toShape) :
    (c.mapTables f).shapes = c.shapes := by
  simp only [Catalog.shapes, Catalog.mapTables, List.map_map]
  exact List.map_congr_left fun t _ => hf t

omit [DecidableEq κ] in
theorem shapes_setTable (c : Catalog κ) (i : Nat) (t : Table κ) :
    (c.setTable i t).shapes = c.shapes.set i t.toShape := by
  simp only [Catalog.shapes, Catalog.setTable, List.map_set]

/-- The foreign key that a constraint adds, if its columns, its parent and the
    columns it refers to are there. -/
theorem addForeignKey_ok {c : Catalog κ} {t t' : Table κ} {name : Option Ident}
    {cols refs : List Ident} {ft : ObjectName} {actions : Clause} :
    c.addForeignKey d t (.foreignKey name cols ft refs actions) = .ok t' ↔
      (cols.map d.ident).all (t.has d) = true ∧ ∃ parent referred,
        c.parentOf d t (d.table ft) = some parent ∧
        referredColumns d parent refs = some referred ∧
        (referred.length = (cols.map d.ident).length ∧
          referred.all (parent.has d) = true) ∧
        t' = { t with
          foreignKeys := t.foreignKeys ++
            [⟨constraintName d name (t.key d) (cols.map d.ident)
              t.constraintNames, cols.map d.ident, d.table ft, referred⟩] } := by
  simp only [Catalog.addForeignKey]
  constructor
  · intro h
    split at h
    · cases h
    · next hhas =>
        split at h
        · cases h
        · next parent hparent =>
            split at h
            · cases h
            · next referred hreferred =>
                split at h
                · next hmatch =>
                    rw [Bool.not_eq_true', Bool.not_eq_false] at hhas
                    exact ⟨hhas, parent, referred, hparent, hreferred, hmatch,
                      (Except.ok.inj h).symm⟩
                · cases h
  · rintro ⟨hhas, parent, referred, hparent, hreferred, hmatch, rfl⟩
    simp only [hhas, hparent, hreferred, Bool.not_true, Bool.false_eq_true,
      if_false]
    exact if_pos hmatch

theorem addForeignKey_shape {c : Catalog κ} {t t' : Table κ}
    {con : TableConstraint} (h : c.addForeignKey d t con = .ok t') :
    t'.toShape = t.toShape := by
  cases con with
  | foreignKey name cols ft refs actions =>
      obtain ⟨-, parent, referred, -, -, -, rfl⟩ := addForeignKey_ok.mp h
      rfl
  | primaryKey _ _ _ | unique _ _ _ | check _ _ | other _ =>
      rw [← Except.ok.inj h]

theorem addForeignKeys_shape {c : Catalog κ} {cons : List TableConstraint}
    {t t' : Table κ} (h : cons.foldlM (c.addForeignKey d) t = .ok t') :
    t'.toShape = t.toShape :=
  run_invariant (I := fun u : Table κ => u.toShape = t.toShape)
    (fun _ _ _ hu h => (addForeignKey_shape h).trans hu) cons t t' rfl h

omit [DecidableEq κ] in
theorem filterForeignKeys_shapes (c : Catalog κ)
    (keep : κ → ForeignKey κ → Bool) :
    (c.filterForeignKeys d keep).shapes = c.shapes :=
  shapes_mapTables fun _ => rfl

omit [DecidableEq κ] in
theorem dropDependents_shapes {c c' : Catalog κ} {cascade : Bool}
    {blocks drops : κ → ForeignKey κ → Bool}
    (h : c.dropDependents d cascade blocks drops = .ok c') :
    c'.shapes = c.shapes := by
  rw [Catalog.dropDependents] at h
  split at h
  · cases h
  · rw [← Except.ok.inj h]
    exact filterForeignKeys_shapes c _

/-- Foreign keys change, shapes do not. -/
theorem foreignKeyEffect_shapes {old : Shape} {i : Nat} {c c' : Catalog κ}
    {t : Table κ} {op : AlterTableOperation}
    (ht : c.shapes.set i t.toShape = c.shapes)
    (h : foreignKeyEffect d old i c t op = .ok c') : c'.shapes = c.shapes := by
  cases op with
  | addConstraint con =>
      obtain ⟨t', ht', rfl⟩ := map_ok.mp h
      rw [shapes_setTable, addForeignKey_shape ht', ht]
  | addColumn kw ine column pos =>
      simp only [foreignKeyEffect] at h
      split at h
      · rw [← Except.ok.inj h]
      · obtain ⟨t', ht', rfl⟩ := map_ok.mp h
        rw [shapes_setTable, addForeignKeys_shape ht', ht]
  | dropColumn name ie cascade =>
      simp only [foreignKeyEffect] at h
      split at h
      · rw [← Except.ok.inj h]
      · exact dropDependents_shapes h
  | dropConstraint ie name cascade =>
      simp only [foreignKeyEffect] at h
      split at h
      · exact dropDependents_shapes h
      · exact dropDependents_shapes h
  | renameColumn old new =>
      rw [← Except.ok.inj h]
      -- only the columns a foreign key lists are renamed
      exact shapes_mapTables fun _ => rfl
  | renameTable name =>
      simp only [foreignKeyEffect] at h
      split at h
      · cases h
      · rw [← Except.ok.inj h]
        simp only [Catalog.shapes, List.map_map]
        rfl
  | dropPrimaryKey | changeColumn _ _ _ _ _ | modifyColumn _ _ _ _
  | alterColumn _ _ | other _ => rw [← Except.ok.inj h]

/-- **WHAT AN OPERATION DOES TO THE SHAPES**: `shapeOperation` on its own
    table, nothing on the others. -/
theorem execOperation_shapes {i : Nat} {c c' : Catalog κ}
    {op : AlterTableOperation} (h : execOperation d i c op = .ok c') :
    ∃ t s, c.tables[i]? = some t ∧
      shapeOperation d t.constraintNames t.toShape op = .ok s ∧
      c'.shapes = c.shapes.set i s := by
  rw [execOperation] at h
  split at h
  · cases h
  · next t ht =>
      obtain ⟨s, hs, h⟩ := bind_ok.mp h
      refine ⟨t, s, ht, hs, ?_⟩
      rw [foreignKeyEffect_shapes ?_ h, shapes_setTable]
      rw [shapes_setTable, List.set_set]

/-- A created table has the shape it declares. -/
theorem exec_createTable_ok {c c' : Catalog κ} {ct : CreateTable}
    (h : exec d c (.createTable ct) = .ok c')
    (hnew : (c.lookup d (d.table ct.name)).isNone) :
    ∃ s t, createShape d c.shapes ct = .ok s ∧
      (declaredConstraints ct).foldlM (c.addForeignKey d) ⟨s, []⟩ = .ok t ∧
      t.toShape = s ∧ c' = { c with tables := c.tables ++ [t] } := by
  simp only [exec] at h
  split at h
  · cases h
  · rw [if_neg (by simpa using hnew)] at h
    obtain ⟨s, hs, h⟩ := bind_ok.mp h
    obtain ⟨t, ht, h⟩ := bind_ok.mp h
    exact ⟨s, t, hs, ht, addForeignKeys_shape ht, (pure_ok.mp h).symm⟩

/-- A table that is there is not created again. -/
theorem exec_createTable_there {c c' : Catalog κ} {ct : CreateTable}
    (h : exec d c (.createTable ct) = .ok c')
    (hthere : (c.lookup d (d.table ct.name)).isSome) : c' = c := by
  simp only [exec, hthere, if_true] at h
  split at h
  · cases h
  · split at h
    · exact (Except.ok.inj h).symm
    · cases h

theorem exec_createIndex_tables {c c' : Catalog κ} {ci : CreateIndex}
    (h : exec d c (.createIndex ci) = .ok c') : c'.tables = c.tables := by
  simp only [exec, Catalog.createIndex] at h
  split at h
  · cases h
  · split at h
    · split at h
      · rw [← Except.ok.inj h]
      · cases h
    · rw [← Except.ok.inj h]

/-! ## The tables alone

No statement reads an index but to refuse a name that is taken, so a run can be
followed on a catalog without indexes. -/

/-- Execute one statement as far as the tables go. -/
def execTables (d : Dialect κ) (c : Catalog κ) :
    Statement → Except Refusal (Catalog κ)
  | .createIndex _ => .ok c
  | s => exec d c s

/-- The catalog as far as its tables go. -/
def Catalog.bare (c : Catalog κ) : Catalog κ := { c with indexes := [] }

omit [DecidableEq κ] in
theorem bare_eq {c c' : Catalog κ} (h : c'.tables = c.tables) :
    c'.bare = c.bare := by
  rw [Catalog.bare, h, Catalog.bare]

omit [DecidableEq κ] in
theorem dropDependents_bare {c c' : Catalog κ} {cascade : Bool}
    {blocks drops : κ → ForeignKey κ → Bool}
    (h : c.dropDependents d cascade blocks drops = .ok c') :
    c.bare.dropDependents d cascade blocks drops = .ok c'.bare := by
  rw [Catalog.dropDependents] at h
  split at h
  · cases h
  · next hfree =>
      rw [← Except.ok.inj h]
      exact if_neg hfree

theorem foreignKeyEffect_bare {old : Shape} {i : Nat} {c c' : Catalog κ}
    {t : Table κ} {op : AlterTableOperation}
    (h : foreignKeyEffect d old i c t op = .ok c') :
    foreignKeyEffect d old i c.bare t op = .ok c'.bare := by
  cases op with
  | addConstraint con =>
      obtain ⟨t', ht', rfl⟩ := map_ok.mp h
      exact map_ok.mpr ⟨t', ht', rfl⟩
  | addColumn kw ine column pos =>
      simp only [foreignKeyEffect] at h ⊢
      split at h
      · next hthere =>
          rw [if_pos hthere, ← Except.ok.inj h]
      · next hnew =>
          obtain ⟨t', ht', rfl⟩ := map_ok.mp h
          rw [if_neg hnew]
          exact map_ok.mpr ⟨t', ht', rfl⟩
  | dropColumn name ie cascade =>
      simp only [foreignKeyEffect] at h ⊢
      split at h
      · next hmissing =>
          rw [if_pos hmissing, ← Except.ok.inj h]
      · next hthere =>
          rw [if_neg hthere]
          exact dropDependents_bare h
  | dropConstraint ie name cascade =>
      simp only [foreignKeyEffect] at h ⊢
      split at h <;> exact dropDependents_bare h
  | renameTable name =>
      simp only [foreignKeyEffect] at h ⊢
      split at h
      · cases h
      · next hfree =>
          rw [← Except.ok.inj h]
          exact if_neg hfree
  | renameColumn _ _ | dropPrimaryKey | changeColumn _ _ _ _ _
  | modifyColumn _ _ _ _ | alterColumn _ _ | other _ =>
      rw [← Except.ok.inj h]
      rfl

theorem execOperation_bare {i : Nat} {c c' : Catalog κ}
    {op : AlterTableOperation} (h : execOperation d i c op = .ok c') :
    execOperation d i c.bare op = .ok c'.bare := by
  rw [execOperation] at h ⊢
  show (match c.tables[i]? with | none => _ | some t => _) = _
  cases ht : c.tables[i]? with
  | none => rw [ht] at h; cases h
  | some t =>
      rw [ht] at h
      obtain ⟨s, hs, h⟩ := bind_ok.mp h
      exact bind_ok.mpr ⟨s, hs, foreignKeyEffect_bare h⟩

theorem createTable_bare {c c' : Catalog κ} {ct : CreateTable}
    (h : exec d c (.createTable ct) = .ok c') :
    exec d c.bare (.createTable ct) = .ok c'.bare := by
  simp only [exec] at h ⊢
  split at h
  · cases h
  · next hreplace =>
      rw [if_neg hreplace]
      split at h
      · next hthere =>
          have hthere' : (c.bare.lookup d (d.table ct.name)).isSome := hthere
          rw [if_pos hthere']
          split at h
          · next hguard => rw [if_pos hguard, ← Except.ok.inj h]
          · cases h
      · next hnew =>
          have hnew' : ¬ (c.bare.lookup d (d.table ct.name)).isSome = true :=
            hnew
          rw [if_neg hnew']
          obtain ⟨s, hs, h⟩ := bind_ok.mp h
          obtain ⟨t, ht, h⟩ := bind_ok.mp h
          rw [← pure_ok.mp h]
          exact bind_ok.mpr ⟨s, hs, bind_ok.mpr ⟨t, ht, rfl⟩⟩

theorem dropTables_bare {c c' : Catalog κ} {ifExists cascade : Bool}
    {names : List ObjectName}
    (h : c.dropTables d ifExists names cascade = .ok c') :
    c.bare.dropTables d ifExists names cascade = .ok c'.bare := by
  simp only [Catalog.dropTables] at h ⊢
  split at h
  · cases h
  · next hthere =>
      split at h
      · cases h
      · next hfree =>
          rw [← Except.ok.inj h]
          exact (if_neg hthere).trans (if_neg hfree)

/-- **INDEXES CAN BE FORGOTTEN**: an executed statement does the same to the
    tables when there are no indexes. -/
theorem exec_bare {c c' : Catalog κ} {s : Statement}
    (h : exec d c s = .ok c') : execTables d c.bare s = .ok c'.bare := by
  cases s with
  | createTable ct => exact createTable_bare h
  | alterTable name ie only ops cl =>
      show exec d c.bare (.alterTable name ie only ops cl) = _
      simp only [exec] at h ⊢
      show (match c.find d (d.table name) with | none => _ | some i => _) = _
      cases hfind : c.find d (d.table name) with
      | none =>
          simp only [hfind] at h ⊢
          split at h
          · next hguard => rw [if_pos hguard, ← Except.ok.inj h]
          · cases h
      | some i =>
          simp only [hfind] at h ⊢
          exact foldlM_view Catalog.bare (fun _ _ _ => execOperation_bare) h
  | drop kind ie names cascade restrict =>
      cases kind with
      | table => exact dropTables_bare h
      | other kind =>
          show exec d c.bare (.drop (.other kind) ie names cascade restrict) = _
          simp only [exec] at h ⊢
          split at h
          · next hinert => rw [if_pos hinert, ← Except.ok.inj h]
          · cases h
  | createIndex ci =>
      exact congrArg Except.ok (bare_eq (exec_createIndex_tables h)).symm
  | other sql =>
      show exec d c.bare (.other sql) = _
      simp only [exec] at h ⊢
      split at h
      · next hinert => rw [if_pos hinert, ← Except.ok.inj h]
      · cases h

/-! ## Declaring keys -/

/-- A column made a member of a key, if the key has it. -/
def Column.mark (keys : List String) (c : Column) : Column :=
  if keys.contains (c.key d) then { c with keyed := true } else c

omit [DecidableEq κ] in
theorem mark_name (keys : List String) (c : Column) :
    (c.mark (d := d) keys).name = c.name := by
  rw [Column.mark]
  split <;> rfl

omit [DecidableEq κ] in
theorem mark_dataType (keys : List String) (c : Column) :
    (c.mark (d := d) keys).dataType = c.dataType := by
  rw [Column.mark]
  split <;> rfl

omit [DecidableEq κ] in
theorem mark_notNull (keys : List String) (c : Column) :
    (c.mark (d := d) keys).notNull = c.notNull := by
  rw [Column.mark]
  split <;> rfl

omit [DecidableEq κ] in
theorem mark_keyed (keys : List String) (c : Column) :
    (c.mark (d := d) keys).keyed = (keys.contains (c.key d) || c.keyed) := by
  rw [Column.mark]
  split
  · next h => rw [h]; rfl
  · next h => rw [Bool.not_eq_true] at h; rw [h]; rfl

/-- The shape with this primary key. -/
def Shape.withKey (s : Shape) (pk : PrimaryKey) : Shape :=
  { s with
    columns := s.columns.map (Column.mark (d := d) pk.columns)
    primaryKey := some pk }

omit [DecidableEq κ] in
/-- Declaring a constraint: a key for a shape that has none, or nothing. -/
theorem declare_ok {taken : List String} {s s' : Shape}
    {con : TableConstraint} (h : s.declare d taken con = .ok s') :
    (primaryKeyOf con = none ∧ s' = s) ∨
      ∃ cols n, primaryKeyOf con = some cols ∧ s.primaryKey = none ∧
        s' = s.withKey (d := d) ⟨n, cols.map d.ident⟩ := by
  cases con with
  | primaryKey name cols rest =>
      simp only [Shape.declare, Shape.declareKey] at h
      split at h
      · cases h
      · next hnone =>
          split at h
          · cases h
          · exact Or.inr ⟨cols, _, rfl, by simpa using hnone,
              (Except.ok.inj h).symm⟩
  | unique _ _ _ | foreignKey _ _ _ _ _ | check _ _ | other _ =>
      exact Or.inl ⟨rfl, (Except.ok.inj h).symm⟩

omit [DecidableEq κ] in
/-- **DECLARING CONSTRAINTS** gives a shape at most one key. -/
theorem declares_ok {taken : List String} {cons : List TableConstraint}
    {s s' : Shape} (h : cons.foldlM (Shape.declare d taken) s = .ok s') :
    (cons.filterMap primaryKeyOf = [] ∧ s' = s) ∨
      ∃ cols n, cons.filterMap primaryKeyOf = [cols] ∧ s.primaryKey = none ∧
        s' = s.withKey (d := d) ⟨n, cols.map d.ident⟩ := by
  induction cons generalizing s with
  | nil => exact Or.inl ⟨rfl, (foldlM_nil_ok.mp h).symm⟩
  | cons con cons ih =>
      obtain ⟨s₁, h₁, hrest⟩ := foldlM_cons_ok.mp h
      rcases declare_ok h₁ with ⟨hnone, rfl⟩ | ⟨cols, n, hsome, hkey, rfl⟩
      · rw [List.filterMap_cons_none hnone]
        exact ih hrest
      · rw [List.filterMap_cons_some hsome]
        rcases ih hrest with ⟨hnil, rfl⟩ | ⟨_, _, _, hkey', _⟩
        · exact Or.inr ⟨cols, n, by rw [hnil], hkey, rfl⟩
        · cases hkey'

omit [DecidableEq κ] in
theorem createShape_ok {shapes : List Shape} {ct : CreateTable} {s : Shape}
    (h : createShape d shapes ct = .ok s) :
    ∃ columns, createdColumns d shapes ct = .ok columns ∧
      (columns.map (Column.key d)).Nodup ∧
      (declaredConstraints ct).foldlM (Shape.declare d [])
        ⟨ct.name, columns, none⟩ = .ok s := by
  obtain ⟨columns, hcolumns, h⟩ := bind_ok.mp h
  rw [shapeWith] at h
  split at h
  · cases h
  · next hnodup => exact ⟨columns, hcolumns, not_not.mp hnodup, h⟩

omit [DecidableEq κ] in
/-- A table that copies none has the columns it declares. -/
theorem createShape_own {ct : CreateTable} (h : copies ct = false)
    (shapes : List Shape) : createShape d shapes ct
      = shapeWith d ct (ct.columns.map Column.ofDef) := by
  rw [createShape, createdColumns, h]
  rfl

omit [DecidableEq κ] in
theorem createShape_name {shapes : List Shape} {ct : CreateTable} {s : Shape}
    (h : createShape d shapes ct = .ok s) : s.name = ct.name := by
  obtain ⟨columns, -, -, hdeclare⟩ := createShape_ok h
  rcases declares_ok hdeclare with ⟨-, rfl⟩ | ⟨cols, n, -, -, rfl⟩
  · rfl
  · rfl

/-- The keys a column's options declare: the column itself, once each. -/
theorem inlineConstraints_keys (c : ColumnDef) :
    (inlineConstraints c).filterMap primaryKeyOf
      = (c.options.filter isPrimary).map fun _ => [c.name] := by
  rw [inlineConstraints]
  induction c.options with
  | nil => rfl
  | cons o opts ih =>
      obtain ⟨name, opt⟩ := o
      cases opt with
      | unique primary ch =>
          cases primary
          · exact ih
          · exact congrArg ([c.name] :: ·) ih
      | foreignKey ft refs actions => exact ih
      | null | notNull | default _ | check _ | other _ => exact ih

/-! ## Columns after an operation -/

/-- The columns an operation keeps. -/
def keptBy (d : Dialect κ) : AlterTableOperation → Column → Bool
  | .dropColumn name _ _, col => col.key d != d.ident name
  | _, _ => true

/-- What becomes of a column an operation keeps. -/
def columnAfter (d : Dialect κ) : AlterTableOperation → Column → Column
  | .addConstraint con, col =>
      match primaryKeyOf con with
      | some cols => col.mark (d := d) (cols.map d.ident)
      | none => col
  | .renameColumn old new, col =>
      if col.key d = d.ident old then { col with name := new } else col
  | .alterColumn name .setNotNull, col =>
      if col.key d = d.ident name then { col with notNull := true } else col
  | .alterColumn name .dropNotNull, col =>
      if col.key d = d.ident name then
        { col with notNull := false, keyed := false }
      else col
  | .alterColumn name (.setDataType dataType _), col =>
      if col.key d = d.ident name then { col with dataType := dataType }
      else col
  | _, col => col

/-- The column an `ADD COLUMN` appends. -/
def addedColumn (c : ColumnDef) : Column :=
  { Column.ofDef c with keyed := c.options.any isPrimary }

/-- The columns after an operation: those kept, and an added one. -/
def columnsAfter (d : Dialect κ) (op : AlterTableOperation)
    (cols : List Column) : List Column :=
  match op with
  | .addColumn _ _ c _ => cols ++ [addedColumn c]
  | _ => (cols.filter (keptBy d op)).map (columnAfter d op)

omit [DecidableEq κ] in
theorem columns_addColumn {taken : List String} {s s' : Shape}
    {c : ColumnDef} (hnew : s.has d (d.ident c.name) = false)
    (h : (inlineConstraints c).foldlM (Shape.declare d taken)
      { s with columns := s.columns ++ [Column.ofDef c] } = .ok s') :
    s'.columns = s.columns ++ [addedColumn c] := by
  have hold : ∀ col ∈ s.columns, (col.key d == d.ident c.name) = false := by
    intro col hcol
    rw [Shape.has, List.any_eq_false] at hnew
    exact Bool.not_eq_true _ ▸ hnew col hcol
  -- the options declare no key, or the column itself as the key
  rcases declares_ok h with ⟨hnone, rfl⟩ | ⟨cols, n, hone, -, rfl⟩
  · rw [inlineConstraints_keys, List.map_eq_nil_iff,
      List.filter_eq_nil_iff] at hnone
    have hany : c.options.any isPrimary = false :=
      List.any_eq_false.mpr hnone
    show s.columns ++ [Column.ofDef c] = _
    rw [addedColumn, hany]
    rfl
  · rw [inlineConstraints_keys] at hone
    have hmem : cols ∈ (c.options.filter isPrimary).map fun _ => [c.name] := by
      rw [hone]; exact List.mem_singleton.mpr rfl
    obtain ⟨o, ho, rfl⟩ := List.mem_map.mp hmem
    have hany : c.options.any isPrimary = true :=
      List.any_eq_true.mpr ⟨o, List.mem_filter.mp ho⟩
    show (s.columns ++ [Column.ofDef c]).map (Column.mark (d := d) _) = _
    rw [List.map_append]
    -- only the new column is in the new key
    congr 1
    · refine (List.map_congr_left fun col hcol => ?_).trans (List.map_id _)
      rw [Column.mark, if_neg]
      · rfl
      · simpa using hold col hcol
    · simp [Column.mark, Column.key, Column.ofDef, addedColumn, hany]

/-! ## One operation, case by case -/

/-- What an accepted operation did to the shape of its table, and which of its
    guards held. -/
inductive ShapeStep (d : Dialect κ) (taken : List String) (s : Shape) :
    AlterTableOperation → Shape → Prop where
  | addConstraint {con : TableConstraint} {s' : Shape}
      (h : s.declare d taken con = .ok s') :
      ShapeStep d taken s (.addConstraint con) s'
  | columnThere {kw : Bool} {c : ColumnDef} {pos : Option Clause}
      (h : s.has d (d.ident c.name) = true) :
      ShapeStep d taken s (.addColumn kw true c pos) s
  | addColumn {kw ine : Bool} {c : ColumnDef} {s' : Shape}
      (hnew : s.has d (d.ident c.name) = false)
      (h : (inlineConstraints c).foldlM (Shape.declare d taken)
        { s with columns := s.columns ++ [Column.ofDef c] } = .ok s') :
      ShapeStep d taken s (.addColumn kw ine c none) s'
  | dropColumn {name : Ident} {ie cascade : Bool}
      (h : s.has d (d.ident name) = true) :
      ShapeStep d taken s (.dropColumn name ie cascade)
        (s.dropColumn d (d.ident name))
  | columnMissing {name : Ident} {cascade : Bool}
      (h : s.has d (d.ident name) = false) :
      ShapeStep d taken s (.dropColumn name true cascade) s
  | dropConstraint {ie cascade : Bool} {name : Ident} :
      ShapeStep d taken s (.dropConstraint ie name cascade) { s with
        primaryKey := s.primaryKey.filter fun pk => pk.name != d.ident name }
  | renameColumn {old new : Ident} (hold : s.has d (d.ident old) = true)
      (hnew : s.has d (d.ident new) = false) :
      ShapeStep d taken s (.renameColumn old new) (s.renameColumn d old new)
  | renameTable {name : ObjectName} :
      ShapeStep d taken s (.renameTable name)
        { s with name := renamed s.name name }
  | setNotNull {name : Ident} (h : s.has d (d.ident name) = true) :
      ShapeStep d taken s (.alterColumn name .setNotNull)
        (s.mapColumn d (d.ident name) ({ · with notNull := true }))
  | dropNotNull {name : Ident} (h : s.has d (d.ident name) = true)
      (hkey : ¬ (s.primaryKey.any fun pk =>
        pk.columns.contains (d.ident name)) = true) :
      ShapeStep d taken s (.alterColumn name .dropNotNull)
        (s.mapColumn d (d.ident name)
          ({ · with notNull := false, keyed := false }))
  | setDataType {name : Ident} {dataType : DataType} {usingExpr : Option Expr}
      (h : s.has d (d.ident name) = true) :
      ShapeStep d taken s (.alterColumn name (.setDataType dataType usingExpr))
        (s.mapColumn d (d.ident name) ({ · with dataType := dataType }))
  | setDefault {name : Ident} {e : Expr} (h : s.has d (d.ident name) = true) :
      ShapeStep d taken s (.alterColumn name (.setDefault e)) s
  | dropDefault {name : Ident} (h : s.has d (d.ident name) = true) :
      ShapeStep d taken s (.alterColumn name .dropDefault) s
  | addGenerated {name : Ident} {text : Clause}
      (h : s.has d (d.ident name) = true) :
      ShapeStep d taken s (.alterColumn name (.addGenerated text)) s
  | inert {text : Clause} (h : d.inertOperation text = true) :
      ShapeStep d taken s (.other text) s

omit [DecidableEq κ] in
/-- **INVERSION OF AN OPERATION**: everything about `shapeOperation` below is
    read off these cases. -/
theorem shapeOperation_ok {taken : List String} {s s' : Shape}
    {op : AlterTableOperation} (h : shapeOperation d taken s op = .ok s') :
    ShapeStep d taken s op s' := by
  cases op with
  | addConstraint con => exact .addConstraint h
  | addColumn kw ine c pos =>
      simp only [shapeOperation] at h
      by_cases hthere : s.has d (d.ident c.name) = true
      · -- accepted under `IF NOT EXISTS` only
        rw [if_pos hthere] at h
        cases ine with
        | true =>
            rw [← Except.ok.inj h]
            exact .columnThere hthere
        | false => cases h
      · rw [if_neg hthere] at h
        cases pos with
        | none => exact .addColumn (Bool.not_eq_true _ ▸ hthere) h
        | some text => cases h
  | dropColumn name ie cascade =>
      simp only [shapeOperation] at h
      by_cases hthere : s.has d (d.ident name) = true
      · rw [if_pos hthere] at h
        rw [← Except.ok.inj h]
        exact .dropColumn hthere
      · rw [if_neg hthere] at h
        cases ie with
        | true =>
            rw [← Except.ok.inj h]
            exact .columnMissing (Bool.not_eq_true _ ▸ hthere)
        | false => cases h
  | dropConstraint ie name cascade =>
      rw [← Except.ok.inj h]
      exact .dropConstraint
  | renameColumn old new =>
      simp only [shapeOperation] at h
      by_cases hold : s.has d (d.ident old) = true
      · rw [hold, if_neg (by decide)] at h
        by_cases hnew : s.has d (d.ident new) = true
        · rw [if_pos hnew] at h
          cases h
        · rw [if_neg hnew] at h
          rw [← Except.ok.inj h]
          exact .renameColumn hold (Bool.not_eq_true _ ▸ hnew)
      · rw [Bool.not_eq_true] at hold
        rw [hold, if_pos (by decide)] at h
        cases h
  | renameTable name =>
      rw [← Except.ok.inj h]
      exact .renameTable
  | alterColumn name op =>
      simp only [shapeOperation] at h
      by_cases hthere : s.has d (d.ident name) = true
      · rw [hthere, if_neg (by decide)] at h
        cases op with
        | setNotNull =>
            rw [← Except.ok.inj h]
            exact .setNotNull hthere
        | dropNotNull =>
            simp only [Shape.alterColumn] at h
            split at h
            · cases h
            · next hkey =>
                rw [← Except.ok.inj h]
                exact .dropNotNull hthere hkey
        | setDataType dataType usingExpr =>
            rw [← Except.ok.inj h]
            exact .setDataType hthere
        | setDefault e =>
            rw [← Except.ok.inj h]
            exact .setDefault hthere
        | dropDefault =>
            rw [← Except.ok.inj h]
            exact .dropDefault hthere
        | addGenerated text =>
            rw [← Except.ok.inj h]
            exact .addGenerated hthere
      · rw [Bool.not_eq_true] at hthere
        rw [hthere, if_pos (by decide)] at h
        cases h
  | dropPrimaryKey | changeColumn _ _ _ _ _ | modifyColumn _ _ _ _ =>
      cases h
  | other text =>
      simp only [shapeOperation] at h
      split at h
      · next hinert =>
          rw [← Except.ok.inj h]
          exact .inert hinert
      · cases h

omit [DecidableEq κ] in
/-- **WHAT AN OPERATION DOES TO THE COLUMNS** of its table. -/
theorem shapeOperation_columns {taken : List String} {s s' : Shape}
    {op : AlterTableOperation}
    (hnew : ∀ kw ine c pos, op = .addColumn kw ine c pos →
      s.has d (d.ident c.name) = false)
    (h : shapeOperation d taken s op = .ok s') :
    s'.columns = columnsAfter d op s.columns := by
  have hall : ∀ f : Column → Column,
      s.columns.map f = (s.columns.filter fun _ => true).map f := by
    intro f
    rw [List.filter_true]
  have hsame : s.columns = (s.columns.filter fun _ => true).map id := by
    rw [← hall, List.map_id]
  cases shapeOperation_ok h with
  | @addConstraint con _ h =>
      rcases declare_ok h with ⟨hnone, rfl⟩ | ⟨cols, n, hsome, -, rfl⟩
      · have hid : columnAfter d (.addConstraint con) = id := by
          funext col
          show (match primaryKeyOf con with
            | some cols => col.mark (d := d) (cols.map d.ident)
            | none => col) = col
          rw [hnone]
        show _ = (s'.columns.filter fun _ => true).map (columnAfter d _)
        rw [hid]
        exact hsame
      · have hmark : columnAfter d (.addConstraint con)
            = Column.mark (d := d) (cols.map d.ident) := by
          funext col
          show (match primaryKeyOf con with
            | some cols => col.mark (d := d) (cols.map d.ident)
            | none => col) = _
          rw [hsome]
        show _ = (s.columns.filter fun _ => true).map (columnAfter d _)
        rw [hmark]
        exact hall _
  | columnThere hthere =>
      rw [hnew _ _ _ _ rfl] at hthere
      cases hthere
  | addColumn hfresh h => exact columns_addColumn hfresh h
  | dropColumn _ => exact (List.map_id _).symm
  | @columnMissing name _ hmissing =>
      -- nothing has the key, so the filter keeps every column
      have hkept : s.columns.filter (fun col => col.key d != d.ident name)
          = s.columns := by
        rw [Shape.has, List.any_eq_false] at hmissing
        refine List.filter_eq_self.mpr fun col hcol => ?_
        rw [bne_iff_ne]
        exact fun hkey => hmissing col hcol (beq_iff_eq.mpr hkey)
      show _ = (s.columns.filter fun col => col.key d != d.ident name).map id
      rw [hkept, List.map_id]
  | renameColumn _ _ | setNotNull _ | dropNotNull _ _ | setDataType _ =>
      exact hall _
  | dropConstraint | renameTable | setDefault _ | dropDefault _
  | addGenerated _ | inert _ => exact hsame

/-- The name of the table after an operation. -/
def nameAfter : AlterTableOperation → ObjectName → ObjectName
  | .renameTable new, old => renamed old new
  | _, old => old

omit [DecidableEq κ] in
theorem shapeOperation_name {taken : List String} {s s' : Shape}
    {op : AlterTableOperation} (h : shapeOperation d taken s op = .ok s') :
    s'.name = nameAfter op s.name := by
  cases shapeOperation_ok h with
  | addConstraint h =>
      rcases declare_ok h with ⟨-, rfl⟩ | ⟨cols, n, -, -, rfl⟩
      · rfl
      · rfl
  | addColumn _ h =>
      rcases declares_ok h with ⟨-, rfl⟩ | ⟨cols, n, -, -, rfl⟩
      · rfl
      · rfl
  | columnThere _ | dropColumn _ | columnMissing _ | dropConstraint
  | renameColumn _ _ | renameTable | setNotNull _ | dropNotNull _ _
  | setDataType _ | setDefault _ | dropDefault _ | addGenerated _
  | inert _ => rfl

/-! ## A dialect to run with -/

def lowered (s : String) : String :=
  String.ofList (s.toList.map Char.toLower)

/-- Unquoted names fold to lower case. -/
def foldedIdent (i : Ident) : String :=
  match i.quoteStyle with
  | none => lowered i.value
  | some _ => i.value

/-- Names as Postgres reads them, with `public` for the schema that is not
    given; no query is executed. -/
def folding : Dialect (List String) where
  table n :=
    match n.parts with
    | [i] => ["public", foldedIdent i]
    | parts => parts.map foldedIdent
  ident := foldedIdent
  generatedName table keys _ :=
    table.getLast?.getD "" ++ "_" ++ keys.headD "" ++ "_key"
  copied _ _ := .error .unsupported
  inert _ := false
  inertOperation _ := false

end DualdbCatalog
