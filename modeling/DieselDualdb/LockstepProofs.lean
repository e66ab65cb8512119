import DieselDualdb.EmittedRun
import DieselDualdb.SqlText
import Mathlib.Data.List.InsertIdx

/-!
# The two backends in lockstep

A catalog never looks at a column type: names, keys and references decide what
a statement does.  So executing commutes with replacing the types, in the
catalog and in the statement (`execTables_retype`), and the rewriter does
nothing but replace types.

Whatever a database refuses on its own account, two databases that execute the
trees of one history have the same tables up to types; and unless a statement
alters a type, the types are the two native names of one row of the mapping
table (`backends_in_lockstep`).
-/

namespace DualdbLockstep

open DualdbAst DualdbTypeMap DualdbModel DualdbMigration DualdbRewrite
open DualdbCatalog DualdbEmitted FallibleRun

variable {κ : Type} {d : Dialect κ} {f : DataType → DataType}

/-! ## Replacing types -/

def retypeDef (f : DataType → DataType) (c : ColumnDef) : ColumnDef :=
  { c with dataType := f c.dataType }

def retypeAlter (f : DataType → DataType) :
    AlterColumnOperation → AlterColumnOperation
  | .setDataType dataType usingExpr => .setDataType (f dataType) usingExpr
  | op => op

def retypeOperation (f : DataType → DataType) :
    AlterTableOperation → AlterTableOperation
  | .addColumn kw ifNotExists c position =>
      .addColumn kw ifNotExists (retypeDef f c) position
  | .alterColumn name op => .alterColumn name (retypeAlter f op)
  | .changeColumn old new dataType options position =>
      .changeColumn old new (f dataType) options position
  | .modifyColumn name dataType options position =>
      .modifyColumn name (f dataType) options position
  | op => op

/-- The statement with every column type replaced. -/
def retype (f : DataType → DataType) : Statement → Statement
  | .createTable ct =>
      .createTable { ct with columns := ct.columns.map (retypeDef f) }
  | .alterTable name ifExists only operations clauses =>
      .alterTable name ifExists only (operations.map (retypeOperation f))
        clauses
  | s => s

def Column.retype (f : DataType → DataType) (c : Column) : Column :=
  { c with dataType := f c.dataType }

def Shape.retype (f : DataType → DataType) (s : Shape) : Shape :=
  { s with columns := s.columns.map (Column.retype f) }

def Table.retype (f : DataType → DataType) (t : Table κ) : Table κ :=
  { t with toShape := Shape.retype f t.toShape }

/-- The catalog with every column type replaced. -/
def Catalog.retype (f : DataType → DataType) (c : Catalog κ) : Catalog κ :=
  { c with tables := c.tables.map (Table.retype f) }

/-! ## Shapes -/

theorem has_retype (s : Shape) (key : String) :
    (Shape.retype f s).has d key = s.has d key := by
  rw [Shape.has, Shape.has, Shape.retype, List.any_map]
  rfl

/-- Changing columns by their keys, whatever their types. -/
theorem mapColumns_retype (columns : List Column) (keep : String → Bool)
    (g g' : Column → Column)
    (h : ∀ c, g (Column.retype f c) = Column.retype f (g' c)) :
    (columns.map (Column.retype f)).map
        (fun c => if keep (c.key d) then g c else c)
      = (columns.map fun c => if keep (c.key d) then g' c else c).map
        (Column.retype f) := by
  rw [List.map_map, List.map_map]
  refine List.map_congr_left fun c _ => ?_
  have hkey : (Column.retype f c).key d = c.key d := rfl
  simp only [Function.comp_apply, hkey]
  cases keep (c.key d) with
  | true => exact h c
  | false => rfl

theorem mapColumn_retype (s : Shape) (key : String) (g g' : Column → Column)
    (h : ∀ c, g (Column.retype f c) = Column.retype f (g' c)) :
    (Shape.retype f s).mapColumn d key g
      = Shape.retype f (s.mapColumn d key g') := by
  have hcolumns := mapColumns_retype (d := d) s.columns
    (fun k => decide (k = key)) g g' h
  simp only [decide_eq_true_eq] at hcolumns
  exact congrArg (fun cs => { s with columns := cs }) hcolumns

theorem declareKey_retype (taken : List String) (s : Shape)
    (name : Option Ident) (cols : List Ident) :
    (s.declareKey d taken name cols).map (Shape.retype f)
      = (Shape.retype f s).declareKey d taken name cols := by
  have hall : (Shape.retype f s).has d = s.has d :=
    funext fun key => has_retype s key
  have hkey : (Shape.retype f s).primaryKey = s.primaryKey := rfl
  rw [Shape.declareKey, Shape.declareKey, hall, hkey]
  cases hpk : s.primaryKey.isSome with
  | true => rfl
  | false =>
      simp only [Bool.false_eq_true, if_false]
      cases hkeys : (cols.map d.ident).all (s.has d) with
      | false => rfl
      | true =>
          have hcolumns := mapColumns_retype (d := d) (f := f) s.columns
            (cols.map d.ident).contains ({ · with keyed := true })
            ({ · with keyed := true }) fun _ => rfl
          refine congrArg Except.ok ?_
          simp only [Shape.retype]
          rw [hcolumns]
          rfl

theorem declare_retype (taken : List String) (s : Shape)
    (con : TableConstraint) :
    (s.declare d taken con).map (Shape.retype f)
      = (Shape.retype f s).declare d taken con := by
  cases con with
  | primaryKey name cols rest => exact declareKey_retype taken s name cols
  | _ => rfl

theorem dropColumn_retype (s : Shape) (key : String) :
    (Shape.retype f s).dropColumn d key = Shape.retype f (s.dropColumn d key)
    := by
  simp only [Shape.dropColumn, Shape.retype, List.filter_map]
  rfl

theorem renameColumn_retype (s : Shape) (old new : Ident) :
    (Shape.retype f s).renameColumn d old new
      = Shape.retype f (s.renameColumn d old new) := by
  have hcolumns := mapColumn_retype (d := d) (f := f) s (d.ident old)
    ({ · with name := new }) ({ · with name := new }) fun _ => rfl
  rw [Shape.renameColumn, hcolumns]
  rfl

theorem alterColumn_retype (s : Shape) (name : Ident)
    (op : AlterColumnOperation) :
    (s.alterColumn d name op).map (Shape.retype f)
      = (Shape.retype f s).alterColumn d name (retypeAlter f op) := by
  cases op with
  | setNotNull =>
      exact congrArg Except.ok (mapColumn_retype s _
        ({ · with notNull := true }) ({ · with notNull := true })
        fun _ => rfl).symm
  | dropNotNull =>
      have hkey : (Shape.retype f s).primaryKey = s.primaryKey := rfl
      simp only [Shape.alterColumn, retypeAlter, hkey]
      split
      · rfl
      · exact congrArg Except.ok (mapColumn_retype s _
          ({ · with notNull := false, keyed := false })
          ({ · with notNull := false, keyed := false }) fun _ => rfl).symm
  | setDataType dataType usingExpr =>
      exact congrArg Except.ok (mapColumn_retype s _
        ({ · with dataType := f dataType }) ({ · with dataType := dataType })
        fun _ => rfl).symm
  | _ => rfl

theorem shapeOperation_retype (taken : List String) (s : Shape)
    (op : AlterTableOperation) :
    (shapeOperation d taken s op).map (Shape.retype f)
      = shapeOperation d taken (Shape.retype f s) (retypeOperation f op) := by
  cases op with
  | addConstraint con => exact declare_retype taken s con
  | addColumn kw ifNotExists c position =>
      simp only [shapeOperation, retypeOperation, has_retype]
      have hname : (retypeDef f c).name = c.name := rfl
      rw [hname]
      cases s.has d (d.ident c.name) with
      | true => cases ifNotExists <;> rfl
      | false =>
          cases position with
          | some text => rfl
          | none =>
              have hrun := map_foldlM (f := Shape.retype f)
                (declare_retype (d := d) taken)
                { s with columns := s.columns ++ [Column.ofDef c] }
                (inlineConstraints c)
              refine hrun.trans ?_
              simp only [Shape.retype, List.map_append]
              rfl
  | dropColumn name ifExists cascade =>
      simp only [shapeOperation, retypeOperation, has_retype,
        dropColumn_retype]
      cases s.has d (d.ident name) with
      | true => rfl
      | false => cases ifExists <;> rfl
  | renameColumn old new =>
      simp only [shapeOperation, retypeOperation, has_retype,
        renameColumn_retype]
      cases s.has d (d.ident old) with
      | false => rfl
      | true => cases s.has d (d.ident new) <;> rfl
  | alterColumn name op =>
      simp only [shapeOperation, retypeOperation, has_retype]
      cases s.has d (d.ident name) with
      | false => rfl
      | true => exact alterColumn_retype s name op
  | other text =>
      simp only [shapeOperation, retypeOperation]
      cases d.inertOperation text <;> rfl
  | _ => rfl

/-! ## Foreign keys -/

section Catalogs

variable [DecidableEq κ]

theorem lookup_retype (c : Catalog κ) (k : κ) :
    (Catalog.retype f c).lookup d k = (c.lookup d k).map (Table.retype f) := by
  rw [Catalog.lookup, Catalog.lookup, Catalog.retype, List.find?_map]
  rfl

theorem find_retype (c : Catalog κ) (k : κ) :
    (Catalog.retype f c).find d k = c.find d k := by
  rw [Catalog.find, Catalog.find, Catalog.retype, List.findIdx?_map]
  rfl

theorem isSome_lookup_retype (c : Catalog κ) (k : κ) :
    ((Catalog.retype f c).lookup d k).isSome = (c.lookup d k).isSome := by
  rw [lookup_retype, Option.isSome_map]

theorem parentOf_retype (c : Catalog κ) (t : Table κ) (k : κ) :
    (Catalog.retype f c).parentOf d (Table.retype f t) k
      = (c.parentOf d t k).map (Shape.retype f) := by
  have hkey : (Table.retype f t).key d = t.key d := rfl
  rw [Catalog.parentOf, Catalog.parentOf, hkey, lookup_retype]
  split
  · rfl
  · cases c.lookup d k <;> rfl

theorem addForeignKey_retype (c : Catalog κ) (t : Table κ)
    (con : TableConstraint) :
    (c.addForeignKey d t con).map (Table.retype f)
      = (Catalog.retype f c).addForeignKey d (Table.retype f t) con := by
  cases con with
  | foreignKey name cols foreignTable refs actions =>
      have hhas : ∀ s : Shape, (Shape.retype f s).has d = s.has d :=
        fun s => funext fun key => has_retype s key
      have htable : (Table.retype f t).has d = t.has d := hhas t.toShape
      simp only [Catalog.addForeignKey, parentOf_retype, htable]
      cases (cols.map d.ident).all (t.has d) with
      | false => rfl
      | true =>
          cases c.parentOf d t (d.table foreignTable) with
          | none => rfl
          | some parent =>
              have hrefs : referredColumns d (Shape.retype f parent) refs
                  = referredColumns d parent refs := rfl
              simp only [Option.map_some, hrefs, hhas, Bool.not_true,
                Bool.false_eq_true, if_false]
              cases referredColumns d parent refs with
              | none => rfl
              | some referred =>
                  simp only
                  split
                  · rfl
                  · rfl
  | _ => rfl

theorem addForeignKeys_retype (c : Catalog κ) (t : Table κ)
    (cons : List TableConstraint) :
    (cons.foldlM (c.addForeignKey d) t).map (Table.retype f)
      = cons.foldlM ((Catalog.retype f c).addForeignKey d)
        (Table.retype f t) :=
  map_foldlM (addForeignKey_retype c) t cons

omit [DecidableEq κ] in
/-- Changing foreign keys by the key of their table. -/
theorem mapForeignKeys_retype (c : Catalog κ)
    (h : κ → List (ForeignKey κ) → List (ForeignKey κ)) :
    (Catalog.retype f c).mapTables
        (fun t => { t with foreignKeys := h (t.key d) t.foreignKeys })
      = Catalog.retype f (c.mapTables
        fun t => { t with foreignKeys := h (t.key d) t.foreignKeys }) := by
  simp only [Catalog.mapTables, Catalog.retype, List.map_map]
  rfl

omit [DecidableEq κ] in
theorem anyForeignKey_retype (c : Catalog κ) (q : κ → ForeignKey κ → Bool) :
    (Catalog.retype f c).anyForeignKey d q = c.anyForeignKey d q := by
  rw [Catalog.anyForeignKey, Catalog.anyForeignKey, Catalog.retype,
    List.any_map]
  rfl

omit [DecidableEq κ] in
theorem dropDependents_retype (c : Catalog κ) (cascade : Bool)
    (blocks drops : κ → ForeignKey κ → Bool) :
    (c.dropDependents d cascade blocks drops).map (Catalog.retype f)
      = (Catalog.retype f c).dropDependents d cascade blocks drops := by
  rw [Catalog.dropDependents, Catalog.dropDependents, anyForeignKey_retype]
  split
  · rfl
  · exact congrArg Except.ok (mapForeignKeys_retype c
      fun owner fks => fks.filter fun fk => !drops owner fk).symm

omit [DecidableEq κ] in
theorem setTable_retype (c : Catalog κ) (i : Nat) (t : Table κ) :
    (Catalog.retype f c).setTable i (Table.retype f t)
      = Catalog.retype f (c.setTable i t) := by
  simp only [Catalog.setTable, Catalog.retype, List.map_set]

omit [DecidableEq κ] in
/-- A table put back, whatever was refused on the way. -/
theorem map_setTable_retype (c : Catalog κ) (i : Nat)
    {x y : Except Refusal (Table κ)} (h : x.map (Table.retype f) = y) :
    (c.setTable i <$> x).map (Catalog.retype f)
      = (Catalog.retype f c).setTable i <$> y := by
  rw [← h]
  cases x with
  | error e => rfl
  | ok t => exact congrArg Except.ok (setTable_retype c i t).symm

theorem foreignKeyEffect_retype (old : Shape) (i : Nat) (c : Catalog κ)
    (t : Table κ) (op : AlterTableOperation) :
    (foreignKeyEffect d old i c t op).map (Catalog.retype f)
      = foreignKeyEffect d (Shape.retype f old) i (Catalog.retype f c)
        (Table.retype f t) (retypeOperation f op) := by
  have hold : (Shape.retype f old).primaryKey = old.primaryKey := rfl
  have hkey : (Shape.retype f old).key d = old.key d := rfl
  cases op with
  | addConstraint con =>
      exact map_setTable_retype c i (addForeignKey_retype c t con)
  | addColumn kw ifNotExists column position =>
      have hname : (retypeDef f column).name = column.name := rfl
      simp only [foreignKeyEffect, retypeOperation, has_retype, hname]
      cases old.has d (d.ident column.name) with
      | true => rfl
      | false => exact map_setTable_retype c i (addForeignKeys_retype c t _)
  | dropColumn name ifExists cascade =>
      simp only [foreignKeyEffect, retypeOperation, has_retype, hkey]
      cases old.has d (d.ident name) with
      | false => rfl
      | true => exact dropDependents_retype c cascade _ _
  | dropConstraint ifExists name cascade =>
      simp only [foreignKeyEffect, retypeOperation, hold, hkey]
      cases old.primaryKey.filter fun pk => pk.name == d.ident name with
      | none => exact dropDependents_retype c cascade _ _
      | some pk => exact dropDependents_retype c cascade _ _
  | renameColumn oldName newName =>
      exact congrArg Except.ok (mapForeignKeys_retype c
        fun owner fks => fks.map (renameInForeignKey (old.key d)
          (d.ident oldName) (d.ident newName) owner)).symm
  | renameTable name =>
      have hany : ((Catalog.retype f c).tables.eraseIdx i).any
          (fun u => decide (u.key d = (Table.retype f t).key d))
          = (c.tables.eraseIdx i).any fun u => decide (u.key d = t.key d) := by
        rw [Catalog.retype, List.eraseIdx_map, List.any_map]
        rfl
      simp only [foreignKeyEffect, retypeOperation, hany]
      split
      · rfl
      · refine congrArg Except.ok ?_
        simp only [Catalog.retype, List.map_map]
        rfl
  | _ => rfl

/-! ## Statements -/

theorem execOperation_retype (i : Nat) (c : Catalog κ)
    (op : AlterTableOperation) :
    (execOperation d i c op).map (Catalog.retype f)
      = execOperation d i (Catalog.retype f c) (retypeOperation f op) := by
  have hget : (Catalog.retype f c).tables[i]?
      = c.tables[i]?.map (Table.retype f) := List.getElem?_map
  rw [execOperation, execOperation, hget]
  cases c.tables[i]? with
  | none => rfl
  | some t =>
      have hshape := shapeOperation_retype (d := d) (f := f)
        t.constraintNames t.toShape op
      have hsame : shapeOperation d (Table.retype f t).constraintNames
          (Table.retype f t).toShape (retypeOperation f op)
          = (shapeOperation d t.constraintNames t.toShape op).map
            (Shape.retype f) := hshape.symm
      simp only [Option.map_some, hsame]
      cases shapeOperation d t.constraintNames t.toShape op with
      | error e => rfl
      | ok s =>
          refine (foreignKeyEffect_retype _ i _ _ op).trans ?_
          rw [← setTable_retype]
          rfl

omit [DecidableEq κ] in
theorem declaredConstraints_retype (ct : CreateTable) :
    declaredConstraints { ct with columns := ct.columns.map (retypeDef f) }
      = declaredConstraints ct := by
  rw [declaredConstraints, declaredConstraints, List.flatMap_map]
  rfl

omit [DecidableEq κ] in
theorem createShape_retype {ct : CreateTable} (hown : copies ct = false)
    (shapes shapes' : List Shape) :
    (createShape d shapes ct).map (Shape.retype f) = createShape d shapes'
      { ct with columns := ct.columns.map (retypeDef f) } := by
  have hcolumns : (ct.columns.map (retypeDef f)).map Column.ofDef
      = (ct.columns.map Column.ofDef).map (Column.retype f) := by
    rw [List.map_map, List.map_map]
    rfl
  have hkeys : ((ct.columns.map Column.ofDef).map (Column.retype f)).map
      (Column.key d) = (ct.columns.map Column.ofDef).map (Column.key d) := by
    rw [List.map_map]
    rfl
  have hown' : copies { ct with columns := ct.columns.map (retypeDef f) }
      = false := hown
  rw [createShape_own hown, createShape_own hown']
  simp only [shapeWith, declaredConstraints_retype, hcolumns, hkeys]
  split
  · rfl
  · exact map_foldlM (declare_retype []) _ _

theorem createTable_retype (c : Catalog κ) {ct : CreateTable}
    (hown : copies ct = false) :
    (exec d c (.createTable ct)).map (Catalog.retype f)
      = exec d (Catalog.retype f c) (retype f (.createTable ct)) := by
  simp only [exec, retype, isSome_lookup_retype, declaredConstraints_retype]
  rw [← createShape_retype hown c.shapes]
  split
  · rfl
  · split
    · split
      · rfl
      · rfl
    · cases createShape d c.shapes ct with
      | error e => rfl
      | ok s =>
          have hkeys := addForeignKeys_retype (d := d) (f := f) c ⟨s, []⟩
            (declaredConstraints ct)
          have hbind : ∀ x : Except Refusal (Table κ),
              (x >>= fun t => pure { c with tables := c.tables ++ [t] }).map
                  (Catalog.retype f)
                = x.map (Table.retype f) >>= fun t =>
                  pure { Catalog.retype f c with
                    tables := (Catalog.retype f c).tables ++ [t] } := by
            intro x
            cases x with
            | error e => rfl
            | ok t =>
                refine congrArg Except.ok ?_
                simp only [Catalog.retype, List.map_append]
                rfl
          refine (hbind _).trans ?_
          rw [hkeys]
          rfl

theorem dropTables_retype (c : Catalog κ) (ifExists : Bool)
    (names : List ObjectName) (cascade : Bool) :
    (c.dropTables d ifExists names cascade).map (Catalog.retype f)
      = (Catalog.retype f c).dropTables d ifExists names cascade := by
  have hrest : ∀ keep : κ → Bool,
      (⟨(Catalog.retype f c).tables.filter fun t => keep (t.key d),
        c.indexes.filter fun ix => keep ix.table⟩ : Catalog κ)
      = Catalog.retype f ⟨c.tables.filter fun t => keep (t.key d),
        c.indexes.filter fun ix => keep ix.table⟩ := by
    intro keep
    simp only [Catalog.retype, List.filter_map]
    rfl
  have hindexes : (Catalog.retype f c).indexes = c.indexes := rfl
  simp only [Catalog.dropTables, lookup_retype, Option.isNone_map,
    Option.isSome_map, hindexes]
  generalize (names.map d.table).filter (fun k => (c.lookup d k).isSome)
    = dropped
  split
  · rfl
  · rw [hrest fun k => !dropped.contains k, anyForeignKey_retype]
    split
    · rfl
    · exact congrArg Except.ok (mapForeignKeys_retype (d := d) _ fun _ fks =>
        fks.filter fun fk => !dropped.contains fk.parent).symm

/-- The statement creates no table with columns from elsewhere. -/
def CopiesNone : Statement → Prop
  | .createTable ct => copies ct = false
  | _ => True

/-- **TYPES DO NOT MATTER TO EXECUTION**: replacing them before is replacing
    them after, refusals included. -/
theorem execTables_retype (c : Catalog κ) {s : Statement}
    (hown : CopiesNone s) :
    (execTables d c s).map (Catalog.retype f)
      = execTables d (Catalog.retype f c) (retype f s) := by
  cases s with
  | createTable ct => exact createTable_retype c hown
  | alterTable name ifExists only operations clauses =>
      simp only [execTables, exec, retype, find_retype]
      cases c.find d (d.table name) with
      | none => cases ifExists <;> rfl
      | some i =>
          simp only [List.foldlM_map]
          exact map_foldlM (execOperation_retype i) c operations
  | drop kind ifExists names cascade restrict =>
      cases kind with
      | table => exact dropTables_retype c ifExists names cascade
      | other kind =>
          simp only [execTables, exec, retype]
          split
          · rfl
          · rfl
  | createIndex ci => rfl
  | other sql =>
      simp only [execTables, exec, retype]
      split
      · rfl
      · rfl

theorem run_retype {stmts : List Statement}
    (hown : ∀ s ∈ stmts, CopiesNone s) (c : Catalog κ) :
    (stmts.foldlM (execTables d) c).map (Catalog.retype f)
      = (stmts.map (retype f)).foldlM (execTables d) (Catalog.retype f c) := by
  induction stmts generalizing c with
  | nil => rfl
  | cons s stmts ih =>
      rw [List.map_cons, List.foldlM_cons, List.foldlM_cons,
        ← execTables_retype c (hown s List.mem_cons_self)]
      cases execTables d c s with
      | error e => rfl
      | ok c' => exact ih (fun s hs => hown s (List.mem_cons_of_mem _ hs)) c'

/-! ## Up to types -/

/-- The catalog without its types. -/
def untyped (c : Catalog κ) : Catalog κ := Catalog.retype (fun _ => .text) c

omit [DecidableEq κ] in
/-- The rewriter replaces types, and nothing else. -/
theorem retype_withNative (b : Backend) (s : Statement) :
    retype (fun _ => .text) (withNative b s) = retype (fun _ => .text) s := by
  cases s with
  | createTable ct =>
      simp only [withNative, retype, List.map_map]
      rfl
  | alterTable name ifExists only operations clauses =>
      simp only [withNative, retype, List.map_map]
      congr 1
      refine List.map_congr_left fun op _ => ?_
      cases op <;> rfl
  | _ => rfl

omit [DecidableEq κ] in
theorem copiesNone_withNative {b : Backend} {s : Statement}
    (h : CopiesNone s) : CopiesNone (withNative b s) := by
  cases s <;> exact h

theorem run_untyped (b : Backend) {stmts : List Statement}
    (hown : ∀ s ∈ stmts, CopiesNone s) (c : Catalog κ) :
    (stmts.foldlM (fun c s => execTables d c (withNative b s)) c).map untyped
      = (stmts.foldlM (execTables d) c).map untyped := by
  have hsame : (stmts.map (withNative b)).map (retype fun _ => .text)
      = stmts.map (retype fun _ => .text) := by
    rw [List.map_map]
    exact List.map_congr_left fun s _ => retype_withNative b s
  have hown' : ∀ s ∈ stmts.map (withNative b), CopiesNone s :=
    List.forall_mem_map.mpr fun s hs => copiesNone_withNative (hown s hs)
  have hnative := run_retype (d := d) (f := fun _ => .text) hown' c
  rw [hsame, ← run_retype hown, List.foldlM_map] at hnative
  exact hnative

/-! ## With types -/

/-- The operation sets no type of a column that is there. -/
def KeepsType : AlterTableOperation → Prop
  | .alterColumn _ (.setDataType _ _) => False
  | .changeColumn _ _ _ _ _ | .modifyColumn _ _ _ _ => False
  | _ => True

def KeepsTypes : Statement → Prop
  | .alterTable _ _ _ operations _ => ∀ op ∈ operations, KeepsType op
  | _ => True

omit [DecidableEq κ] in
theorem withNative_eq {b : Backend} {s : Statement} (h : KeepsTypes s) :
    withNative b s = retype (nativeOr b) s := by
  cases s with
  | alterTable name ifExists only operations clauses =>
      simp only [withNative, retype]
      congr 1
      refine List.map_congr_left fun op hop => ?_
      have hkeeps := h op hop
      cases op with
      | alterColumn column change =>
          cases change with
          | setDataType dataType usingExpr => exact hkeeps.elim
          | _ => rfl
      | changeColumn _ _ _ _ _ => exact hkeeps.elim
      | modifyColumn _ _ _ _ => exact hkeeps.elim
      | _ => rfl
  | _ => rfl

/-- A type as it is if it is mapped. -/
def mappedOr (dt : DataType) : DataType :=
  if (mapType dt).isSome then dt else .text

omit [DecidableEq κ] in
theorem mappedOr_fixed {dt : DataType} :
    mappedOr dt = dt ↔ ∃ row, mapType dt = some row := by
  rw [mappedOr, ← Option.isSome_iff_exists]
  split
  · next h => exact iff_of_true rfl h
  · next h =>
    refine iff_of_false ?_ h
    rintro rfl
    exact h rfl

omit [DecidableEq κ] in
theorem retype_mapped {s : Statement} (h : AllMapped (columnTypes s))
    (hkeeps : KeepsTypes s) : retype mappedOr s = s := by
  have hdef : ∀ c : ColumnDef, (∃ row, mapType c.dataType = some row) →
      retypeDef mappedOr c = c := by
    intro c hc
    rw [retypeDef, mappedOr_fixed.mpr hc]
  cases s with
  | createTable ct =>
      have hcolumns : ct.columns.map (retypeDef mappedOr) = ct.columns := by
        refine (List.map_congr_left fun c hc => ?_).trans (List.map_id _)
        exact hdef c (h _ (List.mem_map_of_mem hc))
      rw [retype, hcolumns]
  | alterTable name ifExists only operations clauses =>
      have hoperations : operations.map (retypeOperation mappedOr)
          = operations := by
        refine (List.map_congr_left fun op hop => ?_).trans (List.map_id _)
        have hop' := hkeeps op hop
        cases op with
        | addColumn kw ifNotExists c position =>
            have hc : c.dataType ∈ columnTypes
                (.alterTable name ifExists only operations clauses) :=
              List.mem_filterMap.mpr ⟨_, hop, rfl⟩
            rw [retypeOperation, hdef c (h _ hc)]
            rfl
        | alterColumn column change =>
            cases change with
            | setDataType dataType usingExpr => exact hop'.elim
            | _ => rfl
        | changeColumn _ _ _ _ _ => exact hop'.elim
        | modifyColumn _ _ _ _ => exact hop'.elim
        | _ => rfl
      rw [retype, hoperations]
  | _ => rfl

/-- Statements with mapped types leave a catalog of mapped types. -/
theorem run_mapped {stmts : List Statement} {c : Catalog κ}
    (hmapped : ∀ s ∈ stmts, AllMapped (columnTypes s))
    (hkeeps : ∀ s ∈ stmts, KeepsTypes s) (hown : ∀ s ∈ stmts, CopiesNone s)
    (h : stmts.foldlM (execTables d) Catalog.empty = .ok c) :
    ∀ t ∈ c.tables, ∀ col ∈ t.columns,
      ∃ row, mapType col.dataType = some row := by
  -- the replacement that changes unmapped types changes nothing
  have hstmts : stmts.map (retype mappedOr) = stmts :=
    (List.map_congr_left fun s hs =>
      retype_mapped (hmapped s hs) (hkeeps s hs)).trans (List.map_id _)
  have hrun := run_retype (d := d) (f := mappedOr) hown Catalog.empty
  have hempty : Catalog.retype mappedOr (Catalog.empty : Catalog κ)
      = Catalog.empty := rfl
  rw [hstmts, hempty, h] at hrun
  have hfixed : c.tables.map (Table.retype mappedOr) = c.tables :=
    congrArg Catalog.tables (Except.ok.inj hrun)
  intro t ht col hcol
  have htable : Table.retype mappedOr t = id t :=
    List.map_inj_left.mp (hfixed.trans (List.map_id _).symm) t ht
  have hcolumns : t.columns.map (Column.retype mappedOr) = t.columns :=
    congrArg (fun t : Table κ => t.columns) htable
  have hcolumn : Column.retype mappedOr col = id col :=
    List.map_inj_left.mp (hcolumns.trans (List.map_id _).symm) col hcol
  exact mappedOr_fixed.mp (congrArg Column.dataType hcolumn)

/-! ## The trees -/

/-- A database that reads names as `d` does and executes what it accepts as the
    catalog does.  It may refuse more: SQLite has no `ADD PRIMARY KEY`, no
    `ALTER COLUMN` and one operation in an `ALTER TABLE`. -/
structure Database (d : Dialect κ) where
  step : Catalog κ → Statement → Except Refusal (Catalog κ)
  sound : ∀ c s c', step c s = .ok c' → exec d c s = .ok c'

/-- The database executes one piece of a tree. -/
def Database.piece (db : Database d) (raw : Raw κ) (c : Catalog κ) :
    Piece → Except Refusal (Catalog κ)
  | .statement s => db.step c s
  | .block text => raw c text

/-- The database executes `b`'s tree, which leaves the catalog `c`; the tagged
    blocks have no part in its tables. -/
def Executes (db : Database d) (raw : Raw κ) (p : Sqlparser) (b : Backend)
    (ms : List Migration) (c : Catalog κ) : Prop :=
  ∃ ps, treePieces p b ms = .ok ps ∧ Quiet raw ps ∧
    ps.foldlM (db.piece raw) Catalog.empty = .ok c

theorem Executes.leaves {db : Database d} {raw : Raw κ} {p : Sqlparser}
    {b : Backend} {ms : List Migration} {c : Catalog κ}
    (h : Executes db raw p b ms c) : Leaves d raw p b ms c := by
  obtain ⟨ps, hps, hquiet, hrun⟩ := h
  refine ⟨ps, hps, hquiet, foldlM_view id (fun c piece c' hstep => ?_) hrun⟩
  cases piece with
  | statement s => exact db.sound c s c' hstep
  | block text => exact hstep

/-- What a backend's tree leaves, as the statements themselves leave it. -/
theorem tables_of_leaves {raw : Raw κ} {p : Sqlparser} {b : Backend}
    {ms : List Migration} {stmts : List Statement} {c : Catalog κ}
    (hstmts : allStatements p ms = .ok stmts)
    (hown : ∀ s ∈ stmts, CopiesNone s) (h : Leaves d raw p b ms c) :
    ∃ c₀, stmts.foldlM (execTables d) Catalog.empty = .ok c₀ ∧
      untyped c.bare = untyped c₀ ∧
      ((∀ s ∈ stmts, KeepsTypes s) →
        c.bare = Catalog.retype (nativeOr b) c₀) := by
  have hrun := leaves_statements h hstmts
  have huntyped := run_untyped (d := d) b hown Catalog.empty
  rw [hrun] at huntyped
  obtain ⟨c₀, hc₀, hsame⟩ := map_ok.mp huntyped.symm
  refine ⟨c₀, hc₀, hsame.symm, fun hkeeps => ?_⟩
  -- the rewriter replaces the types that the catalog keeps
  have hnative := run_retype (d := d) (f := nativeOr b) hown Catalog.empty
  rw [hc₀, ← List.map_congr_left fun s hs => withNative_eq (hkeeps s hs),
    List.foldlM_map] at hnative
  exact Except.ok.inj (hrun.symm.trans hnative.symm)

/-- **THE BACKENDS GO IN LOCKSTEP**: when two databases, each with refusals of
    its own, execute the two trees of an accepted history, they have the same
    tables up to column types.  If no statement alters a type, a column has the
    native types of one row of the mapping table, that of its type in the
    statements. -/
theorem backends_in_lockstep {p : Sqlparser} {ms : List Migration}
    {g : Generated} {stmts : List Statement} (d : Dialect κ)
    {postgres sqlite : Database d} {rawPg rawSq : Raw κ} {cpg csq : Catalog κ}
    (hg : generate p ms = .ok g) (hstmts : allStatements p ms = .ok stmts)
    (hown : ∀ s ∈ stmts, CopiesNone s)
    (hpg : Executes postgres rawPg p .postgres ms cpg)
    (hsq : Executes sqlite rawSq p .sqlite ms csq) :
    untyped cpg.bare = untyped csq.bare ∧
    ((∀ s ∈ stmts, KeepsTypes s) → ∃ c : Catalog κ,
      stmts.foldlM (execTables d) Catalog.empty = .ok c ∧
      cpg.bare = Catalog.retype (nativeOr .postgres) c ∧
      csq.bare = Catalog.retype (nativeOr .sqlite) c ∧
      ∀ t ∈ c.tables, ∀ col ∈ t.columns, ∃ row,
        mapType col.dataType = some row ∧
        ∀ b, nativeOr b col.dataType = DataType.ofNative (row.native b)) := by
  obtain ⟨c, hc, hsame, htyped⟩ := tables_of_leaves hstmts hown hpg.leaves
  obtain ⟨c', hc', hsame', htyped'⟩ := tables_of_leaves hstmts hown hsq.leaves
  cases Except.ok.inj (hc.symm.trans hc')
  refine ⟨hsame.trans hsame'.symm, fun hkeeps =>
    ⟨c, hc, htyped hkeeps, htyped' hkeeps, fun t ht col hcol => ?_⟩⟩
  obtain ⟨stmts', hstmts', hmapped⟩ := accepted_mapped hg
  cases Except.ok.inj (hstmts.symm.trans hstmts')
  obtain ⟨row, hrow⟩ := run_mapped hmapped hkeeps hown hc t ht col hcol
  exact ⟨row, hrow, fun b => nativeOr_of_row hrow⟩

end Catalogs

section Runs

open DualdbSqlText

/-- Accepts one operation in an `ALTER TABLE`, as SQLite does. -/
def oneOperation : Database folding where
  step c s :=
    match s with
    | .alterTable _ _ _ (_ :: _ :: _) _ => .error .unsupported
    | _ => exec folding c s
  sound c s c' h := by
    split at h
    · exact absurd h error_ne_ok
    · exact h

def wholeLanguage : Database folding where
  step := exec folding
  sound _ _ _ := id

def lockstepParser : Sqlparser := parserOf
  [("CREATE TABLE t (a UUID)\n",
      [createTable (bare "t") [col "a" .uuid []] []]),
    ("ALTER TABLE t ADD COLUMN b JSONB\n",
      [alterTable (bare "t") [addColumn (col "b" .jsonb [])]])]

def grown : List Migration :=
  [⟨"1", "CREATE TABLE t (a UUID)", none⟩,
    ⟨"2", "ALTER TABLE t ADD COLUMN b JSONB", none⟩]

def grownStatements : List Statement :=
  [createTable (bare "t") [col "a" .uuid []] [],
    alterTable (bare "t") [addColumn (col "b" .jsonb [])]]

def grownPieces (b : Backend) : List Piece :=
  grownStatements.map fun s => .statement (withNative b s)

theorem grown_pieces (b : Backend) :
    treePieces lockstepParser b grown = .ok (grownPieces b) := by
  cases b <;> decide +kernel

theorem exists_grown (db : Database folding) (b : Backend)
    (h : ((grownPieces b).foldlM (db.piece noRaw) Catalog.empty).isOk = true) :
    ∃ c, Executes db noRaw lockstepParser b grown c := by
  obtain ⟨c, hc⟩ := exists_ok_of_isOk h
  exact ⟨c, _, grown_pieces b, fun text _ => noRaw_quiet text, hc⟩

theorem backends_in_lockstep_of_grown :
    ∃ cpg csq, Executes wholeLanguage noRaw lockstepParser .postgres grown cpg ∧
      Executes oneOperation noRaw lockstepParser .sqlite grown csq ∧
      untyped cpg.bare = untyped csq.bare ∧ ∃ c : Catalog (List String),
        cpg.bare = Catalog.retype (nativeOr .postgres) c ∧
        csq.bare = Catalog.retype (nativeOr .sqlite) c := by
  obtain ⟨g, hg⟩ := exists_ok_of_isOk (x := generate lockstepParser grown)
    (by decide +kernel)
  have hstmts : allStatements lockstepParser grown = .ok grownStatements := by
    decide +kernel
  obtain ⟨cpg, hpg⟩ := exists_grown wholeLanguage .postgres (by decide +kernel)
  obtain ⟨csq, hsq⟩ := exists_grown oneOperation .sqlite (by decide +kernel)
  have hown : ∀ s ∈ grownStatements, CopiesNone s :=
    List.forall_mem_cons.mpr ⟨rfl, List.forall_mem_singleton.mpr trivial⟩
  have hkeeps : ∀ s ∈ grownStatements, KeepsTypes s :=
    List.forall_mem_cons.mpr ⟨trivial, List.forall_mem_singleton.mpr
      (List.forall_mem_singleton.mpr trivial)⟩
  obtain ⟨hsame, htyped⟩ :=
    backends_in_lockstep folding hg hstmts hown hpg hsq
  obtain ⟨c, -, hcpg, hcsq, -⟩ := htyped hkeeps
  exact ⟨cpg, csq, hpg, hsq, hsame, c, hcpg, hcsq⟩

end Runs

end DualdbLockstep
