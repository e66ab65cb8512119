import DieselDualdb.CatalogLinks
import DieselDualdb.EmittedRun
import DieselDualdb.SqlText

/-!
# What a `joinable!` means

Every `joinable!(child -> parent (col))` is printed from a recorded foreign key.
It means what it says (`Means`) when the catalog the tree leaves has a live link
under these names and the parent's `table!` block prints the link's target as
its whole key.

The model records a join for every column of every foreign key it reads, looks
at no referenced column, and forgets none.  So a step must declare joins that
are links to a primary key (`DeclaresJoin`), unless they are there already, and
must spare a link of every join recorded before.
-/

namespace DualdbJoin

open DualdbAst DualdbTypeMap DualdbModel DualdbRender DualdbMigration
open DualdbRewrite DualdbCatalog DualdbEmitted DualdbLinks
open FallibleRun FirstUpdate

variable {κ : Type} [DecidableEq κ]

/-! ## Printed joins -/

def Join.line (j : Join) : String :=
  "diesel::joinable!(" ++ j.child ++ " -> " ++ j.parent ++ " (" ++ j.col
    ++ "));"

/-- The joins of `schema.rs`. -/
def printedJoins (m : Model) : List Join :=
  m.tables.flatMap fun t => t.foreignKeys.map fun fk => ⟨t.name, fk.1, fk.2⟩

theorem joinables_eq (m : Model) :
    m.tables.flatMap joinables = (printedJoins m).map Join.line := by
  simp only [printedJoins, List.map_flatMap, List.map_map]
  rfl

/-- The key tuple of the block of that name. -/
def printedKey (m : Model) (name : String) : Option (List String) :=
  (m.tables.find? fun t => t.name == name).map ModelTable.primaryKeyCols

/-- The parts of the link fit together and to the names. -/
def Fits (d : Dialect κ) (j : Join) (l : Link κ) : Prop :=
  (lastIdent l.child.name = j.child ∧ l.column.name.value = j.col
    ∧ lastIdent l.parent.name = j.parent) ∧
  (l.foreignKey.columns = [l.column.key d]
    ∧ l.foreignKey.parent = l.parent.key d
    ∧ l.foreignKey.referred = l.key.columns
    ∧ l.key.columns = [l.target.key d])

/-- The join is a link of the catalog that satisfies `P`, and its target is the
    key that the parent's block prints. -/
def Means (d : Dialect κ) (m : Model) (c : Catalog κ) (j : Join)
    (P : Link κ → Prop) : Prop :=
  ∃ child ∈ c.tables, ∃ column ∈ child.columns, ∃ fk ∈ child.foreignKeys,
    ∃ parent ∈ c.tables, ∃ key ∈ parent.primaryKey,
      ∃ target ∈ parent.columns,
        Fits d j ⟨child, column, fk, parent, key, target⟩ ∧
        printedKey m j.parent = some [target.name.value] ∧
        P ⟨child, column, fk, parent, key, target⟩

instance (d : Dialect κ) (j : Join) (l : Link κ) : Decidable (Fits d j l) :=
  inferInstanceAs (Decidable (_ ∧ _))

instance (d : Dialect κ) (m : Model) (c : Catalog κ) (j : Join)
    (P : Link κ → Prop) [DecidablePred P] : Decidable (Means d m c j P) :=
  inferInstanceAs (Decidable (∃ child ∈ c.tables, _))

omit [DecidableEq κ] in
theorem means_iff {d : Dialect κ} {m : Model} {c : Catalog κ} {j : Join}
    {P : Link κ → Prop} :
    Means d m c j P ↔ ∃ l : Link κ, l.Live d c j ∧
      printedKey m j.parent = some [l.target.name.value] ∧ P l := by
  constructor
  · rintro ⟨child, hchild, column, hcolumn, fk, hfk, parent, hparent, key,
      hkey, target, htarget, ⟨⟨h₁, h₂, h₃⟩, h₄, h₅, h₆, h₇⟩, hprinted, hP⟩
    exact ⟨⟨child, column, fk, parent, key, target⟩, ⟨hchild, hcolumn, hfk,
      hparent, hkey, htarget, h₁, h₂, h₃, h₄, h₅, h₆, h₇⟩, hprinted, hP⟩
  · rintro ⟨l, hl, hprinted, hP⟩
    exact ⟨l.child, hl.child_mem, l.column, hl.column_mem, l.foreignKey,
      hl.foreignKey_mem, l.parent, hl.parent_mem, l.key, hl.key_mem,
      l.target, hl.target_mem,
      ⟨⟨hl.child_name, hl.column_name, hl.parent_name⟩, hl.single, hl.refers,
        hl.referred, hl.whole⟩, hprinted, hP⟩

/-- Every printed join means what it says. -/
def Joined (d : Dialect κ) (m : Model) (c : Catalog κ) : Prop :=
  ∀ j ∈ printedJoins m, Means d m c j fun _ => True

/-! ## The conditions on a step -/

/-- The key tuple that a `CREATE TABLE` prints. -/
def createdKey (ct : CreateTable) : List String :=
  match constraintKey (ct.columns.flatMap inlineKey) ct.constraints with
  | [] => (ct.columns.head?.map fun c => c.name.value).toList
  | key => key

/-- The key tuples after a `CREATE TABLE`. -/
def keyAfterCreate (m : Model) (ct : CreateTable) (name : String) :
    Option (List String) :=
  (printedKey m name).or
    (if lastIdent ct.name = name then some (createdKey ct) else none)

def emittedCreate (b : Backend) (ct : CreateTable) : CreateTable :=
  { ct with columns := ct.columns.map (ColumnDef.withNative b) }

/-- A foreign key of a `CREATE TABLE` that takes effect declares a join. -/
def CreatesJoin (d : Dialect κ) (b : Backend) (c : Catalog κ) (m : Model)
    (ct : CreateTable) (i : Ident) (cols : List Ident) (ft : ObjectName)
    (refs : List Ident) : Prop :=
  (c.lookup d (d.table ct.name)).isNone ∧
    match createShape d c.shapes (emittedCreate b ct) with
    | .ok s => DeclaresJoin d s (c.parentOf d ⟨s, []⟩ (d.table ft))
        (keyAfterCreate m ct (lastIdent ft)) (lastIdent ct.name) i cols ft refs
    | .error _ => False

/-- Each column of a foreign key is joined already, or declared a join. -/
def CreateJoins (d : Dialect κ) (b : Backend) (c : Catalog κ) (m : Model)
    (ct : CreateTable) : TableConstraint → Prop
  | .foreignKey _ cols ft refs _ => ∀ i ∈ cols,
      Means d m c ⟨lastIdent ct.name, i.value, lastIdent ft⟩ (fun _ => True)
        ∨ CreatesJoin d b c m ct i cols ft refs
  | _ => True

/-- The same for `ADD CONSTRAINT` on the table `x`, where a block takes the
    join in. -/
def AddsJoins (d : Dialect κ) (tname : String) (x : Table κ) (c : Catalog κ)
    (m : Model) : AlterTableOperation → Prop
  | .addConstraint (.foreignKey _ cols ft refs _) =>
      (∃ t ∈ m.tables, t.name = tname) → ∀ i ∈ cols,
        Means d m c ⟨tname, i.value, lastIdent ft⟩ (fun _ => True)
          ∨ DeclaresJoin d x.toShape (c.parentOf d x (d.table ft))
            (printedKey m (lastIdent ft)) tname i cols ft refs
  | _ => True

/-- The block called `tname` keeps the column that the join's parent prints as
    its key. -/
def SparesKey (tname : String) (j : Join) (l : Link κ) :
    AlterTableOperation → Prop
  | .dropColumn name _ _ =>
      j.parent = tname → l.target.name.value ≠ name.value
  | _ => True

/-- A step that spares the links satisfying `P` spares a link of every printed
    join that has one. -/
def SparesJoins (d : Dialect κ) (m : Model) (c : Catalog κ)
    (P : Join → Link κ → Prop) : Prop :=
  ∀ j ∈ printedJoins m,
    Means d m c j (fun _ => True) → Means d m c j (P j)

/-- The condition on one operation on table `i`: a join keeps a link, and a
    declared foreign key is a join. -/
def OperationJoins (d : Dialect κ) (i : Nat) (tname : String)
    (c : Catalog κ) (m : Model) (op : AlterTableOperation) : Prop :=
  ∀ x ∈ c.tables[i]?,
    SparesJoins d m c
      (fun j l => Spares d x.toShape l op ∧ SparesKey tname j l op) ∧
    AddsJoins d tname x c m op

/-- Operations that neither record a join nor drop a column. -/
def Unread : AlterTableOperation → Prop
  | .addConstraint con => constraintForeignKeys con = []
  | .dropColumn _ _ _ => False
  | _ => True

def operationStep (d : Dialect κ) (b : Backend) (i : Nat) (c : Catalog κ)
    (op : AlterTableOperation) : Except Refusal (Catalog κ) :=
  execOperation d i c (operationWithNative b op)

/-- The condition on one statement. -/
def JoinStep (d : Dialect κ) (b : Backend) (p : Sqlparser) (c : Catalog κ)
    (m : Model) : Statement → Prop
  | .createTable ct =>
      ∀ con ∈ declaredConstraints ct, CreateJoins d b c m ct con
  | .alterTable name _ _ ops _ =>
      match c.find d (d.table name) with
      | some i =>
          Along₂ (operationStep d b i)
            (Model.applyOperation p (lastIdent name))
            (OperationJoins d i (lastIdent name)) c m ops
      | none =>
          (∀ t ∈ m.tables, t.name ≠ lastIdent name)
            ∨ ∀ op ∈ ops, Unread op
  | .drop .table _ names _ _ => SparesJoins d m c fun _ l =>
      l.child.key d ∉ names.map d.table ∧ l.parent.key d ∉ names.map d.table
  | _ => True

/-! ## The model's side of a step -/

/-! ## One operation -/

omit [DecidableEq κ] in
theorem spares_withNative {d : Dialect κ} {b : Backend} {x : Shape}
    {l : Link κ} {op : AlterTableOperation} (h : Spares d x l op) :
    Spares d x l (operationWithNative b op) := by
  cases op <;> exact h

/-! ## Statements and runs -/

omit [DecidableEq κ] in
/-- A join means the same when tables and keys are still there. -/
theorem Means.mono {d : Dialect κ} {m m' : Model} {c c' : Catalog κ}
    {j : Join} {P : Link κ → Prop} (h : Means d m c j P)
    (htables : c.tables ⊆ c'.tables)
    (hkeys : ∀ n v, printedKey m n = some [v] → printedKey m' n = some [v]) :
    Means d m' c' j P := by
  obtain ⟨l, hl, hprinted, hP⟩ := means_iff.mp h
  exact means_iff.mpr ⟨l, hl.mono htables, hkeys _ _ hprinted, hP⟩

/-! ## Runs on fixed histories -/

instance (d : Dialect κ) (child : Shape) (parent : Option Shape)
    (tuple : Option (List String)) (childName : String) (i : Ident)
    (cols : List Ident) (ft : ObjectName) (refs : List Ident) :
    Decidable (DeclaresJoin d child parent tuple childName i cols ft refs) :=
  inferInstanceAs (Decidable (_ ∧ _))

instance (d : Dialect κ) (b : Backend) (c : Catalog κ) (m : Model)
    (ct : CreateTable) (i : Ident) (cols : List Ident) (ft : ObjectName)
    (refs : List Ident) :
    Decidable (CreatesJoin d b c m ct i cols ft refs) := by
  rw [CreatesJoin]
  cases createShape d c.shapes (emittedCreate b ct) with
  | ok s => exact inferInstance
  | error e => exact inferInstance

instance (d : Dialect κ) (b : Backend) (c : Catalog κ) (m : Model)
    (ct : CreateTable) : ∀ con, Decidable (CreateJoins d b c m ct con)
  | .foreignKey _ cols ft refs _ =>
      inferInstanceAs (Decidable (∀ i ∈ cols,
        Means d m c ⟨lastIdent ct.name, i.value, lastIdent ft⟩ (fun _ => True)
          ∨ CreatesJoin d b c m ct i cols ft refs))
  | .unique _ _ _ | .primaryKey _ _ _ | .check _ _ | .other _ =>
      isTrue trivial

instance (d : Dialect κ) (tname : String) (x : Table κ) (c : Catalog κ)
    (m : Model) : ∀ op, Decidable (AddsJoins d tname x c m op)
  | .addConstraint (.foreignKey _ cols ft refs _) =>
      inferInstanceAs (Decidable ((∃ t ∈ m.tables, t.name = tname) →
        ∀ i ∈ cols,
          Means d m c ⟨tname, i.value, lastIdent ft⟩ (fun _ => True)
            ∨ DeclaresJoin d x.toShape (c.parentOf d x (d.table ft))
              (printedKey m (lastIdent ft)) tname i cols ft refs))
  | .addConstraint (.unique _ _ _) | .addConstraint (.primaryKey _ _ _)
  | .addConstraint (.check _ _) | .addConstraint (.other _)
  | .addColumn _ _ _ _ | .dropColumn _ _ _ | .dropConstraint _ _ _
  | .dropPrimaryKey | .renameColumn _ _ | .renameTable _
  | .changeColumn _ _ _ _ _ | .modifyColumn _ _ _ _ | .alterColumn _ _
  | .other _ => isTrue trivial

instance (d : Dialect κ) (x : Shape) (l : Link κ) :
    ∀ op, Decidable (Spares d x l op)
  | .dropColumn name _ _ | .renameColumn name _ =>
      inferInstanceAs (Decidable
        ((l.child.key d = x.key d → l.column.key d ≠ d.ident name) ∧
          (l.parent.key d = x.key d → l.target.key d ≠ d.ident name)))
  | .dropConstraint _ name _ =>
      inferInstanceAs (Decidable
        ((l.child.key d = x.key d → l.foreignKey.name ≠ d.ident name) ∧
          (l.parent.key d = x.key d →
            ∀ pk ∈ x.primaryKey, pk.name ≠ d.ident name)))
  | .renameTable _ =>
      inferInstanceAs (Decidable
        (l.child.key d ≠ x.key d ∧ l.parent.key d ≠ x.key d))
  | .addConstraint _ | .addColumn _ _ _ _ | .dropPrimaryKey
  | .changeColumn _ _ _ _ _ | .modifyColumn _ _ _ _ | .alterColumn _ _
  | .other _ => isTrue trivial

instance (tname : String) (j : Join) (l : Link κ) :
    ∀ op, Decidable (SparesKey tname j l op)
  | .dropColumn name _ _ =>
      inferInstanceAs (Decidable
        (j.parent = tname → l.target.name.value ≠ name.value))
  | .addConstraint _ | .addColumn _ _ _ _ | .dropConstraint _ _ _
  | .dropPrimaryKey | .renameColumn _ _ | .renameTable _
  | .changeColumn _ _ _ _ _ | .modifyColumn _ _ _ _ | .alterColumn _ _
  | .other _ => isTrue trivial

instance (d : Dialect κ) (m : Model) (c : Catalog κ)
    (P : Join → Link κ → Prop) [∀ j, DecidablePred (P j)] :
    Decidable (SparesJoins d m c P) :=
  inferInstanceAs (Decidable (∀ j ∈ printedJoins m, _))

instance (d : Dialect κ) (i : Nat) (tname : String) (c : Catalog κ)
    (m : Model) (op : AlterTableOperation) :
    Decidable (OperationJoins d i tname c m op) :=
  inferInstanceAs (Decidable (∀ x ∈ c.tables[i]?, _))

instance : DecidablePred Unread
  | .addConstraint con =>
      inferInstanceAs (Decidable (constraintForeignKeys con = []))
  | .dropColumn _ _ _ => isFalse id
  | .addColumn _ _ _ _ | .dropConstraint _ _ _ | .dropPrimaryKey
  | .renameColumn _ _ | .renameTable _ | .changeColumn _ _ _ _ _
  | .modifyColumn _ _ _ _ | .alterColumn _ _ | .other _ => isTrue trivial

instance (d : Dialect κ) (b : Backend) (p : Sqlparser) (c : Catalog κ)
    (m : Model) : ∀ s, Decidable (JoinStep d b p c m s)
  | .createTable ct =>
      decidable_of_iff
        (∀ con ∈ declaredConstraints ct, CreateJoins d b c m ct con) Iff.rfl
  | .alterTable name _ _ ops _ =>
      match h : c.find d (d.table name) with
      | some i =>
          decidable_of_iff (Along₂ (operationStep d b i)
            (Model.applyOperation p (lastIdent name))
            (OperationJoins d i (lastIdent name)) c m ops)
            (by simp only [JoinStep, h])
      | none =>
          decidable_of_iff ((∀ t ∈ m.tables, t.name ≠ lastIdent name)
            ∨ ∀ op ∈ ops, Unread op)
            (by simp only [JoinStep, h])
  | .drop .table _ names _ _ =>
      decidable_of_iff (SparesJoins d m c fun _ l =>
        l.child.key d ∉ names.map d.table
          ∧ l.parent.key d ∉ names.map d.table) Iff.rfl
  | .drop (.other _) _ _ _ _ | .createIndex _ | .other _ => isTrue trivial

section Runs

open DualdbSqlText

def joinParser : Sqlparser := parserOf
  [("CREATE TABLE p (id INT PRIMARY KEY)\n",
      [createTable (bare "p") [col "id" (.int none) [pk]] []]),
    ("CREATE TABLE c (a INT REFERENCES p, b INT)\n",
      [createTable (bare "c")
        [col "a" (.int none) [.foreignKey (bare "p") [] ""],
          col "b" (.int none) []] []]),
    ("ALTER TABLE c DROP COLUMN b\n",
      [alterTable (bare "c") [.dropColumn (Ident.new "b") false false]]),
    ("CREATE TABLE p (id INT PRIMARY KEY, e TEXT UNIQUE)\n",
      [createTable (bare "p") [col "id" (.int none) [pk],
        col "e" .text [.unique false ""]] []]),
    ("CREATE TABLE c (a TEXT REFERENCES p (e))\n",
      [createTable (bare "c")
        [col "a" .text [.foreignKey (bare "p") [Ident.new "e"] ""]] []])]

def joinHistory : List Migration :=
  [⟨"1", "CREATE TABLE p (id INT PRIMARY KEY)", none⟩,
    ⟨"2", "CREATE TABLE c (a INT REFERENCES p, b INT)", none⟩,
    ⟨"3", "ALTER TABLE c DROP COLUMN b", none⟩]

def joinStatements : List Statement :=
  [createTable (bare "p") [col "id" (.int none) [pk]] [],
    createTable (bare "c")
      [col "a" (.int none) [.foreignKey (bare "p") [] ""],
        col "b" (.int none) []] [],
    alterTable (bare "c") [.dropColumn (Ident.new "b") false false]]

def emailHistory : List Migration :=
  [⟨"1", "CREATE TABLE p (id INT PRIMARY KEY, e TEXT UNIQUE)", none⟩,
    ⟨"2", "CREATE TABLE c (a TEXT REFERENCES p (e))", none⟩]

end Runs

end DualdbJoin
