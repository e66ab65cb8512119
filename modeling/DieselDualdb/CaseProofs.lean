import DieselDualdb.DanglingProofs
import DieselDualdb.NameProofs

/-!
# Two spellings of one history

SQL does not tell unquoted names apart by their ASCII case.  `Respelled`
relates two statements that differ in nothing else, each name on its own.
`Model.apply` compares names as texts: the target of an `ALTER TABLE` with the
tables' names, a dropped column with the columns'.  Where these comparisons
come out alike (`StatementAlike`), two spellings are accepted together and
leave the same model up to case (`respelled_runs`).
-/

namespace DualdbCase

open DualdbAst DualdbTypeMap DualdbModel DualdbDangling
open FallibleRun FirstUpdate Pointwise
open DualdbName (asciiLower)

/-! ## Statements that differ in the case of unquoted names -/

/-- The same text up to ASCII case: a name, or a clause with names in it. -/
def SameUpToCase (s s' : String) : Prop := asciiLower s = asciiLower s'

instance (s s' : String) : Decidable (SameUpToCase s s') :=
  inferInstanceAs (Decidable (_ = _))

/-- A quoted name keeps its case. -/
structure IdentRespelled (i i' : Ident) : Prop where
  quoteStyle : i.quoteStyle = i'.quoteStyle
  value : SameUpToCase i.value i'.value
  quoted : i.quoteStyle ≠ none → i.value = i'.value

def NameRespelled (n n' : ObjectName) : Prop :=
  List.Forall₂ IdentRespelled n.parts n'.parts

def IdentsRespelled (is is' : List Ident) : Prop :=
  List.Forall₂ IdentRespelled is is'

inductive DataTypeRespelled : DataType → DataType → Prop where
  | same (dt : DataType) : DataTypeRespelled dt dt
  | custom {name name' : ObjectName} (modifiers : List String)
      (hname : NameRespelled name name') :
      DataTypeRespelled (.custom name modifiers) (.custom name' modifiers)
  | other {debug debug' : String} (h : SameUpToCase debug debug') :
      DataTypeRespelled (.other debug) (.other debug')

inductive OptionRespelled : ColumnOption → ColumnOption → Prop where
  | null : OptionRespelled .null .null
  | notNull : OptionRespelled .notNull .notNull
  | default {e e' : Expr} (h : SameUpToCase e e') :
      OptionRespelled (.default e) (.default e')
  | unique (isPrimary : Bool) {cl cl' : Clause} (h : SameUpToCase cl cl') :
      OptionRespelled (.unique isPrimary cl) (.unique isPrimary cl')
  | foreignKey {table table' : ObjectName} {cols cols' : List Ident}
      {cl cl' : Clause} (htable : NameRespelled table table')
      (hcols : IdentsRespelled cols cols') (h : SameUpToCase cl cl') :
      OptionRespelled (.foreignKey table cols cl) (.foreignKey table' cols' cl')
  | check {e e' : Expr} (h : SameUpToCase e e') :
      OptionRespelled (.check e) (.check e')
  | other {cl cl' : Clause} (h : SameUpToCase cl cl') :
      OptionRespelled (.other cl) (.other cl')

structure OptionDefRespelled (o o' : ColumnOptionDef) : Prop where
  name : Option.Rel IdentRespelled o.name o'.name
  option : OptionRespelled o.option o'.option

structure ColumnRespelled (c c' : ColumnDef) : Prop where
  name : IdentRespelled c.name c'.name
  dataType : DataTypeRespelled c.dataType c'.dataType
  collation : Option.Rel NameRespelled c.collation c'.collation
  options : List.Forall₂ OptionDefRespelled c.options c'.options

inductive ConstraintRespelled : TableConstraint → TableConstraint → Prop where
  | unique {n n' : Option Ident} {cols cols' : List Ident} {cl cl' : Clause}
      (hname : Option.Rel IdentRespelled n n')
      (hcols : IdentsRespelled cols cols') (h : SameUpToCase cl cl') :
      ConstraintRespelled (.unique n cols cl) (.unique n' cols' cl')
  | primaryKey {n n' : Option Ident} {cols cols' : List Ident}
      {cl cl' : Clause} (hname : Option.Rel IdentRespelled n n')
      (hcols : IdentsRespelled cols cols') (h : SameUpToCase cl cl') :
      ConstraintRespelled (.primaryKey n cols cl) (.primaryKey n' cols' cl')
  | foreignKey {n n' : Option Ident} {cols cols' refs refs' : List Ident}
      {table table' : ObjectName} {cl cl' : Clause}
      (hname : Option.Rel IdentRespelled n n')
      (hcols : IdentsRespelled cols cols') (htable : NameRespelled table table')
      (hrefs : IdentsRespelled refs refs') (h : SameUpToCase cl cl') :
      ConstraintRespelled (.foreignKey n cols table refs cl)
        (.foreignKey n' cols' table' refs' cl')
  | check {n n' : Option Ident} {e e' : Expr}
      (hname : Option.Rel IdentRespelled n n') (h : SameUpToCase e e') :
      ConstraintRespelled (.check n e) (.check n' e')
  | other {cl cl' : Clause} (h : SameUpToCase cl cl') :
      ConstraintRespelled (.other cl) (.other cl')

inductive AlterColumnRespelled :
    AlterColumnOperation → AlterColumnOperation → Prop where
  | setNotNull : AlterColumnRespelled .setNotNull .setNotNull
  | dropNotNull : AlterColumnRespelled .dropNotNull .dropNotNull
  | setDefault {e e' : Expr} (h : SameUpToCase e e') :
      AlterColumnRespelled (.setDefault e) (.setDefault e')
  | dropDefault : AlterColumnRespelled .dropDefault .dropDefault
  | setDataType {dt dt' : DataType} {e e' : Option Expr}
      (htype : DataTypeRespelled dt dt') (h : Option.Rel SameUpToCase e e') :
      AlterColumnRespelled (.setDataType dt e) (.setDataType dt' e')
  | addGenerated {cl cl' : Clause} (h : SameUpToCase cl cl') :
      AlterColumnRespelled (.addGenerated cl) (.addGenerated cl')

inductive OperationRespelled :
    AlterTableOperation → AlterTableOperation → Prop where
  | addConstraint {con con' : TableConstraint}
      (h : ConstraintRespelled con con') :
      OperationRespelled (.addConstraint con) (.addConstraint con')
  | addColumn (kw ine : Bool) {c c' : ColumnDef} {pos pos' : Option Clause}
      (hcolumn : ColumnRespelled c c') (h : Option.Rel SameUpToCase pos pos') :
      OperationRespelled (.addColumn kw ine c pos) (.addColumn kw ine c' pos')
  | dropColumn {c c' : Ident} (ie cascade : Bool) (h : IdentRespelled c c') :
      OperationRespelled (.dropColumn c ie cascade) (.dropColumn c' ie cascade)
  | dropConstraint (ie : Bool) {n n' : Ident} (cascade : Bool)
      (h : IdentRespelled n n') :
      OperationRespelled (.dropConstraint ie n cascade)
        (.dropConstraint ie n' cascade)
  | dropPrimaryKey : OperationRespelled .dropPrimaryKey .dropPrimaryKey
  | renameColumn {old old' new new' : Ident} (hold : IdentRespelled old old')
      (hnew : IdentRespelled new new') :
      OperationRespelled (.renameColumn old new) (.renameColumn old' new')
  | renameTable {n n' : ObjectName} (h : NameRespelled n n') :
      OperationRespelled (.renameTable n) (.renameTable n')
  | changeColumn {old old' new new' : Ident} {dt dt' : DataType}
      {opts opts' : List ColumnOption} {pos pos' : Option Clause}
      (hold : IdentRespelled old old') (hnew : IdentRespelled new new')
      (htype : DataTypeRespelled dt dt')
      (hopts : List.Forall₂ OptionRespelled opts opts')
      (h : Option.Rel SameUpToCase pos pos') :
      OperationRespelled (.changeColumn old new dt opts pos)
        (.changeColumn old' new' dt' opts' pos')
  | modifyColumn {c c' : Ident} {dt dt' : DataType}
      {opts opts' : List ColumnOption} {pos pos' : Option Clause}
      (hcolumn : IdentRespelled c c') (htype : DataTypeRespelled dt dt')
      (hopts : List.Forall₂ OptionRespelled opts opts')
      (h : Option.Rel SameUpToCase pos pos') :
      OperationRespelled (.modifyColumn c dt opts pos)
        (.modifyColumn c' dt' opts' pos')
  | alterColumn {c c' : Ident} {op op' : AlterColumnOperation}
      (hcolumn : IdentRespelled c c') (h : AlterColumnRespelled op op') :
      OperationRespelled (.alterColumn c op) (.alterColumn c' op')
  | other {cl cl' : Clause} (h : SameUpToCase cl cl') :
      OperationRespelled (.other cl) (.other cl')

structure CreateRespelled (ct ct' : CreateTable) : Prop where
  orReplace : ct.orReplace = ct'.orReplace
  ifNotExists : ct.ifNotExists = ct'.ifNotExists
  name : NameRespelled ct.name ct'.name
  columns : List.Forall₂ ColumnRespelled ct.columns ct'.columns
  constraints :
    List.Forall₂ ConstraintRespelled ct.constraints ct'.constraints
  query : Option.Rel SameUpToCase ct.query ct'.query
  like : Option.Rel NameRespelled ct.like ct'.like
  clone : Option.Rel NameRespelled ct.clone ct'.clone
  clauses : SameUpToCase ct.clauses ct'.clauses

structure IndexRespelled (ix ix' : CreateIndex) : Prop where
  name : Option.Rel NameRespelled ix.name ix'.name
  tableName : NameRespelled ix.tableName ix'.tableName
  columns : List.Forall₂ SameUpToCase ix.columns ix'.columns
  unique : ix.unique = ix'.unique
  ifNotExists : ix.ifNotExists = ix'.ifNotExists
  clauses : SameUpToCase ix.clauses ix'.clauses

/-- The same statement, its unquoted names written in another case. -/
inductive Respelled : Statement → Statement → Prop where
  | createTable {ct ct' : CreateTable} (h : CreateRespelled ct ct') :
      Respelled (.createTable ct) (.createTable ct')
  | alterTable {name name' : ObjectName} (ie only : Bool)
      {ops ops' : List AlterTableOperation} {cl cl' : Clause}
      (hname : NameRespelled name name')
      (hops : List.Forall₂ OperationRespelled ops ops')
      (h : SameUpToCase cl cl') :
      Respelled (.alterTable name ie only ops cl)
        (.alterTable name' ie only ops' cl')
  | drop (type : ObjectType) (ie : Bool) {names names' : List ObjectName}
      (cascade restrict : Bool)
      (hnames : List.Forall₂ NameRespelled names names') :
      Respelled (.drop type ie names cascade restrict)
        (.drop type ie names' cascade restrict)
  | createIndex {ix ix' : CreateIndex} (h : IndexRespelled ix ix') :
      Respelled (.createIndex ix) (.createIndex ix')
  | other {sql sql' : Clause} (h : SameUpToCase sql sql') :
      Respelled (.other sql) (.other sql')

/-! ## Models that differ in the case of names -/

structure ColumnAlike (c c' : ModelColumn) : Prop where
  name : SameUpToCase c.name c'.name
  marker : c.marker = c'.marker
  nullable : c.nullable = c'.nullable

def JoinAlike (fk fk' : String × String) : Prop :=
  SameUpToCase fk.1 fk'.1 ∧ SameUpToCase fk.2 fk'.2

structure TableAlike (t t' : ModelTable) : Prop where
  name : SameUpToCase t.name t'.name
  columns : List.Forall₂ ColumnAlike t.columns t'.columns
  primaryKey : List.Forall₂ SameUpToCase t.primaryKey t'.primaryKey
  foreignKeys : List.Forall₂ JoinAlike t.foreignKeys t'.foreignKeys

/-- Equal up to the ASCII case of names. -/
def ModelAlike (m m' : Model) : Prop :=
  List.Forall₂ TableAlike m.tables m'.tables

/-! ## Names -/

theorem lastIdent_alike {n n' : ObjectName} (h : NameRespelled n n') :
    SameUpToCase (lastIdent n) (lastIdent n') := by
  obtain ⟨parts⟩ := n
  obtain ⟨parts'⟩ := n'
  have hparts : List.Forall₂ IdentRespelled parts.reverse parts'.reverse :=
    List.rel_reverse h
  rw [lastIdent, lastIdent, ← List.head?_reverse, ← List.head?_reverse]
  generalize parts.reverse = ps at hparts ⊢
  generalize parts'.reverse = ps' at hparts ⊢
  cases hparts with
  | nil => rfl
  | cons hi _ => exact hi.value

theorem mapType_respelled {dt dt' : DataType} (h : DataTypeRespelled dt dt') :
    mapType dt = mapType dt' := by
  cases h <;> rfl

/-! ## `CREATE TABLE` -/

theorem isNotNull_respelled {o o' : ColumnOptionDef}
    (h : OptionDefRespelled o o') : isNotNull o = isNotNull o' := by
  obtain ⟨name, option⟩ := o
  obtain ⟨name', option'⟩ := o'
  have hoption : OptionRespelled option option' := h.option
  cases hoption <;> rfl

/-- What the options of two spellings accumulate. -/
structure ScanAlike (s s' : OptionScan) : Prop where
  nullable : s.nullable = s'.nullable
  primaryKey : List.Forall₂ SameUpToCase s.primaryKey s'.primaryKey
  foreignKeys : List.Forall₂ JoinAlike s.foreignKeys s'.foreignKeys

theorem scanOption_alike {c c' : Ident} (hc : IdentRespelled c c')
    {s s' : OptionScan} (hs : ScanAlike s s') {o o' : ColumnOptionDef}
    (ho : OptionDefRespelled o o') :
    ScanAlike (scanOption c s o) (scanOption c' s' o') := by
  obtain ⟨name, option⟩ := o
  obtain ⟨name', option'⟩ := o'
  have hoption : OptionRespelled option option' := ho.option
  cases hoption with
  | notNull => exact { hs with nullable := rfl }
  | unique isPrimary h =>
      cases isPrimary with
      | true =>
          exact ⟨rfl, forall₂_snoc hs.primaryKey hc.value, hs.foreignKeys⟩
      | false => exact hs
  | foreignKey htable _ _ =>
      exact { hs with
        foreignKeys :=
          forall₂_snoc hs.foreignKeys ⟨hc.value, lastIdent_alike htable⟩ }
  | null | default _ | check _ | other _ => exact hs

theorem scanOptions_alike {c c' : Ident} (hc : IdentRespelled c c')
    {os os' : List ColumnOptionDef} (h : List.Forall₂ OptionDefRespelled os os')
    {s s' : OptionScan} (hs : ScanAlike s s') :
    ScanAlike (os.foldl (scanOption c) s) (os'.foldl (scanOption c') s') := by
  induction h generalizing s s' with
  | nil => exact hs
  | cons ho _ ih => exact ih (scanOption_alike hc hs ho)

theorem pushColumn_alike {p : Sqlparser} {t t' : ModelTable}
    {c c' : ColumnDef} (ht : TableAlike t t') (hc : ColumnRespelled c c') :
    RelOk TableAlike (t.pushColumn p c) (t'.pushColumn p c') := by
  rw [ModelTable.pushColumn, ModelTable.pushColumn,
    mapType_respelled hc.dataType]
  cases mapType c'.dataType with
  | none => exact .error
  | some row =>
      have hempty : ScanAlike ⟨true, t.primaryKey, t.foreignKeys⟩
          ⟨true, t'.primaryKey, t'.foreignKeys⟩ :=
        ⟨rfl, ht.primaryKey, ht.foreignKeys⟩
      have hscan := scanOptions_alike hc.name hc.options hempty
      exact .ok ⟨ht.name,
        forall₂_snoc ht.columns ⟨hc.name.value, rfl, hscan.nullable⟩,
        hscan.primaryKey, hscan.foreignKeys⟩

theorem values_alike {is is' : List Ident} (h : IdentsRespelled is is') :
    List.Forall₂ SameUpToCase (is.map Ident.value) (is'.map Ident.value) := by
  rw [List.forall₂_map_left_iff, List.forall₂_map_right_iff]
  exact h.imp fun _ _ hi => hi.value

/-- The joins of a foreign key over a list of columns. -/
theorem joins_alike {is is' : List Ident} {n n' : ObjectName}
    (his : IdentsRespelled is is') (hn : NameRespelled n n') :
    List.Forall₂ JoinAlike (is.map fun c => (c.value, lastIdent n))
      (is'.map fun c => (c.value, lastIdent n')) := by
  rw [List.forall₂_map_left_iff, List.forall₂_map_right_iff]
  exact his.imp fun _ _ hi => ⟨hi.value, lastIdent_alike hn⟩

theorem pushConstraint_alike {t t' : ModelTable} (ht : TableAlike t t')
    {con con' : TableConstraint} (h : ConstraintRespelled con con') :
    TableAlike (t.pushConstraint con) (t'.pushConstraint con') := by
  cases h with
  | primaryKey _ hcols _ => exact { ht with primaryKey := values_alike hcols }
  | foreignKey _ hcols htable _ _ =>
      exact { ht with
        foreignKeys := List.rel_append ht.foreignKeys
          (joins_alike hcols htable) }
  | unique _ _ _ | check _ _ | other _ => exact ht

theorem pushConstraints_alike {cons cons' : List TableConstraint}
    (h : List.Forall₂ ConstraintRespelled cons cons') {t t' : ModelTable}
    (ht : TableAlike t t') :
    TableAlike (cons.foldl ModelTable.pushConstraint t)
      (cons'.foldl ModelTable.pushConstraint t') := by
  induction h generalizing t t' with
  | nil => exact ht
  | cons hcon _ ih => exact ih (pushConstraint_alike ht hcon)

theorem ofCreate_alike {p : Sqlparser} {ct ct' : CreateTable}
    (h : CreateRespelled ct ct') :
    RelOk TableAlike (ModelTable.ofCreate p ct) (ModelTable.ofCreate p ct') := by
  have hempty : TableAlike ⟨lastIdent ct.name, [], [], []⟩
      ⟨lastIdent ct'.name, [], [], []⟩ :=
    ⟨lastIdent_alike h.name, .nil, .nil, .nil⟩
  refine RelOk.bind (R := TableAlike) ?_ fun t t' ht =>
    .ok (pushConstraints_alike h.constraints ht)
  exact run_relOk (P := fun _ _ _ => True) h.columns hempty
    (along₂_of_forall _ _ _ fun _ _ _ _ => trivial)
    fun _ _ _ _ ht hc _ => pushColumn_alike ht hc

/-! ## `ALTER TABLE` -/

/-- The answers a search for the table gets. -/
def tableAnswers (tname : String) (m : Model) : List Bool :=
  m.tables.map fun t => t.name == tname

/-- The answers a search for a column of that table gets. -/
def columnAnswers (tname column : String) (m : Model) : Option (List Bool) :=
  (Model.named m tname).map fun t => t.columns.map fun c => c.name == column

/-- The operations for which the model looks its table up. -/
def looksUp : AlterTableOperation → Bool
  | .addColumn _ _ _ _ | .dropColumn _ _ _
  | .addConstraint (.foreignKey _ _ _ _ _) => true
  | _ => false

def droppedColumn : AlterTableOperation → Option Ident
  | .dropColumn c _ _ => some c
  | _ => none

/-- The comparisons the model makes for an operation come out alike. -/
structure OperationAlike (tname tname' : String) (m m' : Model)
    (q : AlterTableOperation × AlterTableOperation) : Prop where
  tables : looksUp q.1 = true →
    tableAnswers tname m = tableAnswers tname' m'
  columns : ∀ c ∈ droppedColumn q.1, ∀ c' ∈ droppedColumn q.2,
    columnAnswers tname c.value m = columnAnswers tname' c'.value m'

theorem tableMut_alike {m m' : Model} {tname tname' : String}
    {f g : ModelTable → ModelTable} (hm : ModelAlike m m')
    (hanswers : tableAnswers tname m = tableAnswers tname' m')
    (hfg : ∀ t t', TableAlike t t' → Model.named m tname = some t →
      Model.named m' tname' = some t' → TableAlike (f t) (g t')) :
    Option.Rel ModelAlike (m.tableMut tname f) (m'.tableMut tname' g) := by
  have hrel := rel_updateFirst hm hanswers hfg
  rw [Model.tableMut, Model.tableMut]
  generalize updateFirst (fun t => t.name == tname) f m.tables = ts at hrel
  generalize updateFirst (fun t => t.name == tname') g m'.tables = ts' at hrel
  cases hrel with
  | none => exact .none
  | some h => exact .some h

theorem getD_alike {m m' : Model} {x y : Option Model}
    (h : Option.Rel ModelAlike x y) (hm : ModelAlike m m') :
    ModelAlike (x.getD m) (y.getD m') := by
  cases h with
  | none => exact hm
  | some h => exact h

/-- A filter that gets the same answers keeps the same columns. -/
theorem filter_alike {cs cs' : List ModelColumn} {n n' : String}
    (h : List.Forall₂ ColumnAlike cs cs')
    (hanswers : cs.map (fun c => c.name == n) = cs'.map fun c => c.name == n') :
    List.Forall₂ ColumnAlike (cs.filter (·.name != n))
      (cs'.filter (·.name != n')) := by
  induction h with
  | nil => exact .nil
  | @cons c c' cs cs' hc _ ih =>
      rw [List.map_cons, List.map_cons, List.cons.injEq] at hanswers
      obtain ⟨hhead, htail⟩ := hanswers
      rw [List.filter_cons, List.filter_cons, bne, bne, hhead]
      split
      · exact .cons hc (ih htail)
      · exact ih htail

/-- **ONE OPERATION, TWO SPELLINGS.** -/
theorem applyOperation_alike {p : Sqlparser} {tname tname' : String}
    {m m' : Model} {op op' : AlterTableOperation} (hm : ModelAlike m m')
    (h : OperationRespelled op op')
    (hanswers : OperationAlike tname tname' m m' (op, op')) :
    RelOk ModelAlike (m.applyOperation p tname op)
      (m'.applyOperation p tname' op') := by
  cases h with
  | @addColumn kw ine c c' pos pos' hcolumn _ =>
      simp only [Model.applyOperation, mapType_respelled hcolumn.dataType]
      cases mapType c'.dataType with
      | none => exact .error
      | some row =>
          have hnull : (!c.options.any isNotNull) = !c'.options.any isNotNull := by
            have hopts := hcolumn.options
            generalize c.options = os at hopts ⊢
            generalize c'.options = os' at hopts ⊢
            induction hopts with
            | nil => rfl
            | cons ho _ ih =>
                rw [List.any_cons, List.any_cons, Bool.not_or, Bool.not_or, ih,
                  isNotNull_respelled ho]
          have hrel := tableMut_alike hm (hanswers.tables rfl)
            (f := fun t => { t with columns := t.columns
              ++ [⟨c.name.value, row.marker, !c.options.any isNotNull⟩] })
            (g := fun t => { t with columns := t.columns
              ++ [⟨c'.name.value, row.marker, !c'.options.any isNotNull⟩] })
            fun t t' ht _ _ => { ht with
              columns := forall₂_snoc ht.columns
                ⟨hcolumn.name.value, rfl, hnull⟩ }
          dsimp only
          generalize m.tableMut tname _ = x at hrel ⊢
          generalize m'.tableMut tname' _ = y at hrel ⊢
          cases hrel with
          | none => exact .error
          | some hrel => exact .ok hrel
  | @dropColumn c c' ie cascade hc =>
      refine .ok (getD_alike (tableMut_alike hm (hanswers.tables rfl) ?_) hm)
      intro t t' ht hnamed hnamed'
      have hcolumns := hanswers.columns c rfl c' rfl
      rw [columnAnswers, columnAnswers, hnamed, hnamed'] at hcolumns
      exact { ht with
        columns := filter_alike ht.columns (Option.some.inj hcolumns) }
  | addConstraint hcon =>
      cases hcon with
      | foreignKey _ hcols htable _ _ =>
          refine .ok (getD_alike
            (tableMut_alike hm (hanswers.tables rfl) ?_) hm)
          intro t t' ht _ _
          exact { ht with
            foreignKeys := List.rel_append ht.foreignKeys
              (joins_alike hcols htable) }
      | unique _ _ _ | primaryKey _ _ _ | check _ _ | other _ => exact .ok hm
  | dropConstraint _ _ _ | dropPrimaryKey | renameColumn _ _ | renameTable _
  | changeColumn _ _ _ _ _ | modifyColumn _ _ _ _ | alterColumn _ _
  | other _ => exact .ok hm

/-! ## Runs -/

/-- The comparisons the model makes for a statement come out alike, each
    operation on the models before it. -/
def StatementAlike (p : Sqlparser) (m m' : Model) : Statement × Statement → Prop
  | (.alterTable name _ _ ops _, .alterTable name' _ _ ops' _) =>
      Along₂ (fun m q => m.applyOperation p (lastIdent name) q.1)
        (fun m q => m.applyOperation p (lastIdent name') q.2)
        (OperationAlike (lastIdent name) (lastIdent name')) m m' (ops.zip ops')
  | _ => True

/-- One statement, two spellings. -/
theorem apply_alike {p : Sqlparser} {m m' : Model} {s s' : Statement}
    (hm : ModelAlike m m') (h : Respelled s s')
    (hanswers : StatementAlike p m m' (s, s')) :
    RelOk ModelAlike (m.apply p s) (m'.apply p s') := by
  cases h with
  | createTable hct =>
      exact (ofCreate_alike hct).bind fun t t' ht => .ok (forall₂_snoc hm ht)
  | alterTable ie only hname hops _ =>
      exact run_relOk hops hm hanswers fun _ _ _ _ hm hop hop' =>
        applyOperation_alike hm hop hop'
  | drop _ _ _ _ _ | createIndex _ | other _ => exact .ok hm

/-- **TWO SPELLINGS OF ONE HISTORY** are accepted together and leave the same
    model up to case, if at every step the comparisons come out alike. -/
theorem respelled_runs {p : Sqlparser} {stmts stmts' : List Statement}
    (h : List.Forall₂ Respelled stmts stmts')
    (hanswers : Along₂ (fun m q => m.apply p q.1) (fun m q => m.apply p q.2)
      (StatementAlike p) Model.empty Model.empty (stmts.zip stmts')) :
    RelOk ModelAlike (stmts.foldlM (Model.apply p) Model.empty)
      (stmts'.foldlM (Model.apply p) Model.empty) :=
  run_relOk h (R := ModelAlike) .nil hanswers fun _ _ _ _ hm hs hs' =>
    apply_alike hm hs hs'

instance (tname tname' : String) (m m' : Model)
    (q : AlterTableOperation × AlterTableOperation) :
    Decidable (OperationAlike tname tname' m m' q) :=
  decidable_of_iff
    ((looksUp q.1 = true → tableAnswers tname m = tableAnswers tname' m') ∧
      ∀ c ∈ (droppedColumn q.1).toList, ∀ c' ∈ (droppedColumn q.2).toList,
        columnAnswers tname c.value m = columnAnswers tname' c'.value m')
    ⟨fun h => ⟨h.1, fun c hc c' hc' => h.2 c (Option.mem_toList.mpr hc) c'
        (Option.mem_toList.mpr hc')⟩,
      fun h => ⟨h.tables, fun c hc c' hc' => h.columns c
        (Option.mem_toList.mp hc) c' (Option.mem_toList.mp hc')⟩⟩

instance (p : Sqlparser) (m m' : Model) :
    ∀ q, Decidable (StatementAlike p m m' q)
  | (.alterTable name _ _ ops _, .alterTable name' _ _ ops' _) =>
      inferInstanceAs (Decidable
        (Along₂ (fun m q => m.applyOperation p (lastIdent name) q.1)
          (fun m q => m.applyOperation p (lastIdent name') q.2)
          (OperationAlike (lastIdent name) (lastIdent name')) m m'
          (ops.zip ops')))
  | (.alterTable _ _ _ _ _, .createTable _)
  | (.alterTable _ _ _ _ _, .drop _ _ _ _ _)
  | (.alterTable _ _ _ _ _, .createIndex _)
  | (.alterTable _ _ _ _ _, .other _)
  | (.createTable _, _) | (.drop _ _ _ _ _, _) | (.createIndex _, _)
  | (.other _, _) => isTrue trivial

section Statements

open DualdbSqlText

/-- `CREATE TABLE t (a INT); ALTER TABLE t' ADD COLUMN b INT` -/
def createAndAdd (t a t' b : String) : List Statement :=
  [createTable (bare t) [col a (.int none) []] [],
    alterTable (bare t') [addColumn (col b (.int none) [])]]

theorem createAndAdd_respelled {t a t' b u c u' d : String}
    (htu : SameUpToCase t u) (hac : SameUpToCase a c)
    (htu' : SameUpToCase t' u') (hbd : SameUpToCase b d) :
    List.Forall₂ Respelled (createAndAdd t a t' b) (createAndAdd u c u' d) := by
  have hident : ∀ {n n'}, SameUpToCase n n' →
      IdentRespelled (Ident.new n) (Ident.new n') :=
    fun h => ⟨rfl, h, fun hq => absurd rfl hq⟩
  have hcol : ∀ {n n'}, SameUpToCase n n' →
      ColumnRespelled (col n (.int none) []) (col n' (.int none) []) :=
    fun h => ⟨hident h, .same _, .none, .nil⟩
  refine .cons (.createTable ⟨rfl, rfl, .cons (hident htu) .nil,
    .cons (hcol hac) .nil, .nil, .none, .none, .none, rfl⟩)
    (.cons (.alterTable _ _ (.cons (hident htu') .nil) ?_ rfl) .nil)
  exact .cons (.addColumn _ _ (hcol hbd) .none) .nil

theorem respelled_runs_of_upper_case :
    RelOk ModelAlike
      ((createAndAdd "t" "a" "t" "b").foldlM (Model.apply (parserOf []))
        Model.empty)
      ((createAndAdd "T" "A" "T" "B").foldlM (Model.apply (parserOf []))
        Model.empty) :=
  respelled_runs (createAndAdd_respelled (by decide) (by decide) (by decide)
    (by decide)) (by decide +kernel)

/-- The target of an `ALTER TABLE` in another case is an unknown table. -/
theorem alter_in_upper_case_is_refused :
    List.Forall₂ Respelled (createAndAdd "t" "a" "t" "b")
        (createAndAdd "t" "a" "T" "b") ∧
      (∃ m, (createAndAdd "t" "a" "t" "b").foldlM (Model.apply (parserOf []))
        Model.empty = .ok m) ∧
      (createAndAdd "t" "a" "T" "b").foldlM (Model.apply (parserOf []))
        Model.empty = .error "ALTER on unknown table `T`" := by
  refine ⟨createAndAdd_respelled rfl rfl (by decide) rfl, ?_, ?_⟩
  · exact exists_ok_of_isOk (by decide +kernel)
  · decide +kernel

end Statements

end DualdbCase
