import DieselDualdb.JoinProofs

/-!
# When the `joinable!`s are coherent

A `joinable!(a -> b (c))` joins the pair of tables in both directions, so a
schema file may hold one for each unordered pair of tables and none from a
table to itself (`Coherent`).  The generator prints one for every column of
every foreign key it reads, at three places, over the whole history.

`declaredKeys` lists those foreign keys from the statements alone.  Along any
accepted history the printed joins are the declared ones, column by column, up
to order (`printedJoins_perm`), so they are coherent exactly when the declared
keys are `Separated`: on one column, to another table, and no two between the
same tables.
-/

namespace DualdbCoherence

open DualdbAst DualdbTypeMap DualdbModel DualdbRender DualdbMigration
open DualdbLinks DualdbJoin DualdbSqlText FallibleRun FirstUpdate RustStr

/-! ## Coherent joins -/

/-- The two joins connect the same two tables, in either direction. -/
def SamePair (j k : Join) : Prop :=
  (j.child = k.child ∧ j.parent = k.parent) ∨
    (j.child = k.parent ∧ j.parent = k.child)

instance (j k : Join) : Decidable (SamePair j k) :=
  decidable_of_iff ((j.child = k.child ∧ j.parent = k.parent) ∨
    (j.child = k.parent ∧ j.parent = k.child)) Iff.rfl

theorem SamePair.symm {j k : Join} (h : SamePair j k) : SamePair k j := by
  rcases h with ⟨h₁, h₂⟩ | ⟨h₁, h₂⟩
  · exact Or.inl ⟨h₁.symm, h₂.symm⟩
  · exact Or.inr ⟨h₂.symm, h₁.symm⟩

structure Coherent (js : List Join) : Prop where
  no_self : ∀ j ∈ js, j.child ≠ j.parent
  one_each : js.Pairwise fun j k => ¬ SamePair j k

theorem Coherent.perm_iff {js ks : List Join} (h : js.Perm ks) :
    Coherent js ↔ Coherent ks := by
  have hone : js.Pairwise (fun j k => ¬ SamePair j k) ↔
      ks.Pairwise fun j k => ¬ SamePair j k :=
    h.pairwise_iff fun hjk hkj => hjk hkj.symm
  constructor
  · intro hc
    exact ⟨fun j hj => hc.no_self j (h.mem_iff.mpr hj), hone.mp hc.one_each⟩
  · intro hc
    exact ⟨fun j hj => hc.no_self j (h.mem_iff.mp hj), hone.mpr hc.one_each⟩

/-! ## Declared foreign keys -/

/-- A foreign key as a statement declares it.  It has a first column, so a key
    without columns cannot be built. -/
structure DeclaredKey where
  child : String
  column : String
  /-- The further columns of a composite key. -/
  more : List String
  parent : String
deriving DecidableEq

/-- One join for each column. -/
def DeclaredKey.joins (k : DeclaredKey) : List Join :=
  (k.column :: k.more).map fun col => ⟨k.child, col, k.parent⟩

/-- The key that a table constraint of `child` declares. -/
def constraintDeclares (child : String) : TableConstraint → Option DeclaredKey
  | .foreignKey _ (col :: cols) foreignTable _ _ =>
      some ⟨child, col.value, cols.map Ident.value, lastIdent foreignTable⟩
  | _ => none

/-- The key that an option of the column `col` of `child` declares. -/
def optionDeclares (child : String) (col : Ident) (opt : ColumnOptionDef) :
    Option DeclaredKey :=
  match opt.option with
  | .foreignKey foreignTable _ _ =>
      some ⟨child, col.value, [], lastIdent foreignTable⟩
  | _ => none

def operationDeclares (child : String) :
    AlterTableOperation → Option DeclaredKey
  | .addConstraint con => constraintDeclares child con
  | _ => none

/-- The keys a statement declares, where `known` are the tables created
    before it. -/
def statementDeclares (known : List String) : Statement → List DeclaredKey
  | .createTable ct =>
      ct.columns.flatMap (fun c =>
        c.options.filterMap (optionDeclares (lastIdent ct.name) c.name))
      ++ ct.constraints.filterMap (constraintDeclares (lastIdent ct.name))
  | .alterTable name _ _ ops _ =>
      if lastIdent name ∈ known then
        ops.filterMap (operationDeclares (lastIdent name))
      else []
  | _ => []

def createdNames : Statement → List String
  | .createTable ct => [lastIdent ct.name]
  | _ => []

/-- The foreign keys of a list of statements, in order.  A key that an
    `ALTER TABLE` gives to a table nobody created is not one of them. -/
def declaredKeys (known : List String) : List Statement → List DeclaredKey
  | [] => []
  | s :: stmts =>
      statementDeclares known s ++ declaredKeys (known ++ createdNames s) stmts

/-- Each key is on one column and refers to another table, and no two keys
    connect the same two tables. -/
structure Separated (keys : List DeclaredKey) : Prop where
  single : ∀ k ∈ keys, k.more = []
  no_self : ∀ k ∈ keys, k.child ≠ k.parent
  apart : keys.Pairwise fun k l =>
    ¬ (k.child = l.child ∧ k.parent = l.parent) ∧
      ¬ (k.child = l.parent ∧ k.parent = l.child)

/-! ## Coherent means separated -/

theorem DeclaredKey.mem_joins {k : DeclaredKey} {j : Join} (h : j ∈ k.joins) :
    j.child = k.child ∧ j.parent = k.parent := by
  obtain ⟨col, -, rfl⟩ := List.mem_map.mp h
  exact ⟨rfl, rfl⟩

theorem DeclaredKey.first_mem (k : DeclaredKey) :
    (⟨k.child, k.column, k.parent⟩ : Join) ∈ k.joins :=
  List.mem_map.mpr ⟨k.column, List.mem_cons_self, rfl⟩

/-- All joins of one key connect the same pair, so there is one only. -/
theorem joins_pairwise_iff {k : DeclaredKey} :
    k.joins.Pairwise (fun i j => ¬ SamePair i j) ↔ k.more = [] := by
  obtain ⟨child, column, more, parent⟩ := k
  cases more with
  | nil =>
      simp only [DeclaredKey.joins, List.map_cons, List.map_nil, iff_true]
      exact List.pairwise_singleton _ _
  | cons col cols =>
      simp only [DeclaredKey.joins, List.map_cons, List.pairwise_cons,
        reduceCtorEq, iff_false]
      intro h
      exact h.1 _ List.mem_cons_self (Or.inl ⟨rfl, rfl⟩)

theorem joins_apart_iff {k l : DeclaredKey} :
    (∀ i ∈ k.joins, ∀ j ∈ l.joins, ¬ SamePair i j) ↔
      ¬ (k.child = l.child ∧ k.parent = l.parent) ∧
        ¬ (k.child = l.parent ∧ k.parent = l.child) := by
  rw [← not_or]
  constructor
  · intro h
    exact h _ k.first_mem _ l.first_mem
  · intro h i hi j hj hsame
    obtain ⟨hic, hip⟩ := DeclaredKey.mem_joins hi
    obtain ⟨hjc, hjp⟩ := DeclaredKey.mem_joins hj
    rw [SamePair, hic, hip, hjc, hjp] at hsame
    exact h hsame

theorem coherent_joins_iff {keys : List DeclaredKey} :
    Coherent (keys.flatMap DeclaredKey.joins) ↔ Separated keys := by
  have hone : (keys.flatMap DeclaredKey.joins).Pairwise
      (fun i j => ¬ SamePair i j) ↔
        (∀ k ∈ keys, k.more = []) ∧ keys.Pairwise fun k l =>
          ¬ (k.child = l.child ∧ k.parent = l.parent) ∧
            ¬ (k.child = l.parent ∧ k.parent = l.child) := by
    rw [List.pairwise_flatMap]
    simp only [joins_pairwise_iff, joins_apart_iff]
  have hself : (∀ j ∈ keys.flatMap DeclaredKey.joins, j.child ≠ j.parent) ↔
      ∀ k ∈ keys, k.child ≠ k.parent := by
    constructor
    · intro h k hk
      exact h _ (List.mem_flatMap.mpr ⟨k, hk, k.first_mem⟩)
    · intro h j hj
      obtain ⟨k, hk, hj⟩ := List.mem_flatMap.mp hj
      obtain ⟨hc, hp⟩ := DeclaredKey.mem_joins hj
      rw [hc, hp]
      exact h k hk
  constructor
  · intro h
    obtain ⟨hsingle, hapart⟩ := hone.mp h.one_each
    exact ⟨hsingle, hself.mp h.no_self, hapart⟩
  · intro h
    exact ⟨hself.mpr h.no_self, hone.mpr ⟨h.single, h.apart⟩⟩

/-! ## What the model records is what is declared -/

/-- The joins of a table called `child` with these recorded keys. -/
def joinsOf (child : String) (fks : List (String × String)) : List Join :=
  fks.map fun fk => ⟨child, fk.1, fk.2⟩

theorem printedJoins_cons (t : ModelTable) (ts : List ModelTable) :
    printedJoins ⟨t :: ts⟩ = joinsOf t.name t.foreignKeys ++ printedJoins ⟨ts⟩ :=
  rfl

theorem printedJoins_append (ts us : List ModelTable) :
    printedJoins ⟨ts ++ us⟩ = printedJoins ⟨ts⟩ ++ printedJoins ⟨us⟩ := by
  simp only [printedJoins, List.flatMap_append]

theorem option_joins {child : String} {col : Ident} (o : ColumnOptionDef) :
    joinsOf child (optionForeignKey col o).toList
      = (optionDeclares child col o).toList.flatMap DeclaredKey.joins := by
  obtain ⟨name, opt⟩ := o
  cases opt <;> rfl

theorem inline_joins {child : String} (c : ColumnDef) :
    joinsOf child (inlineForeignKeys c)
      = (c.options.filterMap (optionDeclares child c.name)).flatMap
          DeclaredKey.joins := by
  rw [inlineForeignKeys, List.filterMap_eq_flatMap_toList,
    List.filterMap_eq_flatMap_toList, List.flatMap_assoc, joinsOf,
    List.map_flatMap]
  exact congrArg (List.flatMap · c.options) (funext option_joins)

theorem constraint_joins {child : String} (con : TableConstraint) :
    joinsOf child (constraintForeignKeys con)
      = (constraintDeclares child con).toList.flatMap DeclaredKey.joins := by
  cases con with
  | foreignKey n cols ft refs act =>
      cases cols with
      | nil => rfl
      | cons col cols =>
          simp only [joinsOf, constraintForeignKeys, constraintDeclares,
            DeclaredKey.joins, Option.toList_some, List.flatMap_cons,
            List.flatMap_nil, List.append_nil, List.map_cons, List.map_map]
          rfl
  | unique _ _ _ | primaryKey _ _ _ | check _ _ | other _ => rfl

theorem constraints_joins {child : String} (cons : List TableConstraint) :
    joinsOf child (cons.flatMap constraintForeignKeys)
      = (cons.filterMap (constraintDeclares child)).flatMap
          DeclaredKey.joins := by
  rw [List.filterMap_eq_flatMap_toList, List.flatMap_assoc, joinsOf,
    List.map_flatMap]
  exact congrArg (List.flatMap · cons) (funext constraint_joins)

/-- The foreign keys that an operation adds to the table. -/
def operationForeignKeys : AlterTableOperation → List (String × String)
  | .addConstraint con => constraintForeignKeys con
  | _ => []

theorem operation_joins {child : String} (op : AlterTableOperation) :
    joinsOf child (operationForeignKeys op)
      = (operationDeclares child op).toList.flatMap DeclaredKey.joins := by
  cases op with
  | addConstraint con => exact constraint_joins con
  | addColumn _ _ _ _ | dropColumn _ _ _ | dropConstraint _ _ _
  | dropPrimaryKey | renameColumn _ _ | renameTable _
  | changeColumn _ _ _ _ _ | modifyColumn _ _ _ _ | alterColumn _ _
  | other _ => rfl

theorem operationUpdate_foreignKeys (op : AlterTableOperation)
    (t : ModelTable) :
    (operationUpdate op t).foreignKeys
      = t.foreignKeys ++ operationForeignKeys op := by
  cases op with
  | addConstraint con => rfl
  | addColumn kw ine c pos =>
      simp only [operationUpdate, operationForeignKeys, List.append_nil]
      cases mapType c.dataType <;> rfl
  | dropColumn _ _ _ | dropConstraint _ _ _ | dropPrimaryKey
  | renameColumn _ _ | renameTable _ | changeColumn _ _ _ _ _
  | modifyColumn _ _ _ _ | alterColumn _ _ | other _ =>
      exact (List.append_nil _).symm

/-- A `CREATE TABLE` prints the joins it declares. -/
theorem created_joins {ct : CreateTable} (rows : List Mapped)
    {known : List String} :
    joinsOf (lastIdent ct.name) (ModelTable.created ct rows).foreignKeys
      = (statementDeclares known (.createTable ct)).flatMap
          DeclaredKey.joins := by
  have hinline : joinsOf (lastIdent ct.name)
      (ct.columns.flatMap inlineForeignKeys)
        = (ct.columns.flatMap fun c => c.options.filterMap
            (optionDeclares (lastIdent ct.name) c.name)).flatMap
              DeclaredKey.joins := by
    rw [List.flatMap_assoc, joinsOf, List.map_flatMap]
    exact congrArg (List.flatMap · ct.columns) (funext inline_joins)
  rw [ModelTable.created, statementDeclares, List.flatMap_append, ← hinline,
    ← constraints_joins]
  exact List.map_append

/-! ## One operation, one statement, a whole history -/

/-- A table that gains keys prints their joins as well, after its own. -/
theorem printedJoins_update (op : AlterTableOperation) (l r : List ModelTable)
    (t : ModelTable) :
    (printedJoins ⟨l ++ operationUpdate op t :: r⟩).Perm
      (printedJoins ⟨l ++ t :: r⟩ ++ joinsOf t.name (operationForeignKeys op)) := by
  rw [printedJoins_append, printedJoins_append, printedJoins_cons,
    printedJoins_cons, operationUpdate_name, operationUpdate_foreignKeys,
    joinsOf, List.map_append, List.append_assoc, List.append_assoc,
    List.append_assoc]
  exact (List.Perm.append_left _ List.perm_append_comm).append_left _

theorem applyOperation_joins {p : Sqlparser} {tname : String} {m m' : Model}
    {op : AlterTableOperation} (hknown : tname ∈ m.tables.map ModelTable.name)
    (h : m.applyOperation p tname op = .ok m') :
    (printedJoins m').Perm (printedJoins m
      ++ (operationDeclares tname op).toList.flatMap DeclaredKey.joins) := by
  rcases applyOperation_cases h with ⟨-, hnone⟩ | hupd
  · obtain ⟨t, ht, hname⟩ := List.mem_map.mp hknown
    exact absurd hname (hnone t ht)
  · obtain ⟨l, t, r, htables, htables', hname, -⟩ := updateFirst_eq_some.mp hupd
    rw [← operation_joins, ← eq_of_beq hname]
    have hperm := printedJoins_update op l r t
    rw [← htables, ← htables'] at hperm
    exact hperm

theorem names_operations {p : Sqlparser} {tname : String}
    {ops : List AlterTableOperation} {m m' : Model}
    (h : ops.foldlM (Model.applyOperation p tname) m = .ok m') :
    m'.tables.map ModelTable.name = m.tables.map ModelTable.name := by
  refine run_invariant (I := fun m₁ : Model =>
      m₁.tables.map ModelTable.name = m.tables.map ModelTable.name)
    ?_ ops m m' rfl h
  intro m₁ op m₂ hm₁ hstep
  rw [applyOperation_map (operationUpdate_name op) hstep, hm₁]

theorem operations_joins {p : Sqlparser} {tname : String}
    {ops : List AlterTableOperation} {m m' : Model}
    (hknown : tname ∈ m.tables.map ModelTable.name)
    (h : ops.foldlM (Model.applyOperation p tname) m = .ok m') :
    (printedJoins m').Perm (printedJoins m
      ++ (ops.filterMap (operationDeclares tname)).flatMap
        DeclaredKey.joins) := by
  induction ops generalizing m with
  | nil =>
      rw [← foldlM_nil_ok.mp h, List.filterMap_nil, List.flatMap_nil,
        List.append_nil]
  | cons op ops ih =>
      obtain ⟨m₁, hop, hrest⟩ := foldlM_cons_ok.mp h
      have hknown₁ : tname ∈ m₁.tables.map ModelTable.name := by
        rw [applyOperation_map (operationUpdate_name op) hop]
        exact hknown
      have hperm := (applyOperation_joins hknown hop).append_right
        ((ops.filterMap (operationDeclares tname)).flatMap DeclaredKey.joins)
      refine (ih hknown₁ hrest).trans ?_
      rw [List.filterMap_eq_flatMap_toList (l := op :: ops), List.flatMap_cons,
        List.flatMap_append, ← List.filterMap_eq_flatMap_toList,
        ← List.append_assoc]
      exact hperm

/-- An `ALTER TABLE` of a table nobody created changes nothing. -/
theorem operations_unknown {p : Sqlparser} {tname : String}
    {ops : List AlterTableOperation} {m m' : Model}
    (hunknown : tname ∉ m.tables.map ModelTable.name)
    (h : ops.foldlM (Model.applyOperation p tname) m = .ok m') : m' = m := by
  have hnone : ∀ t ∈ m.tables, t.name ≠ tname := by
    intro t ht hname
    exact hunknown (List.mem_map.mpr ⟨t, ht, hname⟩)
  refine run_invariant (I := fun m₁ : Model => m₁ = m) ?_ ops m m' rfl h
  rintro m₁ op m₂ rfl hstep
  exact unnamed_operation hnone hstep

/-- **ONE STATEMENT**: it prints the joins it declares and keeps the others. -/
theorem apply_joins {p : Sqlparser} {m m' : Model} {s : Statement}
    (h : m.apply p s = .ok m') :
    (printedJoins m').Perm (printedJoins m
      ++ (statementDeclares (m.tables.map ModelTable.name) s).flatMap
        DeclaredKey.joins) ∧
    m'.tables.map ModelTable.name
      = m.tables.map ModelTable.name ++ createdNames s := by
  cases s with
  | createTable ct =>
      obtain ⟨rows, -, rfl⟩ := apply_createTable_ok.mp h
      constructor
      · rw [← created_joins rows, printedJoins_append,
          printedJoins_cons]
        exact List.Perm.of_eq (congrArg _ (List.append_nil _))
      · rw [List.map_append]
        rfl
  | alterTable name ie only ops cl =>
      -- operations on an unknown table are skipped by the model
      by_cases hknown : lastIdent name ∈ m.tables.map ModelTable.name
      · simp only [statementDeclares, if_pos hknown, createdNames,
          List.append_nil]
        exact ⟨operations_joins hknown h, names_operations h⟩
      · simp only [statementDeclares, if_neg hknown, createdNames,
          operations_unknown hknown h, List.flatMap_nil, List.append_nil]
        exact ⟨.refl _, trivial⟩
  | drop _ _ _ _ _ | createIndex _ | other _ =>
      simp only [← Except.ok.inj h, statementDeclares, createdNames,
        List.flatMap_nil, List.append_nil]
      exact ⟨.refl _, trivial⟩

/-- **THE PRINTED JOINS ARE THE DECLARED KEYS**, column by column. -/
theorem printedJoins_perm {p : Sqlparser} {stmts : List Statement}
    {m m' : Model} (h : stmts.foldlM (Model.apply p) m = .ok m') :
    (printedJoins m').Perm (printedJoins m
      ++ (declaredKeys (m.tables.map ModelTable.name) stmts).flatMap
        DeclaredKey.joins) := by
  induction stmts generalizing m with
  | nil =>
      rw [← foldlM_nil_ok.mp h, declaredKeys, List.flatMap_nil,
        List.append_nil]
  | cons s stmts ih =>
      obtain ⟨m₁, hs, hrest⟩ := foldlM_cons_ok.mp h
      obtain ⟨hperm, hnames⟩ := apply_joins hs
      have hrun := ih hrest
      rw [hnames] at hrun
      rw [declaredKeys, List.flatMap_append, ← List.append_assoc]
      exact hrun.trans (hperm.append_right _)

/-! ## The schema file -/

/-- **WHEN THE JOINS ARE COHERENT**: for an accepted history, exactly when the
    declared foreign keys are separated. -/
theorem joins_coherent_iff {p : Sqlparser} {ms : List Migration}
    {g : Generated} (hg : generate p ms = .ok g) :
    ∃ m stmts, finalModel p ms = .ok m ∧ allStatements p ms = .ok stmts ∧
      renderSchemaRs m = .ok g.schemaRs ∧
      m.tables.flatMap joinables = (printedJoins m).map Join.line ∧
      (Coherent (printedJoins m) ↔ Separated (declaredKeys [] stmts)) := by
  obtain ⟨m, hm, hschema, -, -⟩ := generate_ok.mp hg
  obtain ⟨stmts, hstmts, hfold⟩ := bind_ok.mp hm
  refine ⟨m, stmts, hm, hstmts, hschema, joinables_eq m, ?_⟩
  have hperm := printedJoins_perm hfold
  exact (Coherent.perm_iff hperm).trans coherent_joins_iff

def coherenceParser : Sqlparser := parserOf
  [("CREATE TABLE u (id INT)\n",
      [createTable (bare "u") [col "id" (.int none) []] []]),
    ("CREATE TABLE p (a INT REFERENCES u)\n",
      [createTable (bare "p")
        [col "a" (.int none) [.foreignKey (bare "u") [] ""]] []]),
    ("CREATE TABLE m (a INT REFERENCES u, b INT REFERENCES u)\n",
      [createTable (bare "m")
        [col "a" (.int none) [.foreignKey (bare "u") [] ""],
          col "b" (.int none) [.foreignKey (bare "u") [] ""]] []])]

def oneKey : List Migration :=
  [⟨"1", "CREATE TABLE u (id INT)", none⟩,
    ⟨"2", "CREATE TABLE p (a INT REFERENCES u)", none⟩]

def twoKeys : List Migration :=
  [⟨"1", "CREATE TABLE u (id INT)", none⟩,
    ⟨"2", "CREATE TABLE m (a INT REFERENCES u, b INT REFERENCES u)", none⟩]

theorem joins_coherent_iff_of_one_key :
    ∃ g m, generate coherenceParser oneKey = .ok g ∧
      renderSchemaRs m = .ok g.schemaRs ∧ Coherent (printedJoins m) := by
  obtain ⟨g, hg⟩ := exists_ok_of_isOk
    (x := generate coherenceParser oneKey) (by decide +kernel)
  obtain ⟨m, stmts, -, hstmts, hschema, -, hiff⟩ := joins_coherent_iff hg
  refine ⟨g, m, hg, hschema, hiff.mpr ?_⟩
  have hread : allStatements coherenceParser oneKey
      = .ok [createTable (bare "u") [col "id" (.int none) []] [],
        createTable (bare "p")
          [col "a" (.int none) [.foreignKey (bare "u") [] ""]] []] := by
    decide +kernel
  rw [← Except.ok.inj (hread.symm.trans hstmts)]
  exact ⟨by decide, by decide, by decide⟩

/-- **TWO KEYS TO ONE PARENT**: `m` prints two `joinable!`s for the pair `m`,
    `u`. -/
theorem two_keys_conflict :
    ∃ g m, generate coherenceParser twoKeys = .ok g ∧
      renderSchemaRs m = .ok g.schemaRs ∧
      m.tables.flatMap joinables
        = ["diesel::joinable!(m -> u (a));",
          "diesel::joinable!(m -> u (b));"] ∧
      ¬ Coherent (printedJoins m) := by
  obtain ⟨g, hg⟩ := exists_ok_of_isOk
    (x := generate coherenceParser twoKeys) (by decide +kernel)
  obtain ⟨m, hm, hschema, -, -⟩ := generate_ok.mp hg
  have hfinal : finalModel coherenceParser twoKeys = .ok ⟨[
      ⟨"u", [⟨"id", "diesel::sql_types::Integer", true⟩], [], []⟩,
      ⟨"m", [⟨"a", "diesel::sql_types::Integer", true⟩,
        ⟨"b", "diesel::sql_types::Integer", true⟩], [],
        [("a", "u"), ("b", "u")]⟩]⟩ := by
    decide +kernel
  rw [Except.ok.inj (hm.symm.trans hfinal)] at hschema
  refine ⟨g, _, hg, hschema, by decide +kernel, ?_⟩
  intro hcoherent
  exact absurd hcoherent.one_each (by decide +kernel)

end DualdbCoherence
