import DieselDualdb.Migration
import DieselDualdb.SqlText

/-!
# Dangling names in the schema model

A model without dangling names (`NoDangling`) has every key column and every
local column of a join among the columns of its table, and every parent of a
join among its tables.  `Model.apply` does not keep this: `DROP COLUMN` edits
one field of three, and neither key nor foreign key declarations are checked
against anything.

What a step must avoid is a condition on the step and the model before it
(`StepPresent`).  The two step lemmas say it is the exact one: on a model
without dangling names, a step leads to such a model if and only if it meets
the condition.  The run theorem is then the invariant rule.
-/

namespace DualdbDangling

open DualdbAst DualdbTypeMap DualdbModel DualdbRender DualdbMigration
open FallibleRun FirstUpdate

/-! ## The invariant -/

def ModelTable.columnNames (t : ModelTable) : List String :=
  t.columns.map ModelColumn.name

def Model.tableNames (m : Model) : List String :=
  m.tables.map ModelTable.name

/-- One table's names, with the `table!` blocks there are. -/
structure TablePresent (tables : List String) (t : ModelTable) : Prop where
  keys : ∀ k ∈ t.primaryKeyCols, k ∈ ModelTable.columnNames t
  locals : ∀ fk ∈ t.foreignKeys, fk.1 ∈ ModelTable.columnNames t
  parents : ∀ fk ∈ t.foreignKeys, fk.2 ∈ tables

/-- Every printed key column, join column and join parent is there. -/
def NoDangling (m : Model) : Prop :=
  ∀ t ∈ m.tables, TablePresent (Model.tableNames m) t

theorem noDangling_empty : NoDangling Model.empty :=
  fun _ ht => absurd ht List.not_mem_nil

/-- More blocks do no harm. -/
theorem TablePresent.mono {ts ts' : List String} {t : ModelTable}
    (h : TablePresent ts t) (hsub : ts ⊆ ts') : TablePresent ts' t :=
  ⟨h.keys, h.locals, fun fk hfk => hsub (h.parents fk hfk)⟩

/-- The first-column fallback never dangles. -/
theorem keys_present_iff {t : ModelTable} :
    (∀ k ∈ t.primaryKeyCols, k ∈ ModelTable.columnNames t) ↔
      ∀ k ∈ t.primaryKey, k ∈ ModelTable.columnNames t := by
  by_cases hkey : t.primaryKey = []
  · rw [primaryKeyCols_of_nil hkey, hkey]
    refine ⟨fun _ k hk => absurd hk List.not_mem_nil, fun _ k hk => ?_⟩
    obtain ⟨c, hc, rfl⟩ := Option.map_eq_some_iff.mp (Option.mem_toList.mp hk)
    exact List.mem_map_of_mem (List.mem_of_mem_head? hc)
  · rw [primaryKeyCols_of_ne_nil hkey]

/-! ## `CREATE TABLE` -/

/-- The columns of the last table-level key. -/
def lastKey (cons : List TableConstraint) : List Ident :=
  (cons.filterMap primaryKeyOf).getLast?.getD []

def CreateTable.columnNames (ct : CreateTable) : List String :=
  ct.columns.map fun c => c.name.value

/-- The foreign keys the statement declares, column by column. -/
def CreateTable.joins (ct : CreateTable) : List (String × String) :=
  ct.columns.flatMap inlineForeignKeys
    ++ ct.constraints.flatMap constraintForeignKeys

/-- The statement names its own columns, and parents that are there. -/
structure CreatePresent (m : Model) (ct : CreateTable) : Prop where
  key : ∀ i ∈ lastKey ct.constraints, i.value ∈ CreateTable.columnNames ct
  locals : ∀ fk ∈ ct.constraints.flatMap constraintForeignKeys,
    fk.1 ∈ CreateTable.columnNames ct
  parents : ∀ fk ∈ CreateTable.joins ct,
    fk.2 = lastIdent ct.name ∨ fk.2 ∈ Model.tableNames m

/-- A column-level key is a column. -/
theorem mem_inlineKeys {cs : List ColumnDef} {k : String}
    (h : k ∈ cs.flatMap inlineKey) : k ∈ cs.map fun c => c.name.value := by
  obtain ⟨c, hc, hk⟩ := List.mem_flatMap.mp h
  obtain ⟨o, -, rfl⟩ := List.mem_map.mp hk
  exact List.mem_map.mpr ⟨c, hc, rfl⟩

theorem mem_inlineForeignKeys {cs : List ColumnDef} {fk : String × String}
    (h : fk ∈ cs.flatMap inlineForeignKeys) :
    fk.1 ∈ cs.map fun c => c.name.value := by
  obtain ⟨c, hc, hfk⟩ := List.mem_flatMap.mp h
  obtain ⟨o, -, ho⟩ := List.mem_filterMap.mp hfk
  refine List.mem_map.mpr ⟨c, hc, ?_⟩
  rw [optionForeignKey] at ho
  cases hopt : o.option <;> rw [hopt] at ho <;> cases ho
  rfl

theorem tableNames_created (m : Model) (ct : CreateTable) (rows : List Mapped) :
    Model.tableNames ⟨m.tables ++ [ModelTable.created ct rows]⟩
      = Model.tableNames m ++ [lastIdent ct.name] := by
  simp [Model.tableNames, ModelTable.created]

theorem columnNames_created {ct : CreateTable} {rows : List Mapped}
    (h : RowsOf ct.columns rows) :
    ModelTable.columnNames (ModelTable.created ct rows)
      = CreateTable.columnNames ct := by
  rw [ModelTable.columnNames, CreateTable.columnNames, ModelTable.created]
  generalize ct.columns = cs at h
  induction h with
  | nil => rfl
  | cons _ _ ih =>
      rw [List.map_cons, ← ih]
      rfl

/-- The key the statement leaves is present exactly when the last table-level
    one is. -/
theorem created_key_iff {ct : CreateTable} :
    (∀ k ∈ constraintKey (ct.columns.flatMap inlineKey) ct.constraints,
        k ∈ CreateTable.columnNames ct) ↔
      ∀ i ∈ lastKey ct.constraints, i.value ∈ CreateTable.columnNames ct := by
  rw [constraintKey_eq, lastKey]
  cases (ct.constraints.filterMap primaryKeyOf).getLast? with
  | none =>
      exact ⟨fun _ i hi => absurd hi List.not_mem_nil, fun _ k hk => mem_inlineKeys hk⟩
  | some cols =>
      show (∀ k ∈ cols.map Ident.value, _) ↔ ∀ i ∈ cols, _
      exact List.forall_mem_map

/-- **STEP LEMMA FOR `CREATE TABLE`**: the condition is the exact one. -/
theorem createTable_iff {p : Sqlparser} {m m' : Model} {ct : CreateTable}
    (hm : NoDangling m) (h : m.apply p (.createTable ct) = .ok m') :
    NoDangling m' ↔ CreatePresent m ct := by
  obtain ⟨rows, hrows, rfl⟩ := apply_createTable_ok.mp h
  have hnames := tableNames_created m ct rows
  have hcols := columnNames_created hrows
  constructor
  · intro hinv
    have ht := hinv _ (List.mem_append_right _ List.mem_cons_self)
    rw [hnames] at ht
    refine ⟨?_, ?_, ?_⟩
    · refine created_key_iff.mp ?_
      rw [← hcols]
      exact keys_present_iff.mp ht.keys
    · intro fk hfk
      rw [← hcols]
      exact ht.locals fk (List.mem_append_right _ hfk)
    · intro fk hfk
      -- the new table may refer to itself
      rcases List.mem_append.mp (ht.parents fk hfk) with hp | hp
      · exact Or.inr hp
      · exact Or.inl (List.mem_singleton.mp hp)
  · intro hok t ht
    rw [hnames]
    rcases List.mem_append.mp ht with ht | ht
    · exact (hm t ht).mono (List.subset_append_left _ _)
    · rw [List.mem_singleton.mp ht]
      refine ⟨keys_present_iff.mpr ?_, ?_, ?_⟩
      · rw [hcols]
        exact created_key_iff.mpr hok.key
      · intro fk hfk
        rw [hcols]
        rcases List.mem_append.mp hfk with hfk | hfk
        · exact mem_inlineForeignKeys hfk
        · exact hok.locals fk hfk
      · intro fk hfk
        rcases hok.parents fk hfk with hp | hp
        · exact List.mem_append_right _ (List.mem_singleton.mpr hp)
        · exact List.mem_append_left _ hp

/-! ## `ALTER TABLE` -/

/-- The table an `ALTER TABLE` on `tname` updates. -/
def Model.named (m : Model) (tname : String) : Option ModelTable :=
  m.tables.find? fun t => t.name == tname

theorem named_of_split {m : Model} {tname : String} {l r : List ModelTable}
    {t : ModelTable} (htables : m.tables = l ++ t :: r)
    (htname : (t.name == tname) = true)
    (hl : ∀ x ∈ l, (x.name == tname) = false) :
    Model.named m tname = some t := by
  rw [Model.named, htables, List.find?_append,
    List.find?_eq_none.mpr fun x hx => Bool.eq_false_iff.mp (hl x hx),
    Option.none_or]
  exact List.find?_cons_of_pos htname

theorem named_eq_none {m : Model} {tname : String}
    (h : ∀ t ∈ m.tables, t.name ≠ tname) : Model.named m tname = none :=
  List.find?_eq_none.mpr fun t ht => by simpa using h t ht

/-- A dropped column is in no key and no join; an added foreign key names
    columns and a parent that are there. -/
def OperationPresent (tname : String) (m : Model) :
    AlterTableOperation → Prop
  | .dropColumn c _ _ => ∀ t, Model.named m tname = some t →
      c.value ∉ t.primaryKey ∧ ∀ fk ∈ t.foreignKeys, fk.1 ≠ c.value
  | .addConstraint con => ∀ t, Model.named m tname = some t →
      ∀ fk ∈ constraintForeignKeys con,
        fk.1 ∈ ModelTable.columnNames t ∧ fk.2 ∈ Model.tableNames m
  | _ => True

theorem columnNames_dropped (t : ModelTable) (c : Ident) (k : String) :
    k ∈ (t.columns.filter (·.name != c.value)).map ModelColumn.name ↔
      k ∈ ModelTable.columnNames t ∧ k ≠ c.value := by
  simp only [ModelTable.columnNames, List.mem_map, List.mem_filter,
    bne_iff_ne]
  constructor
  · rintro ⟨col, ⟨hcol, hne⟩, rfl⟩
    exact ⟨⟨col, hcol, rfl⟩, hne⟩
  · rintro ⟨⟨col, hcol, rfl⟩, hne⟩
    exact ⟨col, ⟨hcol, hne⟩, rfl⟩

/-- What the update of the table does to its names. -/
theorem operationUpdate_present_iff {tables : List String} {t : ModelTable}
    (ht : TablePresent tables t) (op : AlterTableOperation) :
    TablePresent tables (operationUpdate op t) ↔
      match op with
      | .dropColumn c _ _ =>
          c.value ∉ t.primaryKey ∧ ∀ fk ∈ t.foreignKeys, fk.1 ≠ c.value
      | .addConstraint con => ∀ fk ∈ constraintForeignKeys con,
          fk.1 ∈ ModelTable.columnNames t ∧ fk.2 ∈ tables
      | _ => True := by
  have hkey := keys_present_iff.mp ht.keys
  cases op with
  | addColumn kw ine c pos =>
      refine iff_of_true ?_ trivial
      simp only [operationUpdate]
      cases mapType c.dataType with
      | none => exact ht
      | some row =>
          -- more columns cannot leave a name dangling
          have hsub : ModelTable.columnNames t ⊆ ModelTable.columnNames
              { t with columns :=
                  t.columns ++ [ModelColumn.ofAdd c row.marker] } :=
            List.map_subset _ (List.subset_append_left _ _)
          exact ⟨keys_present_iff.mpr fun k hk => hsub (hkey k hk),
            fun fk hfk => hsub (ht.locals fk hfk), ht.parents⟩
  | dropColumn c ie cascade =>
      constructor
      · intro h
        -- the dropped column is gone from the block, so no list may name it
        have hkey' := keys_present_iff.mp h.keys
        refine ⟨fun hc => ?_, fun fk hfk => ?_⟩
        · exact ((columnNames_dropped t c c.value).mp (hkey' _ hc)).2 rfl
        · exact ((columnNames_dropped t c fk.1).mp (h.locals fk hfk)).2
      · rintro ⟨hc, hfks⟩
        refine ⟨keys_present_iff.mpr fun k hk => ?_, fun fk hfk => ?_,
          ht.parents⟩
        · refine (columnNames_dropped t c k).mpr ⟨hkey k hk, ?_⟩
          rintro rfl
          exact hc hk
        · exact (columnNames_dropped t c fk.1).mpr
            ⟨ht.locals fk hfk, hfks fk hfk⟩
  | addConstraint con =>
      constructor
      · intro h fk hfk
        have hmem : fk ∈ t.foreignKeys ++ constraintForeignKeys con :=
          List.mem_append_right _ hfk
        exact ⟨h.locals fk hmem, h.parents fk hmem⟩
      · intro h
        refine ⟨ht.keys, fun fk hfk => ?_, fun fk hfk => ?_⟩
        · rcases List.mem_append.mp hfk with hfk | hfk
          · exact ht.locals fk hfk
          · exact (h fk hfk).1
        · rcases List.mem_append.mp hfk with hfk | hfk
          · exact ht.parents fk hfk
          · exact (h fk hfk).2
  | dropConstraint _ _ _ | dropPrimaryKey | renameColumn _ _
  | renameTable _ | changeColumn _ _ _ _ _ | modifyColumn _ _ _ _
  | alterColumn _ _ | other _ => exact iff_of_true ht trivial

/-- The condition on an operation, with the table it finds. -/
theorem operationPresent_iff {tname : String} {m : Model} {t : ModelTable}
    (hnamed : Model.named m tname = some t) (op : AlterTableOperation) :
    OperationPresent tname m op ↔
      match op with
      | .dropColumn c _ _ =>
          c.value ∉ t.primaryKey ∧ ∀ fk ∈ t.foreignKeys, fk.1 ≠ c.value
      | .addConstraint con => ∀ fk ∈ constraintForeignKeys con,
          fk.1 ∈ ModelTable.columnNames t ∧ fk.2 ∈ Model.tableNames m
      | _ => True := by
  cases op with
  | dropColumn c ie cascade =>
      refine ⟨fun h => h t hnamed, fun h t' ht' => ?_⟩
      rw [← Option.some.inj (hnamed.symm.trans ht')]
      exact h
  | addConstraint con =>
      refine ⟨fun h => h t hnamed, fun h t' ht' => ?_⟩
      rw [← Option.some.inj (hnamed.symm.trans ht')]
      exact h
  | addColumn _ _ _ _ | dropConstraint _ _ _ | dropPrimaryKey
  | renameColumn _ _ | renameTable _ | changeColumn _ _ _ _ _
  | modifyColumn _ _ _ _ | alterColumn _ _ | other _ => exact Iff.rfl

theorem operationPresent_of_unnamed {tname : String} {m : Model}
    (hnamed : Model.named m tname = none) (op : AlterTableOperation) :
    OperationPresent tname m op := by
  cases op with
  | dropColumn c ie cascade =>
      intro t ht
      cases hnamed.symm.trans ht
  | addConstraint con =>
      intro t ht
      cases hnamed.symm.trans ht
  | addColumn _ _ _ _ | dropConstraint _ _ _ | dropPrimaryKey
  | renameColumn _ _ | renameTable _ | changeColumn _ _ _ _ _
  | modifyColumn _ _ _ _ | alterColumn _ _ | other _ => exact trivial

/-- **STEP LEMMA FOR `ALTER TABLE`**: the condition is the exact one. -/
theorem applyOperation_iff {p : Sqlparser} {tname : String} {m m' : Model}
    {op : AlterTableOperation} (hm : NoDangling m)
    (h : m.applyOperation p tname op = .ok m') :
    NoDangling m' ↔ OperationPresent tname m op := by
  rcases applyOperation_cases h with ⟨rfl, hnone⟩ | hupd
  · exact iff_of_true hm
      (operationPresent_of_unnamed (named_eq_none hnone) op)
  · obtain ⟨l, t, r, htables, htables', htname, hl⟩ :=
      updateFirst_eq_some.mp hupd
    have hnamed := named_of_split htables htname hl
    have hnames : Model.tableNames m' = Model.tableNames m :=
      applyOperation_map (operationUpdate_name op) h
    rw [operationPresent_iff hnamed]
    have ht : TablePresent (Model.tableNames m) t := hm t (by rw [htables]; simp)
    rw [← operationUpdate_present_iff ht op]
    constructor
    · intro hinv
      rw [← hnames]
      exact hinv _ (by rw [htables']; simp)
    · intro hpresent x hx
      rw [hnames]
      rw [htables'] at hx
      -- only the block that took the update can have lost a name
      rcases List.mem_append.mp hx with hx | hx
      · exact hm x (by rw [htables]; exact List.mem_append_left _ hx)
      · rcases List.mem_cons.mp hx with rfl | hx
        · exact hpresent
        · exact hm x (by rw [htables]; simp [hx])

/-! ## Runs -/

/-- The condition on a statement and the model it is folded into. -/
def StepPresent (p : Sqlparser) (m : Model) : Statement → Prop
  | .createTable ct => CreatePresent m ct
  | .alterTable name _ _ ops _ =>
      Along (Model.applyOperation p (lastIdent name))
        (OperationPresent (lastIdent name)) m ops
  | _ => True

/-- A statement that meets the condition leaves nothing dangling. -/
theorem apply_noDangling {p : Sqlparser} {m m' : Model} {s : Statement}
    (hm : NoDangling m) (hs : StepPresent p m s)
    (h : m.apply p s = .ok m') : NoDangling m' := by
  cases s with
  | createTable ct => exact (createTable_iff hm h).mpr hs
  | alterTable name ie only ops cl =>
      exact run_invariant_along
        (fun _ _ _ hm hop h => (applyOperation_iff hm h).mpr hop)
        ops m m' hm hs h
  | drop _ _ _ _ _ | createIndex _ | other _ =>
      rw [← Except.ok.inj h]; exact hm

/-- **NO DANGLING NAMES** in any model a run reaches whose steps meet the
    condition; that model is what `schema.rs` is printed from. -/
theorem no_dangling_names {p : Sqlparser} {stmts : List Statement} {m : Model}
    (hrun : stmts.foldlM (Model.apply p) Model.empty = .ok m)
    (hsteps : Along (Model.apply p) (StepPresent p) Model.empty stmts) :
    NoDangling m ∧ ∀ ms g, allStatements p ms = .ok stmts →
      generate p ms = .ok g → renderSchemaRs m = .ok g.schemaRs := by
  refine ⟨run_invariant_along (fun _ _ _ => apply_noDangling) stmts _ m
    noDangling_empty hsteps hrun, ?_⟩
  intro ms g hstmts hg
  obtain ⟨m', hm', hrs, -, -⟩ := generate_ok.mp hg
  have hm : finalModel p ms = .ok m := bind_ok.mpr ⟨stmts, hstmts, hrun⟩
  rw [Except.ok.inj (hm.symm.trans hm')]
  exact hrs

instance (m : Model) (ct : CreateTable) : Decidable (CreatePresent m ct) :=
  decidable_of_iff (_ ∧ _ ∧ _)
    ⟨fun ⟨key, locals, parents⟩ => ⟨key, locals, parents⟩,
      fun h => ⟨h.key, h.locals, h.parents⟩⟩

instance (tname : String) (m : Model) :
    ∀ op, Decidable (OperationPresent tname m op)
  | .dropColumn c _ _ =>
      match h : Model.named m tname with
      | some t =>
          decidable_of_iff
            (c.value ∉ t.primaryKey ∧ ∀ fk ∈ t.foreignKeys, fk.1 ≠ c.value)
            (operationPresent_iff h (.dropColumn c _ _)).symm
      | none => isTrue (operationPresent_of_unnamed h _)
  | .addConstraint con =>
      match h : Model.named m tname with
      | some t =>
          decidable_of_iff
            (∀ fk ∈ constraintForeignKeys con,
              fk.1 ∈ ModelTable.columnNames t ∧ fk.2 ∈ Model.tableNames m)
            (operationPresent_iff h (.addConstraint con)).symm
      | none => isTrue (operationPresent_of_unnamed h _)
  | .addColumn _ _ _ _ | .dropConstraint _ _ _ | .dropPrimaryKey
  | .renameColumn _ _ | .renameTable _ | .changeColumn _ _ _ _ _
  | .modifyColumn _ _ _ _ | .alterColumn _ _ | .other _ => isTrue trivial

instance (p : Sqlparser) (m : Model) : ∀ s, Decidable (StepPresent p m s)
  | .createTable ct => inferInstanceAs (Decidable (CreatePresent m ct))
  | .alterTable name _ _ ops _ =>
      inferInstanceAs (Decidable
        (Along (Model.applyOperation p (lastIdent name))
          (OperationPresent (lastIdent name)) m ops))
  | .drop _ _ _ _ _ | .createIndex _ | .other _ => isTrue trivial

section Runs

open DualdbSqlText

/-- A user table, a post table that references it, a column dropped. -/
def presentStatements : List Statement :=
  [createTable (bare "u") [col "a" .uuid [pk]] [],
    createTable (bare "t")
      [col "b" .uuid [.foreignKey (bare "u") [Ident.new "a"] ""],
        col "c" .text []]
      [.primaryKey none [Ident.new "b"] ""],
    alterTable (bare "t") [.dropColumn (Ident.new "c") false false]]

theorem no_dangling_names_of_drop_column :
    ∃ m, presentStatements.foldlM (Model.apply (parserOf [])) Model.empty
        = .ok m ∧ NoDangling m := by
  have hsteps : Along (Model.apply (parserOf [])) (StepPresent (parserOf []))
      Model.empty presentStatements := by decide +kernel
  obtain ⟨m, hm⟩ := exists_ok_of_isOk
    (x := presentStatements.foldlM (Model.apply (parserOf [])) Model.empty)
    (by decide +kernel)
  exact ⟨m, hm, (no_dangling_names hm hsteps).1⟩

def droppedKeyParser : Sqlparser := parserOf
  [("CREATE TABLE t (a INT PRIMARY KEY, b INT)\n",
      [createTable (bare "t")
        [col "a" (.int none) [pk], col "b" (.int none) []] []]),
    ("ALTER TABLE t DROP COLUMN a\n",
      [alterTable (bare "t") [.dropColumn (Ident.new "a") false false]])]

/-- The dropped key column stays in the key: the printed block is
    `t (a) { b -> … }`. -/
theorem drop_column_leaves_key :
    ∃ g m, generate droppedKeyParser
        [⟨"1", "CREATE TABLE t (a INT PRIMARY KEY, b INT)", none⟩,
          ⟨"2", "ALTER TABLE t DROP COLUMN a", none⟩] = .ok g ∧
      renderSchemaRs m = .ok g.schemaRs ∧
      m = ⟨[⟨"t", [⟨"b", "diesel::sql_types::Integer", true⟩], ["a"], []⟩]⟩ ∧
      ¬ NoDangling m := by
  obtain ⟨g, hg⟩ := exists_ok_of_isOk (x := generate droppedKeyParser
    [⟨"1", "CREATE TABLE t (a INT PRIMARY KEY, b INT)", none⟩,
      ⟨"2", "ALTER TABLE t DROP COLUMN a", none⟩]) (by decide +kernel)
  obtain ⟨m, hm, hrs, -, -⟩ := generate_ok.mp hg
  have hfinal : finalModel droppedKeyParser
      [⟨"1", "CREATE TABLE t (a INT PRIMARY KEY, b INT)", none⟩,
        ⟨"2", "ALTER TABLE t DROP COLUMN a", none⟩]
      = .ok ⟨[⟨"t", [⟨"b", "diesel::sql_types::Integer", true⟩], ["a"],
          []⟩]⟩ := by decide +kernel
  have hm' := Except.ok.inj (hm.symm.trans hfinal)
  refine ⟨g, m, hg, hrs, hm', ?_⟩
  rw [hm']
  intro h
  have hkey := (h _ List.mem_cons_self).keys "a" List.mem_cons_self
  exact absurd hkey (by decide)

end Runs

end DualdbDangling
