import DieselDualdb.SqlText
import DieselDualdb.SchemaModel
import DieselDualdb.Lib.Pointwise

/-!
# When `ADD COLUMN` agrees with `CREATE TABLE`

The two paths of `Model.apply` that read a column definition run side by side:
one `CREATE TABLE` with all columns, against the same statement without its
last column followed by an `ALTER TABLE … ADD COLUMN` of it.  The first scans
every option of the column; the second asks for `NOT NULL` and nothing else.
So the two agree on a column without `REFERENCES` whose `PRIMARY KEY`, if it
has one, is spelled out as `NOT NULL` and overridden by a key of the table, on
a table whose name no earlier block has (`add_column_agrees_iff`), and on no
other.
-/

namespace DualdbAddColumn

open DualdbAst DualdbTypeMap DualdbModel DualdbSqlText FallibleRun FirstUpdate
open Pointwise

/-- The table with one more column at the end. -/
def withLast (ct : CreateTable) (c : ColumnDef) : CreateTable :=
  { ct with columns := ct.columns ++ [c] }

def isReference (opt : ColumnOptionDef) : Bool :=
  match opt.option with
  | .foreignKey _ _ _ => true
  | _ => false

/-- What `ADD COLUMN` does not read is either absent from the column or has no
    effect in the table. -/
structure ReadAlike (ct : CreateTable) (c : ColumnDef) : Prop where
  no_reference : ∀ o ∈ c.options, isReference o = false
  key : (∀ o ∈ c.options, isPrimary o = false) ∨
    (∃ o ∈ c.options, isNotNull o = true) ∧
      ∃ con ∈ ct.constraints, (primaryKeyOf con).isSome = true

/-! ## The parts of the column's reading -/

theorem inlineForeignKeys_eq_nil {c : ColumnDef} :
    inlineForeignKeys c = [] ↔ ∀ o ∈ c.options, isReference o = false := by
  rw [inlineForeignKeys, List.filterMap_eq_nil_iff]
  refine forall₂_congr fun o _ => ?_
  obtain ⟨name, opt⟩ := o
  cases opt <;> simp [optionForeignKey, isReference]

theorem inlineKey_eq_nil {c : ColumnDef} :
    inlineKey c = [] ↔ ∀ o ∈ c.options, isPrimary o = false := by
  rw [inlineKey, List.map_eq_nil_iff, List.filter_eq_nil_iff]
  simp only [Bool.not_eq_true]

/-- The two paths read the same nullability: no option is a `PRIMARY KEY`, or
    one is a `NOT NULL`. -/
theorem ofDef_eq_ofAdd_iff {c : ColumnDef} {marker : String} :
    ModelColumn.ofDef c marker = ModelColumn.ofAdd c marker ↔
      (∀ o ∈ c.options, isPrimary o = false) ∨
        ∃ o ∈ c.options, isNotNull o = true := by
  -- the two readings differ in `nullable` alone
  have hfields : ModelColumn.ofDef c marker = ModelColumn.ofAdd c marker ↔
      inlineNullable c = !c.options.any isNotNull := by
    simp only [ModelColumn.ofDef, ModelColumn.ofAdd, ModelColumn.mk.injEq,
      true_and]
  rw [hfields, inlineNullable, Bool.not_inj_iff, Bool.eq_iff_iff]
  simp only [List.any_eq_true, Bool.or_eq_true]
  constructor
  · intro h
    by_cases hpk : ∃ o ∈ c.options, isPrimary o = true
    · obtain ⟨o, ho, hpk⟩ := hpk
      exact Or.inr (h.mp ⟨o, ho, Or.inr hpk⟩)
    · refine Or.inl fun o ho => Bool.eq_false_iff.mpr ?_
      intro hprimary
      exact hpk ⟨o, ho, hprimary⟩
  · rintro (hpk | hnn)
    · constructor
      · rintro ⟨o, ho, hnn | hprimary⟩
        · exact ⟨o, ho, hnn⟩
        · rw [hpk o ho] at hprimary
          cases hprimary
      · rintro ⟨o, ho, hnn⟩
        exact ⟨o, ho, Or.inl hnn⟩
    · obtain ⟨o, ho, hnn⟩ := hnn
      exact ⟨fun _ => ⟨o, ho, hnn⟩, fun _ => ⟨o, ho, Or.inl hnn⟩⟩

/-- More inline key entries change the table's key unless there are none, or a
    table-level key overrides them all. -/
theorem constraintKey_append_iff {key more : List String}
    {cons : List TableConstraint} :
    constraintKey (key ++ more) cons = constraintKey key cons ↔
      more = [] ∨ ∃ con ∈ cons, (primaryKeyOf con).isSome = true := by
  rw [constraintKey_eq, constraintKey_eq]
  cases hlast : (cons.filterMap primaryKeyOf).getLast? with
  | none =>
      have hnone := List.filterMap_eq_nil_iff.mp
        (List.getLast?_eq_none_iff.mp hlast)
      simp only [List.append_right_eq_self]
      constructor
      · exact Or.inl
      · rintro (h | ⟨con, hcon, hsome⟩)
        · exact h
        · rw [hnone con hcon] at hsome
          cases hsome
  | some cols =>
      simp only [true_iff]
      have hmem := List.mem_of_getLast? hlast
      obtain ⟨con, hcon, hkey⟩ := List.mem_filterMap.mp hmem
      exact Or.inr ⟨con, hcon, by rw [hkey]; rfl⟩

/-! ## The two tables -/

/-- The table the two statements leave, when no earlier block has its name. -/
def addedTable (ct : CreateTable) (c : ColumnDef) (rows : List Mapped)
    (row : Mapped) : ModelTable :=
  { ModelTable.created ct rows with
    columns := (ModelTable.created ct rows).columns
      ++ [ModelColumn.ofAdd c row.marker] }

theorem created_withLast {ct : CreateTable} {c : ColumnDef}
    {rows : List Mapped} {row : Mapped} (h : RowsOf ct.columns rows) :
    ModelTable.created (withLast ct c) (rows ++ [row]) =
      { name := lastIdent ct.name
        columns := columnsOf ct.columns rows
          ++ [ModelColumn.ofDef c row.marker]
        primaryKey := constraintKey
          (ct.columns.flatMap inlineKey ++ inlineKey c) ct.constraints
        foreignKeys := ct.columns.flatMap inlineForeignKeys
          ++ inlineForeignKeys c
          ++ ct.constraints.flatMap constraintForeignKeys } := by
  simp only [ModelTable.created, withLast, columnsOf,
    List.zipWith_append h.length_eq, List.zipWith_cons_cons,
    List.zipWith_nil_left, List.flatMap_append, List.flatMap_cons,
    List.flatMap_nil, List.append_nil]

theorem rowsOf_unique {cs : List ColumnDef} {rows rows' : List Mapped}
    (h : RowsOf cs rows) (h' : RowsOf cs rows') : rows' = rows := by
  have hunique : Relator.RightUnique
      fun (c : ColumnDef) row => mapType c.dataType = some row := by
    intro c row row' hrow hrow'
    exact Option.some.inj (hrow.symm.trans hrow')
  exact (List.right_unique_forall₂' hunique h h').symm

/-- The two tables are one exactly when the column reads alike. -/
theorem addedTable_eq_iff {ct : CreateTable} {c : ColumnDef}
    {rows : List Mapped} {row : Mapped} (h : RowsOf ct.columns rows) :
    addedTable ct c rows row = ModelTable.created (withLast ct c) (rows ++ [row])
      ↔ ReadAlike ct c := by
  -- column, key and references are compared one by one
  have hparts : addedTable ct c rows row
      = ModelTable.created (withLast ct c) (rows ++ [row]) ↔
        ModelColumn.ofDef c row.marker = ModelColumn.ofAdd c row.marker ∧
        constraintKey (ct.columns.flatMap inlineKey ++ inlineKey c)
          ct.constraints
            = constraintKey (ct.columns.flatMap inlineKey) ct.constraints ∧
        inlineForeignKeys c = [] := by
    rw [created_withLast h, addedTable, ModelTable.created]
    simp only [ModelTable.mk.injEq, true_and, List.append_cancel_left_eq,
      List.append_assoc, List.cons.injEq, and_true, List.self_eq_append_left]
    exact and_congr eq_comm (and_congr eq_comm Iff.rfl)
  rw [hparts, ofDef_eq_ofAdd_iff, constraintKey_append_iff, inlineKey_eq_nil,
    inlineForeignKeys_eq_nil]
  constructor
  · -- a `NOT NULL` decides `nullable` alone, a key option also the key
    rintro ⟨hnullable, hkey, href⟩
    refine ⟨href, ?_⟩
    rcases hnullable with hpk | hnn
    · exact Or.inl hpk
    · exact hkey.imp_right fun hcons => ⟨hnn, hcons⟩
  · intro hread
    refine ⟨?_, ?_, hread.no_reference⟩
    · exact hread.key.imp_right And.left
    · exact hread.key.imp_right And.right

/-! ## The two runs -/

/-- `CREATE TABLE` without the column, then `ADD COLUMN` of it. -/
def createThenAdd (ct : CreateTable) (c : ColumnDef)
    (ifExists only columnKeyword ifNotExists : Bool) (position : Option Clause)
    (clauses : Clause) : List Statement :=
  [.createTable ct, .alterTable ct.name ifExists only
    [.addColumn columnKeyword ifNotExists c position] clauses]

theorem createThenAdd_ok {p : Sqlparser} {m m' : Model} {ct : CreateTable}
    {c : ColumnDef} {ie only kw ine : Bool} {pos : Option Clause}
    {cl : Clause} :
    (createThenAdd ct c ie only kw ine pos cl).foldlM (Model.apply p) m
        = .ok m' ↔
      ∃ rows row, RowsOf ct.columns rows ∧ mapType c.dataType = some row ∧
        (⟨m.tables ++ [ModelTable.created ct rows]⟩ : Model).tableMut
          (lastIdent ct.name) (operationUpdate (.addColumn kw ine c pos))
            = some m' := by
  rw [createThenAdd, foldlM_cons_ok]
  constructor
  · rintro ⟨m₁, hcreate, halter⟩
    obtain ⟨rows, hrows, rfl⟩ := apply_createTable_ok.mp hcreate
    obtain ⟨m₂, halter, hnil⟩ := foldlM_cons_ok.mp halter
    obtain ⟨m₃, hop, hnil'⟩ := foldlM_cons_ok.mp halter
    obtain ⟨⟨row, hrow⟩, hmut⟩ := applyOperation_addColumn_ok.mp hop
    rw [foldlM_nil_ok.mp hnil', foldlM_nil_ok.mp hnil] at hmut
    exact ⟨rows, row, hrows, hrow, hmut⟩
  · rintro ⟨rows, row, hrows, hrow, hmut⟩
    refine ⟨_, apply_createTable_ok.mpr ⟨rows, hrows, rfl⟩,
      foldlM_cons_ok.mpr ⟨m', foldlM_cons_ok.mpr ⟨m', ?_, rfl⟩, rfl⟩⟩
    exact applyOperation_addColumn_ok.mpr ⟨⟨row, hrow⟩, hmut⟩

/-- With no earlier block of the name, the column goes to the new table. -/
theorem tableMut_last {m : Model} {t : ModelTable} {name : String}
    {f : ModelTable → ModelTable} (hname : t.name = name)
    (h : ∀ t ∈ m.tables, t.name ≠ name) :
    (⟨m.tables ++ [t]⟩ : Model).tableMut name f = some ⟨m.tables ++ [f t]⟩ := by
  have hupd : updateFirst (fun t => t.name == name) f (m.tables ++ [t])
      = some (m.tables ++ [f t]) := by
    refine updateFirst_eq_some.mpr ⟨m.tables, t, [], rfl, rfl, ?_, ?_⟩
    · exact beq_iff_eq.mpr hname
    · intro x hx
      exact beq_eq_false_iff_ne.mpr (h x hx)
  rw [Model.tableMut, hupd]
  rfl

/-- With an earlier block of the name, the new table stays as it is. -/
theorem tableMut_earlier {m m' : Model} {t : ModelTable} {name : String}
    {f : ModelTable → ModelTable} (h : ∃ t ∈ m.tables, t.name = name)
    (hm : (⟨m.tables ++ [t]⟩ : Model).tableMut name f = some m') :
    ∃ ts, m'.tables = ts ++ [t] := by
  obtain ⟨ts, hupd, rfl⟩ := Option.map_eq_some_iff.mp hm
  obtain ⟨l, a, r, htables, rfl, -, hl⟩ := updateFirst_eq_some.mp hupd
  rcases List.eq_nil_or_concat r with rfl | ⟨r, x, rfl⟩
  · -- the update would have passed the earlier block by
    obtain ⟨rfl, -⟩ := List.append_inj' htables rfl
    obtain ⟨t₀, ht₀, hname⟩ := h
    have hne := hl t₀ ht₀
    rw [beq_iff_eq.mpr hname] at hne
    cases hne
  · rw [List.concat_eq_append, ← List.cons_append, ← List.append_assoc]
      at htables
    obtain ⟨-, hlast⟩ := List.append_inj' htables rfl
    refine ⟨l ++ f a :: r, ?_⟩
    rw [hlast, List.concat_eq_append, List.append_assoc, List.cons_append]

/-- **WHEN `ADD COLUMN` AGREES WITH `CREATE TABLE`**: no earlier block has the
    table's name, and the column reads alike on both paths. -/
theorem add_column_agrees_iff {p : Sqlparser} {m m' : Model}
    {ct : CreateTable} {c : ColumnDef} (ie only kw ine : Bool)
    (pos : Option Clause) (cl : Clause)
    (hfull : m.apply p (.createTable (withLast ct c)) = .ok m') :
    (createThenAdd ct c ie only kw ine pos cl).foldlM (Model.apply p) m
        = .ok m' ↔
      (∀ t ∈ m.tables, t.name ≠ lastIdent ct.name) ∧ ReadAlike ct c := by
  obtain ⟨all, hall, rfl⟩ := apply_createTable_ok.mp hfull
  obtain ⟨rows, row, hrows, hrow, rfl⟩ := forall₂_snoc_iff.mp hall
  have hname : (ModelTable.created ct rows).name = lastIdent ct.name := rfl
  have hadded : operationUpdate (.addColumn kw ine c pos)
      (ModelTable.created ct rows) = addedTable ct c rows row := by
    simp only [operationUpdate, hrow, addedTable]
  rw [createThenAdd_ok]
  constructor
  · rintro ⟨rows', row', hrows', hrow', hmut⟩
    have hfresh : ∀ t ∈ m.tables, t.name ≠ lastIdent ct.name := by
      intro t ht hname
      obtain ⟨ts, hts⟩ := tableMut_earlier ⟨t, ht, hname⟩ hmut
      obtain ⟨-, hlast⟩ := List.append_inj' hts rfl
      -- the table without the column has one column less
      have hcolumns := congrArg (fun t => t.columns.length)
        (List.cons.inj hlast).1
      rw [created_withLast hrows] at hcolumns
      simp only [ModelTable.created, columnsOf, List.length_append,
        List.length_zipWith, List.length_singleton, ← hrows.length_eq,
        ← hrows'.length_eq] at hcolumns
      omega
    rw [rowsOf_unique hrows hrows',
      tableMut_last hname hfresh, hadded]
      at hmut
    have hlast := (List.append_inj' (Model.mk.inj (Option.some.inj hmut)) rfl).2
    exact ⟨hfresh, (addedTable_eq_iff hrows).mp (List.cons.inj hlast).1⟩
  · rintro ⟨hfresh, hread⟩
    refine ⟨rows, row, hrows, hrow, ?_⟩
    rw [tableMut_last hname hfresh, hadded,
      (addedTable_eq_iff hrows).mpr hread]

/-- `CREATE TABLE posts (id UUID PRIMARY KEY, title TEXT)` -/
def posts : CreateTable where
  orReplace := false
  ifNotExists := false
  name := bare "posts"
  columns := [col "id" .uuid [pk], col "title" .text []]
  constraints := []
  query := none
  like := none
  clone := none
  clauses := ""

theorem add_column_agrees_iff_of_posts :
    (createThenAdd posts (col "views" (.int none) [.notNull, .default "0"])
        false false true false none "").foldlM (Model.apply (parserOf []))
        Model.empty
      = .ok ⟨[⟨"posts", [⟨"id", "diesel_dualdb::sql_types::Uuid", false⟩,
          ⟨"title", "diesel::sql_types::Text", true⟩,
          ⟨"views", "diesel::sql_types::Integer", false⟩], ["id"], []⟩]⟩ := by
  refine (add_column_agrees_iff false false true false none "" ?_).mpr ?_
  · decide
  · exact ⟨fun t ht => absurd ht List.not_mem_nil,
      ⟨by decide, Or.inl (by decide)⟩⟩

/-- **A REFERENCE ADDED WITH ITS COLUMN IS LOST**: `ADD COLUMN author UUID
    REFERENCES users` records no foreign key, the same column in the
    `CREATE TABLE` records one. -/
theorem add_column_drops_reference :
    ∃ m m', Model.empty.apply (parserOf []) (.createTable
        (withLast posts (col "author" .uuid [.foreignKey (bare "users") [] ""])))
          = .ok m ∧
      (createThenAdd posts (col "author" .uuid
          [.foreignKey (bare "users") [] ""]) false false true false none ""
        ).foldlM (Model.apply (parserOf [])) Model.empty = .ok m' ∧
      m.tables.map ModelTable.foreignKeys = [[("author", "users")]] ∧
      m'.tables.map ModelTable.foreignKeys = [[]] ∧ m ≠ m' := by
  refine ⟨_, _, rfl, rfl, rfl, rfl, ?_⟩
  decide

end DualdbAddColumn
