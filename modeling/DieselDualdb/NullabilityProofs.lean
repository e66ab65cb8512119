import DieselDualdb.CatalogSimulation
import DieselDualdb.EmittedRun
import DieselDualdb.SqlText

/-!
# Nullability in the two backends

`holdsNull` is the Postgres rule for a column of the catalog, `sqliteHoldsNull`
the SQLite rule, under which membership in a key forbids NULL only for an
`INTEGER PRIMARY KEY`.  A printed column agrees with Postgres when it is
`Nullable` exactly if the column can hold NULL, and is safe for SQLite when a
column that is not `Nullable` cannot.

Both comparisons are instances of `CatalogSimulation`, each with the catalog of
its own tree.  The model reads `NOT NULL` and `PRIMARY KEY` on the columns of a
`CREATE TABLE` and `NOT NULL` on an added one, and nothing afterwards; the
conditions say that nothing else would have made a difference.
-/

namespace DualdbNullability

open DualdbAst DualdbTypeMap DualdbModel DualdbRender DualdbMigration
open DualdbRewrite DualdbCatalog DualdbEmitted DualdbSimulation FallibleRun

variable {κ : Type}

/-! ## What a column can hold -/

/-- Postgres: `NOT NULL` and keys forbid NULL. -/
def holdsNull (col : Column) : Bool := !(col.notNull || col.keyed)

/-- The type is written `INTEGER`, in SQLite the type of a row id. -/
def isInteger (dt : DataType) : Bool :=
  decide (dt = DataType.ofNative "INTEGER" ∨ dt = .integer none)

/-- The column is the whole key of its table. -/
def isKey (d : Dialect κ) (key : Option PrimaryKey) (col : Column) : Bool :=
  key.any fun pk => pk.columns == [col.key d]

/-- SQLite: `NOT NULL` and `INTEGER PRIMARY KEY` forbid NULL. -/
def sqliteHoldsNull (d : Dialect κ) (key : Option PrimaryKey)
    (col : Column) : Bool :=
  !(col.notNull || (isInteger col.dataType && isKey d key col))

/-- The column prints `Nullable` exactly if Postgres lets it hold NULL. -/
def PostgresAgrees (c : ModelColumn) (col : Column) : Prop :=
  c.nullable = holdsNull col

/-- A column that does not print `Nullable` holds no NULL in SQLite. -/
def SqliteSafe (d : Dialect κ) (key : Option PrimaryKey) (c : ModelColumn)
    (col : Column) : Prop :=
  c.nullable = false → sqliteHoldsNull d key col = false

/-! ## The conditions on a step -/

def tableKeys (ct : CreateTable) : List (List Ident) :=
  ct.constraints.filterMap primaryKeyOf

/-- The members of a table-level key say on the column that they hold no
    NULL. -/
def PostgresCreate (d : Dialect κ) (ct : CreateTable) : Prop :=
  ∀ cols ∈ tableKeys ct, ∀ c ∈ ct.columns,
    d.ident c.name ∈ cols.map d.ident → inlineNullable c = false

/-- A later key takes in columns that hold no NULL already, an added key column
    says `NOT NULL`, and `SET` and `DROP NOT NULL` change nothing. -/
def PostgresOperation (d : Dialect κ) (s : Shape) :
    AlterTableOperation → Prop
  | .addConstraint con => ∀ cols ∈ primaryKeyOf con, ∀ col ∈ s.columns,
      col.key d ∈ cols.map d.ident → holdsNull col = false
  | .addColumn _ _ c _ => c.options.any isPrimary → c.options.any isNotNull
  | .alterColumn name .setNotNull => ∀ col ∈ s.columns,
      col.key d = d.ident name → holdsNull col = false
  | .alterColumn name .dropNotNull => ∀ col ∈ s.columns,
      col.key d = d.ident name → holdsNull col = true
  | _ => True

/-- A column that is declared the key says `NOT NULL` or is emitted as
    `INTEGER`. -/
def SqliteCreate (ct : CreateTable) : Prop :=
  ∀ c ∈ ct.columns, c.options.any isPrimary → c.options.any isNotNull = true
    ∨ nativeOr .sqlite c.dataType = DataType.ofNative "INTEGER"

/-- An `INTEGER PRIMARY KEY` that loses its key or its type is `NOT NULL`, and
    `DROP NOT NULL` changes nothing. -/
def SqliteOperation (d : Dialect κ) (s : Shape) : AlterTableOperation → Prop
  | .dropConstraint _ name _ =>
      (s.primaryKey.any fun pk => pk.name == d.ident name) →
      ∀ col ∈ s.columns, isInteger col.dataType → isKey d s.primaryKey col →
        col.notNull = true
  | .alterColumn name .dropNotNull => ∀ col ∈ s.columns,
      col.key d = d.ident name → col.notNull = false
  | .alterColumn name (.setDataType dataType _) => ∀ col ∈ s.columns,
      col.key d = d.ident name → isInteger col.dataType →
      isKey d s.primaryKey col →
        col.notNull = true ∨ isInteger dataType = true
  | _ => True

/-- Postgres executes the statements with its native types. -/
def postgres (n : Naming) (d : Dialect κ) : Tracking κ where
  dialect := d
  naming := n
  emitType := nativeOr .postgres
  Related _ := PostgresAgrees
  CreateOk := PostgresCreate d
  OperationOk := PostgresOperation d

/-- SQLite executes the statements with its native types. -/
def sqlite (n : Naming) (d : Dialect κ) : Tracking κ where
  dialect := d
  naming := n
  emitType := nativeOr .sqlite
  Related := SqliteSafe d
  CreateOk := SqliteCreate
  OperationOk := SqliteOperation d

/-! ## Keys a `CREATE TABLE` declares -/

theorem mem_declaredKeys {ct : CreateTable} {cols : List Ident} :
    cols ∈ declaredKeys ct ↔
      (∃ c ∈ ct.columns, c.options.any isPrimary = true ∧ cols = [c.name])
        ∨ cols ∈ tableKeys ct := by
  rw [declaredKeys, declaredConstraints]
  rw [List.filterMap_append, List.mem_append, List.filterMap_flatMap]
  refine or_congr ?_ Iff.rfl
  simp only [List.mem_flatMap, inlineConstraints_keys, List.mem_map,
    List.mem_filter, List.any_eq_true]
  constructor
  · rintro ⟨c, hc, o, ho, rfl⟩
    exact ⟨c, hc, ⟨o, ho⟩, rfl⟩
  · rintro ⟨c, hc, ⟨o, ho⟩, rfl⟩
    exact ⟨c, hc, o, ho, rfl⟩

/-- The one key of the table, when a column declares it. -/
theorem key_of_isPrimary {d : Dialect κ} {ct : CreateTable} {c : ColumnDef}
    {key : Option PrimaryKey} (hc : c ∈ ct.columns)
    (hprimary : c.options.any isPrimary = true)
    (hkey : declaredKeys ct = [] ∧ key = none
      ∨ ∃ cols n, declaredKeys ct = [cols]
        ∧ key = some ⟨n, cols.map d.ident⟩) :
    ∃ n, key = some ⟨n, [d.ident c.name]⟩ := by
  have hmem : [c.name] ∈ declaredKeys ct :=
    mem_declaredKeys.mpr (Or.inl ⟨c, hc, hprimary, rfl⟩)
  rcases hkey with ⟨hnone, -⟩ | ⟨cols, n, hone, rfl⟩
  · rw [hnone] at hmem
    cases hmem
  · rw [hone, List.mem_singleton] at hmem
    exact ⟨n, by rw [← hmem]; rfl⟩

theorem inlineNullable_eq (c : ColumnDef) :
    inlineNullable c
      = !(c.options.any isNotNull || c.options.any isPrimary) := by
  rw [inlineNullable]
  congr 1
  induction c.options with
  | nil => rfl
  | cons o opts ih =>
      simp only [List.any_cons, ih]
      cases isNotNull o <;> cases isPrimary o <;>
        cases opts.any isNotNull <;> rfl

/-- A column is in the table's key exactly if it declares the key or a
    table-level one names it. -/
theorem keyed_created {d : Dialect κ} {ct : CreateTable} {c : ColumnDef}
    {key : Option PrimaryKey} (hc : c ∈ ct.columns)
    (hnodup : (ct.columns.map fun c => d.ident c.name).Nodup)
    (hkey : declaredKeys ct = [] ∧ key = none
      ∨ ∃ cols n, declaredKeys ct = [cols]
        ∧ key = some ⟨n, cols.map d.ident⟩) :
    (∃ pk ∈ key, d.ident c.name ∈ pk.columns) ↔
      c.options.any isPrimary = true
        ∨ ∃ cols ∈ tableKeys ct, d.ident c.name ∈ cols.map d.ident := by
  constructor
  · rintro ⟨pk, hpk, hmem⟩
    rcases hkey with ⟨-, rfl⟩ | ⟨cols, n, hone, rfl⟩
    · cases hpk
    · cases Option.mem_some.mp hpk
      have hcols : cols ∈ declaredKeys ct := by
        rw [hone]; exact List.mem_singleton.mpr rfl
      rcases mem_declaredKeys.mp hcols with ⟨c', hc', hprimary, rfl⟩ | htable
      · -- an option's key is its own column, and no two share a name
        have hsame : c = c' := List.inj_on_of_nodup_map hnodup hc hc'
          (List.mem_singleton.mp hmem)
        exact Or.inl (hsame ▸ hprimary)
      · exact Or.inr ⟨cols, htable, hmem⟩
  · rintro (hprimary | ⟨cols, htable, hmem⟩)
    · obtain ⟨n, rfl⟩ := key_of_isPrimary (d := d) hc hprimary hkey
      exact ⟨_, rfl, List.mem_singleton.mpr rfl⟩
    · have hcols : cols ∈ declaredKeys ct :=
        mem_declaredKeys.mpr (Or.inr htable)
      rcases hkey with ⟨hnone, -⟩ | ⟨cols', n, hone, rfl⟩
      · rw [hnone] at hcols
        cases hcols
      · rw [hone, List.mem_singleton] at hcols
        exact ⟨_, rfl, hcols ▸ hmem⟩

/-! ## Postgres -/

theorem markedBy_keyed {d : Dialect κ} {key : Option PrimaryKey}
    {col : Column} (h : col.keyed = false) :
    (markedBy d key col).keyed = true ↔
      ∃ pk ∈ key, col.key d ∈ pk.columns := by
  cases key with
  | none => simp [markedBy, h]
  | some pk => simp [markedBy, mark_keyed, h]

theorem markedBy_notNull {d : Dialect κ} {key : Option PrimaryKey}
    {col : Column} : (markedBy d key col).notNull = col.notNull := by
  cases key with
  | none => rfl
  | some pk => exact mark_notNull _ col

/-- A created column agrees with Postgres. -/
theorem postgres_created {n : Naming} {d : Dialect κ} {ct : CreateTable} {c : ColumnDef}
    {row : Mapped} {key : Option PrimaryKey} (hok : PostgresCreate d ct)
    (hc : c ∈ ct.columns)
    (hnodup : (ct.columns.map fun c => d.ident c.name).Nodup)
    (hkey : declaredKeys ct = [] ∧ key = none
      ∨ ∃ cols n, declaredKeys ct = [cols]
        ∧ key = some ⟨n, cols.map d.ident⟩) :
    PostgresAgrees (ModelColumn.ofDef c row.marker)
      (markedBy d key (Column.ofDef ((postgres n d).emitColumn c))) := by
  have hkeyed : (markedBy d key
      (Column.ofDef ((postgres n d).emitColumn c))).keyed = true ↔
      c.options.any isPrimary = true
        ∨ ∃ cols ∈ tableKeys ct, d.ident c.name ∈ cols.map d.ident :=
    (markedBy_keyed rfl).trans (keyed_created (d := d) (c := c) hc hnodup hkey)
  show inlineNullable c = !(_ || _)
  rw [inlineNullable_eq, markedBy_notNull]
  show (!(c.options.any isNotNull || _)) = !(c.options.any isNotNull || _)
  cases hnull : c.options.any isNotNull with
  | true => rfl
  | false =>
      rw [Bool.false_or, Bool.false_or, Bool.not_inj_iff, Bool.eq_iff_iff,
        hkeyed]
      refine ⟨Or.inl, ?_⟩
      rintro (hprimary | ⟨cols, hcols, hmem⟩)
      · exact hprimary
      · -- a member of a table key has to be printed non-nullable
        have hinline := hok cols hcols c hc hmem
        rwa [inlineNullable_eq, hnull, Bool.false_or, Bool.not_eq_false']
          at hinline

/-- No operation that meets its condition changes what Postgres lets a column
    hold. -/
theorem holdsNull_after {d : Dialect κ} {op : AlterTableOperation}
    {s : Shape} {col : Column} (hok : PostgresOperation d s op)
    (hcol : col ∈ s.columns) :
    holdsNull (columnAfter d op col) = holdsNull col := by
  cases op with
  | addConstraint con =>
      simp only [columnAfter]
      split
      · next cols hcols =>
          simp only [holdsNull, mark_notNull, mark_keyed]
          cases hmem : (cols.map d.ident).contains (col.key d) with
          | false => rfl
          | true =>
              -- a column that joins a key held no null before
              have hheld := hok cols hcols col hcol
                (List.contains_iff_mem.mp hmem)
              rw [holdsNull] at hheld
              rw [hheld, Bool.true_or, Bool.or_true]
              rfl
      · rfl
  | renameColumn old new =>
      simp only [columnAfter]
      split <;> rfl
  | alterColumn name op =>
      cases op with
      | setNotNull =>
          simp only [columnAfter]
          split
          · next hkey => exact (hok col hcol hkey).symm
          · rfl
      | dropNotNull =>
          simp only [columnAfter]
          split
          · next hkey => exact (hok col hcol hkey).symm
          · rfl
      | setDataType _ _ =>
          simp only [columnAfter]
          split <;> rfl
      | setDefault _ | dropDefault | addGenerated _ => rfl
  | addColumn _ _ _ _ | dropColumn _ _ _ | dropConstraint _ _ _
  | dropPrimaryKey | renameTable _ | changeColumn _ _ _ _ _
  | modifyColumn _ _ _ _ | other _ => rfl

theorem postgres_sound (n : Naming) (d : Dialect κ) : (postgres n d).Sound where
  created hok hc _ hnodup hkey := postgres_created hok hc hnodup hkey
  kept hok _ _ hcol _ h := h.trans (holdsNull_after hok hcol).symm
  added := by
    intro kw ine cd pos s row key hok _
    show (!cd.options.any isNotNull)
      = !(cd.options.any isNotNull || cd.options.any isPrimary)
    cases hprimary : cd.options.any isPrimary with
    | false => rw [Bool.or_false]
    | true => rw [hok hprimary]; rfl

/-! ## SQLite -/

theorem sqliteSafe_of_notNull {d : Dialect κ} {key : Option PrimaryKey}
    {c : ModelColumn} {col : Column} (h : col.notNull = true) :
    SqliteSafe d key c col := by
  intro _
  rw [sqliteHoldsNull, h]
  rfl

theorem sqliteSafe_of_integerKey {d : Dialect κ} {key : Option PrimaryKey}
    {c : ModelColumn} {col : Column} (hint : isInteger col.dataType = true)
    (hkey : isKey d key col = true) : SqliteSafe d key c col := by
  intro _
  rw [sqliteHoldsNull, hint, hkey, Bool.and_true, Bool.or_true]
  rfl

/-- A column stays safe when `NOT NULL` stays, and what was an
    `INTEGER PRIMARY KEY` is one afterwards or is `NOT NULL`. -/
theorem SqliteSafe.of_kept {d : Dialect κ} {key key' : Option PrimaryKey}
    {c : ModelColumn} {col col' : Column} (h : SqliteSafe d key c col)
    (hnull : col.notNull = true → col'.notNull = true)
    (hkey : isInteger col.dataType = true → isKey d key col = true →
      col'.notNull = true
        ∨ (isInteger col'.dataType = true ∧ isKey d key' col' = true)) :
    SqliteSafe d key' c col' := by
  intro hc
  have hforbids := h hc
  rw [sqliteHoldsNull, Bool.not_eq_false', Bool.or_eq_true,
    Bool.and_eq_true] at hforbids
  refine (?_ : SqliteSafe d key' c col') hc
  rcases hforbids with hn | ⟨hi, hk⟩
  · exact sqliteSafe_of_notNull (hnull hn)
  · rcases hkey hi hk with hn | ⟨hi', hk'⟩
    · exact sqliteSafe_of_notNull hn
    · exact sqliteSafe_of_integerKey hi' hk'

theorem sqlite_created {n : Naming} {d : Dialect κ} {ct : CreateTable} {c : ColumnDef}
    {row : Mapped} {key : Option PrimaryKey} (hok : SqliteCreate ct)
    (hc : c ∈ ct.columns)
    (hkey : declaredKeys ct = [] ∧ key = none
      ∨ ∃ cols n, declaredKeys ct = [cols]
        ∧ key = some ⟨n, cols.map d.ident⟩) :
    SqliteSafe d key (ModelColumn.ofDef c row.marker)
      (markedBy d key (Column.ofDef ((sqlite n d).emitColumn c))) := by
  intro hnullable
  refine (?_ : SqliteSafe d key (ModelColumn.ofDef c row.marker) _) hnullable
  have hinline : inlineNullable c = false := hnullable
  rw [inlineNullable_eq, Bool.not_eq_false', Bool.or_eq_true] at hinline
  rcases hinline with hnull | hprimary
  · exact sqliteSafe_of_notNull (markedBy_notNull.trans hnull)
  · rcases hok c hc hprimary with hnull | hinteger
    · exact sqliteSafe_of_notNull (markedBy_notNull.trans hnull)
    · obtain ⟨n, rfl⟩ := key_of_isPrimary (d := d) hc hprimary hkey
      refine sqliteSafe_of_integerKey ?_ ?_
      · show isInteger (Column.mark (d := d) _ _).dataType = true
        rw [mark_dataType]
        exact decide_eq_true (Or.inl hinteger)
      · show ([d.ident c.name] == [(Column.mark (d := d) _ _).key d]) = true
        rw [Column.key, mark_name]
        exact beq_self_eq_true _

/-- Without a key before, only `NOT NULL` made the column safe. -/
theorem SqliteSafe.of_keyless {d : Dialect κ} {key : Option PrimaryKey}
    {c : ModelColumn} {col col' : Column} (h : SqliteSafe d none c col)
    (hnull : col'.notNull = col.notNull) : SqliteSafe d key c col' :=
  h.of_kept hnull.trans fun _ hkey => absurd hkey Bool.false_ne_true

/-- Declaring constraints keeps the columns that are there safe. -/
theorem sqlite_declared {d : Dialect κ} {taken : List String}
    {cons : List TableConstraint} {s s₁ s' : Shape} {c : ModelColumn}
    {col : Column} (hkey : s₁.primaryKey = s.primaryKey)
    (h : SqliteSafe d s.primaryKey c col)
    (hdeclare : cons.foldlM (Shape.declare d taken) s₁ = .ok s') :
    SqliteSafe d s'.primaryKey c col := by
  rcases declares_ok hdeclare with ⟨-, rfl⟩ | ⟨cols, n, -, hnone, rfl⟩
  · rw [hkey]
    exact h
  · rw [← hkey, hnone] at h
    exact h.of_keyless rfl

/-- Renaming a column renames it in the key. -/
theorem sqlite_renamed {d : Dialect κ} {old new : Ident}
    {key : Option PrimaryKey} {c : ModelColumn} {col : Column}
    (h : SqliteSafe d key c col) :
    SqliteSafe d
      (key.map fun pk =>
        { pk with columns := renameKey (d.ident old) (d.ident new) pk.columns })
      c (columnAfter d (.renameColumn old new) col) := by
  have hcol : (columnAfter d (.renameColumn old new) col).notNull
      = col.notNull ∧ (columnAfter d (.renameColumn old new) col).dataType
      = col.dataType ∧ (columnAfter d (.renameColumn old new) col).key d
      = if col.key d = d.ident old then d.ident new else col.key d := by
    simp only [columnAfter]
    split <;> exact ⟨rfl, rfl, rfl⟩
  obtain ⟨hnull, htype, hname⟩ := hcol
  refine h.of_kept hnull.trans fun hi hk => Or.inr ⟨by rw [htype, hi], ?_⟩
  obtain ⟨pk, rfl, hone⟩ := (Option.any_eq_true _ _).mp hk
  show (renameKey _ _ pk.columns == [_]) = true
  rw [eq_of_beq hone, hname]
  exact beq_self_eq_true _

theorem member_of_isKey {d : Dialect κ} {key : Option PrimaryKey}
    {col : Column} {name : Ident} (hname : col.key d = d.ident name)
    (h : isKey d key col = true) :
    (key.any fun pk => pk.columns.contains (d.ident name)) = true := by
  obtain ⟨pk, rfl, hone⟩ := (Option.any_eq_true _ _).mp h
  show pk.columns.contains _ = true
  rw [eq_of_beq hone, hname]
  exact List.contains_iff_mem.mpr (List.mem_singleton.mpr rfl)

/-- A column an operation keeps stays safe. -/
theorem sqlite_kept {n : Naming} {d : Dialect κ} {op : AlterTableOperation}
    {s s' : Shape} {taken : List String} {c : ModelColumn} {col : Column}
    (hok : SqliteOperation d s op)
    (hop : shapeOperation d taken s ((sqlite n d).emitOperation op) = .ok s')
    (hcol : col ∈ s.columns) (hkeep : keptBy d op col = true)
    (h : SqliteSafe d s.primaryKey c col) :
    SqliteSafe d s'.primaryKey c (columnAfter d op col) := by
  have hstep := shapeOperation_ok hop
  cases op with
  | addConstraint con =>
      have hcol' : (columnAfter d (.addConstraint con) col).notNull
          = col.notNull := by
        simp only [columnAfter]
        split
        · exact mark_notNull _ col
        · rfl
      rcases declare_ok hop with ⟨hnone, rfl⟩ | ⟨cols, n, -, hnone, rfl⟩
      · simp only [columnAfter, hnone]
        exact h
      · -- a key is declared on a table that had none
        rw [hnone] at h
        exact h.of_keyless hcol'
  | addColumn kw ine cd pos =>
      cases hstep with
      | columnThere _ => exact h
      | addColumn _ hdeclare =>
          refine sqlite_declared (s := s) ?_ h hdeclare
          rfl
  | dropColumn name ie cascade =>
      cases hstep with
      | dropColumn _ =>
          -- the dropped column is another one, so it is not in the key
          refine h.of_kept id fun hi hk => Or.inr ⟨hi, ?_⟩
          obtain ⟨pk, hpk, hone⟩ := (Option.any_eq_true _ _).mp hk
          have hother : pk.columns.contains (d.ident name) = false := by
            rw [eq_of_beq hone, List.contains_cons, List.contains_nil,
              Bool.or_false, beq_eq_false_iff_ne]
            exact (bne_iff_ne.mp hkeep).symm
          show Option.any _ (Option.filter _ _) = true
          rw [hpk, Option.filter_some, if_pos (by rw [hother]; rfl)]
          exact hone
      | columnMissing _ => exact h
  | dropConstraint ie name cascade =>
      cases hstep with
      | dropConstraint =>
          refine h.of_kept id fun hi hk => ?_
          obtain ⟨pk, hpk, hone⟩ := (Option.any_eq_true _ _).mp hk
          cases hname : pk.name == d.ident name with
          | true =>
              exact Or.inl (hok (by rw [hpk]; exact hname) col hcol hi hk)
          | false =>
              refine Or.inr ⟨hi, ?_⟩
              show Option.any _ (Option.filter _ _) = true
              rw [hpk, Option.filter_some, if_pos (by rw [bne, hname]; rfl)]
              exact hone
  | renameColumn old new =>
      cases hstep with
      | renameColumn _ _ => exact sqlite_renamed h
  | renameTable name =>
      cases hstep with
      | renameTable => exact h
  | alterColumn name op =>
      -- a column of another key is as it was
      cases hstep with
      | setNotNull _ =>
          simp only [columnAfter]
          split
          · exact sqliteSafe_of_notNull rfl
          · exact h
      | dropNotNull _ hmember =>
          simp only [columnAfter]
          split
          · next hkey =>
              refine h.of_kept (fun hn => ?_) fun _ hk => ?_
              · rw [hok col hcol hkey] at hn
                cases hn
              · exact absurd (member_of_isKey hkey hk) hmember
          · exact h
      | setDataType _ =>
          simp only [columnAfter]
          split
          · next hkey =>
              refine h.of_kept id fun hi hk => ?_
              exact (hok col hcol hkey hi hk).imp id fun hi' => ⟨hi', hk⟩
          · exact h
      | setDefault _ | dropDefault _ | addGenerated _ => exact h
  | dropPrimaryKey | changeColumn _ _ _ _ _ | modifyColumn _ _ _ _ =>
      cases hop
  | other text =>
      cases hstep with
      | inert _ => exact h

theorem sqlite_sound (n : Naming) (d : Dialect κ) : (sqlite n d).Sound where
  created hok hc _ _ hkey := sqlite_created hok hc hkey
  kept hok hop _ hcol hkeep h := sqlite_kept hok hop hcol hkeep h
  added := by
    intro kw ine cd pos s row key _ _ hnullable
    have hnull : (!cd.options.any isNotNull) = false := hnullable
    rw [Bool.not_eq_false'] at hnull
    exact sqliteSafe_of_notNull (c := ModelColumn.ofAdd cd row.marker) hnull
      hnullable

/-! ## Nullability agreement -/

variable {κ' : Type} [DecidableEq κ] [DecidableEq κ']

/-- A block agrees with the table of the Postgres catalog. -/
def TableAgrees (n : Naming) (t : ModelTable) (s : Shape) : Prop :=
  ColumnsAgree n PostgresAgrees t s

/-- A block is safe for the table of the SQLite catalog. -/
def TableSafe (n : Naming) (d : Dialect κ) (t : ModelTable) (s : Shape) :
    Prop :=
  ColumnsAgree n (SqliteSafe d s.primaryKey) t s

theorem postgres_step (n : Naming) (d : Dialect κ) : (postgres n d).step
    = fun c s => execTables d c (withNative .postgres s) := by
  funext c s
  cases s <;> rfl

theorem sqlite_step (n : Naming) (d : Dialect κ) : (sqlite n d).step
    = fun c s => execTables d c (withNative .sqlite s) := by
  funext c s
  cases s <;> rfl

/-- **NULLABILITY AGREEMENT**: when no step of an accepted list changes what a
    column holds behind the model's back, the printed columns agree with the
    catalog the Postgres tree leaves and are safe for the one the SQLite tree
    leaves, whichever columns the printed names are taken to stand for. -/
theorem nullability_agreement {p : Sqlparser} (n n' : Naming)
    (d : Dialect κ) (d' : Dialect κ') {raw : Raw κ} {raw' : Raw κ'} {ms : List Migration}
    {g : Generated} {stmts : List Statement} {c : Catalog κ}
    {c' : Catalog κ'} (h : generate p ms = .ok g)
    (hstmts : allStatements p ms = .ok stmts)
    (hc : Leaves d raw p .postgres ms c)
    (hc' : Leaves d' raw' p .sqlite ms c')
    (hpostgres : Along₂ (postgres n d).step (Model.apply p)
      ((postgres n d).Tracked p) Catalog.empty Model.empty stmts)
    (hsqlite : Along₂ (sqlite n' d').step (Model.apply p)
      ((sqlite n' d').Tracked p) Catalog.empty Model.empty stmts) :
    ∃ m, finalModel p ms = .ok m ∧ renderSchemaRs m = .ok g.schemaRs ∧
      List.Forall₂ (TableAgrees n) m.tables c.shapes ∧
      List.Forall₂ (TableSafe n' d') m.tables c'.shapes := by
  obtain ⟨m, hm, hrs, hfold⟩ := generate_run h hstmts
  have hrun := leaves_statements hc hstmts
  have hrun' := leaves_statements hc' hstmts
  -- one run of the model against each database's run
  rw [← postgres_step] at hrun
  rw [← sqlite_step] at hrun'
  have hagrees : (postgres n d).Agrees m c.bare :=
    Tracking.run (postgres_sound n d) agrees_empty hpostgres hrun hfold
  have hsafe : (sqlite n' d').Agrees m c'.bare :=
    Tracking.run (sqlite_sound n' d') agrees_empty hsqlite hrun' hfold
  exact ⟨m, hm, hrs, hagrees, hsafe⟩

/-! ## Runs on fixed histories -/

instance (n : Naming) (d : Dialect κ) (ct : CreateTable) :
    Decidable ((postgres n d).CreateOk ct) :=
  inferInstanceAs (Decidable (∀ cols ∈ tableKeys ct, ∀ c ∈ ct.columns,
    d.ident c.name ∈ cols.map d.ident → inlineNullable c = false))

instance (n : Naming) (d : Dialect κ) (s : Shape) :
    ∀ op, Decidable ((postgres n d).OperationOk s op)
  | .addConstraint con =>
      inferInstanceAs (Decidable (∀ cols ∈ primaryKeyOf con,
        ∀ col ∈ s.columns, col.key d ∈ cols.map d.ident →
          holdsNull col = false))
  | .addColumn _ _ c _ =>
      inferInstanceAs (Decidable
        (c.options.any isPrimary → c.options.any isNotNull = true))
  | .alterColumn name .setNotNull =>
      inferInstanceAs (Decidable (∀ col ∈ s.columns,
        col.key d = d.ident name → holdsNull col = false))
  | .alterColumn name .dropNotNull =>
      inferInstanceAs (Decidable (∀ col ∈ s.columns,
        col.key d = d.ident name → holdsNull col = true))
  | .alterColumn _ (.setDataType _ _) | .alterColumn _ (.setDefault _)
  | .alterColumn _ .dropDefault | .alterColumn _ (.addGenerated _)
  | .dropColumn _ _ _ | .dropConstraint _ _ _ | .dropPrimaryKey
  | .renameColumn _ _ | .renameTable _ | .changeColumn _ _ _ _ _
  | .modifyColumn _ _ _ _ | .other _ => isTrue trivial

instance (n : Naming) (d : Dialect κ) (ct : CreateTable) :
    Decidable ((sqlite n d).CreateOk ct) :=
  inferInstanceAs (Decidable (∀ c ∈ ct.columns, c.options.any isPrimary →
    c.options.any isNotNull = true
      ∨ nativeOr .sqlite c.dataType = DataType.ofNative "INTEGER"))

instance (n : Naming) (d : Dialect κ) (s : Shape) :
    ∀ op, Decidable ((sqlite n d).OperationOk s op)
  | .dropConstraint _ name _ =>
      inferInstanceAs (Decidable
        ((s.primaryKey.any fun pk => pk.name == d.ident name) →
          ∀ col ∈ s.columns, isInteger col.dataType →
            isKey d s.primaryKey col → col.notNull = true))
  | .alterColumn name .dropNotNull =>
      inferInstanceAs (Decidable (∀ col ∈ s.columns,
        col.key d = d.ident name → col.notNull = false))
  | .alterColumn name (.setDataType dataType _) =>
      inferInstanceAs (Decidable (∀ col ∈ s.columns,
        col.key d = d.ident name → isInteger col.dataType →
          isKey d s.primaryKey col →
            col.notNull = true ∨ isInteger dataType = true))
  | .alterColumn _ .setNotNull | .alterColumn _ (.setDefault _)
  | .alterColumn _ .dropDefault | .alterColumn _ (.addGenerated _)
  | .addConstraint _ | .addColumn _ _ _ _ | .dropColumn _ _ _
  | .dropPrimaryKey | .renameColumn _ _ | .renameTable _
  | .changeColumn _ _ _ _ _ | .modifyColumn _ _ _ _ | .other _ =>
      isTrue trivial

section Runs

open DualdbSqlText

def nullParser : Sqlparser := parserOf
  [("CREATE TABLE t (a INT PRIMARY KEY, b TEXT)\n",
      [createTable (bare "t")
        [col "a" (.int none) [pk], col "b" .text []] []]),
    ("ALTER TABLE t ADD c UUID NOT NULL\n",
      [alterTable (bare "t") [.addColumn false false
        (col "c" .uuid [.notNull]) none]]),
    ("CREATE TABLE t (a INT, PRIMARY KEY (a))\n",
      [createTable (bare "t") [col "a" (.int none) []]
        [.primaryKey none [Ident.new "a"] ""]])]

def nullHistory : List Migration :=
  [⟨"1", "CREATE TABLE t (a INT PRIMARY KEY, b TEXT)", none⟩,
    ⟨"2", "ALTER TABLE t ADD c UUID NOT NULL", none⟩]

def nullStatements : List Statement :=
  [createTable (bare "t") [col "a" (.int none) [pk], col "b" .text []] [],
    alterTable (bare "t")
      [.addColumn false false (col "c" .uuid [.notNull]) none]]

theorem nullability_agreement_of_integer_key :
    ∃ g c c' m, generate nullParser nullHistory = .ok g ∧
      Leaves folding noRaw nullParser .postgres nullHistory c ∧
      Leaves folding noRaw nullParser .sqlite nullHistory c' ∧
      renderSchemaRs m = .ok g.schemaRs ∧
      List.Forall₂ (TableAgrees .spelled) m.tables c.shapes ∧
      List.Forall₂ (TableSafe .spelled folding) m.tables c'.shapes := by
  obtain ⟨g, hg⟩ := exists_ok_of_isOk
    (x := generate nullParser nullHistory) (by decide +kernel)
  obtain ⟨c, hc⟩ := exists_leaves folding nullParser .postgres nullHistory
    noRaw_quiet (by decide +kernel)
  obtain ⟨c', hc'⟩ := exists_leaves folding nullParser .sqlite nullHistory
    noRaw_quiet (by decide +kernel)
  have hstmts : allStatements nullParser nullHistory = .ok nullStatements := by
    decide +kernel
  obtain ⟨m, -, hrs, hagrees, hsafe⟩ := nullability_agreement .spelled
    .spelled folding folding hg hstmts hc hc' (by decide +kernel)
    (by decide +kernel)
  exact ⟨g, c, c', m, hg, hc, hc', hrs, hagrees, hsafe⟩

def tableKeyHistory : List Migration :=
  [⟨"1", "CREATE TABLE t (a INT, PRIMARY KEY (a))", none⟩]

/-- The table-level key comes after the column: `a` prints `Nullable`, and the
    Postgres tree forbids NULL in it. -/
theorem table_key_prints_nullable :
    ∃ g c m, generate nullParser tableKeyHistory = .ok g ∧
      Leaves folding noRaw nullParser .postgres tableKeyHistory c ∧
      finalModel nullParser tableKeyHistory = .ok m ∧
      renderSchemaRs m = .ok g.schemaRs ∧
      m.tables.map (fun t => t.columns.map ModelColumn.nullable) = [[true]] ∧
      c.shapes.map (fun s => s.columns.map holdsNull) = [[false]] ∧
      ∀ n, ¬ List.Forall₂ (TableAgrees n) m.tables c.shapes := by
  obtain ⟨g, hg⟩ := exists_ok_of_isOk
    (x := generate nullParser tableKeyHistory) (by decide +kernel)
  obtain ⟨m, hm, hrs, -, -⟩ := generate_ok.mp hg
  have hfinal : finalModel nullParser tableKeyHistory = .ok ⟨[⟨"t",
      [⟨"a", "diesel::sql_types::Integer", true⟩], ["a"], []⟩]⟩ := by
    decide +kernel
  have hc := leaves_of_execute folding nullParser .postgres tableKeyHistory
    ⟨[⟨⟨bare "t",
      [⟨Ident.new "a", DataType.ofNative "INTEGER", false, true⟩],
      some ⟨"t_a_key", ["a"]⟩⟩, []⟩], []⟩ noRaw_quiet (by decide +kernel)
  rw [Except.ok.inj (hm.symm.trans hfinal)] at hrs hm
  refine ⟨g, _, _, hg, hc, hm, hrs, rfl, rfl, ?_⟩
  intro n h
  cases h with
  | cons ht _ =>
      cases ht.columns with
      | cons hcol _ => cases (show true = false from hcol.2)

end Runs

end DualdbNullability
