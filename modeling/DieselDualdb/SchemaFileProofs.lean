import DieselDualdb.CoherenceProofs
import DieselDualdb.KeyProofs
import DieselDualdb.NameProofs
import DieselDualdb.Lib.RustIdents

/-!
# Well-formed schema files

`SchemaFile` is a schema file that diesel takes: `table!` blocks with at least
one column and a key, `joinable!` lines, and the list of tables behind them;
wherever a name stands, it is an identifier of Rust by its type.  What is
printed is such a file exactly when the names and the tables of the model are
legal (`printed_file_iff`).

No name is looked at on the way there.  What must hold of the shared statements
is `LegalHistory`: the names of the tables and columns that are there at the
end, of keys and of foreign keys are identifiers, and each table has a column.
-/

namespace DualdbSchemaFile

open DualdbAst DualdbTypeMap DualdbModel DualdbRender DualdbMigration
open DualdbName DualdbLinks DualdbJoin DualdbCoherence FallibleRun Pointwise
open RustStr RustIdents

variable {x : XidTables}

/-! ## The file -/

/-- The texts of identifiers. -/
def texts (is : List (Identifier x)) : List String := is.map Identifier.text

structure ColumnLine (x : XidTables) where
  name : Identifier x
  nullable : Bool
  ty : Identifier x

def ColumnLine.print (c : ColumnLine x) : String :=
  "        " ++ c.name.text ++ " -> "
    ++ (if c.nullable then "Nullable<" ++ c.ty.text ++ ">" else c.ty.text)
    ++ ",\n"

/-- A `table!` block; neither its columns nor its key can be empty. -/
structure TableBlock (x : XidTables) where
  dieselNames : List (Identifier x)
  dualdbNames : List (Identifier x)
  name : Identifier x
  key : List (Identifier x)
  columns : List (ColumnLine x)
  key_ne : key ≠ []
  columns_ne : columns ≠ []

def TableBlock.print (b : TableBlock x) : String :=
  blockText (texts b.dieselNames) (texts b.dualdbNames) b.name.text
    (texts b.key) (b.columns.map ColumnLine.print)

structure JoinLine (x : XidTables) where
  child : Identifier x
  column : Identifier x
  parent : Identifier x

def JoinLine.join (j : JoinLine x) : Join :=
  ⟨j.child.text, j.column.text, j.parent.text⟩

structure SchemaFile (x : XidTables) where
  blocks : List (TableBlock x)
  joins : List (JoinLine x)

/-- The tables are listed once, and only behind joins. -/
def SchemaFile.print (f : SchemaFile x) : String :=
  fileText (f.blocks.map TableBlock.print)
    (f.joins.map fun j => Join.line j.join) (f.blocks.map fun b => b.name.text)

/-- The block has the names of the table. -/
structure BlockOf (b : TableBlock x) (t : ModelTable) : Prop where
  name : b.name.text = t.name
  key : texts b.key = t.primaryKeyCols
  columns : List.Forall₂ (fun (l : ColumnLine x) (c : ModelColumn) =>
    l.name.text = c.name ∧ l.nullable = c.nullable) b.columns t.columns

/-- The file has the names of the model, and no others. -/
structure Carries (f : SchemaFile x) (m : Model) : Prop where
  blocks : List.Forall₂ BlockOf f.blocks m.tables
  joins : f.joins.map JoinLine.join = printedJoins m

/-! ## Legal models -/

structure LegalTable (x : XidTables) (t : ModelTable) : Prop where
  name : IsIdent x t.name
  columns_ne : t.columns ≠ []
  columns : ∀ c ∈ t.columns, IsIdent x c.name
  key : ∀ k ∈ t.primaryKey, IsIdent x k

structure LegalJoin (x : XidTables) (j : Join) : Prop where
  child : IsIdent x j.child
  column : IsIdent x j.col
  parent : IsIdent x j.parent

structure LegalModel (x : XidTables) (m : Model) : Prop where
  tables : ∀ t ∈ m.tables, LegalTable x t
  joins : ∀ j ∈ printedJoins m, LegalJoin x j

theorem LegalTable.keyCols {t : ModelTable} (h : LegalTable x t) :
    t.primaryKeyCols ≠ [] ∧ ∀ k ∈ t.primaryKeyCols, IsIdent x k := by
  by_cases hkey : t.primaryKey = []
  · obtain ⟨c, cs, hcs⟩ := List.exists_cons_of_ne_nil h.columns_ne
    rw [primaryKeyCols_of_nil hkey, hcs]
    refine ⟨List.cons_ne_nil _ _, fun k hk => ?_⟩
    rw [List.mem_singleton.mp hk]
    exact h.columns c (by rw [hcs]; exact List.mem_cons_self)
  · rw [primaryKeyCols_of_ne_nil hkey]
    exact ⟨hkey, h.key⟩

theorem legal_of_texts {is : List (Identifier x)} {ss : List String}
    (h : texts is = ss) : ∀ s ∈ ss, IsIdent x s := by
  intro s hs
  rw [← h] at hs
  obtain ⟨i, -, rfl⟩ := List.mem_map.mp hs
  exact i.legal

theorem exists_texts {ss : List String} (h : ∀ s ∈ ss, IsIdent x s) :
    ∃ is : List (Identifier x), texts is = ss := by
  obtain ⟨is, his⟩ := exists_forall₂ (R := fun (i : Identifier x) s => i.text = s)
    fun s hs => ⟨⟨s, h s hs⟩, rfl⟩
  refine ⟨is, ?_⟩
  rw [texts, map_eq_of_forall₂ (g := id) his fun _ _ hi => hi, List.map_id]

/-! ## What is printed -/

/-- The markers of the mapping table end in an identifier. -/
theorem markerParts_legal (x : XidTables) {marker : String}
    (h : IsMarker marker) : ∃ path name, markerParts marker = .ok (path, name) ∧
      IsIdent x name := by
  obtain ⟨dt, row, hrow, rfl⟩ := h
  cases dt <;> cases hrow <;>
    exact ⟨_, _, rfl, isIdent_of_asciiWord x ⟨_, rfl, by decide⟩⟩

/-- The imports of a block are identifiers. -/
def LegalNames (x : XidTables) (u : UseNames) : Prop :=
  (∀ n ∈ u.diesel, IsIdent x n) ∧ ∀ n ∈ u.dualdb, IsIdent x n

theorem collected_legal {t : ModelTable} {u : UseNames} (hmarked : Marked t)
    (h : Collected t.columns u) : LegalNames x u := by
  have hnamed : ∀ path n, Named path n t.columns → IsIdent x n := by
    rintro path n ⟨c, hc, hparts⟩
    obtain ⟨path', name, hparts', hname⟩ := markerParts_legal x (hmarked c hc)
    cases Except.ok.inj (hparts.symm.trans hparts')
    exact hname
  exact ⟨fun n hn => hnamed _ n ((h.diesel n).mp hn),
    fun n hn => hnamed _ n ((h.dualdb n).mp hn)⟩

/-- What a block imports are identifiers. -/
theorem imports_legal {t : ModelTable} {u : UseNames} (hmarked : Marked t)
    (hu : t.columns.foldlM UseNames.pushColumn ⟨[], []⟩ = .ok u) :
    (∀ n ∈ u.dieselNames t, IsIdent x n) ∧ ∀ n ∈ u.dualdbNames, IsIdent x n := by
  have hnames : LegalNames x u :=
    collected_legal hmarked (collected_of_marked hmarked hu)
  refine ⟨fun n hn => ?_, fun n hn =>
    hnames.2 n ((List.mem_insertionSort _).mp hn)⟩
  rw [UseNames.dieselNames, List.mem_insertionSort] at hn
  split at hn
  · rcases List.mem_append.mp hn with hn | hn
    · exact hnames.1 n hn
    · rw [List.mem_singleton.mp hn]
      exact isIdent_of_asciiWord x ⟨_, rfl, by decide⟩
  · exact hnames.1 n hn

/-- A column with a mapped marker prints as a line of a block. -/
theorem renderColumn_line {c : ModelColumn} {text : String}
    (hc : IsMarker c.marker) (hname : IsIdent x c.name)
    (h : renderColumn c = .ok text) :
    ∃ l : ColumnLine x, (l.name.text = c.name ∧ l.nullable = c.nullable) ∧
      l.print = text := by
  obtain ⟨path, name, hparts, hty⟩ := markerParts_legal x hc
  rw [renderColumn, hparts] at h
  exact ⟨⟨⟨c.name, hname⟩, c.nullable, ⟨name, hty⟩⟩, ⟨rfl, rfl⟩,
    pure_ok.mp h⟩

theorem renderColumns_lines {cs : List ModelColumn} {lines : List String}
    (hmarked : ∀ c ∈ cs, IsMarker c.marker)
    (hnames : ∀ c ∈ cs, IsIdent x c.name)
    (h : cs.mapM renderColumn = .ok lines) :
    ∃ ls : List (ColumnLine x), List.Forall₂ (fun l c =>
        l.name.text = c.name ∧ l.nullable = c.nullable) ls cs ∧
      ls.map ColumnLine.print = lines := by
  refine exists_printed (mapM_ok.mp h) ?_
  intro c hc text htext
  exact renderColumn_line (hmarked c hc) (hnames c hc) htext

/-- A legal table prints as a block. -/
theorem renderTableMacro_block {t : ModelTable} {text : String}
    (hmarked : Marked t) (hlegal : LegalTable x t)
    (h : renderTableMacro t = .ok text) :
    ∃ b : TableBlock x, BlockOf b t ∧ b.print = text := by
  obtain ⟨u, lines, hu, hlines, htext⟩ := renderTableMacro_ok.mp h
  obtain ⟨hdiesel, hdualdb⟩ := imports_legal (x := x) hmarked hu
  obtain ⟨ds, hds⟩ := exists_texts hdiesel
  obtain ⟨us, hus⟩ := exists_texts hdualdb
  obtain ⟨hkey_ne, hkey⟩ := hlegal.keyCols
  obtain ⟨ks, hks⟩ := exists_texts hkey
  obtain ⟨ls, hls, hprints⟩ := renderColumns_lines hmarked hlegal.columns hlines
  have hks_ne : ks ≠ [] := by
    rintro rfl
    exact hkey_ne hks.symm
  have hls_ne : ls ≠ [] := by
    rintro rfl
    cases hcolumns : t.columns with
    | nil => exact hlegal.columns_ne hcolumns
    | cons c cs => rw [hcolumns] at hls; cases hls
  refine ⟨⟨ds, us, ⟨t.name, hlegal.name⟩, ks, ls, hks_ne, hls_ne⟩,
    ⟨rfl, hks, hls⟩, ?_⟩
  rw [TableBlock.print, htext, hds, hus, hks, hprints]

theorem renderTables_blocks {ts : List ModelTable} {blocks : List String}
    (hmarked : ∀ t ∈ ts, Marked t) (hlegal : ∀ t ∈ ts, LegalTable x t)
    (h : ts.mapM renderTableMacro = .ok blocks) :
    ∃ bs : List (TableBlock x), List.Forall₂ BlockOf bs ts ∧
      bs.map TableBlock.print = blocks := by
  refine exists_printed (mapM_ok.mp h) ?_
  intro t ht text htext
  exact renderTableMacro_block (hmarked t ht) (hlegal t ht) htext

theorem legalTable_of_block {b : TableBlock x} {t : ModelTable}
    (h : BlockOf b t) : LegalTable x t := by
  have hcolumns : ∀ c ∈ t.columns, IsIdent x c.name := by
    intro c hc
    obtain ⟨l, -, hl⟩ := forall₂_of_mem_left h.columns.flip hc
    rw [← hl.1]
    exact l.name.legal
  have hcolumns_ne : t.columns ≠ [] := by
    intro hnil
    have hlines := h.columns
    rw [hnil, List.forall₂_nil_right_iff] at hlines
    exact b.columns_ne hlines
  refine ⟨h.name ▸ b.name.legal, hcolumns_ne, hcolumns, fun k hk => ?_⟩
  have hkey : t.primaryKey ≠ [] := List.ne_nil_of_mem hk
  have hkeys := legal_of_texts h.key
  rw [primaryKeyCols_of_ne_nil hkey] at hkeys
  exact hkeys k hk

theorem exists_joins {js : List Join} (h : ∀ j ∈ js, LegalJoin x j) :
    ∃ ls : List (JoinLine x), ls.map JoinLine.join = js := by
  obtain ⟨ls, hls⟩ := exists_forall₂ (R := fun (l : JoinLine x) j => l.join = j)
    fun j hj => ⟨⟨⟨j.child, (h j hj).child⟩, ⟨j.col, (h j hj).column⟩,
      ⟨j.parent, (h j hj).parent⟩⟩, rfl⟩
  refine ⟨ls, ?_⟩
  rw [map_eq_of_forall₂ (g := id) hls fun _ _ hl => hl, List.map_id]

/-- **WHAT IS PRINTED IS A SCHEMA FILE** exactly when the model is legal. -/
theorem printed_file_iff {m : Model} {text : String}
    (hmarked : ∀ t ∈ m.tables, Marked t) (h : renderSchemaRs m = .ok text) :
    (∃ f : SchemaFile x, Carries f m ∧ text = f.print) ↔ LegalModel x m := by
  constructor
  · rintro ⟨f, hf, -⟩
    refine ⟨fun t ht => ?_, fun j hj => ?_⟩
    · obtain ⟨b, -, hb⟩ := forall₂_of_mem_left hf.blocks.flip ht
      exact legalTable_of_block hb
    · rw [← hf.joins] at hj
      obtain ⟨l, -, rfl⟩ := List.mem_map.mp hj
      exact ⟨l.child.legal, l.column.legal, l.parent.legal⟩
  · intro hlegal
    obtain ⟨blocks, hblocks, htext⟩ := renderSchemaRs_ok.mp h
    obtain ⟨bs, hbs, hprints⟩ :=
      renderTables_blocks hmarked hlegal.tables hblocks
    obtain ⟨ls, hls⟩ := exists_joins hlegal.joins
    refine ⟨⟨bs, ls⟩, ⟨hbs, hls⟩, ?_⟩
    have hlines : ls.map (fun j => Join.line j.join)
        = m.tables.flatMap joinables := by
      rw [joinables_eq, ← hls, List.map_map]
      rfl
    have hnames : bs.map (fun b => b.name.text)
        = m.tables.map ModelTable.name :=
      map_eq_of_forall₂ hbs fun _ _ hb => hb.name
    rw [htext, SchemaFile.print, hprints, hlines, hnames]

/-! ## Legal histories -/

/-- The printed file is a schema file with the names of the model. -/
def WellFormed (x : XidTables) (p : Sqlparser) (ms : List Migration)
    (text : String) : Prop :=
  ∃ m, finalModel p ms = .ok m ∧
    ∃ f : SchemaFile x, Carries f m ∧ text = f.print

structure LegalOrigin (x : XidTables) (o : TableOrigin) : Prop where
  table : IsIdent x (lastIdent o.table)
  columns_ne : o.columns ≠ []
  columns : ∀ i ∈ o.columns, IsIdent x i.value

/-- The condition on the shared statements: the names of the tables and
    columns that are there at the end, of the keys declared with a table, and
    of foreign keys, are identifiers; and each table has a column. -/
structure LegalHistory (x : XidTables) (stmts : List Statement) : Prop where
  tables : ∀ o ∈ origins stmts, LegalOrigin x o
  keys : ∀ ct, .createTable ct ∈ stmts →
    ∀ k ∈ DualdbKey.lastKey ct, IsIdent x k
  joins : ∀ k ∈ declaredKeys [] stmts, IsIdent x k.parent ∧
    ∀ col ∈ k.column :: k.more, IsIdent x col

/-- A ledger that follows no `ALTER TABLE` has the created tables. -/
theorem mem_ledgerFrom {stmts before : List Statement}
    {es : List DualdbKey.Declared} {e : DualdbKey.Declared} :
    e ∈ DualdbKey.ledgerFrom (fun _ _ => none) before es stmts ↔
      e ∈ es ∨ ∃ ct, .createTable ct ∈ stmts ∧ e = ⟨ct, none⟩ := by
  induction stmts generalizing before es with
  | nil => simp [DualdbKey.ledgerFrom]
  | cons s stmts ih =>
      rw [DualdbKey.ledgerFrom, ih]
      cases s with
      | createTable ct =>
          simp only [DualdbKey.ledgerStep, List.mem_append, List.mem_cons,
            List.not_mem_nil, false_or, Statement.createTable.injEq,
            or_and_right, exists_or, exists_eq_left, or_assoc]
      | alterTable _ _ _ _ _ | drop _ _ _ _ _ | createIndex _ | other _ =>
          simp [DualdbKey.ledgerStep]

/-- The recorded keys are those of the `CREATE TABLE`s. -/
theorem keys_created {p : Sqlparser} {stmts : List Statement} {m : Model}
    (h : stmts.foldlM (Model.apply p) Model.empty = .ok m) :
    (∀ t ∈ m.tables, ∃ ct, .createTable ct ∈ stmts ∧
        t.primaryKey = DualdbKey.lastKey ct) ∧
      ∀ ct, .createTable ct ∈ stmts →
        ∃ t ∈ m.tables, t.primaryKey = DualdbKey.lastKey ct := by
  have hkeys : List.Forall₂ DualdbKey.KeepsKey m.tables
      (DualdbKey.ledgerFrom (fun _ _ => none) [] [] stmts) :=
    DualdbKey.ledger_keys .nil h
  constructor
  · intro t ht
    obtain ⟨e, he, hte⟩ := forall₂_of_mem_left hkeys ht
    rcases mem_ledgerFrom.mp he with hnil | ⟨ct, hct, rfl⟩
    · cases hnil
    · exact ⟨ct, hct, hte.key⟩
  · intro ct hct
    obtain ⟨t, ht, hte⟩ := forall₂_of_mem_left hkeys.flip
      (mem_ledgerFrom.mpr (Or.inr ⟨ct, hct, rfl⟩))
    exact ⟨t, ht, hte.key⟩

theorem legalTable_iff {t : ModelTable} {o : TableOrigin} (h : Printed t o) :
    LegalTable x t ↔
      LegalOrigin x o ∧ ∀ k ∈ t.primaryKey, IsIdent x k := by
  have hcolumns : (∀ c ∈ t.columns, IsIdent x c.name) ↔
      ∀ i ∈ o.columns, IsIdent x i.value := by
    constructor
    · intro hlegal i hi
      obtain ⟨c, hc, hci⟩ := forall₂_of_mem_left h.columns.flip hi
      rw [← hci]
      exact hlegal c hc
    · intro hlegal c hc
      obtain ⟨i, hi, hci⟩ := forall₂_of_mem_left h.columns hc
      rw [hci]
      exact hlegal i hi
  have hne : t.columns ≠ [] ↔ o.columns ≠ [] := by
    rw [← List.length_pos_iff, ← List.length_pos_iff, h.columns.length_eq]
  constructor
  · intro ht
    exact ⟨⟨h.name ▸ ht.name, hne.mp ht.columns_ne, hcolumns.mp ht.columns⟩,
      ht.key⟩
  · rintro ⟨ho, hkey⟩
    exact ⟨h.name ▸ ho.table, hne.mpr ho.columns_ne, hcolumns.mpr ho.columns,
      hkey⟩

/-- The model is legal exactly when the statements are. -/
theorem legalModel_iff {p : Sqlparser} {stmts : List Statement} {m : Model}
    (h : stmts.foldlM (Model.apply p) Model.empty = .ok m) :
    LegalModel x m ↔ LegalHistory x stmts := by
  have hprinted : List.Forall₂ Printed m.tables (origins stmts) :=
    finalModel_printed .nil h
  have hjoins : (printedJoins m).Perm
      ((declaredKeys [] stmts).flatMap DeclaredKey.joins) :=
    printedJoins_perm h
  obtain ⟨hkeys, hcreated⟩ := keys_created h
  constructor
  · intro hm
    refine ⟨fun o ho => ?_, fun ct hct k hk => ?_, fun k hk => ?_⟩
    · obtain ⟨t, ht, hto⟩ := forall₂_of_mem_left hprinted.flip ho
      exact ((legalTable_iff hto).mp (hm.tables t ht)).1
    · obtain ⟨t, ht, hkey⟩ := hcreated ct hct
      exact (hm.tables t ht).key k (hkey ▸ hk)
    · have hlegal : ∀ j ∈ k.joins, LegalJoin x j := fun j hj =>
        hm.joins j (hjoins.mem_iff.mpr (List.mem_flatMap.mpr ⟨k, hk, hj⟩))
      refine ⟨(hlegal _ k.first_mem).parent, fun col hcol => ?_⟩
      exact (hlegal _ (List.mem_map.mpr ⟨col, hcol, rfl⟩)).column
  · intro hs
    -- tables first: a printed join names one of them as its child
    have htables : ∀ t ∈ m.tables, LegalTable x t := by
      intro t ht
      obtain ⟨o, ho, hto⟩ := forall₂_of_mem_left hprinted ht
      obtain ⟨ct, hct, hkey⟩ := hkeys t ht
      refine (legalTable_iff hto).mpr ⟨hs.tables o ho, fun k hk => ?_⟩
      exact hs.keys ct hct k (hkey ▸ hk)
    refine ⟨htables, fun j hj => ?_⟩
    obtain ⟨k, hk, hjk⟩ := List.mem_flatMap.mp (hjoins.mem_iff.mp hj)
    obtain ⟨hparent, hcolumns⟩ := hs.joins k hk
    obtain ⟨t, ht, hjt⟩ := List.mem_flatMap.mp hj
    obtain ⟨fk, -, hfk⟩ := List.mem_map.mp hjt
    refine ⟨?_, ?_, ?_⟩
    · rw [← hfk]
      exact (htables t ht).name
    · obtain ⟨col, hcol, rfl⟩ := List.mem_map.mp hjk
      exact hcolumns col hcol
    · rw [(DeclaredKey.mem_joins hjk).2]
      exact hparent

/-- **WHEN `schema.rs` IS WELL FORMED**: for an accepted history, exactly when
    the names that reach it are identifiers of Rust and each table has a
    column. -/
theorem schema_rs_well_formed_iff (x : XidTables) {p : Sqlparser}
    {ms : List Migration} {g : Generated} (hg : generate p ms = .ok g) :
    ∃ stmts, allStatements p ms = .ok stmts ∧
      (WellFormed x p ms g.schemaRs ↔ LegalHistory x stmts) := by
  obtain ⟨m, hm, hschema, -, -⟩ := generate_ok.mp hg
  obtain ⟨stmts, hstmts, hfold⟩ := bind_ok.mp hm
  refine ⟨stmts, hstmts, ?_⟩
  rw [← legalModel_iff hfold,
    ← printed_file_iff (finalModel_marked hm) hschema]
  constructor
  · rintro ⟨m', hm', hfile⟩
    rwa [Except.ok.inj (hm.symm.trans hm')]
  · intro hfile
    exact ⟨m, hm, hfile⟩

/-! ## Runs -/

section Runs

open DualdbSqlText

def usersTable : Statement :=
  createTable (bare "users") [col "id" (.int none) [pk]] []

/-- A composite key, and a foreign key. -/
def postsTable : Statement :=
  createTable (bare "posts")
    [col "author" (.int none) [.foreignKey (bare "users") [] ""],
      col "number" (.int none) []]
    [.primaryKey none [Ident.new "author", Ident.new "number"] ""]

def fileParser : Sqlparser := parserOf
  [("CREATE TABLE users (id INT PRIMARY KEY)\n", [usersTable]),
    ("CREATE TABLE posts (author INT REFERENCES users, number INT, "
      ++ "PRIMARY KEY (author, number))\n", [postsTable]),
    ("CREATE TABLE t (type INT)\n",
      [createTable (bare "t") [col "type" (.int none) []] []])]

def postsHistory : List Migration :=
  [⟨"1", "CREATE TABLE users (id INT PRIMARY KEY)", none⟩,
    ⟨"2", "CREATE TABLE posts (author INT REFERENCES users, number INT, "
      ++ "PRIMARY KEY (author, number))", none⟩]

theorem schema_rs_well_formed_iff_of_users :
    ∃ g, generate fileParser postsHistory = .ok g ∧
      WellFormed asciiTables fileParser postsHistory g.schemaRs := by
  obtain ⟨g, hg⟩ := exists_ok_of_isOk (x := generate fileParser postsHistory)
    (by decide +kernel)
  obtain ⟨stmts, hstmts, hiff⟩ := schema_rs_well_formed_iff asciiTables hg
  refine ⟨g, hg, hiff.mpr ?_⟩
  have hread : allStatements fileParser postsHistory
      = .ok [usersTable, postsTable] := by
    decide +kernel
  rw [← Except.ok.inj (hread.symm.trans hstmts)]
  refine ⟨fun o ho => ?_, fun ct hct => ?_, by decide⟩
  · have horigins : origins [usersTable, postsTable]
        = [⟨bare "users", [Ident.new "id"]⟩,
          ⟨bare "posts", [Ident.new "author", Ident.new "number"]⟩] := by
      decide
    rw [horigins] at ho
    rcases List.mem_cons.mp ho with rfl | ho
    · exact ⟨by decide, by decide, by decide⟩
    · rw [List.mem_singleton.mp ho]
      exact ⟨by decide, by decide, by decide⟩
  · rcases List.mem_cons.mp hct with hct | hct
    · rw [Statement.createTable.inj hct]
      decide
    · rw [Statement.createTable.inj (List.mem_singleton.mp hct)]
      decide

/-- The unquoted SQL name `type` is a keyword of Rust. -/
theorem keyword_column_is_printed :
    ∃ g, generate fileParser [⟨"1", "CREATE TABLE t (type INT)", none⟩]
        = .ok g ∧
      ∀ x, ¬ WellFormed x fileParser
        [⟨"1", "CREATE TABLE t (type INT)", none⟩] g.schemaRs := by
  obtain ⟨g, hg⟩ := exists_ok_of_isOk (x := generate fileParser
    [⟨"1", "CREATE TABLE t (type INT)", none⟩]) (by decide +kernel)
  refine ⟨g, hg, fun x hfile => ?_⟩
  obtain ⟨m, hm, f, hf, -⟩ := hfile
  have hfinal : finalModel fileParser
      [⟨"1", "CREATE TABLE t (type INT)", none⟩]
      = .ok ⟨[⟨"t", [⟨"type", "diesel::sql_types::Integer", true⟩], [],
          []⟩]⟩ := by decide +kernel
  rw [Except.ok.inj (hm.symm.trans hfinal)] at hf
  obtain ⟨b, -, hb⟩ := forall₂_of_mem_left hf.blocks.flip List.mem_cons_self
  obtain ⟨l, -, hl⟩ := forall₂_of_mem_left hb.columns.flip List.mem_cons_self
  have hlegal := l.name.legal.2
  rw [hl.1] at hlegal
  exact hlegal (by decide)

end Runs

end DualdbSchemaFile
