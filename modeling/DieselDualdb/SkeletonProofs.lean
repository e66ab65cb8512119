import DieselDualdb.RewriteProofs
import DieselDualdb.SqlText
import DieselDualdb.Lib.Pointwise

/-!
# One skeleton, one row

The statements emitted to Postgres, those emitted to SQLite and the parsed
originals differ in nothing but the types of `CREATE TABLE` columns and
`ADD COLUMN`s (`blankTypes` is the statement without them), and at each such
position the two native types and the marker the schema model records are the
three entries of one row of the mapping table.

`Records` says which column entries a statement adds to the model, one for
each position; `RowTrace` walks the model through a script alongside the two
rewritten scripts.
-/

namespace DualdbSkeleton

open DualdbAst DualdbTypeMap DualdbModel DualdbMigration DualdbRewrite
open FallibleRun FirstUpdate Pointwise RustStr

/-! ## The skeleton of a statement -/

def ColumnDef.blankType (c : ColumnDef) : ColumnDef :=
  { c with dataType := .other "" }

def blankOperation : AlterTableOperation → AlterTableOperation
  | .addColumn kw ine c pos => .addColumn kw ine (ColumnDef.blankType c) pos
  | op => op

/-- The statement with the types of `CREATE TABLE` columns and of
    `ADD COLUMN`s blanked out, and every other field as it is. -/
def blankTypes : Statement → Statement
  | .createTable ct =>
      .createTable { ct with columns := ct.columns.map ColumnDef.blankType }
  | .alterTable name ie only ops cl =>
      .alterTable name ie only (ops.map blankOperation) cl
  | s => s

theorem blankOperation_withNative (b : Backend) (op : AlterTableOperation) :
    blankOperation (operationWithNative b op) = blankOperation op := by
  cases op <;> rfl

/-- **FRAME**: rewriting changes nothing outside the visited types. -/
theorem blankTypes_withNative (b : Backend) (s : Statement) :
    blankTypes (withNative b s) = blankTypes s := by
  cases s with
  | createTable ct =>
      have hcols : (ct.columns.map (ColumnDef.withNative b)).map
          ColumnDef.blankType = ct.columns.map ColumnDef.blankType := by
        rw [List.map_map]; rfl
      simp only [withNative, blankTypes, hcols]
  | alterTable name ie only ops cl =>
      have hops : (ops.map (operationWithNative b)).map blankOperation
          = ops.map blankOperation := by
        rw [List.map_map]
        exact List.map_congr_left fun op _ => blankOperation_withNative b op
      simp only [withNative, blankTypes, hops]
  | drop _ _ _ _ _ | createIndex _ | other _ => rfl

theorem addedType_withNative (b : Backend) (op : AlterTableOperation) :
    addedType (operationWithNative b op) = (addedType op).map (nativeOr b) := by
  cases op <;> rfl

theorem columnTypes_withNative (b : Backend) (s : Statement) :
    columnTypes (withNative b s) = (columnTypes s).map (nativeOr b) := by
  cases s with
  | createTable ct =>
      simp only [withNative, columnTypes, List.map_map]; rfl
  | alterTable name ie only ops cl =>
      simp only [withNative, columnTypes, List.filterMap_map, List.map_filterMap]
      exact List.filterMap_congr fun op _ => addedType_withNative b op
  | drop _ _ _ _ _ | createIndex _ | other _ => rfl

/-! ## The columns a statement records -/

/-- The operations take the model from the first to the second, adding the
    listed column entries, in order, to the table called `tname`. -/
inductive RecordsOps (p : Sqlparser) (tname : String) :
    Model → List AlterTableOperation → Model → List ModelColumn → Prop where
  | nil (m : Model) : RecordsOps p tname m [] m []
  | add {m m₁ m' : Model} {kw ine : Bool} {c : ColumnDef}
      {pos : Option Clause} {ops : List AlterTableOperation}
      {l r : List ModelTable} {t : ModelTable} {col : ModelColumn}
      {cols : List ModelColumn}
      (hstep : m.applyOperation p tname (.addColumn kw ine c pos) = .ok m₁)
      (hbefore : m.tables = l ++ t :: r) (hname : t.name = tname)
      (hafter : m₁.tables = l ++ { t with columns := t.columns ++ [col] } :: r)
      (hcol : col.name = c.name.value)
      (hrest : RecordsOps p tname m₁ ops m' cols) :
      RecordsOps p tname m (.addColumn kw ine c pos :: ops) m' (col :: cols)
  | skip {m m₁ m' : Model} {op : AlterTableOperation}
      {ops : List AlterTableOperation} {cols : List ModelColumn}
      (hop : addedType op = none)
      (hstep : m.applyOperation p tname op = .ok m₁)
      (hrest : RecordsOps p tname m₁ ops m' cols) :
      RecordsOps p tname m (op :: ops) m' cols

/-- The statement takes the model from the first to the second, adding the
    listed column entries. -/
inductive Records (p : Sqlparser) :
    Model → Statement → Model → List ModelColumn → Prop where
  | create {m : Model} {ct : CreateTable} {t : ModelTable}
      (hname : t.name = lastIdent ct.name)
      (hcols : t.columns.map ModelColumn.name
        = ct.columns.map fun c => c.name.value) :
      Records p m (.createTable ct) ⟨m.tables ++ [t]⟩ t.columns
  | alter {m m' : Model} {name : ObjectName} {ie only : Bool}
      {ops : List AlterTableOperation} {cl : Clause} {cols : List ModelColumn}
      (h : RecordsOps p (lastIdent name) m ops m' cols) :
      Records p m (.alterTable name ie only ops cl) m' cols
  | other {m : Model} {s : Statement} (h : columnTypes s = []) :
      Records p m s m []

/-- The recorded entries carry the markers of these types' rows. -/
def MarkersOf (dts : List DataType) (cols : List ModelColumn) : Prop :=
  List.Forall₂ (fun dt col => ∃ row, mapType dt = some row
    ∧ col.marker = row.marker) dts cols

theorem columnsOf_names {cs : List ColumnDef} {rows : List Mapped}
    (h : RowsOf cs rows) :
    (columnsOf cs rows).map ModelColumn.name
      = cs.map fun c => c.name.value := by
  induction h with
  | nil => rfl
  | cons _ _ ih => exact congrArg _ ih

theorem columnsOf_markersOf {cs : List ColumnDef} {rows : List Mapped}
    (h : RowsOf cs rows) :
    MarkersOf (cs.map ColumnDef.dataType) (columnsOf cs rows) := by
  induction h with
  | nil => exact .nil
  | cons hrow _ ih => exact .cons ⟨_, hrow, rfl⟩ ih

theorem recordsOps_of_fold {p : Sqlparser} {tname : String}
    {ops : List AlterTableOperation} {m m' : Model}
    (h : ops.foldlM (Model.applyOperation p tname) m = .ok m') :
    ∃ cols, RecordsOps p tname m ops m' cols
      ∧ MarkersOf (ops.filterMap addedType) cols := by
  induction ops generalizing m with
  | nil =>
      rw [← foldlM_nil_ok.mp h]
      exact ⟨[], .nil m, .nil⟩
  | cons op ops ih =>
      obtain ⟨m₁, hstep, hrest⟩ := foldlM_cons_ok.mp h
      obtain ⟨cols, hcols, hmarkers⟩ := ih hrest
      -- an operation with a type is an added column
      cases hop : addedType op with
      | none =>
          refine ⟨cols, .skip hop hstep hcols, ?_⟩
          rw [List.filterMap_cons_none hop]
          exact hmarkers
      | some dt =>
          cases op with
          | addColumn kw ine c pos =>
              obtain ⟨⟨row, hrow⟩, hmut⟩ :=
                applyOperation_addColumn_ok.mp hstep
              obtain ⟨ts, hts, rfl⟩ := Option.map_eq_some_iff.mp hmut
              obtain ⟨l, t, r, hbefore, hafter, hname, -⟩ :=
                updateFirst_eq_some.mp hts
              simp only [operationUpdate, hrow] at hafter
              refine ⟨ModelColumn.ofAdd c row.marker :: cols,
                .add hstep hbefore (beq_iff_eq.mp hname) hafter rfl hcols,
                ?_⟩
              exact .cons ⟨row, hrow, rfl⟩ hmarkers
          | addConstraint _ | dropColumn _ _ _ | dropConstraint _ _ _
          | dropPrimaryKey | renameColumn _ _ | renameTable _
          | changeColumn _ _ _ _ _ | modifyColumn _ _ _ _ | alterColumn _ _
          | other _ => cases hop

/-- Every accepted statement records one marked column for each visited
    type. -/
theorem records_of_apply {p : Sqlparser} {m m' : Model} {s : Statement}
    (h : m.apply p s = .ok m') :
    ∃ cols, Records p m s m' cols ∧ MarkersOf (columnTypes s) cols := by
  cases s with
  | createTable ct =>
      obtain ⟨rows, hrows, rfl⟩ := apply_createTable_ok.mp h
      exact ⟨_, .create rfl (columnsOf_names hrows),
        columnsOf_markersOf hrows⟩
  | alterTable name ie only ops cl =>
      obtain ⟨cols, hcols, hmarkers⟩ := recordsOps_of_fold h
      exact ⟨cols, .alter hcols, hmarkers⟩
  | drop _ _ _ _ _ | createIndex _ | other _ =>
      rw [← Except.ok.inj h]
      exact ⟨[], .other rfl, .nil⟩

/-- The positions' Postgres types, SQLite types and recorded entries are the
    entries of one row each, the row of the original type. -/
def OneRow (original pg sq : List DataType) (cols : List ModelColumn) : Prop :=
  ∃ rows : List Mapped,
    List.Forall₂ (fun dt row => mapType dt = some row) original rows ∧
    pg = rows.map (fun row => DataType.ofNative row.pg) ∧
    sq = rows.map (fun row => DataType.ofNative row.sqlite) ∧
    cols.map ModelColumn.marker = rows.map Mapped.marker

theorem oneRow_of_markersOf {dts : List DataType} {cols : List ModelColumn}
    (h : MarkersOf dts cols) :
    OneRow dts (dts.map (nativeOr .postgres)) (dts.map (nativeOr .sqlite))
      cols := by
  induction h with
  | nil => exact ⟨[], .nil, rfl, rfl, rfl⟩
  | cons hd _ ih =>
      obtain ⟨row, hrow, hmarker⟩ := hd
      obtain ⟨rows, hrows, hpg, hsq, hcols⟩ := ih
      refine ⟨row :: rows, .cons hrow hrows, ?_, ?_, ?_⟩
      · rw [List.map_cons, hpg, nativeOr_of_row hrow]; rfl
      · rw [List.map_cons, hsq, nativeOr_of_row hrow]; rfl
      · rw [List.map_cons, hmarker, hcols]; rfl

/-- The model folds the original script while the two rewritten scripts are
    emitted: statement by statement, one row for each visited type. -/
inductive RowTrace (p : Sqlparser) : Model → List Statement →
    List Statement → List Statement → Model → Prop where
  | nil (m : Model) : RowTrace p m [] [] [] m
  | cons {m m₁ m' : Model} {s pg sq : Statement}
      {ss pgs sqs : List Statement} {cols : List ModelColumn}
      (happly : m.apply p s = .ok m₁) (hrecords : Records p m s m₁ cols)
      (hrow : OneRow (columnTypes s) (columnTypes pg) (columnTypes sq) cols)
      (hrest : RowTrace p m₁ ss pgs sqs m') :
      RowTrace p m (s :: ss) (pg :: pgs) (sq :: sqs) m'

theorem rowTrace_of_fold {p : Sqlparser} {ss : List Statement}
    {m m' : Model} (h : ss.foldlM (Model.apply p) m = .ok m') :
    RowTrace p m ss (ss.map (withNative .postgres))
      (ss.map (withNative .sqlite)) m' := by
  induction ss generalizing m with
  | nil => rw [← foldlM_nil_ok.mp h]; exact .nil m
  | cons s ss ih =>
      obtain ⟨m₁, hstep, hrest⟩ := foldlM_cons_ok.mp h
      obtain ⟨cols, hrecords, hmarkers⟩ := records_of_apply hstep
      refine .cons hstep hrecords ?_ (ih hrest)
      rw [columnTypes_withNative, columnTypes_withNative]
      exact oneRow_of_markersOf hmarkers

/-! ## The emitted scripts -/

/-- `script` prints the statements `stmts`, each with its terminator, in
    order, where the shared segments of `m` have them, and nothing else but `b`'s
    tagged blocks of `m`. -/
def Prints (p : Sqlparser) (b : Backend) (m : Migration) (script : String)
    (stmts : List Statement) : Prop :=
  ∃ segs chunks, segment m.upSql = .ok segs ∧ Chunks p segs chunks ∧
    script = join "\n\n" ((pieces b segs chunks).map (Piece.text p)) ∧
    (pieces b segs chunks).filterMap Piece.statement? = stmts

/-- `stmts'` is `stmts` with the types rewritten for `b`. -/
def Rewritten (p : Sqlparser) (b : Backend) (stmts stmts' : List Statement) :
    Prop :=
  List.Forall₂ (fun s s' => rewriteTypes p b s = .ok s') stmts stmts'

theorem renders_prints {p : Sqlparser} {b : Backend} {m : Migration}
    {r : RenderedMigration} {stmts : List Statement}
    (h : Renders p b m r) (hs : migrationStatements p m = .ok stmts) :
    Prints p b m r.upSql (stmts.map (withNative b))
      ∧ Rewritten p b stmts (stmts.map (withNative b)) := by
  obtain ⟨segs, chunks, down, hsegs, hchunks, hs', hmapped, -, rfl⟩ :=
    renders_chunks h
  rw [hs] at hs'
  rw [Except.ok.inj hs']
  refine ⟨⟨segs, chunks, hsegs, hchunks, rfl, statements_of_pieces hchunks⟩, ?_⟩
  rw [Rewritten, List.forall₂_map_right_iff]
  exact List.forall₂_same.mpr fun s hs =>
    rewriteTypes_ok.mpr ⟨hmapped s hs, rfl⟩

/-- The models before and after one migration of an accepted list. -/
theorem finalModel_split {p : Sqlparser} {ms₁ ms₂ : List Migration}
    {mig : Migration} {m : Model}
    (h : finalModel p (ms₁ ++ mig :: ms₂) = .ok m) :
    ∃ before stmts after, finalModel p ms₁ = .ok before ∧
      migrationStatements p mig = .ok stmts ∧
      stmts.foldlM (Model.apply p) before = .ok after ∧
      finalModel p (ms₁ ++ [mig]) = .ok after := by
  obtain ⟨before, all, hbefore, hall, hfold⟩ := finalModel_append_ok.mp h
  obtain ⟨stmts, rest, hstmts, -, rfl⟩ := allStatements_cons_ok.mp hall
  obtain ⟨after, hafter, -⟩ := foldlM_append_ok.mp hfold
  refine ⟨before, stmts, after, hbefore, hstmts, hafter, ?_⟩
  refine finalModel_append_ok.mpr ⟨before, stmts, hbefore, ?_, hafter⟩
  exact allStatements_cons_ok.mpr
    ⟨stmts, [], hstmts, rfl, (List.append_nil _).symm⟩

/-- What the two trees and the model hold for the migration `mig` that
    follows `ms₁`: both scripts print the rewritten shared statements in
    order, both rewritings have the originals' skeletons, and at every
    rewritten position the two native types and the recorded marker stand in
    the row of the original type. -/
def OneSkeletonAt (p : Sqlparser) (g : Generated) (ms₁ : List Migration)
    (mig : Migration) : Prop :=
  ∃ originals pgs sqs pg sq before after,
    migrationStatements p mig = .ok originals ∧
    g.postgres[ms₁.length]? = some pg ∧ g.sqlite[ms₁.length]? = some sq ∧
    Rewritten p .postgres originals pgs ∧ Prints p .postgres mig pg.upSql pgs ∧
    Rewritten p .sqlite originals sqs ∧ Prints p .sqlite mig sq.upSql sqs ∧
    pgs.map blankTypes = originals.map blankTypes ∧
    sqs.map blankTypes = originals.map blankTypes ∧
    finalModel p ms₁ = .ok before ∧
    finalModel p (ms₁ ++ [mig]) = .ok after ∧
    RowTrace p before originals pgs sqs after

/-- **ONE SKELETON, ONE ROW**, at every migration of an accepted list. -/
theorem one_skeleton_one_row {p : Sqlparser} {ms : List Migration}
    {g : Generated} (h : generate p ms = .ok g)
    (ms₁ : List Migration) (mig : Migration) (ms₂ : List Migration)
    (hms : ms = ms₁ ++ mig :: ms₂) : OneSkeletonAt p g ms₁ mig := by
  obtain ⟨m, hm, -, hpg, hsq⟩ := generate_ok.mp h
  rw [hms] at hm hpg hsq
  obtain ⟨before, originals, after, hbefore, horig, hfold, hafter⟩ :=
    finalModel_split hm
  obtain ⟨pg, hpgAt, hpgR⟩ := forall₂_at hpg
  obtain ⟨sq, hsqAt, hsqR⟩ := forall₂_at hsq
  obtain ⟨hpgPrints, hpgRw⟩ := renders_prints hpgR horig
  obtain ⟨hsqPrints, hsqRw⟩ := renders_prints hsqR horig
  have hblank : ∀ b, (originals.map (withNative b)).map blankTypes
      = originals.map blankTypes := by
    intro b
    rw [List.map_map]
    exact List.map_congr_left fun s _ => blankTypes_withNative b s
  exact ⟨originals, _, _, pg, sq, before, after, horig, hpgAt, hsqAt, hpgRw,
    hpgPrints, hsqRw, hsqPrints, hblank .postgres, hblank .sqlite, hbefore,
    hafter, rowTrace_of_fold hfold⟩

open DualdbSqlText in
def skeletonParser : Sqlparser := parserOf
  [("CREATE TABLE t (a UUID)\n",
      [createTable (bare "t") [col "a" .uuid []] []]),
    ("ALTER TABLE t ADD b JSON\n",
      [alterTable (bare "t") [.addColumn false false (col "b" .json []) none]])]

def skeletonMigrations : List Migration :=
  [⟨"1_t", "CREATE TABLE t (a UUID)", none⟩,
    ⟨"2_b", "ALTER TABLE t ADD b JSON", none⟩]

theorem one_skeleton_one_row_of_add_column :
    ∃ g, generate skeletonParser skeletonMigrations = .ok g ∧
      OneSkeletonAt skeletonParser g [⟨"1_t", "CREATE TABLE t (a UUID)", none⟩]
        ⟨"2_b", "ALTER TABLE t ADD b JSON", none⟩ := by
  obtain ⟨g, hg⟩ := exists_ok_of_isOk
    (x := generate skeletonParser skeletonMigrations) (by decide +kernel)
  exact ⟨g, hg, one_skeleton_one_row hg _ _ [] rfl⟩

end DualdbSkeleton
