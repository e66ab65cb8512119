import DieselDualdb.SquashProofs

/-!
# A type counts by its row

`INT` and `INTEGER`, `DECIMAL(10, 2)` and `NUMERIC`, `JSON` and `JSONB` are
spellings of one row of the mapping table, and the table is all that the rewriter
and the model ask of a type.  So a history may spell its types in any way: with
the same rows it is accepted or refused alike, and all three outputs are the same
to the letter (`respelled_history`).

The histories are compared by what their migrations consist of (`Consists`): the
statements and the blocks in source order, and the down script.  Nothing else of
a migration reaches the outputs, so comments, blank lines and the cut into shared
chunks may differ as well.
-/

namespace DualdbRespelling

open DualdbAst DualdbTypeMap DualdbModel DualdbMigration DualdbRewrite
open DualdbSqlText FallibleRun Pointwise RustStr

variable {p : Sqlparser} {b : Backend}

/-! ## Statements with other spellings -/

/-- The same column, but for a type of the same row. -/
def RespelledColumn (c c' : ColumnDef) : Prop :=
  mapType c'.dataType = mapType c.dataType ∧
    c' = { c with dataType := c'.dataType }

inductive RespelledOperation :
    AlterTableOperation → AlterTableOperation → Prop where
  | added {kw ine : Bool} {c c' : ColumnDef} {pos : Option Clause}
      (h : RespelledColumn c c') :
      RespelledOperation (.addColumn kw ine c pos) (.addColumn kw ine c' pos)
  | same (op : AlterTableOperation) : RespelledOperation op op

/-- The same statement, but for the spelling of its column types. -/
inductive Respelled : Statement → Statement → Prop where
  | createTable {ct : CreateTable} {cols : List ColumnDef}
      (h : List.Forall₂ RespelledColumn ct.columns cols) :
      Respelled (.createTable ct) (.createTable { ct with columns := cols })
  | alterTable {name : ObjectName} {ie only : Bool} {cl : Clause}
      {ops ops' : List AlterTableOperation}
      (h : List.Forall₂ RespelledOperation ops ops') :
      Respelled (.alterTable name ie only ops cl)
        (.alterTable name ie only ops' cl)
  | same (s : Statement) : Respelled s s

/-! ## What the rewriter makes of them -/

theorem RespelledColumn.withNative {c c' : ColumnDef}
    (h : RespelledColumn c c') {row : Mapped}
    (hrow : mapType c.dataType = some row) :
    ColumnDef.withNative b c' = ColumnDef.withNative b c := by
  obtain ⟨htype, hc⟩ := h
  rw [hc, ColumnDef.withNative, ColumnDef.withNative,
    nativeOr_of_row (htype.trans hrow), nativeOr_of_row hrow]

theorem allMapped_columns {cs cs' : List ColumnDef}
    (h : List.Forall₂ RespelledColumn cs cs') :
    AllMapped (cs'.map ColumnDef.dataType)
      ↔ AllMapped (cs.map ColumnDef.dataType) := by
  induction h with
  | nil => exact Iff.rfl
  | cons hc _ ih =>
      rw [List.map_cons, List.map_cons, allMapped_cons, allMapped_cons, ih, hc.1]

theorem withNative_columns {cs cs' : List ColumnDef}
    (h : List.Forall₂ RespelledColumn cs cs')
    (hmapped : AllMapped (cs.map ColumnDef.dataType)) :
    cs'.map (ColumnDef.withNative b) = cs.map (ColumnDef.withNative b) := by
  induction h with
  | nil => rfl
  | cons hc _ ih =>
      obtain ⟨⟨row, hrow⟩, hrest⟩ := allMapped_cons.mp hmapped
      rw [List.map_cons, List.map_cons, hc.withNative hrow, ih hrest]

theorem addedType_cons (op : AlterTableOperation)
    (ops : List AlterTableOperation) :
    (op :: ops).filterMap addedType
      = (addedType op).toList ++ ops.filterMap addedType := by
  rw [List.filterMap_cons]
  cases addedType op <;> rfl

theorem allMapped_singleton {dt : DataType} :
    AllMapped [dt] ↔ ∃ row, mapType dt = some row :=
  List.forall_mem_singleton

theorem RespelledOperation.mapped {op op' : AlterTableOperation}
    (h : RespelledOperation op op') :
    AllMapped (addedType op').toList ↔ AllMapped (addedType op).toList := by
  cases h with
  | added hc =>
      simp only [addedType, Option.toList_some, allMapped_singleton, hc.1]
  | same => exact Iff.rfl

theorem RespelledOperation.withNative {op op' : AlterTableOperation}
    (h : RespelledOperation op op')
    (hmapped : AllMapped (addedType op).toList) :
    operationWithNative b op' = operationWithNative b op := by
  cases h with
  | added hc =>
      obtain ⟨row, hrow⟩ := allMapped_singleton.mp hmapped
      rw [operationWithNative, operationWithNative, hc.withNative hrow]
  | same => rfl

theorem allMapped_operations {ops ops' : List AlterTableOperation}
    (h : List.Forall₂ RespelledOperation ops ops') :
    AllMapped (ops'.filterMap addedType)
      ↔ AllMapped (ops.filterMap addedType) := by
  induction h with
  | nil => exact Iff.rfl
  | cons ho _ ih =>
      rw [addedType_cons, addedType_cons, allMapped_append, allMapped_append, ih,
        ho.mapped]

theorem withNative_operations {ops ops' : List AlterTableOperation}
    (h : List.Forall₂ RespelledOperation ops ops')
    (hmapped : AllMapped (ops.filterMap addedType)) :
    ops'.map (operationWithNative b) = ops.map (operationWithNative b) := by
  induction h with
  | nil => rfl
  | cons ho _ ih =>
      rw [addedType_cons, allMapped_append] at hmapped
      rw [List.map_cons, List.map_cons, ho.withNative hmapped.1, ih hmapped.2]

/-- The types of the one are mapped when those of the other are. -/
theorem Respelled.mapped {s s' : Statement} (h : Respelled s s') :
    AllMapped (columnTypes s') ↔ AllMapped (columnTypes s) := by
  cases h with
  | createTable h => exact allMapped_columns h
  | alterTable h => exact allMapped_operations h
  | same => exact Iff.rfl

/-- **THE REWRITTEN STATEMENTS ARE THE SAME**, in either backend. -/
theorem Respelled.withNative {s s' : Statement} (h : Respelled s s')
    (hmapped : AllMapped (columnTypes s)) :
    withNative b s' = withNative b s := by
  cases h with
  | createTable h =>
      rw [DualdbRewrite.withNative, DualdbRewrite.withNative,
        withNative_columns h hmapped]
  | alterTable h =>
      rw [DualdbRewrite.withNative, DualdbRewrite.withNative,
        withNative_operations h hmapped]
  | same => rfl

/-! ## What the model makes of them -/

theorem RespelledColumn.entry {c c' : ColumnDef} (h : RespelledColumn c c')
    (marker : String) :
    ModelColumn.ofDef c' marker = ModelColumn.ofDef c marker := by
  obtain ⟨-, hc⟩ := h
  rw [hc]
  rfl

theorem created_columns {cs cs' : List ColumnDef}
    (h : List.Forall₂ RespelledColumn cs cs') (rows : List Mapped) :
    columnsOf cs' rows = columnsOf cs rows ∧
      cs'.flatMap inlineKey = cs.flatMap inlineKey ∧
      cs'.flatMap inlineForeignKeys = cs.flatMap inlineForeignKeys := by
  induction h generalizing rows with
  | nil => exact ⟨rfl, rfl, rfl⟩
  | @cons c c' cs cs' hc _ ih =>
      obtain ⟨-, hkeys, hforeign⟩ := ih []
      have hkey : inlineKey c' = inlineKey c := by
        rw [hc.2]
        rfl
      have hfk : inlineForeignKeys c' = inlineForeignKeys c := by
        rw [hc.2]
        rfl
      refine ⟨?_, ?_, ?_⟩
      · cases rows with
        | nil => rfl
        | cons row rows =>
            have hentry := hc.entry row.marker
            have hrest := (ih rows).1
            rw [columnsOf, columnsOf] at hrest ⊢
            rw [List.zipWith_cons_cons, List.zipWith_cons_cons, hentry, hrest]
      · rw [List.flatMap_cons, List.flatMap_cons, hkey, hkeys]
      · rw [List.flatMap_cons, List.flatMap_cons, hfk, hforeign]

theorem rowsOf_columns {cs cs' : List ColumnDef}
    (h : List.Forall₂ RespelledColumn cs cs') (rows : List Mapped) :
    RowsOf cs' rows ↔ RowsOf cs rows := by
  induction h generalizing rows with
  | nil => exact Iff.rfl
  | cons hc _ ih =>
      cases rows with
      | nil => exact ⟨fun h => (nomatch h), fun h => (nomatch h)⟩
      | cons row rows =>
          rw [RowsOf, RowsOf, List.forall₂_cons, List.forall₂_cons, hc.1]
          exact and_congr_right fun _ => ih rows

theorem RespelledOperation.update {op op' : AlterTableOperation}
    (h : RespelledOperation op op') :
    operationUpdate op' = operationUpdate op := by
  cases h with
  | added hc =>
      obtain ⟨htype, hc⟩ := hc
      funext t
      rw [hc] at htype ⊢
      simp only [operationUpdate, htype]
      rfl
  | same => rfl

theorem RespelledOperation.apply {op op' : AlterTableOperation}
    (h : RespelledOperation op op') {tname : String} {m m' : Model} :
    m.applyOperation p tname op' = .ok m' ↔
      m.applyOperation p tname op = .ok m' := by
  cases h with
  | added hc =>
      rw [applyOperation_addColumn_ok, applyOperation_addColumn_ok, hc.1,
        RespelledOperation.update (.added hc)]
  | same => exact Iff.rfl

/-- **ONE STEP OF THE MODEL**: the statement with the other spellings is accepted
    in the same states, to the same next state. -/
theorem Respelled.apply {s s' : Statement} (h : Respelled s s')
    {m m' : Model} :
    m.apply p s' = .ok m' ↔ m.apply p s = .ok m' := by
  cases h with
  | @createTable ct cols h =>
      simp only [apply_createTable_ok, rowsOf_columns h]
      have hcreated : ∀ rows, ModelTable.created { ct with columns := cols } rows
          = ModelTable.created ct rows := by
        intro rows
        obtain ⟨hcols, hkeys, hforeign⟩ := created_columns h rows
        simp only [ModelTable.created, hcols, hkeys, hforeign]
      simp only [hcreated]
  | alterTable h =>
      simp only [Model.apply]
      induction h generalizing m with
      | nil => exact Iff.rfl
      | cons ho _ ih =>
          rw [foldlM_cons_ok, foldlM_cons_ok]
          simp only [ho.apply, ih]
  | same => exact Iff.rfl

/-- The whole model pass. -/
theorem respelled_fold {stmts stmts' : List Statement}
    (h : List.Forall₂ Respelled stmts stmts') {m m' : Model} :
    stmts'.foldlM (Model.apply p) m = .ok m' ↔
      stmts.foldlM (Model.apply p) m = .ok m' := by
  induction h generalizing m with
  | nil => exact Iff.rfl
  | cons hs _ ih =>
      rw [foldlM_cons_ok, foldlM_cons_ok]
      simp only [hs.apply, ih]

/-! ## What a migration consists of -/

/-- A shared statement or a tagged block. -/
inductive Item where
  | statement (s : Statement)
  | block (backend : Backend) (raw : String)

def Item.statement? : Item → Option Statement
  | .statement s => some s
  | .block _ _ => none

/-- The item's piece of `b`'s script, if it has one there. -/
def Item.piece (b : Backend) : Item → Option Piece
  | .statement s => some (.statement (withNative b s))
  | .block b' raw => if b' = b then some (.block raw) else none

def segmentItems : Segment → List Statement → List Item
  | .shared _, stmts => stmts.map .statement
  | .tagged b raw, _ => [.block b raw]

/-- The migration's statements and blocks in order, and its down script. -/
def Consists (p : Sqlparser) (m : Migration) (items : List Item)
    (down : String) : Prop :=
  ∃ segs chunks, segment m.upSql = .ok segs ∧ Chunks p segs chunks ∧
    items = (List.zipWith segmentItems segs chunks).flatten ∧
    migrationDown p m segs = .ok down

theorem items_of_chunks {segs : List Segment} {chunks : List (List Statement)}
    (h : Chunks p segs chunks) :
    (List.zipWith segmentItems segs chunks).flatten.filterMap Item.statement?
        = chunks.flatten ∧
      ∀ b, (List.zipWith segmentItems segs chunks).flatten.filterMap
        (Item.piece b) = pieces b segs chunks := by
  induction h with
  | nil => exact ⟨rfl, fun _ => rfl⟩
  | @cons seg chunk segs chunks hc _ ih =>
      have hhead : (segmentItems seg chunk).filterMap Item.statement? = chunk ∧
          ∀ b, (segmentItems seg chunk).filterMap (Item.piece b)
            = segmentPieces b seg chunk := by
        cases seg with
        | shared sql =>
            simp only [segmentItems, List.filterMap_map, segmentPieces]
            refine ⟨?_, fun b => ?_⟩
            · exact List.filterMap_some
            · exact congrFun List.filterMap_eq_map chunk
        | tagged b' raw =>
            refine ⟨Except.ok.inj hc, fun b => ?_⟩
            by_cases hb : b' = b
            · simp [segmentItems, Item.piece, segmentPieces, hb]
            · simp [segmentItems, Item.piece, segmentPieces, hb]
      refine ⟨?_, fun b => ?_⟩
      · rw [List.zipWith_cons_cons, List.flatten_cons, List.filterMap_append,
          hhead.1, ih.1, List.flatten_cons]
      · have hrest := ih.2 b
        rw [List.zipWith_cons_cons, List.flatten_cons, List.filterMap_append,
          hhead.2 b, hrest, pieces, pieces, List.zipWith_cons_cons,
          List.flatten_cons]

/-- A migration consists of one list of items only. -/
theorem Consists.unique {m : Migration} {items items' : List Item}
    {down down' : String} (h : Consists p m items down)
    (h' : Consists p m items' down') : items' = items ∧ down' = down := by
  obtain ⟨segs, chunks, hsegs, hchunks, rfl, hdown⟩ := h
  obtain ⟨segs', chunks', hsegs', hchunks', rfl, hdown'⟩ := h'
  cases Except.ok.inj (hsegs.symm.trans hsegs')
  rw [chunks_unique hchunks hchunks']
  exact ⟨rfl, Except.ok.inj (hdown'.symm.trans hdown)⟩

theorem Consists.statements {m : Migration} {items : List Item} {down : String}
    (h : Consists p m items down) :
    migrationStatements p m = .ok (items.filterMap Item.statement?) := by
  obtain ⟨segs, chunks, hsegs, hchunks, rfl, -⟩ := h
  rw [(items_of_chunks hchunks).1]
  exact bind_ok.mpr ⟨segs, hsegs, sharedStatements_ok.mpr ⟨chunks, hchunks, rfl⟩⟩

/-- **A RENDERED MIGRATION, BY WHAT ITS SOURCE CONSISTS OF.** -/
theorem Consists.renders {m : Migration} {items : List Item} {down : String}
    (h : Consists p m items down) {r : RenderedMigration} :
    Renders p b m r ↔ StatementsMapped (items.filterMap Item.statement?) ∧
      r = ⟨m.dirName,
        join "\n\n" ((items.filterMap (Item.piece b)).map (Piece.text p)),
        down⟩ := by
  obtain ⟨segs, chunks, hsegs, hchunks, rfl, hdown⟩ := h
  obtain ⟨hstmts, hpieces⟩ := items_of_chunks hchunks
  rw [hstmts, hpieces b]
  constructor
  · rintro ⟨segs', up, down', hsegs', hup, hdown', rfl⟩
    cases Except.ok.inj (hsegs.symm.trans hsegs')
    cases Except.ok.inj (hdown.symm.trans hdown')
    obtain ⟨chunks', hchunks', hmapped, rfl⟩ := renderUp_ok.mp hup
    rw [chunks_unique hchunks hchunks'] at hmapped ⊢
    exact ⟨hmapped, rfl⟩
  · rintro ⟨hmapped, rfl⟩
    exact ⟨segs, _, down, hsegs, renderUp_ok.mpr ⟨chunks, hchunks, hmapped, rfl⟩,
      hdown, rfl⟩

/-! ## Two histories -/

/-- A respelled statement, or the same block. -/
inductive RespelledItem : Item → Item → Prop where
  | statement {s s' : Statement} (h : Respelled s s') :
      RespelledItem (.statement s) (.statement s')
  | block (backend : Backend) (raw : String) :
      RespelledItem (.block backend raw) (.block backend raw)

/-- The same migration, but for the spelling of its types. -/
structure Alike (p : Sqlparser) (m m' : Migration) : Prop where
  dirName : m'.dirName = m.dirName
  consist : ∃ items items' down, Consists p m items down ∧
    Consists p m' items' down ∧ List.Forall₂ RespelledItem items items'

theorem respelled_statements {items items' : List Item}
    (h : List.Forall₂ RespelledItem items items') :
    List.Forall₂ Respelled (items.filterMap Item.statement?)
      (items'.filterMap Item.statement?) := by
  refine forall₂_filterMap h fun i i' hi => ?_
  cases hi with
  | statement hs => exact .some hs
  | block backend raw => exact .none

theorem respelled_mapped {items items' : List Item}
    (h : List.Forall₂ RespelledItem items items') :
    StatementsMapped (items'.filterMap Item.statement?)
      ↔ StatementsMapped (items.filterMap Item.statement?) := by
  have hstmts := respelled_statements h
  constructor
  · intro hmapped s hs
    obtain ⟨s', hs', hrespelled⟩ := forall₂_of_mem_left hstmts hs
    exact hrespelled.mapped.mp (hmapped s' hs')
  · intro hmapped s' hs'
    obtain ⟨s, hs, hrespelled⟩ := forall₂_of_mem_left hstmts.flip hs'
    exact hrespelled.mapped.mpr (hmapped s hs)

theorem respelled_pieces {items items' : List Item}
    (h : List.Forall₂ RespelledItem items items')
    (hmapped : StatementsMapped (items.filterMap Item.statement?)) :
    items'.filterMap (Item.piece b) = items.filterMap (Item.piece b) := by
  induction h with
  | nil => rfl
  | cons hi _ ih =>
      cases hi with
      | statement hs =>
          obtain ⟨hhead, hrest⟩ := List.forall_mem_cons.mp hmapped
          rw [List.filterMap_cons, List.filterMap_cons, ih hrest, Item.piece,
            Item.piece, hs.withNative hhead]
      | block backend raw =>
          rw [List.filterMap_cons, List.filterMap_cons, ih hmapped]

/-- **ONE MIGRATION RENDERS THE SAME**, in either tree. -/
theorem Alike.renders {m m' : Migration} (h : Alike p m m')
    {r : RenderedMigration} : Renders p b m' r ↔ Renders p b m r := by
  obtain ⟨hname, items, items', down, hm, hm', hitems⟩ := h
  rw [hm.renders, hm'.renders, respelled_mapped hitems, hname]
  refine and_congr_right fun hmapped => ?_
  rw [respelled_pieces hitems hmapped]

theorem Alike.statements {m m' : Migration} (h : Alike p m m') :
    ∃ stmts stmts', migrationStatements p m = .ok stmts ∧
      migrationStatements p m' = .ok stmts' ∧
      List.Forall₂ Respelled stmts stmts' := by
  obtain ⟨-, items, items', down, hm, hm', hitems⟩ := h
  exact ⟨_, _, hm.statements, hm'.statements, respelled_statements hitems⟩

theorem alike_statements {ms ms' : List Migration}
    (h : List.Forall₂ (Alike p) ms ms') :
    ∃ stmts stmts', allStatements p ms = .ok stmts ∧
      allStatements p ms' = .ok stmts' ∧
      List.Forall₂ Respelled stmts stmts' := by
  induction h with
  | nil => exact ⟨[], [], rfl, rfl, .nil⟩
  | cons hm _ ih =>
      obtain ⟨chunk, chunk', hchunk, hchunk', hfirst⟩ := hm.statements
      obtain ⟨stmts, stmts', hstmts, hstmts', hrest⟩ := ih
      exact ⟨chunk ++ stmts, chunk' ++ stmts',
        allStatements_cons_ok.mpr ⟨chunk, stmts, hchunk, hstmts, rfl⟩,
        allStatements_cons_ok.mpr ⟨chunk', stmts', hchunk', hstmts', rfl⟩,
        List.rel_append hfirst hrest⟩

theorem alike_model {ms ms' : List Migration}
    (h : List.Forall₂ (Alike p) ms ms') {m : Model} :
    finalModel p ms' = .ok m ↔ finalModel p ms = .ok m := by
  obtain ⟨stmts, stmts', hstmts, hstmts', hrespelled⟩ := alike_statements h
  rw [finalModel, finalModel, hstmts, hstmts']
  exact respelled_fold hrespelled

theorem alike_tree {ms ms' : List Migration}
    (h : List.Forall₂ (Alike p) ms ms') {rs : List RenderedMigration} :
    List.Forall₂ (Renders p b) ms' rs ↔ List.Forall₂ (Renders p b) ms rs := by
  induction h generalizing rs with
  | nil => exact Iff.rfl
  | cons hm _ ih =>
      cases rs with
      | nil => exact ⟨fun h => (nomatch h), fun h => (nomatch h)⟩
      | cons r rs => rw [List.forall₂_cons, List.forall₂_cons, hm.renders, ih]

/-- **SPELLING DOES NOT MATTER**: two histories that agree but for the spelling
    of column types within the rows of the mapping table are accepted together,
    and their two trees and their `schema.rs` are the same. -/
theorem respelled_history {ms ms' : List Migration}
    (h : List.Forall₂ (Alike p) ms ms') (g : Generated) :
    generate p ms' = .ok g ↔ generate p ms = .ok g := by
  simp only [generate_ok, alike_model h, alike_tree h]

/-! ## One table, spelled twice -/

def shortSpelling : Migration :=
  ⟨"1", "CREATE TABLE t (a INT);\n-- dualdb:sqlite\nVACUUM;\n-- dualdb:end", none⟩

/-- It has a comment as well, and a blank line before the block. -/
def longSpelling : Migration :=
  ⟨"1", "-- t\nCREATE TABLE t (a INTEGER);\n\n-- dualdb:sqlite\nVACUUM;\n"
    ++ "-- dualdb:end", none⟩

def shortTable : Statement :=
  createTable (bare "t") [col "a" (.int none) []] []

def longTable : Statement :=
  createTable (bare "t") [col "a" (.integer none) []] []

def spellingParser : Sqlparser := parserOf
  [("CREATE TABLE t (a INT);\n", [shortTable]),
    ("-- t\nCREATE TABLE t (a INTEGER);\n\n", [longTable])]

theorem respelled_history_of_int :
    ∃ g, generate spellingParser [shortSpelling] = .ok g ∧
      generate spellingParser [longSpelling] = .ok g := by
  have hshort : Consists spellingParser shortSpelling
      [.statement shortTable, .block .sqlite "VACUUM;\n"]
      "DROP TABLE IF EXISTS t;" := by
    refine ⟨[.shared "CREATE TABLE t (a INT);\n", .tagged .sqlite "VACUUM;\n"],
      [[shortTable], []], by decide +kernel, ?_, rfl, by decide +kernel⟩
    exact .cons (by decide +kernel) (.cons rfl .nil)
  have hlong : Consists spellingParser longSpelling
      [.statement longTable, .block .sqlite "VACUUM;\n"]
      "DROP TABLE IF EXISTS t;" := by
    refine ⟨[.shared "-- t\nCREATE TABLE t (a INTEGER);\n\n",
      .tagged .sqlite "VACUUM;\n"], [[longTable], []], by decide +kernel, ?_, rfl,
      by decide +kernel⟩
    exact .cons (by decide +kernel) (.cons rfl .nil)
  have hcolumn : RespelledColumn (col "a" (.int none) [])
      (col "a" (.integer none) []) := ⟨rfl, rfl⟩
  have halike : Alike spellingParser shortSpelling longSpelling :=
    ⟨rfl, _, _, _, hshort, hlong,
      .cons (.statement (.createTable (.cons hcolumn .nil)))
        (.cons (.block .sqlite "VACUUM;\n") .nil)⟩
  obtain ⟨g, hg⟩ := exists_ok_of_isOk
    (x := generate spellingParser [shortSpelling]) (by decide +kernel)
  exact ⟨g, hg, (respelled_history (.cons halike .nil) g).mpr hg⟩

end DualdbRespelling
