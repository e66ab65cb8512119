import DieselDualdb.Migration
import DieselDualdb.Lib.Pointwise

/-!
# The type rewriter in closed form

`rewrite_types` walks a statement and replaces types in place.  Here the walk
is cut in two: `columnTypes` lists the types it visits, `withNative` is the
statement it leaves behind.  `rewriteTypes_ok` says the rewriter is exactly
"every visited type is mapped, and the result is `withNative`"; from there
everything about the rewriter is a fact about two total functions.

`renderUp_ok` then gives an emitted script as a list of pieces: one for each
shared statement, one for each tagged block of the backend.
-/

namespace DualdbRewrite

open DualdbAst DualdbTypeMap DualdbModel DualdbMigration FallibleRun Pointwise
open RustStr

/-! ## The visited types and the rewritten statement -/

def addedType : AlterTableOperation → Option DataType
  | .addColumn _ _ c _ => some c.dataType
  | _ => none

/-- The types of `CREATE TABLE` columns and of `ADD COLUMN`s, in order. -/
def columnTypes : Statement → List DataType
  | .createTable ct => ct.columns.map ColumnDef.dataType
  | .alterTable _ _ _ ops _ => ops.filterMap addedType
  | _ => []

/-- `b`'s type for a logical type; an unmapped type stays. -/
def nativeOr (b : Backend) (dt : DataType) : DataType :=
  match mapType dt with
  | some row => DataType.ofNative (row.native b)
  | none => dt

def ColumnDef.withNative (b : Backend) (c : ColumnDef) : ColumnDef :=
  { c with dataType := nativeOr b c.dataType }

def operationWithNative (b : Backend) :
    AlterTableOperation → AlterTableOperation
  | .addColumn kw ine c pos => .addColumn kw ine (ColumnDef.withNative b c) pos
  | op => op

/-- The statement with every visited type replaced. -/
def withNative (b : Backend) : Statement → Statement
  | .createTable ct =>
      .createTable { ct with columns := ct.columns.map (ColumnDef.withNative b) }
  | .alterTable name ie only ops cl =>
      .alterTable name ie only (ops.map (operationWithNative b)) cl
  | s => s

/-- Every visited type has a row in the mapping table. -/
def AllMapped (dts : List DataType) : Prop :=
  ∀ dt ∈ dts, ∃ row, mapType dt = some row

theorem allMapped_cons {dt : DataType} {dts : List DataType} :
    AllMapped (dt :: dts) ↔ (∃ row, mapType dt = some row) ∧ AllMapped dts :=
  List.forall_mem_cons

theorem allMapped_append {dts dts' : List DataType} :
    AllMapped (dts ++ dts') ↔ AllMapped dts ∧ AllMapped dts' :=
  List.forall_mem_append

theorem nativeOr_of_row {b : Backend} {dt : DataType} {row : Mapped}
    (h : mapType dt = some row) :
    nativeOr b dt = DataType.ofNative (row.native b) := by
  simp only [nativeOr, h]

theorem rewriteColumn_ok {p : Sqlparser} {b : Backend} {ctx : String}
    {c c' : ColumnDef} :
    rewriteColumn p b ctx c = .ok c' ↔
      (∃ row, mapType c.dataType = some row)
        ∧ c' = ColumnDef.withNative b c := by
  rw [rewriteColumn, bind_ok]
  constructor
  · rintro ⟨dt, hdt, h⟩
    obtain ⟨row, hrow, rfl⟩ := nativeDataType_ok.mp hdt
    refine ⟨⟨row, hrow⟩, ?_⟩
    rw [← pure_ok.mp h, ColumnDef.withNative, nativeOr_of_row hrow]
  · rintro ⟨⟨row, hrow⟩, rfl⟩
    refine ⟨_, nativeDataType_ok.mpr ⟨row, hrow, rfl⟩, ?_⟩
    rw [pure_ok, ColumnDef.withNative, nativeOr_of_row hrow]

theorem rewriteColumns_ok {p : Sqlparser} {b : Backend}
    {ctx : ColumnDef → String} {cs cs' : List ColumnDef} :
    cs.mapM (fun c => rewriteColumn p b (ctx c) c) = .ok cs' ↔
      AllMapped (cs.map ColumnDef.dataType)
        ∧ cs' = cs.map (ColumnDef.withNative b) := by
  induction cs generalizing cs' with
  | nil =>
      rw [List.mapM_nil, pure_ok]
      exact ⟨fun h => ⟨fun _ hd => absurd hd List.not_mem_nil, h.symm⟩, fun h => h.2.symm⟩
  | cons c cs ih =>
      rw [mapM_ok]
      constructor
      · intro h
        cases h with
        | cons hc hcs =>
            obtain ⟨hm, rfl⟩ := rewriteColumn_ok.mp hc
            obtain ⟨hms, rfl⟩ := ih.mp (mapM_ok.mpr hcs)
            exact ⟨allMapped_cons.mpr ⟨hm, hms⟩, rfl⟩
      · rintro ⟨hm, rfl⟩
        obtain ⟨hc, hcs⟩ := allMapped_cons.mp hm
        exact .cons (rewriteColumn_ok.mpr ⟨hc, rfl⟩)
          (mapM_ok.mp (ih.mpr ⟨hcs, rfl⟩))

theorem rewriteOperation_ok {p : Sqlparser} {tname : String} {b : Backend}
    {op op' : AlterTableOperation} :
    rewriteOperation p tname b op = .ok op' ↔
      AllMapped (addedType op).toList ∧ op' = operationWithNative b op := by
  cases op with
  | addColumn kw ine c pos =>
      show (rewriteColumn p b _ c >>= fun c' =>
        (pure (.addColumn kw ine c' pos) : Except String _)) = .ok op' ↔ _
      rw [bind_ok]
      constructor
      · rintro ⟨c', hc', h⟩
        obtain ⟨hm, rfl⟩ := rewriteColumn_ok.mp hc'
        refine ⟨?_, (pure_ok.mp h).symm⟩
        exact allMapped_cons.mpr ⟨hm, fun _ hd => absurd hd List.not_mem_nil⟩
      · rintro ⟨hm, rfl⟩
        exact ⟨_, rewriteColumn_ok.mpr ⟨(allMapped_cons.mp hm).1, rfl⟩, rfl⟩
  | addConstraint _ | dropColumn _ _ _ | dropConstraint _ _ _
  | dropPrimaryKey | renameColumn _ _ | renameTable _
  | changeColumn _ _ _ _ _ | modifyColumn _ _ _ _ | alterColumn _ _
  | other _ =>
      refine ⟨fun h => ⟨fun _ hd => absurd hd List.not_mem_nil, (pure_ok.mp h).symm⟩, ?_⟩
      rintro ⟨-, rfl⟩; rfl

theorem rewriteOperations_ok {p : Sqlparser} {tname : String} {b : Backend}
    {ops ops' : List AlterTableOperation} :
    ops.mapM (rewriteOperation p tname b) = .ok ops' ↔
      AllMapped (ops.filterMap addedType)
        ∧ ops' = ops.map (operationWithNative b) := by
  induction ops generalizing ops' with
  | nil =>
      rw [List.mapM_nil, pure_ok]
      exact ⟨fun h => ⟨fun _ hd => absurd hd List.not_mem_nil, h.symm⟩, fun h => h.2.symm⟩
  | cons op ops ih =>
      have hsplit : (op :: ops).filterMap addedType
          = (addedType op).toList ++ ops.filterMap addedType := by
        rw [List.filterMap_cons]
        cases addedType op <;> rfl
      rw [mapM_ok, hsplit, allMapped_append]
      constructor
      · intro h
        cases h with
        | cons ho hos =>
            obtain ⟨hm, rfl⟩ := rewriteOperation_ok.mp ho
            obtain ⟨hms, rfl⟩ := ih.mp (mapM_ok.mpr hos)
            exact ⟨⟨hm, hms⟩, rfl⟩
      · rintro ⟨⟨hm, hms⟩, rfl⟩
        exact .cons (rewriteOperation_ok.mpr ⟨hm, rfl⟩)
          (mapM_ok.mp (ih.mpr ⟨hms, rfl⟩))

/-- **THE REWRITER IN CLOSED FORM**: it accepts exactly the statements whose
    visited types are mapped, and returns `withNative`. -/
theorem rewriteTypes_ok {p : Sqlparser} {b : Backend} {s s' : Statement} :
    rewriteTypes p b s = .ok s' ↔
      AllMapped (columnTypes s) ∧ s' = withNative b s := by
  cases s with
  | createTable ct =>
      show (ct.columns.mapM _ >>= fun columns =>
        (pure (.createTable { ct with columns := columns }) :
          Except String Statement)) = .ok s' ↔ _
      rw [bind_ok]
      constructor
      · rintro ⟨cs, hcs, h⟩
        -- accepted exactly if every type is mapped
        obtain ⟨hm, rfl⟩ := rewriteColumns_ok.mp hcs
        exact ⟨hm, (pure_ok.mp h).symm⟩
      · rintro ⟨hm, rfl⟩
        exact ⟨_, rewriteColumns_ok.mpr ⟨hm, rfl⟩, rfl⟩
  | alterTable name ie only ops cl =>
      show (ops.mapM _ >>= fun operations =>
        (pure (.alterTable name ie only operations cl) :
          Except String Statement)) = .ok s' ↔ _
      rw [bind_ok]
      constructor
      · rintro ⟨os, hos, h⟩
        obtain ⟨hm, rfl⟩ := rewriteOperations_ok.mp hos
        exact ⟨hm, (pure_ok.mp h).symm⟩
      · rintro ⟨hm, rfl⟩
        exact ⟨_, rewriteOperations_ok.mpr ⟨hm, rfl⟩, rfl⟩
  | drop _ _ _ _ _ | createIndex _ | other _ =>
      refine ⟨fun h => ⟨fun _ hd => absurd hd List.not_mem_nil, (pure_ok.mp h).symm⟩, ?_⟩
      rintro ⟨-, rfl⟩; rfl

/-! ## An emitted script as a list of pieces -/

/-- One piece of an emitted `up.sql`. -/
inductive Piece where
  | statement (s : Statement)
  | block (raw : String)
deriving DecidableEq

def Piece.text (p : Sqlparser) : Piece → String
  | .statement s => p.statementDisplay s ++ ";"
  | .block raw => trim raw

def Piece.statement? : Piece → Option Statement
  | .statement s => some s
  | .block _ => none

/-- The pieces `b`'s script has for a segment with these statements. -/
def segmentPieces (b : Backend) : Segment → List Statement → List Piece
  | .shared _, stmts => stmts.map fun s => .statement (withNative b s)
  | .tagged b' raw, _ => if b' = b then [.block raw] else []

def pieces (b : Backend) (segs : List Segment)
    (chunks : List (List Statement)) : List Piece :=
  (List.zipWith (segmentPieces b) segs chunks).flatten

/-- The statements of each segment, segment by segment. -/
def Chunks (p : Sqlparser) (segs : List Segment)
    (chunks : List (List Statement)) : Prop :=
  List.Forall₂ (fun s c => segmentStatements p s = .ok c) segs chunks

/-- Segments parse in one way only. -/
theorem chunks_unique {p : Sqlparser} {segs : List Segment}
    {chunks chunks' : List (List Statement)} (h : Chunks p segs chunks)
    (h' : Chunks p segs chunks') : chunks' = chunks := by
  induction h generalizing chunks' with
  | nil => cases h'; rfl
  | cons hc _ ih =>
      cases h' with
      | cons hc' hcs' => rw [Except.ok.inj (hc'.symm.trans hc), ih hcs']

/-- The statements among the pieces of a script. -/
theorem statements_of_pieces {p : Sqlparser} {b : Backend}
    {segs : List Segment} {chunks : List (List Statement)}
    (h : Chunks p segs chunks) :
    (pieces b segs chunks).filterMap Piece.statement?
      = chunks.flatten.map (withNative b) := by
  induction h with
  | nil => rfl
  | @cons seg chunk segs chunks hc _ ih =>
      have hhead : (segmentPieces b seg chunk).filterMap Piece.statement?
          = chunk.map (withNative b) := by
        cases seg with
        | shared sql =>
            simp [segmentPieces, List.filterMap_map, Function.comp_def,
              Piece.statement?]
        | tagged b' raw =>
            rw [← pure_ok.mp hc]
            by_cases hb : b' = b
            · simp [segmentPieces, hb, Piece.statement?]
            · simp [segmentPieces, hb]
      have htail : (pieces b segs chunks).filterMap Piece.statement?
          = chunks.flatten.map (withNative b) := ih
      simp only [pieces] at htail
      simp only [pieces, List.zipWith_cons_cons, List.flatten_cons,
        List.filterMap_append, hhead, htail, List.map_append]

/-- Every statement's visited types are mapped. -/
def StatementsMapped (stmts : List Statement) : Prop :=
  ∀ s ∈ stmts, AllMapped (columnTypes s)

theorem renderStatements_ok {p : Sqlparser} {b : Backend}
    {stmts : List Statement} {texts : List String} :
    stmts.mapM (renderStatement p b) = .ok texts ↔
      StatementsMapped stmts ∧
        texts = stmts.map fun s => p.statementDisplay (withNative b s) ++ ";" := by
  induction stmts generalizing texts with
  | nil =>
      rw [List.mapM_nil, pure_ok]
      exact ⟨fun h => ⟨fun _ hs => absurd hs List.not_mem_nil, h.symm⟩, fun h => h.2.symm⟩
  | cons s stmts ih =>
      rw [mapM_ok]
      constructor
      · intro h
        cases h with
        | cons hs hss =>
            obtain ⟨s', hs', ht⟩ := bind_ok.mp hs
            obtain ⟨hm, rfl⟩ := rewriteTypes_ok.mp hs'
            obtain ⟨hms, rfl⟩ := ih.mp (mapM_ok.mpr hss)
            refine ⟨List.forall_mem_cons.mpr ⟨hm, hms⟩, ?_⟩
            rw [← pure_ok.mp ht]; rfl
      · rintro ⟨hm, rfl⟩
        obtain ⟨hs, hss⟩ := List.forall_mem_cons.mp hm
        exact .cons (bind_ok.mpr ⟨_, rewriteTypes_ok.mpr ⟨hs, rfl⟩, rfl⟩)
          (mapM_ok.mp (ih.mpr ⟨hss, rfl⟩))

theorem renderSegment_ok {p : Sqlparser} {b : Backend} {seg : Segment}
    {texts : List String} :
    renderSegment p b seg = .ok texts ↔
      ∃ chunk, segmentStatements p seg = .ok chunk ∧ StatementsMapped chunk ∧
        texts = (segmentPieces b seg chunk).map (Piece.text p) := by
  cases seg with
  | shared sql =>
      show (parse p sql >>= fun stmts => stmts.mapM (renderStatement p b))
        = .ok texts ↔ _
      rw [bind_ok]
      constructor
      · rintro ⟨chunk, hc, h⟩
        obtain ⟨hm, rfl⟩ := renderStatements_ok.mp h
        exact ⟨chunk, hc, hm, by simp [segmentPieces, Piece.text]⟩
      · rintro ⟨chunk, hc, hm, rfl⟩
        refine ⟨chunk, hc, renderStatements_ok.mpr ⟨hm, ?_⟩⟩
        simp [segmentPieces, Piece.text]
  | tagged b' raw =>
      -- a block is printed into its own tree only
      have htext : (segmentPieces b (.tagged b' raw) []).map (Piece.text p)
          = if b' = b then [trim raw] else [] := by
        by_cases hb : b' = b
        · simp [segmentPieces, hb, Piece.text]
        · simp [segmentPieces, hb]
      constructor
      · intro h
        refine ⟨[], rfl, fun _ hs => absurd hs List.not_mem_nil, ?_⟩
        rw [htext, ← pure_ok.mp h]
      · rintro ⟨chunk, hc, -, rfl⟩
        rw [← pure_ok.mp hc, htext]; rfl

theorem renderSegments_ok {p : Sqlparser} {segs : List Segment} {b : Backend}
    {texts : List (List String)} :
    segs.mapM (renderSegment p b) = .ok texts ↔
      ∃ chunks, Chunks p segs chunks ∧ StatementsMapped chunks.flatten ∧
        texts = (List.zipWith (segmentPieces b) segs chunks).map
          (List.map (Piece.text p)) := by
  induction segs generalizing texts with
  | nil =>
      rw [List.mapM_nil, pure_ok]
      constructor
      · rintro rfl
        exact ⟨[], .nil, fun _ hs => absurd hs List.not_mem_nil, rfl⟩
      · rintro ⟨chunks, hc, -, rfl⟩
        cases hc; rfl
  | cons seg segs ih =>
      rw [mapM_ok]
      constructor
      · intro h
        cases h with
        | cons hs hss =>
            obtain ⟨chunk, hc, hm, rfl⟩ := renderSegment_ok.mp hs
            obtain ⟨chunks, hcs, hms, rfl⟩ := ih.mp (mapM_ok.mpr hss)
            exact ⟨chunk :: chunks, .cons hc hcs,
              List.forall_mem_append.mpr ⟨hm, hms⟩, rfl⟩
      · rintro ⟨chunks, hcs, hm, rfl⟩
        cases hcs with
        | cons hc hcs =>
            obtain ⟨hm, hms⟩ := List.forall_mem_append.mp hm
            exact .cons (renderSegment_ok.mpr ⟨_, hc, hm, rfl⟩)
              (mapM_ok.mp (ih.mpr ⟨_, hcs, hms, rfl⟩))

/-- **AN EMITTED SCRIPT IN CLOSED FORM**: the segments' statements and the
    backend's blocks, in source order, joined by blank lines. -/
theorem renderUp_ok {p : Sqlparser} {segs : List Segment} {b : Backend}
    {up : String} :
    renderUp p segs b = .ok up ↔
      ∃ chunks, Chunks p segs chunks ∧ StatementsMapped chunks.flatten ∧
        up = join "\n\n" ((pieces b segs chunks).map (Piece.text p)) := by
  rw [renderUp, bind_ok]
  constructor
  · rintro ⟨texts, ht, h⟩
    obtain ⟨chunks, hc, hm, rfl⟩ := renderSegments_ok.mp ht
    refine ⟨chunks, hc, hm, ?_⟩
    rw [← pure_ok.mp h, pieces, List.map_flatten]
  · rintro ⟨chunks, hc, hm, rfl⟩
    refine ⟨_, renderSegments_ok.mpr ⟨chunks, hc, hm, rfl⟩, ?_⟩
    rw [pure_ok, pieces, List.map_flatten]

/-- A line for each created table, last one first. -/
def dropLines (stmts : List Statement) : List String :=
  (stmts.filterMap createdTable).reverse.map dropLine

theorem dropLines_append (stmts stmts' : List Statement) :
    dropLines (stmts ++ stmts') = dropLines stmts' ++ dropLines stmts := by
  simp only [dropLines, List.filterMap_append, List.reverse_append,
    List.map_append]

/-- **A DERIVED `down.sql` IN CLOSED FORM**: the lines of the statements. -/
theorem deriveDown_ok {p : Sqlparser} {segs : List Segment}
    {chunks : List (List Statement)} (h : Chunks p segs chunks) :
    deriveDown p segs = .ok (join "\n" (dropLines chunks.flatten)) := by
  have hcreated : segs.mapM (createdIn p)
      = .ok (chunks.map (List.filterMap createdTable)) := by
    refine mapM_ok.mpr (List.forall₂_map_right_iff.mpr (h.imp ?_))
    intro seg chunk hseg
    cases seg with
    | shared sql => exact bind_ok.mpr ⟨chunk, hseg, rfl⟩
    | tagged b raw =>
        rw [← Except.ok.inj hseg]
        rfl
  rw [deriveDown, hcreated, dropLines, List.filterMap_flatten]
  rfl

/-- What a rendered migration holds, in terms of its shared statements. -/
theorem renders_chunks {p : Sqlparser} {b : Backend} {m : Migration}
    {r : RenderedMigration} (h : Renders p b m r) :
    ∃ segs chunks down, segment m.upSql = .ok segs ∧ Chunks p segs chunks ∧
      migrationStatements p m = .ok chunks.flatten ∧
      StatementsMapped chunks.flatten ∧ migrationDown p m segs = .ok down ∧
      r = ⟨m.dirName,
        join "\n\n" ((pieces b segs chunks).map (Piece.text p)), down⟩ := by
  obtain ⟨segs, up, down, hsegs, hup, hdown, rfl⟩ := h
  obtain ⟨chunks, hchunks, hmapped, rfl⟩ := renderUp_ok.mp hup
  have hstmts : migrationStatements p m = .ok chunks.flatten :=
    bind_ok.mpr ⟨segs, hsegs, sharedStatements_ok.mpr ⟨chunks, hchunks, rfl⟩⟩
  exact ⟨segs, chunks, down, hsegs, hchunks, hstmts, hmapped, hdown, rfl⟩

/-! ## What the model pass has checked -/

/-- The model asks for the row of every added column. -/
theorem applyOperation_mapped {p : Sqlparser} {tname : String} {m m' : Model}
    {op : AlterTableOperation} (h : m.applyOperation p tname op = .ok m')
    {dt : DataType} (hdt : addedType op = some dt) :
    ∃ row, mapType dt = some row := by
  cases op with
  | addColumn kw ine c pos =>
      rw [← Option.some.inj hdt]
      cases hrow : mapType c.dataType with
      | none =>
          simp only [Model.applyOperation, hrow] at h
          exact absurd h error_ne_ok
      | some row => exact ⟨row, rfl⟩
  | addConstraint _ | dropConstraint _ _ _ | dropPrimaryKey | renameColumn _ _
  | renameTable _ | changeColumn _ _ _ _ _ | modifyColumn _ _ _ _
  | alterColumn _ _ | dropColumn _ _ _ | other _ => cases hdt

theorem applyOperations_mapped {p : Sqlparser} {tname : String}
    {ops : List AlterTableOperation} {m m' : Model}
    (h : ops.foldlM (Model.applyOperation p tname) m = .ok m') :
    AllMapped (ops.filterMap addedType) := by
  induction ops generalizing m with
  | nil => exact fun _ hdt => absurd hdt List.not_mem_nil
  | cons op ops ih =>
      obtain ⟨m₁, hop, hrest⟩ := foldlM_cons_ok.mp h
      intro dt hdt
      obtain ⟨o, ho, hadded⟩ := List.mem_filterMap.mp hdt
      rcases List.mem_cons.mp ho with rfl | ho
      · exact applyOperation_mapped hop hadded
      · exact ih hrest dt (List.mem_filterMap.mpr ⟨o, ho, hadded⟩)

/-- **THE MODEL PASS COVERS THE REWRITER**: the types that it visits are mapped
    in every statement that the model accepts. -/
theorem apply_mapped {p : Sqlparser} {m m' : Model} {s : Statement}
    (h : m.apply p s = .ok m') : AllMapped (columnTypes s) := by
  cases s with
  | createTable ct =>
      obtain ⟨rows, hrows, -⟩ := apply_createTable_ok.mp h
      intro dt hdt
      obtain ⟨c, hc, rfl⟩ := List.mem_map.mp hdt
      obtain ⟨row, -, hrow⟩ := forall₂_of_mem_left hrows hc
      exact ⟨row, hrow⟩
  | alterTable name ie only ops cl => exact applyOperations_mapped h
  | drop _ _ _ _ _ | createIndex _ | other _ =>
      exact fun _ hdt => absurd hdt List.not_mem_nil

theorem fold_mapped {p : Sqlparser} {stmts : List Statement} {m m' : Model}
    (h : stmts.foldlM (Model.apply p) m = .ok m') : StatementsMapped stmts := by
  induction stmts generalizing m with
  | nil => exact fun _ hs => absurd hs List.not_mem_nil
  | cons s stmts ih =>
      obtain ⟨m₁, hs, hrest⟩ := foldlM_cons_ok.mp h
      exact List.forall_mem_cons.mpr ⟨apply_mapped hs, ih hrest⟩

/-- The shared statements of an accepted list have their types mapped. -/
theorem accepted_mapped {p : Sqlparser} {ms : List Migration}
    {g : Generated} (h : generate p ms = .ok g) :
    ∃ stmts, allStatements p ms = .ok stmts ∧ StatementsMapped stmts := by
  obtain ⟨m, hm, -, -, -⟩ := generate_ok.mp h
  obtain ⟨stmts, hstmts, hfold⟩ := bind_ok.mp hm
  exact ⟨stmts, hstmts, fold_mapped hfold⟩

end DualdbRewrite
