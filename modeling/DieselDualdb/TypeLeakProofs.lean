import DieselDualdb.EmittedRun
import DieselDualdb.SqlText
import DieselDualdb.Lib.Pointwise

/-!
# Where a logical type can leak into a backend

A statement gives a column its type in five places: a `CREATE TABLE` column,
`ADD COLUMN`, `ALTER COLUMN … SET DATA TYPE`, `CHANGE COLUMN` and
`MODIFY COLUMN`.  The rewriter visits the first two.  A type in one of the
other three (`passedTypes`) reaches both trees as it was written, mapped or
not, and `emittedNative_iff` says exactly when that is harmless: when both
backends happen to spell it as the source does.
-/

namespace DualdbTypeLeak

open DualdbAst DualdbTypeMap DualdbModel DualdbMigration DualdbRewrite
open DualdbEmitted FallibleRun Pointwise

/-- The type an operation gives a column, in any of the four forms. -/
def operationType : AlterTableOperation → Option DataType
  | .addColumn _ _ c _ => some c.dataType
  | .alterColumn _ (.setDataType dt _) => some dt
  | .changeColumn _ _ dt _ _ => some dt
  | .modifyColumn _ dt _ _ => some dt
  | _ => none

/-- Every position of the statement that gives a column its type. -/
def typePositions : Statement → List DataType
  | .createTable ct => ct.columns.map ColumnDef.dataType
  | .alterTable _ _ _ ops _ => ops.filterMap operationType
  | _ => []

/-- The type at a position the rewriter does not visit. -/
def passedType : AlterTableOperation → Option DataType
  | .alterColumn _ (.setDataType dt _) => some dt
  | .changeColumn _ _ dt _ _ => some dt
  | .modifyColumn _ dt _ _ => some dt
  | _ => none

def passedTypes : Statement → List DataType
  | .alterTable _ _ _ ops _ => ops.filterMap passedType
  | _ => []

/-! ## Changing the types alone -/

/-- The operation with another type, in any of the four forms. -/
def mapOperationType (f : DataType → DataType) :
    AlterTableOperation → AlterTableOperation
  | .addColumn kw ine c pos =>
      .addColumn kw ine { c with dataType := f c.dataType } pos
  | .alterColumn name (.setDataType dt e) =>
      .alterColumn name (.setDataType (f dt) e)
  | .changeColumn old new dt opts pos => .changeColumn old new (f dt) opts pos
  | .modifyColumn name dt opts pos => .modifyColumn name (f dt) opts pos
  | op => op

/-- The statement with other types at all positions. -/
def mapTypes (f : DataType → DataType) : Statement → Statement
  | .createTable ct => .createTable { ct with
      columns := ct.columns.map fun c => { c with dataType := f c.dataType } }
  | .alterTable name ie only ops cl =>
      .alterTable name ie only (ops.map (mapOperationType f)) cl
  | s => s

theorem operationType_mapOperationType (f : DataType → DataType)
    (op : AlterTableOperation) :
    operationType (mapOperationType f op) = (operationType op).map f := by
  cases op with
  | alterColumn name op => cases op <;> rfl
  | addColumn _ _ _ _ | changeColumn _ _ _ _ _ | modifyColumn _ _ _ _
  | addConstraint _ | dropColumn _ _ _ | dropConstraint _ _ _
  | dropPrimaryKey | renameColumn _ _ | renameTable _ | other _ => rfl

theorem typePositions_mapTypes (f : DataType → DataType) (s : Statement) :
    typePositions (mapTypes f s) = (typePositions s).map f := by
  cases s with
  | createTable ct =>
      simp only [mapTypes, typePositions, List.map_map]
      rfl
  | alterTable name ie only ops cl =>
      simp only [mapTypes, typePositions, List.filterMap_map,
        List.map_filterMap]
      exact List.filterMap_congr fun op _ => operationType_mapOperationType f op
  | drop _ _ _ _ _ | createIndex _ | other _ => rfl

theorem mapOperationType_comp (f g : DataType → DataType)
    (op : AlterTableOperation) :
    mapOperationType f (mapOperationType g op)
      = mapOperationType (f ∘ g) op := by
  cases op with
  | alterColumn name op => cases op <;> rfl
  | addColumn _ _ _ _ | changeColumn _ _ _ _ _ | modifyColumn _ _ _ _
  | addConstraint _ | dropColumn _ _ _ | dropConstraint _ _ _
  | dropPrimaryKey | renameColumn _ _ | renameTable _ | other _ => rfl

theorem mapTypes_comp (f g : DataType → DataType) (s : Statement) :
    mapTypes f (mapTypes g s) = mapTypes (f ∘ g) s := by
  cases s with
  | createTable ct =>
      simp only [mapTypes, List.map_map]
      rfl
  | alterTable name ie only ops cl =>
      have hops : (ops.map (mapOperationType g)).map (mapOperationType f)
          = ops.map (mapOperationType (f ∘ g)) := by
        rw [List.map_map]
        exact List.map_congr_left fun op _ => mapOperationType_comp f g op
      simp only [mapTypes, hops]
  | drop _ _ _ _ _ | createIndex _ | other _ => rfl

/-- The rewriter does all of it where it passes over nothing. -/
theorem withNative_eq_mapTypes {b : Backend} {s : Statement}
    (h : passedTypes s = []) : withNative b s = mapTypes (nativeOr b) s := by
  cases s with
  | alterTable name ie only ops cl =>
      have hops : ops.map (operationWithNative b)
          = ops.map (mapOperationType (nativeOr b)) := by
        refine List.map_congr_left fun op hop => ?_
        have hnone := List.filterMap_eq_nil_iff.mp h op hop
        cases op with
        | alterColumn name op =>
            cases op with
            | setDataType dt e => cases hnone
            | setNotNull | dropNotNull | setDefault _ | dropDefault
            | addGenerated _ => rfl
        | changeColumn _ _ _ _ _ | modifyColumn _ _ _ _ => cases hnone
        | addColumn _ _ _ _ | addConstraint _ | dropColumn _ _ _
        | dropConstraint _ _ _ | dropPrimaryKey | renameColumn _ _
        | renameTable _ | other _ => rfl
      simp only [withNative, mapTypes, hops]
  | createTable _ | drop _ _ _ _ _ | createIndex _ | other _ => rfl

/-! ## Native names at all positions -/

/-- `dt'` is printed as `b`'s native name for `dt`. -/
def NativeAt (p : Sqlparser) (b : Backend) (dt dt' : DataType) : Prop :=
  ∃ row, mapType dt = some row ∧ p.dataTypeDisplay dt' = row.native b

/-- The statement `s'` has `b`'s native names at all positions of `s`. -/
def NativeStatement (p : Sqlparser) (b : Backend) (s s' : Statement) : Prop :=
  List.Forall₂ (NativeAt p b) (typePositions s) (typePositions s')

/-- The statements in the files of each tree are the shared ones, one by one, with
    native names at all positions, so no position holds an unmapped type
    either. -/
def EmittedNative (p : Sqlparser) (ms : List Migration) (g : Generated)
    (stmts : List Statement) : Prop :=
  ∀ b, ∃ pss, TreeHolds p b ms (g.tree b) pss ∧
    List.Forall₂ (NativeStatement p b) stmts
      (pss.flatten.filterMap Piece.statement?)

/-- `dt` is mapped, and both backends spell it the way it is written. -/
def SpelledAlike (p : Sqlparser) (dt : DataType) : Prop :=
  ∃ row, mapType dt = some row ∧ p.dataTypeDisplay dt = row.pg
    ∧ p.dataTypeDisplay dt = row.sqlite

theorem spelledAlike_iff {p : Sqlparser} {dt : DataType} :
    SpelledAlike p dt ↔ ∀ b, NativeAt p b dt dt := by
  constructor
  · rintro ⟨row, hrow, hpg, hsq⟩ b
    cases b with
    | postgres => exact ⟨row, hrow, hpg⟩
    | sqlite => exact ⟨row, hrow, hsq⟩
  · intro h
    obtain ⟨row, hrow, hpg⟩ := h .postgres
    obtain ⟨row', hrow', hsq⟩ := h .sqlite
    rw [hrow] at hrow'
    cases hrow'
    exact ⟨row, hrow, hpg, hsq⟩

section Positions

variable {p : Sqlparser} {b : Backend}

theorem nativeAt_nativeOr (hcustom : ∀ name,
      p.dataTypeDisplay (DataType.ofNative name) = name) {dt : DataType}
    (h : ∃ row, mapType dt = some row) : NativeAt p b dt (nativeOr b dt) := by
  obtain ⟨row, hrow⟩ := h
  exact ⟨row, hrow, by rw [nativeOr_of_row hrow, hcustom]⟩

/-- At an operation with a mapped `ADD COLUMN` type, the emitted type is
    native unless the position is one the rewriter passes over. -/
theorem operation_native (hcustom : ∀ name,
      p.dataTypeDisplay (DataType.ofNative name) = name)
    {op : AlterTableOperation} (hop : AllMapped (addedType op).toList) :
    (∀ x y, operationType op = some x →
        operationType (operationWithNative b op) = some y → NativeAt p b x y)
      ↔ ∀ dt, passedType op = some dt → NativeAt p b dt dt := by
  cases op with
  | addColumn kw ine c pos =>
      -- an added column is rewritten, so nothing of it passes
      constructor
      · intro _ dt hdt
        cases hdt
      · intro _ x y hx hy
        cases hx
        cases hy
        exact nativeAt_nativeOr hcustom (allMapped_cons.mp hop).1
  | alterColumn c op =>
      cases op with
      | setDataType dt e =>
          refine ⟨fun h dt' hdt' => h dt' dt' hdt' hdt', ?_⟩
          intro h x y hx hy
          cases hx; cases hy; exact h dt rfl
      | setNotNull | dropNotNull | setDefault _ | dropDefault
      | addGenerated _ =>
          constructor
          · intro _ dt hdt
            cases hdt
          · intro _ x y hx
            cases hx
  | changeColumn old new dt opts pos =>
      refine ⟨fun h dt' hdt' => h dt' dt' hdt' hdt', ?_⟩
      intro h x y hx hy
      cases hx; cases hy; exact h dt rfl
  | modifyColumn c dt opts pos =>
      refine ⟨fun h dt' hdt' => h dt' dt' hdt' hdt', ?_⟩
      intro h x y hx hy
      cases hx; cases hy; exact h dt rfl
  | addConstraint _ | dropColumn _ _ _ | dropConstraint _ _ _
  | dropPrimaryKey | renameColumn _ _ | renameTable _ | other _ =>
      constructor
      · intro _ dt hdt
        cases hdt
      · intro _ x y hx
        cases hx

theorem operationType_isSome (b : Backend) (op : AlterTableOperation) :
    (operationType op).isSome
      = (operationType (operationWithNative b op)).isSome := by
  cases op <;> rfl

/-- A statement with mapped visited types is emitted native exactly when its
    passed-over types are. -/
theorem statement_native (hcustom : ∀ name,
      p.dataTypeDisplay (DataType.ofNative name) = name) {s : Statement}
    (hs : AllMapped (columnTypes s)) :
    NativeStatement p b s (withNative b s)
      ↔ ∀ dt ∈ passedTypes s, NativeAt p b dt dt := by
  cases s with
  | createTable ct =>
      refine ⟨fun _ dt hdt => absurd hdt List.not_mem_nil, fun _ => ?_⟩
      simp only [NativeStatement, typePositions, withNative, List.map_map]
      rw [List.forall₂_map_left_iff, List.forall₂_map_right_iff]
      refine List.forall₂_same.mpr fun c hc => ?_
      exact nativeAt_nativeOr hcustom
        (hs c.dataType (List.mem_map_of_mem hc))
  | alterTable name ie only ops cl =>
      simp only [NativeStatement, typePositions, withNative, passedTypes, List.filterMap_map,
        List.mem_filterMap, forall_exists_index, and_imp]
      rw [forall₂_filterMap_iff (g := operationType ∘ operationWithNative b)
        (operationType_isSome b)]
      -- the mapped types of the statement are those of its added columns
      have hop : ∀ op ∈ ops, AllMapped (addedType op).toList := by
        intro op hop dt hdt
        exact hs dt (List.mem_filterMap.mpr
          ⟨op, hop, Option.mem_toList.mp hdt⟩)
      constructor
      · intro h dt op hmem hdt
        exact (operation_native hcustom (hop op hmem)).mp (h op hmem) dt hdt
      · intro h op hmem
        exact (operation_native hcustom (hop op hmem)).mpr
          fun dt hdt => h dt op hmem hdt
  | drop _ _ _ _ _ | createIndex _ | other _ =>
      exact ⟨fun _ dt hdt => absurd hdt List.not_mem_nil, fun _ => .nil⟩

end Positions

/-- What stands in a tree is the shared statements, rewritten. -/
theorem holds_statements {p : Sqlparser} {b : Backend} {ms : List Migration}
    {rs : List RenderedMigration} {pss : List (List Piece)}
    {stmts : List Statement} (h : TreeHolds p b ms rs pss)
    (hstmts : allStatements p ms = .ok stmts) :
    pss.flatten.filterMap Piece.statement? = stmts.map (withNative b) := by
  obtain ⟨stmts', hstmts', hpieces⟩ :=
    treePieces_statements (treePieces_ok.mpr ⟨pss, h.1, rfl⟩)
  rw [hpieces, Except.ok.inj (hstmts.symm.trans hstmts')]

theorem emittedNative_iff {p : Sqlparser} (hcustom : ∀ name,
      p.dataTypeDisplay (DataType.ofNative name) = name)
    {ms : List Migration} {g : Generated} {stmts : List Statement}
    (hg : generate p ms = .ok g) (hstmts : allStatements p ms = .ok stmts)
    (h : StatementsMapped stmts) :
    EmittedNative p ms g stmts ↔
      ∀ s ∈ stmts, ∀ dt ∈ passedTypes s, SpelledAlike p dt := by
  constructor
  · intro hn s hs dt hdt
    refine spelledAlike_iff.mpr fun b => ?_
    obtain ⟨pss, hpss, hall⟩ := hn b
    rw [holds_statements hpss hstmts, List.forall₂_map_right_iff,
      List.forall₂_same] at hall
    exact (statement_native hcustom (h s hs)).mp (hall s hs) dt hdt
  · intro hp b
    obtain ⟨pss, hpss⟩ := tree_pieces hg b
    refine ⟨pss, hpss, ?_⟩
    rw [holds_statements hpss hstmts, List.forall₂_map_right_iff,
      List.forall₂_same]
    intro s hs
    exact (statement_native hcustom (h s hs)).mpr
      fun dt hdt => spelledAlike_iff.mp (hp s hs dt hdt) b

/-- **WHEN NO LOGICAL TYPE LEAKS**: the shared statements of an accepted list
    stand in both trees with native types only, and name no unmapped type, exactly
    when every type given by `ALTER COLUMN … SET DATA TYPE`, `CHANGE COLUMN`
    or `MODIFY COLUMN` is one that both backends spell as it is written. -/
theorem no_type_leak_iff {p : Sqlparser} (hcustom : ∀ name,
      p.dataTypeDisplay (DataType.ofNative name) = name)
    {ms : List Migration} {g : Generated} (h : generate p ms = .ok g) :
    ∃ stmts, allStatements p ms = .ok stmts ∧
      (EmittedNative p ms g stmts ↔
        ∀ s ∈ stmts, ∀ dt ∈ passedTypes s, SpelledAlike p dt) := by
  obtain ⟨stmts, hstmts, hmapped⟩ := accepted_mapped h
  exact ⟨stmts, hstmts, emittedNative_iff hcustom h hstmts hmapped⟩

open DualdbSqlText in
def leakParser : Sqlparser := parserOf
  [("CREATE TABLE t (a TEXT)\n",
      [createTable (bare "t") [col "a" .text []] []]),
    ("ALTER TABLE t ALTER a SET DATA TYPE UUID\n",
      [alterTable (bare "t")
        [.alterColumn (Ident.new "a") (.setDataType .uuid none)]])]

def leakMigrations : List Migration :=
  [⟨"1_t", "CREATE TABLE t (a TEXT)", none⟩,
    ⟨"2_a", "ALTER TABLE t ALTER a SET DATA TYPE UUID", none⟩]

theorem no_type_leak_iff_of_set_data_type :
    ∃ g, generate leakParser leakMigrations = .ok g ∧
      ∃ stmts, allStatements leakParser leakMigrations = .ok stmts ∧
        (EmittedNative leakParser leakMigrations g stmts ↔
          ∀ s ∈ stmts, ∀ dt ∈ passedTypes s, SpelledAlike leakParser dt) := by
  obtain ⟨g, hg⟩ := exists_ok_of_isOk
    (x := generate leakParser leakMigrations) (by decide +kernel)
  exact ⟨g, hg, no_type_leak_iff (fun _ => rfl) hg⟩

/-- `SET DATA TYPE UUID` is accepted, and SQLite is sent `UUID`. -/
theorem set_data_type_leaks :
    ∃ g stmts, generate leakParser leakMigrations = .ok g ∧
      allStatements leakParser leakMigrations = .ok stmts ∧
      g.sqlite.map RenderedMigration.upSql = ["CREATE TABLE t (a TEXT);",
        "ALTER TABLE t ALTER COLUMN a SET DATA TYPE UUID;"] ∧
      ¬ EmittedNative leakParser leakMigrations g stmts := by
  obtain ⟨g, hg⟩ := exists_ok_of_isOk
    (x := generate leakParser leakMigrations) (by decide +kernel)
  have hstmts : allStatements leakParser leakMigrations = .ok
      [DualdbSqlText.createTable (DualdbSqlText.bare "t")
          [DualdbSqlText.col "a" .text []] [],
        DualdbSqlText.alterTable (DualdbSqlText.bare "t")
          [.alterColumn (Ident.new "a") (.setDataType .uuid none)]] := by
    decide +kernel
  have htree : (generate leakParser leakMigrations).map (fun g =>
      g.sqlite.map RenderedMigration.upSql)
      = .ok ["CREATE TABLE t (a TEXT);",
        "ALTER TABLE t ALTER COLUMN a SET DATA TYPE UUID;"] := by
    decide +kernel
  rw [hg] at htree
  refine ⟨g, _, hg, hstmts, Except.ok.inj htree, ?_⟩
  intro h
  obtain ⟨pss, hpss, hall⟩ := h .sqlite
  rw [holds_statements hpss hstmts] at hall
  cases hall with
  | cons _ hall =>
      cases hall with
      | cons halter _ =>
          cases halter with
          | cons hat _ =>
              obtain ⟨row, hrow, hname⟩ := hat
              cases hrow
              exact absurd hname (by decide)

end DualdbTypeLeak
