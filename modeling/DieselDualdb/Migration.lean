import DieselDualdb.SchemaRender

/-!
# From logical migrations to the two trees

The line segmenter for the escape hatch, the type rewriter, the two scripts of
a migration, and `generate`, which threads the schema model through all
migrations while rendering each of them.

The second half states once what an accepted run consists of: `generate_ok`
splits it into the shared statements, the model they fold to, and one
`Renders` fact per migration and backend.
-/

namespace DualdbMigration

open DualdbAst DualdbTypeMap DualdbModel DualdbRender FallibleRun RustStr

/-! ## Escape-hatch segmentation -/

inductive Segment where
  | shared (sql : String)
  | tagged (backend : Backend) (raw : String)
deriving DecidableEq

/-- The three variables of the segmenter. -/
structure SegmentState where
  segments : List Segment
  shared : String
  tagged : Option (Backend × String)
deriving DecidableEq

/-- The keyword of a directive line; `none` for any other line. -/
def directive (line : String) : Option String :=
  (stripPrefix (trim line) "-- dualdb:").map trim

/-- The segments with the shared buffer closed; a blank buffer is dropped. -/
def SegmentState.flushed (st : SegmentState) : List Segment :=
  if (trim st.shared).isEmpty then st.segments
  else st.segments ++ [.shared st.shared]

def SegmentState.openBlock (st : SegmentState) (backend : Backend) :
    Except String SegmentState :=
  if st.tagged.isSome then .error "nested `-- dualdb:` block"
  else .ok ⟨st.flushed, "", some (backend, "")⟩

def segmentLine (st : SegmentState) (line : String) :
    Except String SegmentState :=
  match directive line with
  | some keyword =>
      if keyword = "postgres" then st.openBlock .postgres
      else if keyword = "sqlite" then st.openBlock .sqlite
      else if keyword = "end" then
        match st.tagged with
        | some (backend, raw) =>
            .ok { st with
              segments := st.segments ++ [.tagged backend raw]
              tagged := none }
        | none => .error "`-- dualdb:end` without an open block"
      else .error ("unknown directive `-- dualdb:" ++ keyword ++ "`")
  | none =>
      match st.tagged with
      | some (backend, raw) =>
          .ok { st with tagged := some (backend, raw ++ line ++ "\n") }
      | none => .ok { st with shared := st.shared ++ line ++ "\n" }

/-- Split logical DDL into shared chunks and per-backend tagged blocks. -/
def segment (sql : String) : Except String (List Segment) := do
  let st ← (lines sql).foldlM segmentLine ⟨[], "", none⟩
  if st.tagged.isSome then
    .error "unclosed `-- dualdb:` block (missing `-- dualdb:end`)"
  else pure st.flushed

/-! ## DDL rendering: rewrite the types, re-emit the rest -/

def parse (p : Sqlparser) (sql : String) : Except String (List Statement) :=
  (p.parseSql sql).mapError ("SQL parse error: " ++ ·)

def rewriteColumn (p : Sqlparser) (backend : Backend) (ctx : String)
    (c : ColumnDef) : Except String ColumnDef := do
  let dt ← nativeDataType p c.dataType backend ctx
  pure { c with dataType := dt }

def rewriteOperation (p : Sqlparser) (tname : String) (backend : Backend) :
    AlterTableOperation → Except String AlterTableOperation
  | .addColumn kw ifNotExists columnDef position => do
      let c ← rewriteColumn p backend ("ALTER `" ++ tname ++ "` ADD `"
        ++ p.identDisplay columnDef.name ++ "`") columnDef
      pure (.addColumn kw ifNotExists c position)
  | op => pure op

/-- A statement with its column types replaced by `backend`'s native types. -/
def rewriteTypes (p : Sqlparser) (backend : Backend) :
    Statement → Except String Statement
  | .createTable ct => do
      let columns ← ct.columns.mapM fun c =>
        rewriteColumn p backend ("table `" ++ lastIdent ct.name
          ++ "` column `" ++ p.identDisplay c.name ++ "`") c
      pure (.createTable { ct with columns := columns })
  | .alterTable name ifExists only operations clauses => do
      let operations ←
        operations.mapM (rewriteOperation p (lastIdent name) backend)
      pure (.alterTable name ifExists only operations clauses)
  | stmt => pure stmt

def renderStatement (p : Sqlparser) (backend : Backend) (stmt : Statement) :
    Except String String := do
  let stmt ← rewriteTypes p backend stmt
  pure (p.statementDisplay stmt ++ ";")

/-- The pieces of `backend`'s `up.sql` that one segment contributes. -/
def renderSegment (p : Sqlparser) (backend : Backend) :
    Segment → Except String (List String)
  | .shared sql => do
      let stmts ← parse p sql
      stmts.mapM (renderStatement p backend)
  | .tagged b raw => pure (if b = backend then [trim raw] else [])

/-- The `up.sql` for one backend from the migration's segments. -/
def renderUp (p : Sqlparser) (segments : List Segment) (backend : Backend) :
    Except String String := do
  let pieces ← segments.mapM (renderSegment p backend)
  pure (join "\n\n" pieces.flatten)

def createdTable : Statement → Option String
  | .createTable ct => some (lastIdent ct.name)
  | _ => none

def createdIn (p : Sqlparser) : Segment → Except String (List String)
  | .shared sql => do
      let stmts ← parse p sql
      pure (stmts.filterMap createdTable)
  | .tagged _ _ => pure []

def dropLine (table : String) : String :=
  "DROP TABLE IF EXISTS " ++ table ++ ";"

/-- `DROP TABLE` for each table created in the shared segments, in reverse
    order: the `down.sql` of a migration that supplies none. -/
def deriveDown (p : Sqlparser) (segments : List Segment) :
    Except String String := do
  let created ← segments.mapM (createdIn p)
  pure (join "\n" (created.flatten.reverse.map dropLine))

/-! ## Top-level generation -/

structure Migration where
  dirName : String
  upSql : String
  downSql : Option String

structure RenderedMigration where
  dirName : String
  upSql : String
  downSql : String
deriving DecidableEq

structure Generated where
  postgres : List RenderedMigration
  sqlite : List RenderedMigration
  schemaRs : String

def Generated.tree (g : Generated) : Backend → List RenderedMigration
  | .postgres => g.postgres
  | .sqlite => g.sqlite

/-- The variables of the migration loop. -/
structure GenerateState where
  model : Model
  postgres : List RenderedMigration
  sqlite : List RenderedMigration

def applySegment (p : Sqlparser) (model : Model) :
    Segment → Except String Model
  | .shared sql => do
      let stmts ← parse p sql
      stmts.foldlM (Model.apply p) model
  | .tagged _ _ => pure model

def migrationDown (p : Sqlparser) (m : Migration) (segments : List Segment) :
    Except String String :=
  match m.downSql with
  | some d => pure (trimEnd d)
  | none => deriveDown p segments

def generateMigration (p : Sqlparser) (st : GenerateState) (m : Migration) :
    Except String GenerateState :=
  Except.mapError (fun e => "migration `" ++ m.dirName ++ "`: " ++ e) do
    let segments ← segment m.upSql
    let model ← segments.foldlM (applySegment p) st.model
    let down ← migrationDown p m segments
    let pg ← renderUp p segments .postgres
    let sq ← renderUp p segments .sqlite
    pure {
      model := model
      postgres := st.postgres ++ [⟨m.dirName, pg, down⟩]
      sqlite := st.sqlite ++ [⟨m.dirName, sq, down⟩] }

def generate (p : Sqlparser) (migrations : List Migration) :
    Except String Generated := do
  let st ← migrations.foldlM (generateMigration p) ⟨Model.empty, [], []⟩
  let schemaRs ← renderSchemaRs st.model
  pure ⟨st.postgres, st.sqlite, schemaRs⟩

/-! ## The shared statements of a run -/

def segmentStatements (p : Sqlparser) :
    Segment → Except String (List Statement)
  | .shared sql => parse p sql
  | .tagged _ _ => pure []

/-- The statements of the shared segments, in order. -/
def sharedStatements (p : Sqlparser) (segments : List Segment) :
    Except String (List Statement) :=
  List.flatten <$> segments.mapM (segmentStatements p)

def migrationStatements (p : Sqlparser) (m : Migration) :
    Except String (List Statement) := do
  let segments ← segment m.upSql
  sharedStatements p segments

/-- The shared statements of all migrations, in the order they are folded. -/
def allStatements (p : Sqlparser) (migrations : List Migration) :
    Except String (List Statement) :=
  List.flatten <$> migrations.mapM (migrationStatements p)

/-- The model `generate` prints. -/
def finalModel (p : Sqlparser) (migrations : List Migration) :
    Except String Model := do
  let stmts ← allStatements p migrations
  stmts.foldlM (Model.apply p) Model.empty

theorem sharedStatements_ok {p : Sqlparser} {segs : List Segment}
    {stmts : List Statement} :
    sharedStatements p segs = .ok stmts ↔
      ∃ chunks, List.Forall₂ (fun s c => segmentStatements p s = .ok c)
        segs chunks ∧ chunks.flatten = stmts := by
  rw [sharedStatements, map_ok]
  simp only [mapM_ok]

theorem sharedStatements_cons_ok {p : Sqlparser} {seg : Segment}
    {segs : List Segment} {stmts : List Statement} :
    sharedStatements p (seg :: segs) = .ok stmts ↔
      ∃ chunk rest, segmentStatements p seg = .ok chunk ∧
        sharedStatements p segs = .ok rest ∧ stmts = chunk ++ rest :=
  flatten_mapM_cons_ok

/-- The model pass, segment by segment, is one fold over the shared
    statements. -/
theorem applySegments_ok {p : Sqlparser} {segs : List Segment}
    {m m' : Model} :
    segs.foldlM (applySegment p) m = .ok m' ↔
      ∃ stmts, sharedStatements p segs = .ok stmts ∧
        stmts.foldlM (Model.apply p) m = .ok m' := by
  induction segs generalizing m with
  | nil =>
      rw [foldlM_nil_ok]
      constructor
      · rintro rfl; exact ⟨[], rfl, rfl⟩
      · rintro ⟨stmts, hs, h⟩
        rw [← Except.ok.inj hs] at h
        exact foldlM_nil_ok.mp h
  | cons seg segs ih =>
      rw [foldlM_cons_ok]
      cases seg with
      | shared sql =>
          constructor
          · rintro ⟨m₁, h₁, hrest⟩
            obtain ⟨chunk, hc, h₁⟩ := bind_ok.mp h₁
            obtain ⟨rest, hr, hrest⟩ := ih.mp hrest
            exact ⟨chunk ++ rest,
              sharedStatements_cons_ok.mpr ⟨chunk, rest, hc, hr, rfl⟩,
              foldlM_append_ok.mpr ⟨m₁, h₁, hrest⟩⟩
          · rintro ⟨stmts, hs, h⟩
            obtain ⟨chunk, rest, hc, hr, rfl⟩ :=
              sharedStatements_cons_ok.mp hs
            obtain ⟨m₁, h₁, hrest⟩ := foldlM_append_ok.mp h
            exact ⟨m₁, bind_ok.mpr ⟨chunk, hc, h₁⟩,
              ih.mpr ⟨rest, hr, hrest⟩⟩
      | tagged b raw =>
          constructor
          · rintro ⟨m₁, h₁, hrest⟩
            -- a block changes no model and gives no statement
            rw [← Except.ok.inj h₁] at hrest
            obtain ⟨rest, hr, hrest⟩ := ih.mp hrest
            exact ⟨rest,
              sharedStatements_cons_ok.mpr ⟨[], rest, rfl, hr, rfl⟩, hrest⟩
          · rintro ⟨stmts, hs, h⟩
            obtain ⟨chunk, rest, hc, hr, rfl⟩ :=
              sharedStatements_cons_ok.mp hs
            rw [← Except.ok.inj hc] at h
            exact ⟨m, rfl, ih.mpr ⟨rest, hr, h⟩⟩

/-! ## What an accepted run consists of -/

/-- `r` is what the migration `m` renders to in `b`'s tree. -/
def Renders (p : Sqlparser) (b : Backend) (m : Migration)
    (r : RenderedMigration) : Prop :=
  ∃ segs up down, segment m.upSql = .ok segs ∧ renderUp p segs b = .ok up ∧
    migrationDown p m segs = .ok down ∧ r = ⟨m.dirName, up, down⟩

/-- A migration renders in one way only. -/
theorem renders_unique {p : Sqlparser} {b : Backend} {m : Migration}
    {r r' : RenderedMigration} (h : Renders p b m r) (h' : Renders p b m r') :
    r' = r := by
  obtain ⟨segs, up, down, hsegs, hup, hdown, rfl⟩ := h
  obtain ⟨segs', up', down', hsegs', hup', hdown', rfl⟩ := h'
  cases Except.ok.inj (hsegs.symm.trans hsegs')
  cases Except.ok.inj (hup.symm.trans hup')
  cases Except.ok.inj (hdown.symm.trans hdown')
  rfl

theorem trees_unique {p : Sqlparser} {c : Backend} {ms : List Migration}
    {rs rs' : List RenderedMigration} (h : List.Forall₂ (Renders p c) ms rs)
    (h' : List.Forall₂ (Renders p c) ms rs') : rs' = rs := by
  induction h generalizing rs' with
  | nil => cases h'; rfl
  | cons hr _ ih =>
      cases h' with
      | cons hr' hrs' => rw [renders_unique hr hr', ih hrs']

theorem generateMigration_ok {p : Sqlparser} {st st' : GenerateState}
    {m : Migration} :
    generateMigration p st m = .ok st' ↔
      ∃ stmts pg sq, migrationStatements p m = .ok stmts ∧
        stmts.foldlM (Model.apply p) st.model = .ok st'.model ∧
        Renders p .postgres m pg ∧ st'.postgres = st.postgres ++ [pg] ∧
        Renders p .sqlite m sq ∧ st'.sqlite = st.sqlite ++ [sq] := by
  rw [generateMigration, mapError_ok]
  constructor
  · intro h
    obtain ⟨segs, hsegs, h⟩ := bind_ok.mp h
    obtain ⟨model, hmodel, h⟩ := bind_ok.mp h
    obtain ⟨down, hdown, h⟩ := bind_ok.mp h
    obtain ⟨pg, hpg, h⟩ := bind_ok.mp h
    obtain ⟨sq, hsq, h⟩ := bind_ok.mp h
    rw [← pure_ok.mp h]
    obtain ⟨stmts, hstmts, hfold⟩ := applySegments_ok.mp hmodel
    exact ⟨stmts, _, _, bind_ok.mpr ⟨segs, hsegs, hstmts⟩, hfold,
      ⟨segs, pg, down, hsegs, hpg, hdown, rfl⟩, rfl,
      ⟨segs, sq, down, hsegs, hsq, hdown, rfl⟩, rfl⟩
  · rintro ⟨stmts, _, _, hstmts, hfold,
      ⟨segs, pg, down, hsegs, hpg, hdown, rfl⟩, hpgs,
      ⟨segs', sq, down', hsegs', hsq, hdown', rfl⟩, hsqs⟩
    -- one cut and one down script, whichever tree is rendered
    rw [hsegs] at hsegs'
    cases Except.ok.inj hsegs'
    rw [hdown] at hdown'
    cases Except.ok.inj hdown'
    obtain ⟨segs'', hsegs'', hstmts⟩ := bind_ok.mp hstmts
    rw [hsegs] at hsegs''
    cases Except.ok.inj hsegs''
    refine bind_ok.mpr ⟨segs, hsegs, bind_ok.mpr ⟨st'.model,
      applySegments_ok.mpr ⟨stmts, hstmts, hfold⟩, bind_ok.mpr ⟨down, hdown,
      bind_ok.mpr ⟨pg, hpg, bind_ok.mpr ⟨sq, hsq, ?_⟩⟩⟩⟩⟩
    rw [pure_ok, ← hpgs, ← hsqs]

theorem generateMigrations_ok {p : Sqlparser} {ms : List Migration}
    {st st' : GenerateState} :
    ms.foldlM (generateMigration p) st = .ok st' ↔
      ∃ chunks pgs sqs,
        List.Forall₂ (fun m c => migrationStatements p m = .ok c) ms chunks ∧
        chunks.flatten.foldlM (Model.apply p) st.model = .ok st'.model ∧
        List.Forall₂ (Renders p .postgres) ms pgs ∧
        st'.postgres = st.postgres ++ pgs ∧
        List.Forall₂ (Renders p .sqlite) ms sqs ∧
        st'.sqlite = st.sqlite ++ sqs := by
  induction ms generalizing st with
  | nil =>
      rw [foldlM_nil_ok]
      constructor
      · rintro rfl
        exact ⟨[], [], [], .nil, rfl, .nil, by simp, .nil, by simp⟩
      · rintro ⟨_, _, _, h₁, hfold, h₂, hpg, h₃, hsq⟩
        cases h₁; cases h₂; cases h₃
        rw [List.append_nil] at hpg hsq
        obtain ⟨model, postgres, sqlite⟩ := st
        obtain ⟨model', postgres', sqlite'⟩ := st'
        cases foldlM_nil_ok.mp hfold; cases hpg; cases hsq; rfl
  | cons m ms ih =>
      rw [foldlM_cons_ok]
      constructor
      · rintro ⟨st₁, h₁, hrest⟩
        obtain ⟨stmts, pg, sq, hs, hfold, hpg, epg, hsq, esq⟩ :=
          generateMigration_ok.mp h₁
        obtain ⟨chunks, pgs, sqs, hs', hfold', hpg', epg', hsq', esq'⟩ :=
          ih.mp hrest
        refine ⟨stmts :: chunks, pg :: pgs, sq :: sqs, .cons hs hs', ?_,
          .cons hpg hpg', ?_, .cons hsq hsq', ?_⟩
        · exact foldlM_append_ok.mpr ⟨_, hfold, hfold'⟩
        · rw [epg', epg, List.append_assoc]; rfl
        · rw [esq', esq, List.append_assoc]; rfl
      · rintro ⟨_, _, _, h₁, hfold, h₂, hpg, h₃, hsq⟩
        cases h₁ with
        | @cons _ stmts _ chunks hs hs' =>
          cases h₂ with
          | @cons _ pg _ pgs hr hr' =>
            cases h₃ with
            | @cons _ sq _ sqs hq hq' =>
              -- the state in between has the first tree entries
              obtain ⟨m₁, hm₁, hrest⟩ := foldlM_append_ok.mp hfold
              refine ⟨⟨m₁, st.postgres ++ [pg], st.sqlite ++ [sq]⟩,
                generateMigration_ok.mpr ⟨stmts, pg, sq, hs, hm₁, hr, rfl,
                  hq, rfl⟩, ih.mpr ⟨chunks, pgs, sqs, hs', hrest, hr', ?_,
                  hq', ?_⟩⟩
              · rw [hpg, List.append_assoc]; rfl
              · rw [hsq, List.append_assoc]; rfl

theorem allStatements_ok {p : Sqlparser} {ms : List Migration}
    {stmts : List Statement} :
    allStatements p ms = .ok stmts ↔
      ∃ chunks, List.Forall₂ (fun m c => migrationStatements p m = .ok c)
        ms chunks ∧ chunks.flatten = stmts := by
  rw [allStatements, map_ok]
  simp only [mapM_ok]

theorem allStatements_cons_ok {p : Sqlparser} {m : Migration}
    {ms : List Migration} {stmts : List Statement} :
    allStatements p (m :: ms) = .ok stmts ↔
      ∃ chunk rest, migrationStatements p m = .ok chunk ∧
        allStatements p ms = .ok rest ∧ stmts = chunk ++ rest :=
  flatten_mapM_cons_ok

theorem allStatements_append_ok {p : Sqlparser} {ms ms' : List Migration}
    {stmts : List Statement} :
    allStatements p (ms ++ ms') = .ok stmts ↔
      ∃ l r, allStatements p ms = .ok l ∧ allStatements p ms' = .ok r ∧
        stmts = l ++ r := by
  simp only [allStatements]
  simp only [map_ok, mapM_append_ok]
  constructor
  · rintro ⟨cs, ⟨l, r, hl, hr, rfl⟩, rfl⟩
    exact ⟨_, _, ⟨l, hl, rfl⟩, ⟨r, hr, rfl⟩, List.flatten_append⟩
  · rintro ⟨_, _, ⟨l, hl, rfl⟩, ⟨r, hr, rfl⟩, rfl⟩
    exact ⟨l ++ r, ⟨l, r, hl, hr, rfl⟩, List.flatten_append⟩

/-- What the parser promises of every statement holds of every shared one. -/
theorem forall_statements_parsed {p : Sqlparser} {P : Statement → Prop}
    (hp : ∀ sql stmts, p.parseSql sql = .ok stmts → ∀ s ∈ stmts, P s)
    {ms : List Migration} {stmts : List Statement}
    (h : allStatements p ms = .ok stmts) : ∀ s ∈ stmts, P s := by
  have hsegment : ∀ seg chunk, segmentStatements p seg = .ok chunk →
      ∀ s ∈ chunk, P s := by
    intro seg chunk hc
    cases seg with
    | shared sql => exact hp sql chunk (mapError_ok.mp hc)
    | tagged b raw =>
        rw [← Except.ok.inj hc]
        exact fun _ hs => absurd hs List.not_mem_nil
  induction ms generalizing stmts with
  | nil =>
      rw [← Except.ok.inj h]
      exact fun _ hs => absurd hs List.not_mem_nil
  | cons m ms ih =>
      obtain ⟨chunk, rest, hc, hrest, rfl⟩ := allStatements_cons_ok.mp h
      refine List.forall_mem_append.mpr ⟨?_, ih hrest⟩
      obtain ⟨segs, -, hshared⟩ := bind_ok.mp hc
      -- segment by segment
      clear hc h
      induction segs generalizing chunk with
      | nil =>
          rw [← Except.ok.inj hshared]
          exact fun _ hs => absurd hs List.not_mem_nil
      | cons seg segs ih' =>
          obtain ⟨c, cs, hseg, hsegs, rfl⟩ :=
            sharedStatements_cons_ok.mp hshared
          exact List.forall_mem_append.mpr
            ⟨hsegment seg c hseg, ih' cs hsegs⟩

/-- The model of a longer history extends the fold of the shorter one. -/
theorem finalModel_append_ok {p : Sqlparser} {ms ms' : List Migration}
    {m : Model} :
    finalModel p (ms ++ ms') = .ok m ↔
      ∃ m₁ stmts, finalModel p ms = .ok m₁ ∧ allStatements p ms' = .ok stmts ∧
        stmts.foldlM (Model.apply p) m₁ = .ok m := by
  simp only [finalModel]
  simp only [bind_ok, allStatements_append_ok]
  constructor
  · rintro ⟨_, ⟨l, r, hl, hr, rfl⟩, h⟩
    obtain ⟨m₁, h₁, h₂⟩ := foldlM_append_ok.mp h
    exact ⟨m₁, r, ⟨l, hl, h₁⟩, hr, h₂⟩
  · rintro ⟨m₁, r, ⟨l, hl, h₁⟩, hr, h₂⟩
    exact ⟨_, ⟨l, r, hl, hr, rfl⟩, foldlM_append_ok.mpr ⟨m₁, h₁, h₂⟩⟩

/-- The markers of a folded model come from the mapping table. -/
theorem finalModel_marked {p : Sqlparser} {ms : List Migration} {m : Model}
    (h : finalModel p ms = .ok m) : ∀ t ∈ m.tables, Marked t := by
  obtain ⟨stmts, -, hfold⟩ := bind_ok.mp h
  exact fold_marked hfold

/-- **WHAT `generate` ACCEPTS, AND WHAT IT RETURNS**: the shared statements
    fold into a model, that model is printed, and each migration renders on
    its own in both trees. -/
theorem generate_ok {p : Sqlparser} {ms : List Migration} {g : Generated} :
    generate p ms = .ok g ↔
      ∃ m, finalModel p ms = .ok m ∧ renderSchemaRs m = .ok g.schemaRs ∧
        List.Forall₂ (Renders p .postgres) ms g.postgres ∧
        List.Forall₂ (Renders p .sqlite) ms g.sqlite := by
  rw [generate, bind_ok]
  constructor
  · rintro ⟨st, hst, h⟩
    obtain ⟨schemaRs, hrs, h⟩ := bind_ok.mp h
    rw [← pure_ok.mp h]
    obtain ⟨chunks, pgs, sqs, hs, hfold, hpg, epg, hsq, esq⟩ :=
      generateMigrations_ok.mp hst
    rw [List.nil_append] at epg esq
    refine ⟨st.model, ?_, hrs, by rw [epg]; exact hpg, by rw [esq]; exact hsq⟩
    exact bind_ok.mpr ⟨_, allStatements_ok.mpr ⟨chunks, hs, rfl⟩, hfold⟩
  · rintro ⟨m, hm, hrs, hpg, hsq⟩
    obtain ⟨stmts, hstmts, hfold⟩ := bind_ok.mp hm
    obtain ⟨chunks, hs, rfl⟩ := allStatements_ok.mp hstmts
    refine ⟨⟨m, g.postgres, g.sqlite⟩, generateMigrations_ok.mpr ⟨chunks,
      g.postgres, g.sqlite, hs, hfold, hpg, rfl, hsq, rfl⟩, ?_⟩
    exact bind_ok.mpr ⟨g.schemaRs, hrs, rfl⟩

/-- The printed model is what the shared statements make of the empty one. -/
theorem generate_run {p : Sqlparser} {ms : List Migration} {g : Generated}
    {stmts : List Statement} (h : generate p ms = .ok g)
    (hstmts : allStatements p ms = .ok stmts) :
    ∃ m, finalModel p ms = .ok m ∧ renderSchemaRs m = .ok g.schemaRs ∧
      stmts.foldlM (Model.apply p) Model.empty = .ok m := by
  obtain ⟨m, hm, hschema, -, -⟩ := generate_ok.mp h
  obtain ⟨stmts', hstmts', hfold⟩ := bind_ok.mp hm
  rw [← Except.ok.inj (hstmts.symm.trans hstmts')] at hfold
  exact ⟨m, hm, hschema, hfold⟩

/-- Each tree of an accepted list is the list's rendering. -/
theorem generate_tree {p : Sqlparser} {ms : List Migration} {g : Generated}
    (h : generate p ms = .ok g) (c : Backend) :
    List.Forall₂ (Renders p c) ms (g.tree c) := by
  obtain ⟨-, -, -, hpg, hsq⟩ := generate_ok.mp h
  cases c with
  | postgres => exact hpg
  | sqlite => exact hsq

end DualdbMigration
