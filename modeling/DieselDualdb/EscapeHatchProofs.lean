import DieselDualdb.RewriteProofs
import DieselDualdb.SqlText
import DieselDualdb.Lib.Pointwise

/-!
# The escape hatch is isolated

Two migration lists that differ only in the raw lines of `b`'s tagged blocks
(`MigrationEdit`) are accepted or refused together, and when they are accepted
everything but `b`'s `up.sql`s is the same.  The argument follows the data
through `generate`:

* the segmenter's cut points and its shared buffer do not depend on block
  contents, so the two runs stay in step line by line (`segmentLines_edit`);
* related segments have the same shared statements, hence the same model, the
  same derived down script and the same pieces for the other backend;
* for `b` the pieces correspond one by one, and only raw blocks differ.
-/

namespace DualdbEscapeHatch

open DualdbAst DualdbTypeMap DualdbModel DualdbRender DualdbMigration
open DualdbRewrite FallibleRun Pointwise RustStr

/-! ## Lists of lines that differ inside `b`'s blocks -/

/-- The block that is open after a directive line with this keyword. -/
def openAfter (opened : Option Backend) (keyword : String) : Option Backend :=
  if keyword = "postgres" then some .postgres
  else if keyword = "sqlite" then some .sqlite
  else if keyword = "end" then none
  else opened

/-- Two scripts, line by line, with the block that is open at that point: they
    have the same directive lines and the same lines outside `b`'s blocks,
    and any non-directive lines inside them. -/
inductive LinesEdit (b : Backend) :
    Option Backend → List String → List String → Prop where
  | nil (o : Option Backend) : LinesEdit b o [] []
  | directive {o : Option Backend} {line keyword : String}
      {ls ls' : List String} (hline : directive line = some keyword)
      (hrest : LinesEdit b (openAfter o keyword) ls ls') :
      LinesEdit b o (line :: ls) (line :: ls')
  | same {o : Option Backend} {line : String} {ls ls' : List String}
      (hline : directive line = none) (hrest : LinesEdit b o ls ls') :
      LinesEdit b o (line :: ls) (line :: ls')
  | left {line : String} {ls ls' : List String}
      (hline : directive line = none) (hrest : LinesEdit b (some b) ls ls') :
      LinesEdit b (some b) (line :: ls) ls'
  | right {line : String} {ls ls' : List String}
      (hline : directive line = none) (hrest : LinesEdit b (some b) ls ls') :
      LinesEdit b (some b) ls (line :: ls')

/-- The two migrations differ only between `-- dualdb:b` and `-- dualdb:end`
    lines of their `up_sql`. -/
structure MigrationEdit (b : Backend) (m m' : Migration) : Prop where
  dirName : m'.dirName = m.dirName
  downSql : m'.downSql = m.downSql
  upSql : LinesEdit b none (lines m.upSql) (lines m'.upSql)

theorem LinesEdit.symm {b : Backend} {o : Option Backend}
    {ls ls' : List String} (h : LinesEdit b o ls ls') :
    LinesEdit b o ls' ls := by
  induction h with
  | nil o => exact .nil o
  | directive hline _ ih => exact .directive hline ih
  | same hline _ ih => exact .same hline ih
  | left hline _ ih => exact .right hline ih
  | right hline _ ih => exact .left hline ih

theorem MigrationEdit.symm {b : Backend} {m m' : Migration}
    (h : MigrationEdit b m m') : MigrationEdit b m' m :=
  ⟨h.dirName.symm, h.downSql.symm, h.upSql.symm⟩

/-! ## The segmenter stays in step -/

/-- The same segment, or two blocks of `b`. -/
inductive SegmentEdit (b : Backend) : Segment → Segment → Prop where
  | same (s : Segment) : SegmentEdit b s s
  | block (raw raw' : String) :
      SegmentEdit b (.tagged b raw) (.tagged b raw')

/-- The open blocks agree, up to the contents of a block of `b`. -/
inductive OpenEdit (b : Backend) :
    Option (Backend × String) → Option (Backend × String) → Prop where
  | same (o : Option (Backend × String)) : OpenEdit b o o
  | block (raw raw' : String) : OpenEdit b (some (b, raw)) (some (b, raw'))

/-- The backend of the open block. -/
def openOf (st : SegmentState) : Option Backend := st.tagged.map Prod.fst

/-- The states of the two runs while `o` is the open block. -/
structure StateEdit (b : Backend) (o : Option Backend)
    (st st' : SegmentState) : Prop where
  segments : List.Forall₂ (SegmentEdit b) st.segments st'.segments
  shared : st'.shared = st.shared
  tagged : OpenEdit b st.tagged st'.tagged
  opened : openOf st = o

theorem OpenEdit.isSome {b : Backend} {o o' : Option (Backend × String)}
    (h : OpenEdit b o o') : o'.isSome = o.isSome := by
  cases h <;> rfl

theorem StateEdit.flushed {b : Backend} {o : Option Backend}
    {st st' : SegmentState} (h : StateEdit b o st st') :
    List.Forall₂ (SegmentEdit b) st.flushed st'.flushed := by
  simp only [SegmentState.flushed]
  rw [h.shared]
  split
  · exact h.segments
  · exact forall₂_snoc h.segments (.same _)

theorem openBlock_edit {b b' : Backend} {o : Option Backend}
    {st st' : SegmentState} (h : StateEdit b o st st') :
    RelOk (StateEdit b (some b')) (st.openBlock b') (st'.openBlock b') := by
  have hflushed := h.flushed
  simp only [SegmentState.openBlock]
  generalize st.flushed = segs at hflushed ⊢
  generalize st'.flushed = segs' at hflushed ⊢
  rw [h.tagged.isSome]
  by_cases hsome : st.tagged.isSome = true
  · rw [if_pos hsome, if_pos hsome]
    exact RelOk.error
  · rw [if_neg hsome, if_neg hsome]
    exact RelOk.ok
      { segments := hflushed, shared := rfl, tagged := OpenEdit.same _
        opened := rfl }

/-- An `end` line closes the open block in both runs. -/
theorem closeBlock_edit {b : Backend} {o : Option Backend}
    {st st' : SegmentState} {line : String}
    (hline : directive line = some "end") (h : StateEdit b o st st') :
    RelOk (StateEdit b none) (segmentLine st line) (segmentLine st' line) := by
  have hne : ("end" = "postgres") = False ∧ ("end" = "sqlite") = False := by
    simp
  simp only [segmentLine, hline, hne, if_false, if_true]
  obtain ⟨segments, shared, tagged⟩ := st
  obtain ⟨segments', shared', tagged'⟩ := st'
  obtain ⟨hsegs, hshared, htagged, -⟩ := h
  cases htagged with
  | same =>
      cases tagged with
      | none => exact RelOk.error
      | some o =>
          refine RelOk.ok ⟨forall₂_snoc hsegs (.same _), hshared, ?_, rfl⟩
          exact OpenEdit.same none
  | block raw raw' =>
      refine RelOk.ok ⟨forall₂_snoc hsegs (.block raw raw'), hshared, ?_, rfl⟩
      exact OpenEdit.same none

/-- A directive line moves both runs alike. -/
theorem segmentLine_directive {b : Backend} {o : Option Backend}
    {st st' : SegmentState} {line keyword : String}
    (hline : directive line = some keyword) (h : StateEdit b o st st') :
    RelOk (StateEdit b (openAfter o keyword)) (segmentLine st line)
      (segmentLine st' line) := by
  by_cases hpg : keyword = "postgres"
  · simp only [segmentLine, hline, openAfter, if_pos hpg]
    exact openBlock_edit h
  by_cases hsq : keyword = "sqlite"
  · simp only [segmentLine, hline, openAfter, if_neg hpg, if_pos hsq]
    exact openBlock_edit h
  by_cases hend : keyword = "end"
  · rw [openAfter, if_neg hpg, if_neg hsq, if_pos hend]
    exact closeBlock_edit (hend ▸ hline) h
  · simp only [segmentLine, hline, if_neg hpg, if_neg hsq, if_neg hend]
    exact RelOk.error

/-- A line of text, read by both runs. -/
theorem segmentLine_same {b : Backend} {o : Option Backend}
    {st st' : SegmentState} {line : String}
    (hline : directive line = none) (h : StateEdit b o st st') :
    RelOk (StateEdit b o) (segmentLine st line) (segmentLine st' line) := by
  simp only [segmentLine, hline]
  obtain ⟨segments, shared, tagged⟩ := st
  obtain ⟨segments', shared', tagged'⟩ := st'
  obtain ⟨hsegs, hshared, htagged, hopen⟩ := h
  cases htagged with
  | same =>
      cases tagged with
      | none =>
          refine RelOk.ok ⟨hsegs, ?_, OpenEdit.same none, hopen⟩
          exact congrArg (· ++ line ++ "\n") hshared
      | some o => exact RelOk.ok ⟨hsegs, hshared, OpenEdit.same _, hopen⟩
  | block raw raw' =>
      exact RelOk.ok ⟨hsegs, hshared, OpenEdit.block _ _, hopen⟩

/-- A line of text that only the first run reads, inside a block of `b`. -/
theorem segmentLine_left {b : Backend} {st st' : SegmentState} {line : String}
    (hline : directive line = none) (h : StateEdit b (some b) st st') :
    ∃ s, segmentLine st line = .ok s ∧ StateEdit b (some b) s st' := by
  obtain ⟨segments, shared, tagged⟩ := st
  obtain ⟨segments', shared', tagged'⟩ := st'
  obtain ⟨hsegs, hshared, htagged, hopen⟩ := h
  cases tagged with
  | none => cases hopen
  | some o =>
      obtain ⟨b', raw⟩ := o
      have hb : b' = b := Option.some.inj hopen
      subst hb
      have htagged' : OpenEdit b' (some (b', raw ++ line ++ "\n")) tagged' := by
        cases htagged with
        | same => exact OpenEdit.block _ _
        | block raw raw' => exact OpenEdit.block _ _
      refine ⟨⟨segments, shared, some (b', raw ++ line ++ "\n")⟩, ?_,
        { segments := hsegs, shared := hshared, tagged := htagged'
          opened := rfl }⟩
      simp only [segmentLine, hline]

theorem OpenEdit.symm {b : Backend} {o o' : Option (Backend × String)}
    (h : OpenEdit b o o') : OpenEdit b o' o := by
  cases h with
  | same => exact .same _
  | block raw raw' => exact .block raw' raw

theorem SegmentEdit.symm {b : Backend} {s s' : Segment}
    (h : SegmentEdit b s s') : SegmentEdit b s' s := by
  cases h with
  | same => exact .same _
  | block raw raw' => exact .block raw' raw

theorem OpenEdit.openOf_eq {b : Backend} {o o' : Option (Backend × String)}
    (h : OpenEdit b o o') : o'.map Prod.fst = o.map Prod.fst := by
  cases h <;> rfl

theorem StateEdit.symm {b : Backend} {o : Option Backend}
    {st st' : SegmentState} (h : StateEdit b o st st') :
    StateEdit b o st' st where
  segments := (List.Forall₂.flip h.segments).imp fun _ _ => SegmentEdit.symm
  shared := h.shared.symm
  tagged := h.tagged.symm
  opened := h.tagged.openOf_eq.trans h.opened

/-- **THE CUT POINTS DO NOT DEPEND ON BLOCK CONTENTS**: over scripts that
    differ inside `b`'s blocks, the two runs of the segmenter stay related. -/
theorem segmentLines_edit {b : Backend} {o : Option Backend}
    {ls ls' : List String} (h : LinesEdit b o ls ls') :
    ∀ (st st' : SegmentState), StateEdit b o st st' →
      RelOk (fun s s' => ∃ o', StateEdit b o' s s')
        (ls.foldlM segmentLine st) (ls'.foldlM segmentLine st') := by
  induction h with
  | nil o => intro st st' hst; exact RelOk.ok ⟨o, hst⟩
  | directive hline _ ih =>
      intro st st' hst
      rw [List.foldlM_cons, List.foldlM_cons]
      exact (segmentLine_directive hline hst).bind ih
  | same hline _ ih =>
      intro st st' hst
      rw [List.foldlM_cons, List.foldlM_cons]
      exact (segmentLine_same hline hst).bind ih
  | left hline _ ih =>
      intro st st' hst
      obtain ⟨s, hs, hs'⟩ := segmentLine_left hline hst
      rw [List.foldlM_cons, hs]
      exact ih s st' hs'
  | right hline _ ih =>
      intro st st' hst
      obtain ⟨s, hs, hs'⟩ := segmentLine_left hline hst.symm
      rw [List.foldlM_cons, hs]
      exact ih st s hs'.symm

/-- Scripts that differ inside `b`'s blocks have the same segments, up to the
    contents of those blocks, or are both refused. -/
theorem segment_edit {b : Backend} {sql sql' : String}
    (h : LinesEdit b none (lines sql) (lines sql')) :
    RelOk (List.Forall₂ (SegmentEdit b)) (segment sql) (segment sql') := by
  have hstart : StateEdit b none ⟨[], "", none⟩ ⟨[], "", none⟩ :=
    ⟨.nil, rfl, .same none, rfl⟩
  refine (segmentLines_edit h _ _ hstart).bind ?_
  rintro s s' ⟨o, hs⟩
  rw [hs.tagged.isSome]
  split
  · exact RelOk.error
  · exact RelOk.ok hs.flushed

/-! ## Everything downstream of the segments -/

theorem segmentStatements_edit {p : Sqlparser} {b : Backend}
    {s s' : Segment} (h : SegmentEdit b s s') :
    segmentStatements p s' = segmentStatements p s := by
  cases h <;> rfl

theorem chunks_edit {p : Sqlparser} {b : Backend} {segs segs' : List Segment}
    (h : List.Forall₂ (SegmentEdit b) segs segs')
    {chunks : List (List Statement)} (hc : Chunks p segs chunks) :
    Chunks p segs' chunks := by
  refine forall₂_of_common h hc fun seg seg' c hs hc => ?_
  exact (segmentStatements_edit hs).trans hc

theorem deriveDown_edit {p : Sqlparser} {b : Backend}
    {segs segs' : List Segment} (h : List.Forall₂ (SegmentEdit b) segs segs') :
    deriveDown p segs' = deriveDown p segs := by
  have hcreated : segs.mapM (createdIn p) = segs'.mapM (createdIn p) := by
    refine mapM_eq_of_forall₂ h fun seg seg' hs => ?_
    cases hs <;> rfl
  simp only [deriveDown]
  rw [hcreated]

/-- The other backend gets the same pieces. -/
theorem pieces_other {b c : Backend} (hbc : c ≠ b) {segs segs' : List Segment}
    (h : List.Forall₂ (SegmentEdit b) segs segs')
    (chunks : List (List Statement)) :
    pieces c segs' chunks = pieces c segs chunks := by
  have hzip : List.zipWith (segmentPieces c) segs chunks
      = List.zipWith (segmentPieces c) segs' chunks := by
    refine zipWith_eq_of_forall₂ h (fun seg seg' chunk hs => ?_) chunks
    cases hs with
    | same => rfl
    | block raw raw' => simp only [segmentPieces, if_neg (Ne.symm hbc)]
  rw [pieces, pieces, hzip]

/-- The same statement, or two blocks. -/
inductive PieceEdit : Piece → Piece → Prop where
  | same (q : Piece) : PieceEdit q q
  | block (raw raw' : String) : PieceEdit (.block raw) (.block raw')

/-- `b` itself gets corresponding pieces. -/
theorem pieces_own {b : Backend} {segs segs' : List Segment}
    (h : List.Forall₂ (SegmentEdit b) segs segs')
    (chunks : List (List Statement)) :
    List.Forall₂ PieceEdit (pieces b segs chunks) (pieces b segs' chunks) := by
  simp only [pieces]
  induction h generalizing chunks with
  | nil => exact .nil
  | cons hs _ ih =>
      cases chunks with
      | nil => exact .nil
      | cons chunk chunks =>
          rw [List.zipWith_cons_cons, List.zipWith_cons_cons,
            List.flatten_cons, List.flatten_cons]
          refine List.rel_append ?_ (ih chunks)
          cases hs with
          | same => exact List.forall₂_same.mpr fun q _ => .same q
          | block raw raw' =>
              simp only [segmentPieces, if_true]
              exact .cons (.block raw raw') .nil

/-- What two rendered migrations of `b`'s tree have in common: everything but
    the trimmed text of the blocks that differ. -/
def UpEdit (p : Sqlparser) (b : Backend) (m m' : Migration)
    (r r' : RenderedMigration) : Prop :=
  r'.dirName = r.dirName ∧ r'.downSql = r.downSql ∧
    ∃ segs segs' chunks, segment m.upSql = .ok segs ∧
      segment m'.upSql = .ok segs' ∧
      List.Forall₂ (SegmentEdit b) segs segs' ∧
      Chunks p segs chunks ∧ Chunks p segs' chunks ∧
      List.Forall₂ PieceEdit (pieces b segs chunks) (pieces b segs' chunks) ∧
      r.upSql = join "\n\n" ((pieces b segs chunks).map (Piece.text p)) ∧
      r'.upSql = join "\n\n" ((pieces b segs' chunks).map (Piece.text p))

theorem migrationStatements_edit {p : Sqlparser} {b : Backend}
    {m m' : Migration} (h : MigrationEdit b m m') {stmts : List Statement}
    (hs : migrationStatements p m = .ok stmts) :
    migrationStatements p m' = .ok stmts := by
  obtain ⟨segs, hsegs, hs⟩ := bind_ok.mp hs
  obtain ⟨chunks, hchunks, rfl⟩ := sharedStatements_ok.mp hs
  have hrel := segment_edit h.upSql
  obtain ⟨segs', hsegs'⟩ := hrel.accepts_iff.mp ⟨segs, hsegs⟩
  refine bind_ok.mpr ⟨segs', hsegs', sharedStatements_ok.mpr
    ⟨chunks, chunks_edit (hrel.results hsegs hsegs') hchunks, rfl⟩⟩

theorem renders_edit {p : Sqlparser} {b : Backend} {m m' : Migration}
    (h : MigrationEdit b m m') {c : Backend} {r : RenderedMigration}
    (hr : Renders p c m r) :
    ∃ r', Renders p c m' r' ∧ (c ≠ b → r' = r) ∧
      (c = b → UpEdit p b m m' r r') := by
  obtain ⟨segs, chunks, down, hsegs, hchunks, -, hmapped, hdown, rfl⟩ :=
    renders_chunks hr
  have hrel := segment_edit h.upSql
  obtain ⟨segs', hsegs'⟩ := hrel.accepts_iff.mp ⟨segs, hsegs⟩
  have hedit := hrel.results hsegs hsegs'
  have hchunks' := chunks_edit hedit hchunks
  have hdown' : migrationDown p m' segs' = .ok down := by
    rw [← hdown]
    simp only [migrationDown]
    rw [h.downSql]
    cases m.downSql with
    | some d => rfl
    | none => exact deriveDown_edit hedit
  refine ⟨⟨m'.dirName, _, down⟩, ⟨segs', _, down, hsegs',
    renderUp_ok.mpr ⟨chunks, hchunks', hmapped, rfl⟩, hdown', rfl⟩, ?_, ?_⟩
  · intro hcb
    rw [pieces_other hcb hedit, h.dirName]
  · rintro rfl
    exact ⟨h.dirName, rfl, segs, segs', chunks, hsegs, hsegs', hedit, hchunks,
      hchunks', pieces_own hedit chunks, rfl, rfl⟩

/-! ## The two runs of `generate` -/

/-- The trees of `b`, migration by migration. -/
inductive TreesEdit (p : Sqlparser) (b : Backend) :
    List Migration → List Migration → List RenderedMigration →
      List RenderedMigration → Prop where
  | nil : TreesEdit p b [] [] [] []
  | cons {m m' : Migration} {ms ms' : List Migration}
      {r r' : RenderedMigration} {rs rs' : List RenderedMigration}
      (hr : UpEdit p b m m' r r') (hrs : TreesEdit p b ms ms' rs rs') :
      TreesEdit p b (m :: ms) (m' :: ms') (r :: rs) (r' :: rs')

theorem allStatements_edit {p : Sqlparser} {b : Backend}
    {ms ms' : List Migration} (h : List.Forall₂ (MigrationEdit b) ms ms')
    {stmts : List Statement} (hs : allStatements p ms = .ok stmts) :
    allStatements p ms' = .ok stmts := by
  induction h generalizing stmts with
  | nil => exact hs
  | cons hm _ ih =>
      obtain ⟨chunk, rest, hc, hrest, rfl⟩ := allStatements_cons_ok.mp hs
      exact allStatements_cons_ok.mpr
        ⟨chunk, rest, migrationStatements_edit hm hc, ih hrest, rfl⟩

theorem finalModel_edit {p : Sqlparser} {b : Backend}
    {ms ms' : List Migration} (h : List.Forall₂ (MigrationEdit b) ms ms')
    {m : Model} (hm : finalModel p ms = .ok m) :
    finalModel p ms' = .ok m := by
  obtain ⟨stmts, hstmts, hfold⟩ := bind_ok.mp hm
  exact bind_ok.mpr ⟨stmts, allStatements_edit h hstmts, hfold⟩

/-- The tree of either backend carries over. -/
theorem tree_edit {p : Sqlparser} {b : Backend} {ms ms' : List Migration}
    (h : List.Forall₂ (MigrationEdit b) ms ms') {c : Backend}
    {rs : List RenderedMigration} (hrs : List.Forall₂ (Renders p c) ms rs) :
    ∃ rs', List.Forall₂ (Renders p c) ms' rs' ∧ (c ≠ b → rs' = rs) ∧
      (c = b → TreesEdit p b ms ms' rs rs') := by
  induction h generalizing rs with
  | nil =>
      cases hrs
      exact ⟨[], .nil, fun _ => rfl, fun _ => .nil⟩
  | cons hm _ ih =>
      cases hrs with
      | cons hr hrs =>
          obtain ⟨r', hr', hother, hown⟩ := renders_edit hm hr
          obtain ⟨rs', hrs', hothers, howns⟩ := ih hrs
          refine ⟨r' :: rs', .cons hr' hrs', ?_, ?_⟩
          · intro hcb
            rw [hother hcb, hothers hcb]
          · intro hcb
            exact .cons (hown hcb) (howns hcb)

theorem accepts_of_edit {p : Sqlparser} {b : Backend} {ms ms' : List Migration}
    (h : List.Forall₂ (MigrationEdit b) ms ms') {g : Generated}
    (hg : generate p ms = .ok g) : ∃ g', generate p ms' = .ok g' := by
  obtain ⟨m, hm, hrs, hpg, hsq⟩ := generate_ok.mp hg
  obtain ⟨pgs, hpgs, -, -⟩ := tree_edit h hpg
  obtain ⟨sqs, hsqs, -, -⟩ := tree_edit h hsq
  exact ⟨⟨pgs, sqs, g.schemaRs⟩,
    generate_ok.mpr ⟨m, finalModel_edit h hm, hrs, hpgs, hsqs⟩⟩

/-- The `down.sql`s do not depend on block contents. -/
theorem downs_edit {p : Sqlparser} {b : Backend} {ms ms' : List Migration}
    {rs rs' : List RenderedMigration} (h : TreesEdit p b ms ms' rs rs') :
    rs'.map RenderedMigration.downSql = rs.map RenderedMigration.downSql := by
  induction h with
  | nil => rfl
  | cons hr _ ih => rw [List.map_cons, List.map_cons, hr.2.1, ih]

theorem Backend.ne_of_other {b c : Backend} (h : c ≠ b) : c = b.other := by
  cases b <;> cases c
  · exact absurd rfl h
  · rfl
  · rfl
  · exact absurd rfl h

/-- **THE ESCAPE HATCH IS ISOLATED**: editing `b`'s block lines changes
    neither acceptance nor any output but the blocks' own text in `b`'s
    `up.sql`s. -/
theorem escape_hatch_isolation (p : Sqlparser) (b : Backend)
    {ms ms' : List Migration} (h : List.Forall₂ (MigrationEdit b) ms ms') :
    ((∃ g, generate p ms = .ok g) ↔ ∃ g', generate p ms' = .ok g') ∧
      ∀ g g', generate p ms = .ok g → generate p ms' = .ok g' →
        g'.tree b.other = g.tree b.other ∧
        (∀ c, (g'.tree c).map RenderedMigration.downSql
          = (g.tree c).map RenderedMigration.downSql) ∧
        g'.schemaRs = g.schemaRs ∧
        TreesEdit p b ms ms' (g.tree b) (g'.tree b) := by
  -- an edit can be undone, so one direction is enough
  have hsymm : List.Forall₂ (MigrationEdit b) ms' ms :=
    (List.Forall₂.flip h).imp fun _ _ => MigrationEdit.symm
  refine ⟨⟨fun ⟨_, hg⟩ => accepts_of_edit h hg,
    fun ⟨_, hg'⟩ => accepts_of_edit hsymm hg'⟩, ?_⟩
  intro g g' hg hg'
  have hother : g'.tree b.other = g.tree b.other := by
    obtain ⟨rs', hrs', hsame, -⟩ := tree_edit h (generate_tree hg b.other)
    have hne : b.other ≠ b := by cases b <;> decide
    rw [trees_unique hrs' (generate_tree hg' b.other), hsame hne]
  have hown : TreesEdit p b ms ms' (g.tree b) (g'.tree b) := by
    obtain ⟨rs', hrs', -, hedit⟩ := tree_edit h (generate_tree hg b)
    rw [trees_unique hrs' (generate_tree hg' b)]
    exact hedit rfl
  have hschema : g'.schemaRs = g.schemaRs := by
    obtain ⟨m, hm, hrs, -, -⟩ := generate_ok.mp hg
    obtain ⟨m', hm', hrs', -, -⟩ := generate_ok.mp hg'
    cases Except.ok.inj ((finalModel_edit h hm).symm.trans hm')
    exact Except.ok.inj (hrs'.symm.trans hrs)
  refine ⟨hother, ?_, hschema, hown⟩
  intro c
  -- the down scripts do not come from the blocks
  by_cases hc : c = b
  · rw [hc]
    exact downs_edit hown
  · rw [Backend.ne_of_other hc, hother]

open DualdbSqlText in
def hatchParser : Sqlparser := parserOf
  [("CREATE TABLE t (a UUID)\n",
    [createTable (bare "t") [col "a" .uuid []] []])]

def hatchMigration (block : String) : Migration :=
  ⟨"1", "CREATE TABLE t (a UUID)\n-- dualdb:postgres\n" ++ block
    ++ "-- dualdb:end", none⟩

theorem escape_hatch_isolation_of_two_blocks :
    ∃ g g', generate hatchParser [hatchMigration "X\n"] = .ok g ∧
      generate hatchParser [hatchMigration "Y\nZ\n"] = .ok g' ∧
      g'.sqlite = g.sqlite ∧ g'.schemaRs = g.schemaRs ∧
      TreesEdit hatchParser .postgres [hatchMigration "X\n"]
        [hatchMigration "Y\nZ\n"] g.postgres g'.postgres := by
  have hup : lines (hatchMigration "X\n").upSql
      = ["CREATE TABLE t (a UUID)", "-- dualdb:postgres", "X",
          "-- dualdb:end"] := by decide +kernel
  have hup' : lines (hatchMigration "Y\nZ\n").upSql
      = ["CREATE TABLE t (a UUID)", "-- dualdb:postgres", "Y", "Z",
          "-- dualdb:end"] := by decide +kernel
  have hpostgres : directive "-- dualdb:postgres" = some "postgres" := by
    decide +kernel
  have hend : directive "-- dualdb:end" = some "end" := by decide +kernel
  have hlines : LinesEdit .postgres none (lines (hatchMigration "X\n").upSql)
      (lines (hatchMigration "Y\nZ\n").upSql) := by
    rw [hup, hup']
    refine .same (by decide +kernel) (.directive hpostgres ?_)
    rw [show openAfter none "postgres" = some .postgres by decide]
    -- only the lines inside the block differ
    refine .left (by decide +kernel) (.right (by decide +kernel)
      (.right (by decide +kernel) ?_))
    exact .directive hend (.nil _)
  have hedit : MigrationEdit .postgres (hatchMigration "X\n")
      (hatchMigration "Y\nZ\n") :=
    { dirName := rfl, downSql := rfl, upSql := hlines }
  have h := escape_hatch_isolation hatchParser .postgres
    (List.Forall₂.cons hedit .nil)
  obtain ⟨g, hg⟩ := exists_ok_of_isOk
    (x := generate hatchParser [hatchMigration "X\n"]) (by decide +kernel)
  obtain ⟨g', hg'⟩ := h.1.mp ⟨g, hg⟩
  obtain ⟨hother, -, hschema, hown⟩ := h.2 g g' hg hg'
  exact ⟨g, g', hg, hg', hother, hschema, hown⟩

end DualdbEscapeHatch
