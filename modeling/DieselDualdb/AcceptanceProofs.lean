import DieselDualdb.RewriteProofs
import DieselDualdb.SqlText

/-!
# Acceptance is decided once

`generate` goes over a migration four times: it folds the model, derives a
`down.sql` and renders both backends, and each pass parses the segments again
and looks at types on its own.  Whatever the first pass accepts, from whichever
model, the others accept too, so that `generate` refuses where the model pass
refuses and with its message (`generate_cases`).
-/

namespace DualdbAcceptance

open DualdbAst DualdbTypeMap DualdbModel DualdbRender DualdbMigration
open DualdbRewrite FallibleRun RustStr

/-- What a migration does to the model, and nothing else. -/
def modelPass (p : Sqlparser) (model : Model) (m : Migration) :
    Except String Model :=
  Except.mapError (fun e => "migration `" ++ m.dirName ++ "`: " ++ e) do
    let segments ← segment m.upSql
    segments.foldlM (applySegment p) model

section Segments

variable {p : Sqlparser} {segs : List Segment} {m m' : Model}

/-- The segments of an accepted migration parse, to mapped statements. -/
theorem chunks_of_applied (h : segs.foldlM (applySegment p) m = .ok m') :
    ∃ chunks, Chunks p segs chunks ∧ StatementsMapped chunks.flatten := by
  obtain ⟨stmts, hstmts, hfold⟩ := applySegments_ok.mp h
  obtain ⟨chunks, hchunks, rfl⟩ := sharedStatements_ok.mp hstmts
  exact ⟨chunks, hchunks, fold_mapped hfold⟩

/-- **BOTH BACKENDS RENDER** what the model accepts. -/
theorem renderUp_total (h : segs.foldlM (applySegment p) m = .ok m')
    (b : Backend) : ∃ up, renderUp p segs b = .ok up := by
  obtain ⟨chunks, hchunks, hmapped⟩ := chunks_of_applied h
  exact ⟨_, renderUp_ok.mpr ⟨chunks, hchunks, hmapped, rfl⟩⟩

theorem deriveDown_total (h : segs.foldlM (applySegment p) m = .ok m') :
    ∃ down, deriveDown p segs = .ok down := by
  obtain ⟨chunks, hchunks, -⟩ := chunks_of_applied h
  exact ⟨_, deriveDown_ok hchunks⟩

theorem migrationDown_total (h : segs.foldlM (applySegment p) m = .ok m')
    (mig : Migration) : ∃ down, migrationDown p mig segs = .ok down := by
  rw [migrationDown]
  cases mig.downSql with
  | none => exact deriveDown_total h
  | some d => exact ⟨trimEnd d, rfl⟩

end Segments

/-! ## One migration -/

/-- The model after a migration, or the error: that of the model pass. -/
theorem generateMigration_eq (p : Sqlparser) (st : GenerateState)
    (m : Migration) :
    (generateMigration p st m).map GenerateState.model
      = modelPass p st.model m := by
  rw [generateMigration, modelPass]
  cases hsegs : segment m.upSql with
  | error e => rfl
  | ok segs =>
      cases hmodel : segs.foldlM (applySegment p) st.model with
      | error e =>
          simp only [bind, Except.bind, hmodel]
          rfl
      | ok model =>
          -- the three passes that follow
          obtain ⟨down, hdown⟩ := migrationDown_total hmodel m
          obtain ⟨pg, hpg⟩ := renderUp_total hmodel .postgres
          obtain ⟨sq, hsq⟩ := renderUp_total hmodel .sqlite
          simp only [bind, Except.bind, hmodel, hdown, hpg, hsq]
          rfl

/-! ## A whole run -/

/-- The models of a run come from the mapping table. -/
theorem generateMigrations_marked {p : Sqlparser} {ms : List Migration}
    {st : GenerateState}
    (h : ms.foldlM (generateMigration p) ⟨Model.empty, [], []⟩ = .ok st) :
    ∀ t ∈ st.model.tables, Marked t := by
  obtain ⟨chunks, _, _, hchunks, hfold, -⟩ := generateMigrations_ok.mp h
  have hall := allStatements_ok.mpr ⟨chunks, hchunks, rfl⟩
  exact finalModel_marked (bind_ok.mpr ⟨chunks.flatten, hall, hfold⟩)

/-- **`generate` REFUSES WHERE THE MODEL PASS DOES**, with its message, and
    else prints the model that this pass has folded. -/
theorem generate_cases (p : Sqlparser) (ms : List Migration) :
    (∃ e, generate p ms = .error e ∧
      ms.foldlM (modelPass p) Model.empty = .error e) ∨
    ∃ g m, generate p ms = .ok g ∧
      ms.foldlM (modelPass p) Model.empty = .ok m ∧
      renderSchemaRs m = .ok g.schemaRs := by
  have hrun := map_foldlM (generateMigration_eq p) ⟨Model.empty, [], []⟩ ms
  cases hst : ms.foldlM (generateMigration p) ⟨Model.empty, [], []⟩ with
  | error e =>
      rw [hst] at hrun
      refine Or.inl ⟨e, ?_, hrun.symm⟩
      rw [generate, hst]
      rfl
  | ok st =>
      rw [hst] at hrun
      obtain ⟨text, htext⟩ :=
        renderSchemaRs_total (generateMigrations_marked hst)
      refine Or.inr ⟨⟨st.postgres, st.sqlite, text⟩, st.model, ?_, hrun.symm,
        htext⟩
      exact bind_ok.mpr ⟨st, hst, bind_ok.mpr ⟨text, htext, rfl⟩⟩

theorem modelPass_ok {p : Sqlparser} {model model' : Model} {m : Migration} :
    modelPass p model m = .ok model' ↔
      ∃ stmts, migrationStatements p m = .ok stmts ∧
        stmts.foldlM (Model.apply p) model = .ok model' := by
  rw [modelPass, mapError_ok, bind_ok]
  constructor
  · rintro ⟨segs, hsegs, h⟩
    obtain ⟨stmts, hstmts, hfold⟩ := applySegments_ok.mp h
    exact ⟨stmts, bind_ok.mpr ⟨segs, hsegs, hstmts⟩, hfold⟩
  · rintro ⟨stmts, hstmts, hfold⟩
    obtain ⟨segs, hsegs, hstmts⟩ := bind_ok.mp hstmts
    exact ⟨segs, hsegs, applySegments_ok.mpr ⟨stmts, hstmts, hfold⟩⟩

theorem modelPasses_ok {p : Sqlparser} {ms : List Migration}
    {model model' : Model} :
    ms.foldlM (modelPass p) model = .ok model' ↔
      ∃ stmts, allStatements p ms = .ok stmts ∧
        stmts.foldlM (Model.apply p) model = .ok model' := by
  induction ms generalizing model with
  | nil =>
      rw [foldlM_nil_ok]
      constructor
      · rintro rfl
        exact ⟨[], rfl, rfl⟩
      · rintro ⟨stmts, hstmts, h⟩
        rw [← Except.ok.inj hstmts] at h
        exact foldlM_nil_ok.mp h
  | cons m ms ih =>
      rw [foldlM_cons_ok]
      constructor
      · rintro ⟨m₁, hm₁, hrest⟩
        obtain ⟨chunk, hchunk, hfold⟩ := modelPass_ok.mp hm₁
        obtain ⟨rest, hstmts, hfolds⟩ := ih.mp hrest
        exact ⟨chunk ++ rest,
          allStatements_cons_ok.mpr ⟨chunk, rest, hchunk, hstmts, rfl⟩,
          foldlM_append_ok.mpr ⟨m₁, hfold, hfolds⟩⟩
      · rintro ⟨stmts, hstmts, h⟩
        obtain ⟨chunk, rest, hchunk, hrest, rfl⟩ :=
          allStatements_cons_ok.mp hstmts
        obtain ⟨m₁, hfold, hfolds⟩ := foldlM_append_ok.mp h
        exact ⟨m₁, modelPass_ok.mpr ⟨chunk, hchunk, hfold⟩,
          ih.mpr ⟨rest, hrest, hfolds⟩⟩

/-- A history is accepted when its shared statements fold into a model. -/
theorem accepted_iff {p : Sqlparser} {ms : List Migration} :
    (∃ g, generate p ms = .ok g) ↔ ∃ m, finalModel p ms = .ok m := by
  constructor
  · rintro ⟨g, hg⟩
    obtain ⟨m, hm, -⟩ := generate_ok.mp hg
    exact ⟨m, hm⟩
  · rintro ⟨m, hm⟩
    rcases generate_cases p ms with ⟨e, -, hfold⟩ | ⟨g, -, hg, -⟩
    · have hrun := modelPasses_ok.mpr (bind_ok.mp hm)
      exact absurd (hfold.symm.trans hrun) error_ne_ok
    · exact ⟨g, hg⟩

/-- **ACCEPTANCE IS DECIDED ONCE**: what the model pass accepts, from any model,
    renders for both backends and has a `down.sql`; so a run is refused by the
    model pass of a migration or not at all. -/
theorem acceptance_decided_once (p : Sqlparser) :
    (∀ segs m m', segs.foldlM (applySegment p) m = .ok m' →
      (∀ b, ∃ up, renderUp p segs b = .ok up) ∧
        ∃ down, deriveDown p segs = .ok down) ∧
    ∀ ms e, generate p ms = .error e ↔
      ms.foldlM (modelPass p) Model.empty = .error e := by
  refine ⟨fun segs m m' h => ⟨renderUp_total h, deriveDown_total h⟩,
    fun ms e => ?_⟩
  rcases generate_cases p ms with ⟨e', hg, hfold⟩ | ⟨g, m, hg, hfold, -⟩
  · rw [hg, hfold]
    constructor
    · intro h
      exact congrArg Except.error (Except.error.inj h)
    · intro h
      exact congrArg Except.error (Except.error.inj h)
  · rw [hg, hfold]
    exact iff_of_false (fun h => error_ne_ok h.symm) fun h => error_ne_ok h.symm

/-! ## One table, both backends -/

section Runs

open DualdbSqlText

def acceptedParser : Sqlparser := parserOf
  [("CREATE TABLE users (id UUID)",
      [createTable (bare "users") [col "id" .uuid []] []]),
    ("ALTER TABLE posts ADD COLUMN a INT\n",
      [alterTable (bare "posts") [addColumn (col "a" (.int none) [])]])]

/-- The table is accepted; adding a column to a table that is not there is refused
    with the message of the model pass. -/
theorem acceptance_decided_once_of_users :
    (∀ b, ∃ up, renderUp acceptedParser
      [.shared "CREATE TABLE users (id UUID)"] b = .ok up) ∧
    (∃ down, deriveDown acceptedParser
      [.shared "CREATE TABLE users (id UUID)"] = .ok down) ∧
    generate acceptedParser [⟨"1", "ALTER TABLE posts ADD COLUMN a INT", none⟩]
      = .error "migration `1`: ALTER on unknown table `posts`" := by
  obtain ⟨m, hm⟩ := exists_ok_of_isOk (x :=
    [Segment.shared "CREATE TABLE users (id UUID)"].foldlM
      (applySegment acceptedParser) Model.empty) (by decide +kernel)
  obtain ⟨hrendered, hrefused⟩ := acceptance_decided_once acceptedParser
  obtain ⟨hup, hdown⟩ := hrendered _ _ m hm
  exact ⟨hup, hdown, (hrefused _ _).mpr (by decide +kernel)⟩

end Runs

end DualdbAcceptance
