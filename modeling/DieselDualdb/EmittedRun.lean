import DieselDualdb.Catalog
import DieselDualdb.RewriteProofs

/-!
# Executing an emitted tree

A backend's tree is executed piece by piece, one `up.sql` after the other.  The
pieces are the rewritten shared statements and the tagged blocks, which nobody
parses; what executing a block does is a parameter.  Where the blocks leave the
tables alone, the tree does to the tables what the rewritten shared statements
do to them (`leaves_statements`).
-/

namespace DualdbEmitted

open DualdbAst DualdbTypeMap DualdbMigration DualdbRewrite DualdbCatalog
open FallibleRun RustStr

/-- The pieces of `b`'s `up.sql` for one migration. -/
def migrationPieces (p : Sqlparser) (b : Backend) (m : Migration) :
    Except String (List Piece) := do
  let segments ← segment m.upSql
  let chunks ← segments.mapM (segmentStatements p)
  pure (pieces b segments chunks)

/-- The pieces of `b`'s tree, in the order they are executed. -/
def treePieces (p : Sqlparser) (b : Backend) (migrations : List Migration) :
    Except String (List Piece) :=
  List.flatten <$> migrations.mapM (migrationPieces p b)

theorem migrationPieces_ok {p : Sqlparser} {b : Backend} {m : Migration}
    {ps : List Piece} :
    migrationPieces p b m = .ok ps ↔
      ∃ segs chunks, segment m.upSql = .ok segs ∧ Chunks p segs chunks ∧
        ps = pieces b segs chunks := by
  rw [migrationPieces]
  simp only [bind_ok, mapM_ok, pure_ok]
  constructor
  · rintro ⟨segs, hsegs, chunks, hchunks, rfl⟩
    exact ⟨segs, chunks, hsegs, hchunks, rfl⟩
  · rintro ⟨segs, chunks, hsegs, hchunks, rfl⟩
    exact ⟨segs, hsegs, chunks, hchunks, rfl⟩

/-- The pieces are what the emitted file holds. -/
theorem renders_pieces {p : Sqlparser} {b : Backend} {m : Migration}
    {r : RenderedMigration} (h : Renders p b m r) :
    ∃ ps, migrationPieces p b m = .ok ps ∧
      r.upSql = join "\n\n" (ps.map (Piece.text p)) := by
  obtain ⟨segs, chunks, down, hsegs, hchunks, -, -, -, rfl⟩ :=
    renders_chunks h
  exact ⟨_, migrationPieces_ok.mpr ⟨segs, chunks, hsegs, hchunks, rfl⟩, rfl⟩

/-- The statements among the pieces are the rewritten shared ones. -/
theorem migrationPieces_statements {p : Sqlparser} {b : Backend}
    {m : Migration} {ps : List Piece} (h : migrationPieces p b m = .ok ps) :
    ∃ stmts, migrationStatements p m = .ok stmts ∧
      ps.filterMap Piece.statement? = stmts.map (withNative b) := by
  obtain ⟨segs, chunks, hsegs, hchunks, rfl⟩ := migrationPieces_ok.mp h
  exact ⟨chunks.flatten, bind_ok.mpr ⟨segs, hsegs,
    sharedStatements_ok.mpr ⟨chunks, hchunks, rfl⟩⟩,
    statements_of_pieces hchunks⟩

theorem treePieces_ok {p : Sqlparser} {b : Backend} {ms : List Migration}
    {ps : List Piece} :
    treePieces p b ms = .ok ps ↔ ∃ pss,
      List.Forall₂ (fun m ps => migrationPieces p b m = .ok ps) ms pss ∧
        pss.flatten = ps := by
  simp only [treePieces, map_ok, mapM_ok]

/-- The files of `b`'s tree hold the pieces of the migrations, one file each. -/
def TreeHolds (p : Sqlparser) (b : Backend) (ms : List Migration)
    (rs : List RenderedMigration) (pss : List (List Piece)) : Prop :=
  List.Forall₂ (fun m ps => migrationPieces p b m = .ok ps) ms pss ∧
    List.Forall₂ (fun r ps => r.upSql = join "\n\n" (ps.map (Piece.text p)))
      rs pss

/-- **THE TREE IS ITS PIECES**. -/
theorem tree_pieces {p : Sqlparser} {ms : List Migration} {g : Generated}
    (hg : generate p ms = .ok g) (b : Backend) :
    ∃ pss, TreeHolds p b ms (g.tree b) pss := by
  have htree := generate_tree hg b
  generalize g.tree b = rs at htree
  clear hg
  induction htree with
  | nil => exact ⟨[], .nil, .nil⟩
  | cons hr _ ih =>
      obtain ⟨ps, hps, hup⟩ := renders_pieces hr
      obtain ⟨pss, hpss, hups⟩ := ih
      exact ⟨ps :: pss, .cons hps hpss, .cons hup hups⟩

theorem treePieces_statements {p : Sqlparser} {b : Backend}
    {ms : List Migration} {ps : List Piece}
    (h : treePieces p b ms = .ok ps) :
    ∃ stmts, allStatements p ms = .ok stmts ∧
      ps.filterMap Piece.statement? = stmts.map (withNative b) := by
  obtain ⟨chunks, hchunks, rfl⟩ := map_ok.mp h
  have hall := mapM_ok.mp hchunks
  clear h hchunks
  induction hall with
  | nil => exact ⟨[], rfl, rfl⟩
  | cons hps _ ih =>
      obtain ⟨chunk, hchunk, hhead⟩ := migrationPieces_statements hps
      obtain ⟨rest, hrest, htail⟩ := ih
      refine ⟨chunk ++ rest,
        allStatements_cons_ok.mpr ⟨chunk, rest, hchunk, hrest, rfl⟩, ?_⟩
      rw [List.flatten_cons, List.filterMap_append, List.map_append, hhead,
        htail]

variable {κ : Type} [DecidableEq κ]

/-- What executing the text of a tagged block does. -/
abbrev Raw (κ : Type) := Catalog κ → String → Except Refusal (Catalog κ)

def execPiece (d : Dialect κ) (raw : Raw κ) (c : Catalog κ) :
    Piece → Except Refusal (Catalog κ)
  | .statement s => exec d c s
  | .block text => raw c text

/-- Executes no tagged block. -/
def noRaw : Raw κ := fun _ _ => .error .unsupported

omit [DecidableEq κ] in
theorem noRaw_quiet (text : String) (c c' : Catalog κ)
    (h : noRaw c text = .ok c') : c'.tables = c.tables :=
  absurd h error_ne_ok

/-- The blocks among the pieces leave the tables alone. -/
def Quiet (raw : Raw κ) (ps : List Piece) : Prop :=
  ∀ text, Piece.block text ∈ ps → ∀ c c', raw c text = .ok c' →
    c'.tables = c.tables

/-- Executing `b`'s tree on an empty database leaves the catalog `c`, and the
    tagged blocks have no part in its tables. -/
def Leaves (d : Dialect κ) (raw : Raw κ) (p : Sqlparser) (b : Backend)
    (ms : List Migration) (c : Catalog κ) : Prop :=
  ∃ ps, treePieces p b ms = .ok ps ∧ Quiet raw ps ∧
    ps.foldlM (execPiece d raw) Catalog.empty = .ok c

/-- Without blocks a run is that of its statements. -/
theorem execPieces_untagged {d : Dialect κ} {raw : Raw κ} {ps : List Piece}
    {c c' : Catalog κ} (huntagged : ∀ text, Piece.block text ∉ ps)
    (h : ps.foldlM (execPiece d raw) c = .ok c') :
    (ps.filterMap Piece.statement?).foldlM (exec d) c = .ok c' := by
  induction ps generalizing c with
  | nil => exact h
  | cons piece ps ih =>
      obtain ⟨c₁, h₁, hrest⟩ := foldlM_cons_ok.mp h
      have hrun := ih
        (fun text ht => huntagged text (List.mem_cons_of_mem _ ht)) hrest
      cases piece with
      | statement s => exact foldlM_cons_ok.mpr ⟨c₁, h₁, hrun⟩
      | block text => exact absurd List.mem_cons_self (huntagged text)

/-- Quiet blocks can be left out of a run, as far as the tables go. -/
theorem execPieces_tables {d : Dialect κ} {raw : Raw κ}
    {ps : List Piece} {c c' : Catalog κ} (hquiet : Quiet raw ps)
    (h : ps.foldlM (execPiece d raw) c = .ok c') :
    (ps.filterMap Piece.statement?).foldlM (execTables d) c.bare
      = .ok c'.bare := by
  induction ps generalizing c with
  | nil => rw [← foldlM_nil_ok.mp h]; rfl
  | cons piece ps ih =>
      obtain ⟨c₁, h₁, hrest⟩ := foldlM_cons_ok.mp h
      have hrun := ih (fun text ht => hquiet text (List.mem_cons_of_mem _ ht))
        hrest
      cases piece with
      | statement s => exact foldlM_cons_ok.mpr ⟨c₁.bare, exec_bare h₁, hrun⟩
      | block text =>
          -- a block may change indexes, which are forgotten
          rw [bare_eq (hquiet text List.mem_cons_self c c₁ h₁)] at hrun
          exact hrun

/-- **A TREE DOES TO THE TABLES WHAT ITS SHARED STATEMENTS DO**, types
    rewritten. -/
theorem leaves_statements {d : Dialect κ} {raw : Raw κ} {p : Sqlparser}
    {b : Backend} {ms : List Migration} {c : Catalog κ}
    {stmts : List Statement} (h : Leaves d raw p b ms c)
    (hstmts : allStatements p ms = .ok stmts) :
    stmts.foldlM (fun c s => execTables d c (withNative b s)) Catalog.empty
      = .ok c.bare := by
  obtain ⟨ps, hps, hquiet, hrun⟩ := h
  obtain ⟨stmts', hstmts', hpieces⟩ := treePieces_statements hps
  rw [← Except.ok.inj (hstmts.symm.trans hstmts')] at hpieces
  rw [← List.foldlM_map, ← hpieces]
  exact execPieces_tables hquiet hrun

/-- The catalog that executing `b`'s tree on an empty database leaves. -/
def executeTree (d : Dialect κ) (raw : Raw κ) (p : Sqlparser) (b : Backend)
    (ms : List Migration) : Option (Catalog κ) :=
  match treePieces p b ms with
  | .ok ps => (ps.foldlM (execPiece d raw) Catalog.empty).toOption
  | .error _ => none

theorem leaves_of_execute (d : Dialect κ) {raw : Raw κ} (p : Sqlparser)
    (b : Backend) (ms : List Migration) (c : Catalog κ)
    (hraw : ∀ text c c', raw c text = .ok c' → c'.tables = c.tables)
    (h : executeTree d raw p b ms = some c) : Leaves d raw p b ms c := by
  rw [executeTree] at h
  split at h
  · next ps hps =>
      refine ⟨ps, hps, fun text _ => hraw text, ?_⟩
      cases hrun : ps.foldlM (execPiece d raw) Catalog.empty with
      | error e => rw [hrun] at h; cases h
      | ok c' => rw [hrun] at h; rw [Option.some.inj h]
  · cases h

theorem exists_leaves (d : Dialect κ) {raw : Raw κ} (p : Sqlparser)
    (b : Backend) (ms : List Migration)
    (hraw : ∀ text c c', raw c text = .ok c' → c'.tables = c.tables)
    (h : (executeTree d raw p b ms).isSome) :
    ∃ c, Leaves d raw p b ms c := by
  obtain ⟨c, hc⟩ := Option.isSome_iff_exists.mp h
  exact ⟨c, leaves_of_execute d p b ms c hraw hc⟩

end DualdbEmitted
