import DieselDualdb.RewriteProofs
import DieselDualdb.SqlText
import DieselDualdb.Lib.Pointwise
import DieselDualdb.Lib.Terminators

/-!
# Statement boundaries in an emitted script

A shared statement is printed with a `;` after it; a tagged block is put into
the script as it stands.  So a block that leaves its last statement without a
terminator runs into what comes after it, unless that is nothing or starts with
a terminator itself.

How a database reads a script is a parameter: tokens, and which of them end a
statement (a `;` that does not, such as one in a trigger body, is a token like
the others).  `boundaries_kept_iff` says for which scripts the emitted text has
the statements of its pieces.
-/

namespace DualdbBoundary

open DualdbAst DualdbTypeMap DualdbModel DualdbMigration DualdbRewrite
open DualdbSqlText FallibleRun Pointwise RustStr Terminators

variable {α : Type}

/-! ## The statements of the pieces -/

/-- The text is the statement `body` and its terminator. -/
def OneStatement (r : Reader α) (text : String) (body : List α) : Prop :=
  ∃ e, r.tokens text = some (body ++ [e]) ∧ r.isEnd e = true ∧ body ≠ [] ∧
    ∀ t ∈ body, r.isEnd t = false

/-- What is assumed of printing: a shared statement of the migration, its types
    rewritten, is printed as one statement of the database's language. -/
def PrintsOne (r : Backend → Reader α) (p : Sqlparser) (m : Migration) : Prop :=
  ∀ stmts, migrationStatements p m = .ok stmts → ∀ s ∈ stmts, ∀ b,
    ∃ body, OneStatement (r b) (p.statementDisplay (withNative b s) ++ ";") body

/-- The statements that a piece contributes: a shared statement itself, the
    statements of a block's text. -/
inductive PieceStatements (r : Reader α) (p : Sqlparser) :
    Piece → List (List α) → Prop where
  | statement {s : Statement} {body : List α}
      (h : OneStatement r (p.statementDisplay s ++ ";") body) :
      PieceStatements r p (.statement s) [body]
  | block {raw : String} {ts : List α} (h : r.tokens (trim raw) = some ts) :
      PieceStatements r p (.block raw) (statements r.isEnd ts)

/-- Split into statements, `up` gives those of the pieces, in order. -/
def BoundariesKept (r : Reader α) (p : Sqlparser) (ps : List Piece)
    (up : String) : Prop :=
  ∃ sts ts, List.Forall₂ (PieceStatements r p) ps sts ∧
    r.tokens up = some ts ∧ statements r.isEnd ts = sts.flatten

/-- Every block is complete, and where a statement is open (`o`, or left so by
    a block) no shared statement follows, and no block that goes on with it. -/
def Separated (r : Reader α) : Bool → List Piece → Prop
  | _, [] => True
  | o, .statement _ :: ps => o = false ∧ Separated r false ps
  | o, .block raw :: ps => ∃ ts, r.tokens (trim raw) = some ts ∧
      (o = true → startsWithEnd r.isEnd ts = true) ∧
      Separated r (openAfter r.isEnd o ts) ps

/-- The statements among the pieces are printed as one statement each. -/
def PrintedOne (r : Reader α) (p : Sqlparser) (ps : List Piece) : Prop :=
  ∀ s, .statement s ∈ ps →
    ∃ body, OneStatement r (p.statementDisplay s ++ ";") body

variable {r : Reader α} {p : Sqlparser}

theorem OneStatement.statements {text : String} {body ts : List α}
    (h : OneStatement r text body) (hts : r.tokens text = some ts) :
    statements r.isEnd ts = [body] := by
  obtain ⟨e, htext, he, hne, hbody⟩ := h
  rw [Option.some.inj (hts.symm.trans htext), statements_cut _ he,
    statements_run hne hbody, statements_nil, List.append_nil]

/-- It is closed, and no statement goes on in it. -/
theorem OneStatement.parted {text : String} {body ts : List α} {o : Bool}
    (h : OneStatement r text body) (hts : r.tokens text = some ts) :
    startsWithEnd r.isEnd ts = false ∧ openAfter r.isEnd o ts = false := by
  obtain ⟨e, htext, he, hne, hbody⟩ := h
  rw [Option.some.inj (hts.symm.trans htext)]
  constructor
  · cases body with
    | nil => exact absurd rfl hne
    | cons t body => exact hbody t List.mem_cons_self
  · rw [openAfter, if_neg, isOpen, List.getLast?_concat]
    · simpa using he
    · simp

theorem pieceStatements_iff {q : Piece} {sts : List (List α)}
    (hq : ∀ s, q = .statement s →
      ∃ body, OneStatement r (p.statementDisplay s ++ ";") body) :
    PieceStatements r p q sts ↔
      ∃ ts, r.tokens (q.text p) = some ts ∧ sts = statements r.isEnd ts := by
  constructor
  · intro h
    cases h with
    | statement h =>
        obtain ⟨e, htext, -⟩ := id h
        exact ⟨_, htext, (h.statements htext).symm⟩
    | block h => exact ⟨_, h, rfl⟩
  · rintro ⟨ts, hts, rfl⟩
    cases q with
    | statement s =>
        obtain ⟨body, hbody⟩ := hq s rfl
        rw [hbody.statements hts]
        exact .statement hbody
    | block raw => exact .block hts

/-- The texts of the pieces, read one by one. -/
def PiecesRead (r : Reader α) (p : Sqlparser) (ps : List Piece)
    (tss : List (List α)) : Prop :=
  List.Forall₂ (fun t ts => r.tokens t = some ts) (ps.map (Piece.text p)) tss

theorem piecesRead_cons {q : Piece} {ps : List Piece} {tss : List (List α)} :
    PiecesRead r p (q :: ps) tss ↔
      ∃ ts rest, r.tokens (q.text p) = some ts ∧ PiecesRead r p ps rest ∧
        tss = ts :: rest :=
  List.forall₂_cons_left_iff

theorem piecesStatements_iff {ps : List Piece} (hps : PrintedOne r p ps)
    (sts : List (List (List α))) :
    List.Forall₂ (PieceStatements r p) ps sts ↔
      ∃ tss, PiecesRead r p ps tss ∧ sts = tss.map (statements r.isEnd) := by
  induction ps generalizing sts with
  | nil =>
      constructor
      · intro h
        cases h
        exact ⟨[], .nil, rfl⟩
      · rintro ⟨tss, h, rfl⟩
        cases h
        exact .nil
  | cons q ps ih =>
      -- one piece reads alone what it reads in the list
      have hq : ∀ sts, PieceStatements r p q sts ↔
          ∃ ts, r.tokens (q.text p) = some ts ∧ sts = statements r.isEnd ts :=
        fun sts => pieceStatements_iff fun s hs =>
          hps s (hs ▸ List.mem_cons_self)
      have hrest := ih fun s hs => hps s (List.mem_cons_of_mem _ hs)
      constructor
      · intro h
        cases h with
        | cons hhead htail =>
            obtain ⟨ts, hts, rfl⟩ := (hq _).mp hhead
            obtain ⟨tss, htss, rfl⟩ := (hrest _).mp htail
            exact ⟨_, piecesRead_cons.mpr ⟨ts, tss, hts, htss, rfl⟩, rfl⟩
      · rintro ⟨tss, h, rfl⟩
        obtain ⟨ts, tss, hts, htss, rfl⟩ := piecesRead_cons.mp h
        exact .cons ((hq _).mpr ⟨ts, hts, rfl⟩) ((hrest _).mpr ⟨tss, htss, rfl⟩)

/-- The pieces are separated if their texts are complete and do not run into
    each other. -/
theorem separated_iff {ps : List Piece} (hps : PrintedOne r p ps) (o : Bool) :
    Separated r o ps ↔
      ∃ tss, PiecesRead r p ps tss ∧ Parted r.isEnd o tss := by
  induction ps generalizing o with
  | nil => exact ⟨fun _ => ⟨[], .nil, trivial⟩, fun _ => trivial⟩
  | cons q ps ih =>
      have hrest := ih fun s hs => hps s (List.mem_cons_of_mem _ hs)
      cases q with
      | statement s =>
          obtain ⟨body, hbody⟩ := hps s List.mem_cons_self
          obtain ⟨e, htext, -⟩ := id hbody
          -- printed, it does not start with a terminator, and it ends in one
          obtain ⟨hstart, hopen⟩ := hbody.parted (o := o) htext
          rw [Separated, hrest]
          constructor
          · rintro ⟨ho, tss, htss, hparted⟩
            refine ⟨_, piecesRead_cons.mpr ⟨_, tss, htext, htss, rfl⟩, ?_, ?_⟩
            · intro h
              rw [ho] at h
              cases h
            · rw [hopen]
              exact hparted
          · rintro ⟨tss, htss, hparted⟩
            obtain ⟨ts, rest, hts, hrest, rfl⟩ := piecesRead_cons.mp htss
            rw [Option.some.inj (hts.symm.trans htext)] at hparted
            obtain ⟨hgoes, hparted⟩ := hparted
            rw [hstart] at hgoes
            rw [hopen] at hparted
            exact ⟨Bool.eq_false_iff.mpr fun h => Bool.false_ne_true
              (hgoes h), rest, hrest, hparted⟩
      | block raw =>
          -- a block is read for itself
          rw [Separated]
          constructor
          · rintro ⟨ts, hts, hgoes, hseparated⟩
            obtain ⟨tss, htss, hparted⟩ := (hrest _).mp hseparated
            exact ⟨_, piecesRead_cons.mpr ⟨ts, tss, hts, htss, rfl⟩, hgoes,
              hparted⟩
          · rintro ⟨tss, htss, hparted⟩
            obtain ⟨ts, rest, hts, hread, rfl⟩ := piecesRead_cons.mp htss
            exact ⟨ts, hts, hparted.1, (hrest _).mpr ⟨rest, hread, hparted.2⟩⟩

/-- **BOUNDARIES OF ONE SCRIPT**: the joined pieces have the pieces' statements
    exactly if the pieces are separated. -/
theorem join_pieces_iff (hr : r.Lawful "\n\n") {ps : List Piece}
    (hps : PrintedOne r p ps) :
    BoundariesKept r p ps (join "\n\n" (ps.map (Piece.text p))) ↔
      Separated r false ps := by
  rw [separated_iff hps]
  constructor
  · rintro ⟨sts, ts, hsts, hts, hsame⟩
    obtain ⟨tss, htss, rfl⟩ := (piecesStatements_iff hps _).mp hsts
    exact ⟨tss, htss, (statements_join_iff hr htss).mp ⟨ts, hts, hsame⟩⟩
  · rintro ⟨tss, htss, hparted⟩
    obtain ⟨ts, hts, hsame⟩ := (statements_join_iff hr htss).mpr hparted
    exact ⟨_, ts, (piecesStatements_iff hps _).mpr ⟨tss, htss, rfl⟩, hts, hsame⟩

/-! ## The scripts of a run -/

theorem printedOne_pieces {r : Backend → Reader α} {p : Sqlparser}
    {m : Migration} (hp : PrintsOne r p m) {segs : List Segment}
    {chunks : List (List Statement)} (hsegs : segment m.upSql = .ok segs)
    (h : Chunks p segs chunks) (b : Backend) :
    PrintedOne (r b) p (pieces b segs chunks) := by
  have hstmts : migrationStatements p m = .ok chunks.flatten :=
    bind_ok.mpr ⟨segs, hsegs, sharedStatements_ok.mpr ⟨chunks, h, rfl⟩⟩
  intro s hs
  have hmem : s ∈ (pieces b segs chunks).filterMap Piece.statement? :=
    List.mem_filterMap.mpr ⟨_, hs, rfl⟩
  rw [statements_of_pieces h] at hmem
  obtain ⟨s', hs', rfl⟩ := List.mem_map.mp hmem
  exact hp _ hstmts s' hs' b

/-- **WHEN STATEMENT BOUNDARIES SURVIVE**, for every migration of an accepted
    list and each backend: exactly if the backend's pieces are separated. -/
theorem boundaries_kept_iff {r : Backend → Reader α}
    (hr : ∀ b, (r b).Lawful "\n\n") {p : Sqlparser}
    {pre post : List Migration} {m : Migration} {g : Generated}
    (hp : PrintsOne r p m) (hg : generate p (pre ++ m :: post) = .ok g)
    (b : Backend) :
    ∃ segs chunks rm, segment m.upSql = .ok segs ∧ Chunks p segs chunks ∧
      (g.tree b)[pre.length]? = some rm ∧
      (BoundariesKept (r b) p (pieces b segs chunks) rm.upSql ↔
        Separated (r b) false (pieces b segs chunks)) := by
  obtain ⟨rm, hrm, hrenders⟩ := forall₂_at (generate_tree hg b)
  obtain ⟨segs, chunks, down, hsegs, hchunks, -, -, -, rfl⟩ :=
    renders_chunks hrenders
  exact ⟨segs, chunks, _, hsegs, hchunks, hrm,
    join_pieces_iff (hr b) (printedOne_pieces hp hsegs hchunks b)⟩

/-! ## Scripts read by their visible characters -/

/-- Enough for scripts without literals and comments. -/
def charReader : Reader Char where
  tokens s := some (visible s)
  isEnd c := c = ';'

theorem visible_append (s t : String) :
    visible (s ++ t) = visible s ++ visible t := by
  rw [visible, String.toList_append, List.filter_append]
  rfl

theorem charReader_lawful : charReader.Lawful "\n\n" := by
  have hjoin : ∀ s t, visible (s ++ "\n\n" ++ t) = visible s ++ visible t := by
    intro s t
    have hsep : visible "\n\n" = [] := by decide
    rw [visible_append, visible_append, hsep, List.append_nil]
  refine ⟨rfl, ?_, ?_⟩
  · intro s t xs ys hs ht _
    rw [← Option.some.inj hs, ← Option.some.inj ht, ← hjoin]
    rfl
  · intro s t xs y ys hs _ ht hy rest ts _ hts
    refine ⟨y, ys ++ visible rest, hy, ?_⟩
    have ht : visible t = y :: ys := Option.some.inj ht
    rw [← Option.some.inj hs, ← Option.some.inj hts, visible_append, hjoin, ht,
      List.append_assoc]
    rfl

/-- The text stops at its only `;`, and there is something before it. -/
def oneSemicolon (text : String) : Bool :=
  let cs := visible text
  cs.getLast? = some ';' && !cs.dropLast.isEmpty && cs.dropLast.all (· ≠ ';')

theorem oneStatement_of_semicolon {text : String}
    (h : oneSemicolon text = true) : ∃ body, OneStatement charReader text body := by
  simp only [oneSemicolon, Bool.and_eq_true, decide_eq_true_eq,
    Bool.not_eq_true', List.isEmpty_eq_false_iff] at h
  obtain ⟨⟨hlast, hne⟩, hbody⟩ := h
  refine ⟨(visible text).dropLast, ';', ?_, by decide, hne, fun c hc => ?_⟩
  · rw [List.dropLast_append_getLast? _ hlast]
    rfl
  · have hc' := List.all_eq_true.mp hbody c hc
    exact decide_eq_false (of_decide_eq_true hc')

theorem printsOne_of_semicolons {p : Sqlparser} {m : Migration}
    {stmts : List Statement} (hm : migrationStatements p m = .ok stmts)
    (h : ∀ s ∈ stmts, ∀ b ∈ [Backend.postgres, .sqlite],
      oneSemicolon (p.statementDisplay (withNative b s) ++ ";") = true) :
    PrintsOne (fun _ => charReader) p m := by
  intro stmts' hm' s hs b
  rw [Except.ok.inj (hm'.symm.trans hm)] at hs
  refine oneStatement_of_semicolon (h s hs b ?_)
  cases b <;> decide

def tableT : Statement :=
  createTable (bare "t") [col "a" (.int none) []] []

def boundaryParser : Sqlparser := parserOf [("CREATE TABLE t (a INT);\n", [tableT])]

/-- A block without a terminator, at the end. -/
def blockLast : Migration :=
  ⟨"1", "CREATE TABLE t (a INT);\n-- dualdb:postgres\nANALYZE\n"
    ++ "-- dualdb:end\n", none⟩

theorem blockLast_printsOne :
    PrintsOne (fun _ => charReader) boundaryParser blockLast := by
  have hm : migrationStatements boundaryParser blockLast = .ok [tableT] := by
    decide +kernel
  exact printsOne_of_semicolons hm (by decide +kernel)

theorem boundaries_kept_iff_of_block_last :
    ∃ g segs chunks rm,
      generate boundaryParser ([] ++ blockLast :: []) = .ok g ∧
      segment blockLast.upSql = .ok segs ∧ Chunks boundaryParser segs chunks ∧
      (g.tree .postgres)[0]? = some rm ∧
      BoundariesKept charReader boundaryParser
        (pieces .postgres segs chunks) rm.upSql := by
  obtain ⟨g, hg⟩ := exists_ok_of_isOk
    (x := generate boundaryParser ([] ++ blockLast :: [])) (by decide +kernel)
  obtain ⟨segs, chunks, rm, hsegs, hchunks, hrm, hiff⟩ :=
    boundaries_kept_iff (fun _ => charReader_lawful) blockLast_printsOne hg
      .postgres
  refine ⟨g, segs, chunks, rm, hg, hsegs, hchunks, hrm, hiff.mpr ?_⟩
  have hcut : segment blockLast.upSql = .ok [.shared "CREATE TABLE t (a INT);\n",
      .tagged .postgres "ANALYZE\n"] := by decide +kernel
  have hparsed : Chunks boundaryParser [.shared "CREATE TABLE t (a INT);\n",
      .tagged .postgres "ANALYZE\n"] [[tableT], []] :=
    .cons (by decide +kernel) (.cons rfl .nil)
  rw [Except.ok.inj (hsegs.symm.trans hcut)] at hchunks ⊢
  rw [chunks_unique hparsed hchunks]
  refine ⟨rfl, visible "ANALYZE", ?_, ?_, trivial⟩
  · decide +kernel
  · intro h
    cases h

/-- The same block in front of the statement. -/
def blockFirst : Migration :=
  ⟨"1", "-- dualdb:postgres\nANALYZE\n-- dualdb:end\n"
    ++ "CREATE TABLE t (a INT);\n", none⟩

theorem blockFirst_printsOne :
    PrintsOne (fun _ => charReader) boundaryParser blockFirst := by
  have hm : migrationStatements boundaryParser blockFirst = .ok [tableT] := by
    decide +kernel
  exact printsOne_of_semicolons hm (by decide +kernel)

/-- **A BLOCK RUNS INTO THE NEXT STATEMENT**: `ANALYZE CREATE TABLE …` -/
theorem block_runs_on :
    ∃ g segs chunks rm, generate boundaryParser [blockFirst] = .ok g ∧
      segment blockFirst.upSql = .ok segs ∧ Chunks boundaryParser segs chunks ∧
      g.postgres[0]? = some rm ∧
      rm.upSql = "ANALYZE\n\nCREATE TABLE t (a INTEGER);" ∧
      ¬ BoundariesKept charReader boundaryParser
        (pieces .postgres segs chunks) rm.upSql := by
  have hcut : segment blockFirst.upSql = .ok [.tagged .postgres "ANALYZE\n",
      .shared "CREATE TABLE t (a INT);\n"] := by decide +kernel
  have hparsed : Chunks boundaryParser [.tagged .postgres "ANALYZE\n",
      .shared "CREATE TABLE t (a INT);\n"] [[], [tableT]] :=
    .cons rfl (.cons (by decide +kernel) .nil)
  have hup : join "\n\n" ((pieces .postgres [.tagged .postgres "ANALYZE\n",
      .shared "CREATE TABLE t (a INT);\n"] [[], [tableT]]).map
        (Piece.text boundaryParser))
      = "ANALYZE\n\nCREATE TABLE t (a INTEGER);" := by decide +kernel
  obtain ⟨g, hg⟩ := exists_ok_of_isOk
    (x := generate boundaryParser ([] ++ blockFirst :: [])) (by decide +kernel)
  obtain ⟨rm, hrm, hrenders⟩ := forall₂_at (generate_tree hg .postgres)
  obtain ⟨segs, chunks, down, hsegs, hchunks, -, -, -, hrendered⟩ :=
    renders_chunks hrenders
  rw [Except.ok.inj (hsegs.symm.trans hcut)] at hchunks hrendered hsegs
  rw [chunks_unique hparsed hchunks, hup] at hrendered
  refine ⟨g, _, _, rm, hg, hcut, hparsed, hrm, by rw [hrendered], ?_⟩
  rw [hrendered, ← hup, join_pieces_iff charReader_lawful
    (printedOne_pieces blockFirst_printsOne hcut hparsed .postgres)]
  -- the block has no terminator and the next piece starts a statement
  rintro ⟨ts, hts, -, hopen, -⟩
  rw [← Option.some.inj hts] at hopen
  exact absurd hopen (by decide +kernel)

end DualdbBoundary
