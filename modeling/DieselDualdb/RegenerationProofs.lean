import DieselDualdb.ReadBackProofs
import DieselDualdb.RespellingProofs
import Mathlib.Data.List.DropRight

/-!
# The Postgres tree as a source

The mapping table loses precisions, scales and aliases, and it maps two logical
types to one SQLite type.  It never maps two of them to one Postgres type, so the
Postgres tree keeps the row of every column: read as a source, it generates both
trees and `schema.rs` once more, each of them as it is (`tree_regenerates`).

A parser reads an injected name as a type of its own (`TIMESTAMPTZ`, say, as
a timestamp with a time zone).  Which types those are is a parameter, `readName`;
what is asked of them is that they have the name's row (`ReadsNames`), and of the
parser that it reads a printed script back, but for these names (`ReadsScript`).
A block of the source would stand in the tree as shared text, so there must be
none.
-/

namespace DualdbRegeneration

open DualdbAst DualdbTypeMap DualdbModel DualdbMigration DualdbRewrite
open DualdbSegment DualdbSquash DualdbRespelling DualdbOutputs DualdbOrder
open DualdbReadBack DualdbSqlText FallibleRun FileTree Pointwise RustStr

variable {p : Sqlparser} {readName : String → DataType}

/-! ## Names read back -/

/-- The Postgres names of the table are read as types of the same row. -/
def ReadsNames (readName : String → DataType) : Prop :=
  ∀ dt row, mapType dt = some row → mapType (readName row.pg) = some row

/-- An injected name is read as a type; the other types are as they were. -/
def readType (readName : String → DataType) : DataType → DataType
  | .custom ⟨[⟨name, none⟩]⟩ [] => readName name
  | dt => dt

def readColumn (readName : String → DataType) (c : ColumnDef) : ColumnDef :=
  { c with dataType := readType readName c.dataType }

def readOperation (readName : String → DataType) :
    AlterTableOperation → AlterTableOperation
  | .addColumn kw ine c pos => .addColumn kw ine (readColumn readName c) pos
  | op => op

/-- A rewritten statement after it has been printed and parsed. -/
def readBack (readName : String → DataType) : Statement → Statement
  | .createTable ct =>
      .createTable { ct with columns := ct.columns.map (readColumn readName) }
  | .alterTable name ie only ops cl =>
      .alterTable name ie only (ops.map (readOperation readName)) cl
  | s => s

theorem readColumn_respelled (hnames : ReadsNames readName) {c : ColumnDef}
    (hmapped : ∃ row, mapType c.dataType = some row) :
    RespelledColumn c
      (readColumn readName (ColumnDef.withNative .postgres c)) := by
  obtain ⟨row, hrow⟩ := hmapped
  refine ⟨?_, rfl⟩
  show mapType (readType readName (nativeOr .postgres c.dataType)) = _
  rw [nativeOr_of_row hrow, hrow]
  exact hnames _ _ hrow

theorem readOperation_respelled (hnames : ReadsNames readName)
    {op : AlterTableOperation} (hmapped : AllMapped (addedType op).toList) :
    RespelledOperation op
      (readOperation readName (operationWithNative .postgres op)) := by
  cases op with
  | addColumn kw ine c pos =>
      exact .added (readColumn_respelled hnames
        (allMapped_singleton.mp hmapped))
  | addConstraint _ | dropColumn _ _ _ | dropConstraint _ _ _
  | dropPrimaryKey | renameColumn _ _ | renameTable _
  | changeColumn _ _ _ _ _ | modifyColumn _ _ _ _ | alterColumn _ _
  | other _ => exact .same _

/-- **A STATEMENT IS READ BACK AS A RESPELLING OF ITSELF.** -/
theorem readBack_respelled (hnames : ReadsNames readName) {s : Statement}
    (hmapped : AllMapped (columnTypes s)) :
    Respelled s (readBack readName (withNative .postgres s)) := by
  cases s with
  | createTable ct =>
      rw [withNative, readBack, List.map_map]
      refine .createTable ?_
      rw [List.forall₂_map_right_iff, List.forall₂_same]
      intro c hc
      exact readColumn_respelled hnames
        (hmapped _ (List.mem_map_of_mem hc))
  | alterTable name ie only ops cl =>
      rw [withNative, readBack, List.map_map]
      refine .alterTable ?_
      rw [List.forall₂_map_right_iff, List.forall₂_same]
      intro op hop
      refine readOperation_respelled hnames fun dt hdt => ?_
      exact hmapped dt (List.mem_filterMap.mpr
        ⟨op, hop, Option.mem_toList.mp hdt⟩)
  | drop _ _ _ _ _ | createIndex _ | other _ => exact .same _

/-! ## Scripts read back -/

/-- The script of these statements in a tree. -/
def script (p : Sqlparser) (stmts : List Statement) : String :=
  join "\n\n" (stmts.map fun s => p.statementDisplay s ++ ";")

theorem script_nil : script p [] = "" := rfl

/-- What the segmenter and the parser make of a printed script. -/
structure ReadsScript (p : Sqlparser) (readName : String → DataType)
    (stmts : List Statement) : Prop where
  line_ends : '\r' ∉ (script p stmts).toList
  plain : ∀ line ∈ lines (script p stmts ++ "\n"), directive line = none
  parsed : stmts ≠ [] →
    p.parseSql (script p stmts ++ "\n") = .ok (stmts.map (readBack readName))

theorem closedLine_plain {cur : List Char} (h : '\r' ∉ cur) :
    closedLine cur = String.ofList cur.reverse := by
  rw [closedLine, dropCr]
  rintro cs rfl
  exact h List.mem_cons_self

/-- Without `\r`, the lines of a text that ends its last line make up the
    text.  The induction is for every line begun. -/
theorem textOf_linesFrom {cs : List Char} (hcs : '\r' ∉ cs) :
    ∀ cur, '\r' ∉ cur → (textOf (linesFrom cur (cs ++ ['\n']))).toList
      = cur.reverse ++ cs ++ ['\n'] := by
  induction cs with
  | nil =>
      intro cur hcur
      have hline : linesFrom cur ([] ++ ['\n']) = [closedLine cur] := if_pos rfl
      rw [hline, closedLine_plain hcur]
      simp [textOf]
  | cons c cs ih =>
      intro cur hcur
      rw [List.mem_cons, not_or] at hcs
      obtain ⟨hc, hcs⟩ := hcs
      by_cases hend : c = '\n'
      · have hline : linesFrom cur (c :: cs ++ ['\n'])
            = closedLine cur :: linesFrom [] (cs ++ ['\n']) := if_pos hend
        rw [hline, closedLine_plain hcur, textOf, String.toList_append,
          ih hcs [] List.not_mem_nil, hend]
        simp
      · have hline : linesFrom cur (c :: cs ++ ['\n'])
            = linesFrom (c :: cur) (cs ++ ['\n']) := if_neg hend
        rw [hline, ih hcs (c :: cur) (List.not_mem_cons_of_ne_of_not_mem hc hcur)]
        simp

theorem textOf_lines {s : String} (h : '\r' ∉ s.toList) :
    textOf (lines (s ++ "\n")) = s ++ "\n" := by
  refine String.toList_injective ?_
  rw [lines, String.toList_append]
  exact textOf_linesFrom h [] List.not_mem_nil

/-- A script without directives is one shared run. -/
theorem segment_plain {sql : String}
    (h : ∀ line ∈ lines sql, directive line = none) :
    segment sql = .ok (sharedRun (textOf (lines sql))) :=
  segment_ok.mpr ⟨⟨lines sql, [], h⟩, by simp [Layout.lines],
    by simp [Layout.segments, Layout.segmentsFrom]⟩

theorem items_sharedRun {text : String} {chunks : List (List Statement)}
    (h : Chunks p (sharedRun text) chunks) :
    (List.zipWith segmentItems (sharedRun text) chunks).flatten
      = chunks.flatten.map .statement := by
  by_cases hblank : (trim text).isEmpty = true
  · rw [sharedRun_of_blank hblank] at h ⊢
    cases h
    rfl
  · rw [sharedRun_of_not_blank hblank] at h ⊢
    cases h with
    | cons _ hnil =>
        cases hnil
        simp [segmentItems]

/-- A script with a statement is not blank: the statement ends in `;`. -/
theorem script_not_blank {stmts : List Statement} (h : stmts ≠ []) :
    ¬ (trim (script p stmts ++ "\n")).isEmpty = true := by
  obtain ⟨s, rest, rfl⟩ := List.exists_cons_of_ne_nil h
  have hmem : ';' ∈ (script p (s :: rest)).toList := by
    rw [script, List.map_cons]
    cases rest.map fun s => p.statementDisplay s ++ ";" with
    | nil => simp [join]
    | cons t ts => simp [join_cons_cons]
  rw [trim_isEmpty, List.all_eq_true]
  intro hall
  have hspace := hall ';' (by rw [String.toList_append]; simp [hmem])
  revert hspace
  decide

/-- What the tree's script consists of, once it is read. -/
theorem chunks_script {stmts : List Statement}
    (h : ReadsScript p readName stmts) :
    ∃ segs chunks, segment (script p stmts ++ "\n") = .ok segs ∧
      Chunks p segs chunks ∧
      (List.zipWith segmentItems segs chunks).flatten
        = (stmts.map (readBack readName)).map .statement := by
  have hsegs := segment_plain h.plain
  rw [textOf_lines h.line_ends] at hsegs
  by_cases hnil : stmts = []
  · have hblank : (trim (script p stmts ++ "\n")).isEmpty = true := by
      rw [hnil, script_nil]
      decide
    rw [sharedRun_of_blank hblank] at hsegs
    exact ⟨_, [], hsegs, .nil, by rw [hnil]; rfl⟩
  · have hrun := sharedRun_of_not_blank (script_not_blank (p := p) hnil)
    have hchunks : Chunks p (sharedRun (script p stmts ++ "\n"))
        [stmts.map (readBack readName)] := by
      rw [hrun]
      exact .cons (mapError_ok.mpr (h.parsed hnil)) .nil
    refine ⟨_, _, hsegs, hchunks, ?_⟩
    rw [items_sharedRun hchunks, List.flatten_singleton]

/-! ## Down scripts read back -/

theorem trimEnd_newline (s : String) : trimEnd (s ++ "\n") = trimEnd s := by
  refine String.toList_injective ?_
  rw [toList_trimEnd, toList_trimEnd, String.toList_append, List.reverse_append]
  rfl

theorem trimEnd_trimEnd (s : String) : trimEnd (trimEnd s) = trimEnd s := by
  refine String.toList_injective ?_
  rw [toList_trimEnd, toList_trimEnd, List.reverse_reverse,
    List.dropWhile_idempotent]

theorem dropLine_eq (table : String) :
    dropLine table = "DROP TABLE IF EXISTS " ++ table ++ ";" := rfl

theorem trimEnd_semicolon (s : String) : trimEnd (s ++ ";") = s ++ ";" := by
  have hlast : (s ++ ";").toList.reverse = ';' :: s.toList.reverse := by
    rw [String.toList_append, List.reverse_append]
    rfl
  have hkept : ¬ isWhitespace ';' = true := by decide
  refine String.toList_injective ?_
  rw [toList_trimEnd, hlast, List.dropWhile_cons_of_neg hkept, ← hlast,
    List.reverse_reverse]

theorem trimEnd_dropLine (s table : String) :
    trimEnd (s ++ dropLine table) = s ++ dropLine table := by
  rw [dropLine_eq, ← String.append_assoc, trimEnd_semicolon]

/-- A derived script has nothing to trim. -/
theorem trimEnd_dropLines (stmts : List Statement) :
    trimEnd (join "\n" (dropLines stmts)) = join "\n" (dropLines stmts) := by
  rw [dropLines]
  cases hlast : (stmts.filterMap createdTable).reverse.eq_nil_or_concat with
  | inl hnil => rw [hnil]; decide
  | inr hsome =>
      obtain ⟨tables, table, htables⟩ := hsome
      rw [htables, List.concat_eq_append, List.map_append, List.map_singleton]
      by_cases hnil : tables.map dropLine = []
      · rw [hnil]
        have hline := trimEnd_dropLine "" table
        rw [String.empty_append] at hline
        exact hline
      · rw [join_append hnil (List.cons_ne_nil _ _)]
        exact trimEnd_dropLine _ table

/-- The down script of a tree, read and trimmed, is the one that was written. -/
theorem down_readBack {m : Migration} {segs : List Segment}
    {chunks : List (List Statement)} {down : String}
    (hchunks : Chunks p segs chunks)
    (h : migrationDown p m segs = .ok down) : trimEnd (down ++ "\n") = down := by
  rw [trimEnd_newline]
  rw [migrationDown] at h
  cases hdown : m.downSql with
  | some d =>
      rw [hdown] at h
      rw [← pure_ok.mp h, trimEnd_trimEnd]
  | none =>
      rw [hdown] at h
      rw [Except.ok.inj (h.symm.trans (deriveDown_ok hchunks)),
        trimEnd_dropLines]

/-! ## One migration of the tree -/

/-- A migration without blocks. -/
def Plain (m : Migration) : Prop := ∀ line ∈ lines m.upSql, directive line = none

instance : DecidablePred Plain := fun m =>
  inferInstanceAs (Decidable (∀ line ∈ lines m.upSql, directive line = none))

/-- The migration's rewritten statements can be read back from the tree. -/
def Legible (p : Sqlparser) (readName : String → DataType) (m : Migration) :
    Prop :=
  ∀ stmts, migrationStatements p m = .ok stmts →
    ReadsScript p readName (stmts.map (withNative .postgres))

/-- **A MIGRATION AND ITS POSTGRES RENDERING ARE ALIKE** as sources. -/
theorem alike_asRead (hnames : ReadsNames readName) {m : Migration}
    {rm : RenderedMigration} (hplain : Plain m) (hlegible : Legible p readName m)
    (h : Renders p .postgres m rm) : Alike p m (asRead rm) := by
  obtain ⟨segs, chunks, down, hsegs, hchunks, hstmts, hmapped, hdown, rfl⟩ :=
    renders_chunks h
  have hrun := Except.ok.inj ((segment_plain hplain).symm.trans hsegs)
  -- the source has statements only, so the tree's script is theirs
  have hitems : (List.zipWith segmentItems segs chunks).flatten
      = chunks.flatten.map .statement := by
    rw [← hrun] at hchunks ⊢
    exact items_sharedRun hchunks
  have hup : join "\n\n" ((pieces .postgres segs chunks).map (Piece.text p))
      = script p (chunks.flatten.map (withNative .postgres)) := by
    rw [← (items_of_chunks hchunks).2, hitems, List.filterMap_map, script,
      List.map_map]
    have hpiece : Item.piece .postgres ∘ Item.statement
        = some ∘ fun s => Piece.statement (withNative .postgres s) := rfl
    rw [hpiece, List.filterMap_eq_map, List.map_map]
    rfl
  have hread := hlegible _ hstmts
  obtain ⟨segs', chunks', hsegs', hchunks', hitems'⟩ := chunks_script hread
  refine ⟨rfl, _, _, down, ⟨segs, chunks, hsegs, hchunks, rfl, hdown⟩,
    ⟨segs', chunks', ?_, hchunks', rfl, ?_⟩, ?_⟩
  · rw [asRead, hup]
    exact hsegs'
  · exact congrArg Except.ok (down_readBack hchunks hdown)
  · rw [hitems, hitems', List.map_map, List.map_map, List.forall₂_map_left_iff,
      List.forall₂_map_right_iff, List.forall₂_same]
    exact fun s hs => .statement (readBack_respelled hnames (hmapped s hs))

/-- **A TREE GENERATES WHAT IT WAS GENERATED WITH.** -/
theorem generate_asRead (hnames : ReadsNames readName) {ms : List Migration}
    {g : Generated} (hg : generate p ms = .ok g)
    (hms : ∀ m ∈ ms, Plain m ∧ Legible p readName m) :
    generate p (g.postgres.map asRead) = .ok g := by
  have halike : List.Forall₂ (Alike p) ms (g.postgres.map asRead) := by
    rw [List.forall₂_map_right_iff]
    have htree := (List.forall₂_and_left ms g.postgres).mpr
      ⟨hms, generate_tree hg .postgres⟩
    exact htree.imp fun m rm h => alike_asRead hnames h.1.1 h.1.2 h.2
  rw [generate_ok] at hg ⊢
  simpa only [alike_model halike, alike_tree halike] using hg

/-! ## The tree after any number of runs -/

section Tree

variable {outDir : Path} {b : Backend} {mss : List (List Migration)}
  {ms : List Migration} {g : Generated} {d : Disk String}

theorem latest_named {m : Migration} (h : Latest p b mss m) :
    ∃ ms ∈ mss, ∃ x ∈ ms, x.dirName = m.dirName := by
  induction h with
  | last hx hrm =>
      obtain ⟨segs, up, down, -, -, -, rfl⟩ := hrm
      exact ⟨_, List.mem_append_right _ List.mem_cons_self, _, hx, rfl⟩
  | kept _ _ ih =>
      obtain ⟨ms, hms, x, hx, hname⟩ := ih
      exact ⟨ms, List.mem_append_left _ hms, x, hx, hname⟩

/-- A run reads its migrations in the order of their names. -/
theorem Runs.sorted (h : Runs p outDir (mss ++ [ms]) d) :
    (ms.map Migration.dirName).Pairwise (· < ·) := by
  generalize hall : mss ++ [ms] = all at h
  cases h with
  | start _ =>
      exact absurd hall
        (List.append_ne_nil_of_right_ne_nil _ (List.cons_ne_nil _ _))
  | run _ _ hread _ =>
      obtain ⟨-, hms⟩ := List.append_inj' hall rfl
      rw [List.singleton_inj.mp hms]
      exact readMigrations_sorted hread

/-- Lists in the strict order of their names are equal when they have the same
    members. -/
theorem eq_of_sorted {xs ys : List Migration}
    (hxs : (xs.map Migration.dirName).Pairwise (· < ·))
    (hys : (ys.map Migration.dirName).Pairwise (· < ·))
    (h : ∀ m, m ∈ xs ↔ m ∈ ys) : xs = ys := by
  rw [List.pairwise_map] at hxs hys
  have hnodup : ∀ {zs : List Migration},
      zs.Pairwise (fun m m' => m.dirName < m'.dirName) → zs.Nodup := by
    intro zs hzs
    refine hzs.imp ?_
    rintro m _ hlt rfl
    exact lt_irrefl _ hlt
  have hperm := (List.perm_ext_iff_of_nodup (hnodup hxs) (hnodup hys)).mpr h
  refine hperm.eq_of_pairwise (fun m m' _ _ hlt hlt' => ?_) hxs hys
  exact absurd hlt (lt_asymm hlt')

/-- **WHAT A TREE HOLDS WHEN NO MIGRATION WAS REMOVED**: the last run's
    rendering, and nothing else. -/
theorem tree_read (hruns : Runs p outDir (mss ++ [ms]) d)
    (hkept : ∀ ms' ∈ mss, ∀ x ∈ ms', x.dirName ∈ ms.map Migration.dirName)
    (hne : ms ≠ []) (hg : generate p ms = .ok g) :
    readMigrations d (treeDir outDir b) = .ok ((g.tree b).map asRead) := by
  have htree := generate_tree hg b
  -- nothing is kept of the runs before
  have hlatest : ∀ m, Latest p b (mss ++ [ms]) m ↔ m ∈ (g.tree b).map asRead := by
    intro m
    rw [latest_snoc, List.mem_map]
    constructor
    · rintro (⟨x, hx, rm, hrm, rfl⟩ | ⟨hm, hother⟩)
      · obtain ⟨rm', hrm', hrenders⟩ := forall₂_of_mem_left htree hx
        exact ⟨rm', hrm', by rw [renders_unique hrm hrenders]⟩
      · obtain ⟨ms', hms', x, hx, hname⟩ := latest_named hm
        obtain ⟨y, hy, hsame⟩ := List.mem_map.mp (hkept ms' hms' x hx)
        exact absurd (hsame.trans hname) (hother y hy)
    · rintro ⟨rm, hrm, rfl⟩
      obtain ⟨x, hx, hrenders⟩ := exists_rendered hg hrm
      exact Or.inl ⟨x, hx, rm, hrenders, rfl⟩
  have hnames : ((g.tree b).map asRead).map Migration.dirName
      = ms.map Migration.dirName := by
    rw [List.map_map]
    exact tree_names hg b
  have hholds := Runs.holds hruns b
  rcases hholds.tree with hthere | ⟨-, hfree⟩
  · obtain ⟨ms', hread, hsorted, hmem⟩ := hholds.read hthere
    rw [hread]
    refine congrArg Except.ok (eq_of_sorted hsorted ?_ fun m => ?_)
    · rw [hnames]
      exact Runs.sorted hruns
    · rw [hmem, hlatest]
  · obtain ⟨x, hx⟩ := List.exists_mem_of_ne_nil ms hne
    obtain ⟨rm, hrm, -⟩ := forall₂_of_mem_left htree hx
    exact absurd ((hlatest _).mpr (List.mem_map_of_mem hrm)) (hfree _)

/-- **THE POSTGRES TREE IS A LOSSLESS SOURCE**: as long as no migration was
    removed between the runs and the sources have no blocks, a run over the
    Postgres tree generates what the last run generated: both trees and
    `schema.rs`, to the letter. -/
theorem tree_regenerates (hruns : Runs p outDir (mss ++ [ms]) d)
    (hkept : ∀ ms' ∈ mss, ∀ x ∈ ms', x.dirName ∈ ms.map Migration.dirName)
    (hne : ms ≠ []) (hnames : ReadsNames readName)
    (hms : ∀ m ∈ ms, Plain m ∧ Legible p readName m) :
    ∃ ms' g, readMigrations d (treeDir outDir .postgres) = .ok ms' ∧
      generate p ms' = .ok g ∧ generate p ms = .ok g := by
  obtain ⟨g, before, -, hg, -⟩ := Runs.last hruns
  exact ⟨_, g, tree_read hruns hkept hne hg, generate_asRead hnames hg hms, hg⟩

end Tree

/-! ## One table, regenerated -/

/-- The types that the Postgres names of the table stand for. -/
def readNative : String → DataType
  | "UUID" => .uuid
  | "TIMESTAMPTZ" => .timestamp none .tz
  | "JSONB" => .jsonb
  | "BYTEA" => .bytea
  | "NUMERIC" => .numeric .none
  | "TEXT" => .text
  | "SMALLINT" => .smallInt none
  | "INTEGER" => .integer none
  | "BIGINT" => .bigInt none
  | "REAL" => .real
  | "BOOLEAN" => .boolean
  | name => .other name

theorem readNative_reads : ReadsNames readNative := by
  intro dt row hrow
  cases dt <;> cases hrow <;> rfl

/-- It knows the statement as it is written and as the tree has it. -/
def regenerationParser : Sqlparser := stretchParser
  [("CREATETABLEone(aINT)", tableStatement "one"),
    ("CREATETABLEone(aINTEGER)",
      createTable (bare "one") [col "a" (.integer none) []] [])]

theorem one_legible : Plain (tableMigration "one") ∧
    Legible regenerationParser readNative (tableMigration "one") := by
  refine ⟨by decide +kernel, fun stmts hstmts => ?_⟩
  have hone : migrationStatements regenerationParser (tableMigration "one")
      = .ok [tableStatement "one"] := by decide +kernel
  rw [Except.ok.inj (hstmts.symm.trans hone)]
  exact ⟨by decide +kernel, by decide +kernel, fun _ => by decide +kernel⟩

theorem tree_regenerates_of_one :
    ∃ d ms' g, readMigrations d (treeDir generated .postgres) = .ok ms' ∧
      generate regenerationParser ms' = .ok g ∧
      generate regenerationParser [tableMigration "one"] = .ok g := by
  have hstart : Runs regenerationParser generated [] [] := by
    refine .start fun q hq => get_of_ne ?_
    rintro rfl
    exact hq.not_above List.nil_prefix
  obtain ⟨⟨n, d⟩, hd⟩ := exists_ok_of_isOk
    (x := run regenerationParser ["schema", "migrations"] generated
      (withSchema ["one"] [])) (by decide +kernel)
  have hruns : Runs regenerationParser generated ([] ++ [[tableMigration "one"]])
      d := .run hstart (fun _ hq => get_withSchema (by decide) [] hq)
        (by decide +kernel) hd
  have hall : ∀ m ∈ [tableMigration "one"],
      Plain m ∧ Legible regenerationParser readNative m := by
    rw [List.forall_mem_singleton]
    exact one_legible
  obtain ⟨ms', g, hread, hg', hg⟩ := tree_regenerates hruns
    (fun _ hms' => absurd hms' List.not_mem_nil) (List.cons_ne_nil _ _)
    readNative_reads hall
  exact ⟨d, ms', g, hread, hg', hg⟩

end DualdbRegeneration
