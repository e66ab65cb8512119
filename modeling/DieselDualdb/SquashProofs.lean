import DieselDualdb.SegmentProofs
import DieselDualdb.RewriteProofs
import DieselDualdb.SqlText
import DieselDualdb.Lib.Pointwise

/-!
# Squashing two migrations

Two adjacent migrations are replaced by one whose script is theirs with a
newline between them.  Where the scripts meet, the shared lines that end the
first and those that start the second become one chunk; either may be blank,
and either may stop at a block.  `segment_squash` is the homomorphism law of
the segmenter: everything before and after the meeting run is as it was.

That the meeting run parses to the statements of its two halves is assumed of
`sqlparser` (`Splits`), for chunks that end in `;` and up to whitespace around
them.  Then the statements of the squashed migration are the two lists in a
row, and with them the model, both trees and the derived scripts
(`squash_preserves`).
-/

namespace DualdbSquash

open DualdbAst DualdbTypeMap DualdbModel DualdbRender DualdbMigration
open DualdbSegment DualdbRewrite DualdbSqlText FallibleRun Pointwise RustStr

/-! ## The meeting run -/

/-- The shared buffer after the first script with a newline at its end. -/
theorem closed_state {s t : String} {done : List Segment} {shared : String}
    (h : (lines s).foldlM segmentLine ⟨[], "", none⟩
      = .ok ⟨done, shared, none⟩) :
    ∃ ls shared', lines (s ++ "\n" ++ t) = ls ++ lines t ∧
      ls.foldlM segmentLine ⟨[], "", none⟩ = .ok ⟨done, shared', none⟩ ∧
      trim shared' = trim shared := by
  obtain ⟨front, last, hopen, hclosed⟩ := lines_append_newline s t
  have hlines : lines (s ++ "\n" ++ t)
      = (front ++ [closedLine last]) ++ lines t := by
    rw [hclosed, List.append_assoc]
    rfl
  rw [hopen] at h
  obtain ⟨shared', hstate, htrim⟩ := (sameState_closed front last).1 h
  exact ⟨_, shared', hlines, hstate, htrim⟩

/-- **THE SEGMENTER ON TWO SCRIPTS IN A ROW**: the segments of both, with the
    run that ends the first and the run that starts the second made one. -/
theorem segment_squash {s t : String} {segs segs' : List Segment}
    (hs : segment s = .ok segs) (ht : segment t = .ok segs') :
    ∃ front shared shared' run back, segs = front ++ sharedRun shared ∧
      segs' = sharedRun run ++ back ∧ trim shared' = trim shared ∧
      segment (s ++ "\n" ++ t)
        = .ok (front ++ sharedRun (shared' ++ run) ++ back) := by
  obtain ⟨front, shared, hstate, hsegs⟩ := segment_ok_state.mp hs
  obtain ⟨L, hL, hsegs'⟩ := segment_ok.mp ht
  obtain ⟨ls, shared', hlines, hclosed, hsame⟩ := closed_state (t := t) hstate
  refine ⟨front, shared, shared', textOf L.before,
    L.blocks.flatMap Block.segments, hsegs, ?_, hsame, ?_⟩
  · rw [hsegs', Layout.segments, Layout.segmentsFrom, String.empty_append]
  · rw [segment_eq_scan, hlines]
    refine scan_append.mpr ⟨_, hclosed, ((scan_ok (lines t)).1 _ _ _).mpr
      ⟨L, hL, ?_⟩⟩
    rw [Layout.segmentsFrom, List.append_assoc]

/-! ## The statements of the meeting run -/

/-- What is assumed of the parser: whitespace around a text does not matter,
    and `Terminated` texts (a last `;`, then whitespace) parse one by one. -/
structure Splits (p : Sqlparser) (Terminated : String → Prop) : Prop where
  trimmed : ∀ s t, trim s = trim t →
    ∀ stmts, p.parseSql s = .ok stmts → p.parseSql t = .ok stmts
  terminated : ∀ s t, trim s = trim t → Terminated s → Terminated t
  append : ∀ s t, Terminated s → Terminated t → ∀ stmts,
    p.parseSql (s ++ t) = .ok stmts ↔ ∃ l r, p.parseSql s = .ok l ∧
      p.parseSql t = .ok r ∧ stmts = l ++ r

theorem sharedRun_of_blank {text : String} (h : (trim text).isEmpty = true) :
    sharedRun text = [] :=
  if_pos h

theorem sharedRun_of_not_blank {text : String}
    (h : ¬ (trim text).isEmpty = true) : sharedRun text = [.shared text] :=
  if_neg h

theorem statements_of_blank {p : Sqlparser} {text : String}
    {stmts : List Statement} (h : (trim text).isEmpty = true) :
    sharedStatements p (sharedRun text) = .ok stmts ↔ stmts = [] := by
  rw [sharedRun_of_blank h]
  constructor
  · intro hs
    exact (Except.ok.inj hs).symm
  · rintro rfl
    rfl

theorem statements_of_not_blank {p : Sqlparser} {text : String}
    {stmts : List Statement} (h : ¬ (trim text).isEmpty = true) :
    sharedStatements p (sharedRun text) = .ok stmts ↔
      p.parseSql text = .ok stmts := by
  rw [sharedRun_of_not_blank h, sharedStatements_cons_ok]
  constructor
  · rintro ⟨chunk, rest, hc, hrest, rfl⟩
    have hnil : rest = [] := (Except.ok.inj hrest).symm
    rw [hnil, List.append_nil]
    exact mapError_ok.mp hc
  · intro hparse
    exact ⟨stmts, [], mapError_ok.mpr hparse, rfl, (List.append_nil _).symm⟩

/-- **THE MEETING RUN HOLDS BOTH HALVES' STATEMENTS.**  The cases are which of
    the halves is blank: a blank half is no chunk of its own, and only
    whitespace in the meeting one. -/
theorem statements_run {p : Sqlparser} {T : String → Prop} (hp : Splits p T)
    {shared shared' run : String} (hsame : trim shared' = trim shared)
    (hT : ¬ (trim shared).isEmpty = true → T shared)
    (hT' : ¬ (trim run).isEmpty = true → T run) {stmts : List Statement} :
    sharedStatements p (sharedRun (shared' ++ run)) = .ok stmts ↔
      ∃ l r, sharedStatements p (sharedRun shared) = .ok l ∧
        sharedStatements p (sharedRun run) = .ok r ∧ stmts = l ++ r := by
  have htrim := hsame.symm
  by_cases hs : (trim shared).isEmpty = true
  · have hblank : shared'.toList.all isWhitespace = true := by
      rw [← trim_isEmpty, ← htrim]
      exact hs
    -- the left text is blank, so the run is parsed alone
    have hrun := trim_blank_append run hblank
    have hsplit : (∃ l r, sharedStatements p (sharedRun shared) = .ok l ∧
        sharedStatements p (sharedRun run) = .ok r ∧ stmts = l ++ r) ↔
          sharedStatements p (sharedRun run) = .ok stmts := by
      simp only [statements_of_blank hs]
      constructor
      · rintro ⟨l, r, rfl, hr, rfl⟩
        exact hr
      · intro hr
        exact ⟨[], stmts, rfl, hr, rfl⟩
    rw [hsplit]
    by_cases hr : (trim run).isEmpty = true
    · rw [statements_of_blank hr, statements_of_blank (by rw [hrun]; exact hr)]
    · rw [statements_of_not_blank hr,
        statements_of_not_blank (by rw [hrun]; exact hr)]
      exact ⟨hp.trimmed _ _ hrun stmts, hp.trimmed _ _ hrun.symm stmts⟩
  · have hs' : ¬ (trim shared').isEmpty = true := by rw [← htrim]; exact hs
    by_cases hr : (trim run).isEmpty = true
    · have hblank : run.toList.all isWhitespace = true := by
        rw [← trim_isEmpty]
        exact hr
      -- the run is blank, so the left text is parsed alone
      have hrun := (trim_append_blank shared' hblank).trans htrim.symm
      have hsplit : (∃ l r, sharedStatements p (sharedRun shared) = .ok l ∧
          sharedStatements p (sharedRun run) = .ok r ∧ stmts = l ++ r) ↔
            sharedStatements p (sharedRun shared) = .ok stmts := by
        simp only [statements_of_blank hr]
        constructor
        · rintro ⟨l, r, hl, rfl, rfl⟩
          rw [List.append_nil]
          exact hl
        · intro hl
          exact ⟨stmts, [], hl, rfl, (List.append_nil _).symm⟩
      rw [hsplit, statements_of_not_blank hs,
        statements_of_not_blank (by rw [hrun]; exact hs)]
      exact ⟨hp.trimmed _ _ hrun stmts, hp.trimmed _ _ hrun.symm stmts⟩
    · -- both have text: the parser splits where the first one ends
      have hboth : ¬ (trim (shared' ++ run)).isEmpty = true := by
        rw [trim_isEmpty, String.toList_append, List.all_append,
          ← trim_isEmpty, Bool.and_eq_true]
        exact fun h => hs' h.1
      have hparse : ∀ l, p.parseSql shared' = .ok l ↔
          p.parseSql shared = .ok l := fun l =>
        ⟨hp.trimmed _ _ htrim.symm l, hp.trimmed _ _ htrim l⟩
      rw [statements_of_not_blank hboth,
        hp.append _ _ (hp.terminated _ _ htrim (hT hs)) (hT' hr)]
      simp only [statements_of_not_blank hs, statements_of_not_blank hr, hparse]

/-! ## What a list of segments reads as -/

/-- The statements of the segments, and the pieces they contribute to `b`'s
    script. -/
def Reads (p : Sqlparser) (b : Backend) (segs : List Segment)
    (stmts : List Statement) (ps : List Piece) : Prop :=
  ∃ chunks, Chunks p segs chunks ∧ stmts = chunks.flatten ∧
    ps = pieces b segs chunks

theorem reads_append {p : Sqlparser} {b : Backend} {segs segs' : List Segment}
    {stmts : List Statement} {ps : List Piece} :
    Reads p b (segs ++ segs') stmts ps ↔
      ∃ sl pl sr pr, Reads p b segs sl pl ∧ Reads p b segs' sr pr ∧
        stmts = sl ++ sr ∧ ps = pl ++ pr := by
  constructor
  · rintro ⟨chunks, hchunks, rfl, rfl⟩
    obtain ⟨l, r, hl, hr, rfl⟩ := forall₂_append_iff.mp hchunks
    refine ⟨_, _, _, _, ⟨l, hl, rfl, rfl⟩, ⟨r, hr, rfl, rfl⟩,
      List.flatten_append, ?_⟩
    rw [pieces, List.zipWith_append hl.length_eq, List.flatten_append]
    rfl
  · rintro ⟨_, _, _, _, ⟨l, hl, rfl, rfl⟩, ⟨r, hr, rfl, rfl⟩, rfl, rfl⟩
    refine ⟨l ++ r, forall₂_append_iff.mpr ⟨l, r, hl, hr, rfl⟩,
      List.flatten_append.symm, ?_⟩
    rw [pieces, pieces, pieces, List.zipWith_append hl.length_eq,
      List.flatten_append]

/-- The pieces of a shared run are its rewritten statements. -/
theorem reads_sharedRun {p : Sqlparser} {b : Backend} {text : String}
    {stmts : List Statement} {ps : List Piece} :
    Reads p b (sharedRun text) stmts ps ↔
      sharedStatements p (sharedRun text) = .ok stmts ∧
        ps = stmts.map fun s => .statement (withNative b s) := by
  rw [sharedStatements_ok, Reads]
  -- a run is one segment, or none when it is blank
  have hpieces : ∀ chunks, Chunks p (sharedRun text) chunks →
      pieces b (sharedRun text) chunks
        = chunks.flatten.map fun s => .statement (withNative b s) := by
    intro chunks hchunks
    by_cases h : (trim text).isEmpty = true
    · rw [sharedRun_of_blank h] at hchunks ⊢
      cases hchunks
      rfl
    · rw [sharedRun_of_not_blank h] at hchunks ⊢
      cases hchunks with
      | cons _ hnil =>
          cases hnil
          simp [pieces, segmentPieces]
  constructor
  · rintro ⟨chunks, hchunks, hstmts, hps⟩
    rw [hps, hstmts]
    exact ⟨⟨chunks, hchunks, rfl⟩, hpieces chunks hchunks⟩
  · rintro ⟨⟨chunks, hchunks, hstmts⟩, hps⟩
    rw [← hstmts] at hps
    exact ⟨chunks, hchunks, hstmts.symm,
      hps.trans (hpieces chunks hchunks).symm⟩

/-- **THE SQUASHED SEGMENTS READ AS BOTH LISTS IN A ROW.** -/
theorem reads_squash {p : Sqlparser} {T : String → Prop} (hp : Splits p T)
    {b : Backend} {front back : List Segment} {shared shared' run : String}
    (hsame : trim shared' = trim shared)
    (hT : ¬ (trim shared).isEmpty = true → T shared)
    (hT' : ¬ (trim run).isEmpty = true → T run) {stmts : List Statement}
    {ps : List Piece} :
    Reads p b (front ++ sharedRun (shared' ++ run) ++ back) stmts ps ↔
      ∃ sl pl sr pr, Reads p b (front ++ sharedRun shared) sl pl ∧
        Reads p b (sharedRun run ++ back) sr pr ∧ stmts = sl ++ sr ∧
        ps = pl ++ pr := by
  simp only [reads_append, reads_sharedRun, statements_run hp hsame hT hT']
  constructor
  · rintro ⟨_, _, sk, pk, ⟨sf, pf, _, _, hf, ⟨⟨l, r, hl, hr, rfl⟩, rfl⟩, rfl,
      rfl⟩, hk, rfl, rfl⟩
    refine ⟨_, _, _, _, ⟨sf, pf, l, _, hf, ⟨hl, rfl⟩, rfl, rfl⟩,
      ⟨r, _, sk, pk, ⟨hr, rfl⟩, hk, rfl, rfl⟩, ?_, ?_⟩
    · simp only [List.append_assoc]
    · simp only [List.map_append, List.append_assoc]
  · rintro ⟨_, _, _, _, ⟨sf, pf, l, _, hf, ⟨hl, rfl⟩, rfl, rfl⟩,
      ⟨r, _, sk, pk, ⟨hr, rfl⟩, hk, rfl, rfl⟩, rfl, rfl⟩
    refine ⟨_, _, sk, pk, ⟨sf, pf, l ++ r, _, hf, ⟨⟨l, r, hl, hr, rfl⟩, rfl⟩,
      rfl, rfl⟩, hk, ?_, ?_⟩
    · simp only [List.append_assoc]
    · simp only [List.map_append, List.append_assoc]

/-! ## Two migrations and one -/

/-- Every shared chunk of the migration is `Terminated`. -/
def ChunksTerminated (Terminated : String → Prop) (m : Migration) : Prop :=
  ∃ segs, segment m.upSql = .ok segs ∧
    ∀ sql, Segment.shared sql ∈ segs → Terminated sql

/-- `ab` is `a` and `b` squashed into one. -/
structure Squashed (Terminated : String → Prop) (a b ab : Migration) :
    Prop where
  first : ChunksTerminated Terminated a
  second : ChunksTerminated Terminated b
  first_down : a.downSql = none
  second_down : b.downSql = none
  up : ab.upSql = a.upSql ++ "\n" ++ b.upSql
  down : ab.downSql = none

/-- Both scripts in a row, or the one that is not empty. -/
def Joined (sep x y z : String) : Prop :=
  z = x ++ sep ++ y ∨ (x = "" ∧ z = y) ∨ (y = "" ∧ z = x)

theorem joined_join (sep : String) (xs ys : List String) :
    Joined sep (join sep xs) (join sep ys) (join sep (xs ++ ys)) := by
  by_cases hx : xs = []
  · rw [hx]
    exact Or.inr (Or.inl ⟨rfl, rfl⟩)
  by_cases hy : ys = []
  · rw [hy, List.append_nil]
    exact Or.inr (Or.inr ⟨rfl, rfl⟩)
  · exact Or.inl (join_append hx hy)

theorem mem_sharedRun {text : String} (h : ¬ (trim text).isEmpty = true) :
    Segment.shared text ∈ sharedRun text := by
  rw [sharedRun_of_not_blank h]
  exact List.mem_singleton.mpr rfl

/-- The three lists of segments, and what the squashed one reads as. -/
theorem Squashed.reads {p : Sqlparser} {T : String → Prop} (hp : Splits p T)
    {a b ab : Migration} (h : Squashed T a b ab) :
    ∃ sa sb sab, segment a.upSql = .ok sa ∧ segment b.upSql = .ok sb ∧
      segment ab.upSql = .ok sab ∧ ∀ c stmts ps, Reads p c sab stmts ps ↔
        ∃ sl pl sr pr, Reads p c sa sl pl ∧ Reads p c sb sr pr ∧
          stmts = sl ++ sr ∧ ps = pl ++ pr := by
  obtain ⟨sa, hsa, hTa⟩ := h.first
  obtain ⟨sb, hsb, hTb⟩ := h.second
  obtain ⟨front, shared, shared', run, back, hfront, hback, hsame, hsab⟩ :=
    segment_squash hsa hsb
  rw [← h.up] at hsab
  have hT : ¬ (trim shared).isEmpty = true → T shared := by
    intro hne
    refine hTa _ ?_
    rw [hfront]
    exact List.mem_append_right _ (mem_sharedRun hne)
  have hT' : ¬ (trim run).isEmpty = true → T run := by
    intro hne
    refine hTb _ ?_
    rw [hback]
    exact List.mem_append_left _ (mem_sharedRun hne)
  refine ⟨sa, sb, _, hsa, hsb, hsab, fun c stmts ps => ?_⟩
  rw [hfront, hback]
  exact reads_squash hp hsame hT hT'

/-- What a migration without `down.sql` renders to, by what it reads as. -/
theorem renders_reads {p : Sqlparser} {c : Backend} {m : Migration}
    {segs : List Segment} {r : RenderedMigration}
    (hsegs : segment m.upSql = .ok segs) (hdown : m.downSql = none) :
    Renders p c m r ↔ ∃ stmts ps, Reads p c segs stmts ps ∧
      StatementsMapped stmts ∧ r = ⟨m.dirName,
        join "\n\n" (ps.map (Piece.text p)), join "\n" (dropLines stmts)⟩ := by
  constructor
  · intro h
    obtain ⟨segs', chunks, down, hsegs', hchunks, -, hmapped, hd, rfl⟩ :=
      renders_chunks h
    cases Except.ok.inj (hsegs.symm.trans hsegs')
    rw [migrationDown, hdown] at hd
    rw [Except.ok.inj (hd.symm.trans (deriveDown_ok hchunks))]
    exact ⟨_, _, ⟨chunks, hchunks, rfl, rfl⟩, hmapped, rfl⟩
  · rintro ⟨_, _, ⟨chunks, hchunks, rfl, rfl⟩, hmapped, rfl⟩
    refine ⟨segs, _, _, hsegs, renderUp_ok.mpr ⟨chunks, hchunks, hmapped, rfl⟩,
      ?_, rfl⟩
    rw [migrationDown, hdown]
    exact deriveDown_ok hchunks

/-- The rendered migration of the squashed script, from the two others. -/
structure Merged (ab : Migration) (ra rb rab : RenderedMigration) : Prop where
  dirName : rab.dirName = ab.dirName
  up : Joined "\n\n" ra.upSql rb.upSql rab.upSql
  down : Joined "\n" rb.downSql ra.downSql rab.downSql

/-- **ONE TREE**: the squashed migration renders exactly when both do, to their
    scripts in a row, the derived ones the other way round. -/
theorem Squashed.renders {p : Sqlparser} {T : String → Prop} (hp : Splits p T)
    {a b ab : Migration} (h : Squashed T a b ab) {c : Backend}
    {rab : RenderedMigration} :
    Renders p c ab rab → ∃ ra rb, Renders p c a ra ∧ Renders p c b rb ∧
      Merged ab ra rb rab := by
  obtain ⟨sa, sb, sab, hsa, hsb, hsab, hreads⟩ := h.reads hp
  rw [renders_reads hsab h.down]
  rintro ⟨stmts, ps, hread, hmapped, rfl⟩
  obtain ⟨sl, pl, sr, pr, hl, hr, rfl, rfl⟩ := (hreads c _ _).mp hread
  obtain ⟨hml, hmr⟩ := List.forall_mem_append.mp hmapped
  refine ⟨_, _, (renders_reads hsa h.first_down).mpr ⟨sl, pl, hl, hml, rfl⟩,
    (renders_reads hsb h.second_down).mpr ⟨sr, pr, hr, hmr, rfl⟩, rfl, ?_, ?_⟩
  · rw [List.map_append]
    exact joined_join _ _ _
  · rw [dropLines_append]
    exact joined_join _ _ _

theorem Squashed.renders_both {p : Sqlparser} {T : String → Prop}
    (hp : Splits p T) {a b ab : Migration} (h : Squashed T a b ab)
    {c : Backend} {ra rb : RenderedMigration} (ha : Renders p c a ra)
    (hb : Renders p c b rb) : ∃ rab, Renders p c ab rab := by
  obtain ⟨sa, sb, sab, hsa, hsb, hsab, hreads⟩ := h.reads hp
  obtain ⟨sl, pl, hl, hml, -⟩ := (renders_reads hsa h.first_down).mp ha
  obtain ⟨sr, pr, hr, hmr, -⟩ := (renders_reads hsb h.second_down).mp hb
  exact ⟨_, (renders_reads hsab h.down).mpr ⟨_, _,
    (hreads c _ _).mpr ⟨sl, pl, sr, pr, hl, hr, rfl, rfl⟩,
    List.forall_mem_append.mpr ⟨hml, hmr⟩, rfl⟩⟩

/-- The statements of a script are what it reads as, in either tree. -/
theorem statements_reads {p : Sqlparser} {segs : List Segment} (c : Backend)
    {stmts : List Statement} :
    sharedStatements p segs = .ok stmts ↔ ∃ ps, Reads p c segs stmts ps := by
  rw [sharedStatements_ok]
  constructor
  · rintro ⟨chunks, hchunks, rfl⟩
    exact ⟨_, chunks, hchunks, rfl, rfl⟩
  · rintro ⟨_, chunks, hchunks, rfl, -⟩
    exact ⟨chunks, hchunks, rfl⟩

theorem migrationStatements_iff {p : Sqlparser} {m : Migration}
    {segs : List Segment} (hsegs : segment m.upSql = .ok segs)
    {stmts : List Statement} :
    migrationStatements p m = .ok stmts ↔
      sharedStatements p segs = .ok stmts := by
  rw [migrationStatements, hsegs]
  rfl

/-- **ONE MODEL**: the squashed migration has the two lists of statements. -/
theorem Squashed.statements {p : Sqlparser} {T : String → Prop}
    (hp : Splits p T) {a b ab : Migration} (h : Squashed T a b ab)
    {stmts : List Statement} :
    migrationStatements p ab = .ok stmts ↔
      ∃ l r, migrationStatements p a = .ok l ∧
        migrationStatements p b = .ok r ∧ stmts = l ++ r := by
  obtain ⟨sa, sb, sab, hsa, hsb, hsab, hreads⟩ := h.reads hp
  simp only [migrationStatements_iff hsa, migrationStatements_iff hsb,
    migrationStatements_iff hsab, statements_reads .postgres, hreads]
  constructor
  · rintro ⟨_, sl, pl, sr, pr, hl, hr, rfl, rfl⟩
    exact ⟨sl, sr, ⟨pl, hl⟩, ⟨pr, hr⟩, rfl⟩
  · rintro ⟨sl, sr, ⟨pl, hl⟩, ⟨pr, hr⟩, rfl⟩
    exact ⟨_, sl, pl, sr, pr, hl, hr, rfl, rfl⟩

/-! ## The whole history -/

theorem forall₂_middle {α β : Type} {R : α → β → Prop} {as xs bs : List α}
    {cs : List β} :
    List.Forall₂ R (as ++ xs ++ bs) cs ↔
      ∃ l m r, List.Forall₂ R as l ∧ List.Forall₂ R xs m ∧
        List.Forall₂ R bs r ∧ cs = l ++ m ++ r := by
  simp only [forall₂_append_iff]
  constructor
  · rintro ⟨_, r, ⟨l, m, hl, hm, rfl⟩, hr, rfl⟩
    exact ⟨l, m, r, hl, hm, hr, rfl⟩
  · rintro ⟨l, m, r, hl, hm, hr, rfl⟩
    exact ⟨_, r, ⟨l, m, hl, hm, rfl⟩, hr, rfl⟩

variable {p : Sqlparser} {T : String → Prop} {a b ab : Migration}

theorem Squashed.finalModel (hp : Splits p T) (h : Squashed T a b ab)
    (pre post : List Migration) {m : Model} :
    finalModel p (pre ++ [a, b] ++ post) = .ok m ↔
      finalModel p (pre ++ [ab] ++ post) = .ok m := by
  have hmiddle : ∀ stmts, allStatements p [a, b] = .ok stmts ↔
      allStatements p [ab] = .ok stmts := by
    intro stmts
    simp only [allStatements_cons_ok, h.statements hp]
    constructor
    · rintro ⟨l, _, hl, ⟨r, rest, hr, hrest, rfl⟩, rfl⟩
      exact ⟨l ++ r, rest, ⟨l, r, hl, hr, rfl⟩, hrest,
        (List.append_assoc l r rest).symm⟩
    · rintro ⟨_, rest, ⟨l, r, hl, hr, rfl⟩, hrest, rfl⟩
      exact ⟨l, r ++ rest, hl, ⟨r, rest, hr, hrest, rfl⟩,
        List.append_assoc l r rest⟩
  simp only [DualdbMigration.finalModel, bind_ok, allStatements_append_ok,
    hmiddle]

/-- The trees of the two histories differ where the migrations were. -/
theorem Squashed.tree (hp : Splits p T) (h : Squashed T a b ab)
    {pre post : List Migration} {c : Backend} {rs : List RenderedMigration}
    (hrs : List.Forall₂ (Renders p c) (pre ++ [ab] ++ post) rs) :
    ∃ before ra rb rab after, List.Forall₂ (Renders p c) pre before ∧
      List.Forall₂ (Renders p c) (pre ++ [a, b] ++ post)
        (before ++ [ra, rb] ++ after) ∧
      rs = before ++ [rab] ++ after ∧ Merged ab ra rb rab := by
  obtain ⟨before, mid, after, hpre, hmid, hpost, rfl⟩ :=
    forall₂_middle.mp hrs
  cases hmid with
  | cons hab hnil =>
      cases hnil
      obtain ⟨ra, rb, ha, hb, hmerged⟩ := h.renders hp hab
      exact ⟨before, ra, rb, _, after, hpre, forall₂_middle.mpr ⟨before,
        [ra, rb], after, hpre, .cons ha (.cons hb .nil), hpost, rfl⟩, rfl,
        hmerged⟩

theorem Squashed.tree_both (hp : Splits p T) (h : Squashed T a b ab)
    {pre post : List Migration} {c : Backend} {rs : List RenderedMigration}
    (hrs : List.Forall₂ (Renders p c) (pre ++ [a, b] ++ post) rs) :
    ∃ rs', List.Forall₂ (Renders p c) (pre ++ [ab] ++ post) rs' := by
  obtain ⟨before, mid, after, hpre, hmid, hpost, -⟩ := forall₂_middle.mp hrs
  cases hmid with
  | cons ha hrest =>
      cases hrest with
      | cons hb hnil =>
          obtain ⟨rab, hab⟩ := h.renders_both hp ha hb
          exact ⟨_, forall₂_middle.mpr ⟨before, [rab], after, hpre,
            .cons hab .nil, hpost, rfl⟩⟩

/-- **SQUASHING PRESERVES THE RESULT**: the histories are accepted together,
    print the same `schema.rs`, and their trees differ in one place, where the
    squashed migration has the two up scripts in a row and the two derived
    down scripts in the opposite order. -/
theorem squash_preserves (hp : Splits p T) (h : Squashed T a b ab)
    (pre post : List Migration) :
    ((∃ g, generate p (pre ++ [a, b] ++ post) = .ok g) ↔
      ∃ g, generate p (pre ++ [ab] ++ post) = .ok g) ∧
    ∀ g g', generate p (pre ++ [a, b] ++ post) = .ok g →
      generate p (pre ++ [ab] ++ post) = .ok g' →
      g'.schemaRs = g.schemaRs ∧ ∀ c, ∃ before ra rb rab after,
        g.tree c = before ++ [ra, rb] ++ after ∧
        g'.tree c = before ++ [rab] ++ after ∧
        before.length = pre.length ∧ Merged ab ra rb rab := by
  refine ⟨⟨?_, ?_⟩, ?_⟩
  · rintro ⟨g, hg⟩
    obtain ⟨m, hm, hschema, hpg, hsq⟩ := generate_ok.mp hg
    -- both trees of the squashed list from those of the pair
    obtain ⟨pgs, hpgs⟩ := h.tree_both hp hpg
    obtain ⟨sqs, hsqs⟩ := h.tree_both hp hsq
    exact ⟨⟨pgs, sqs, g.schemaRs⟩, generate_ok.mpr
      ⟨m, (h.finalModel hp pre post).mp hm, hschema, hpgs, hsqs⟩⟩
  · rintro ⟨g, hg⟩
    obtain ⟨m, hm, hschema, hpg, hsq⟩ := generate_ok.mp hg
    -- and back, tree by tree
    obtain ⟨before, ra, rb, -, after, -, hpgs, -, -⟩ := h.tree hp hpg
    obtain ⟨before', ra', rb', -, after', -, hsqs, -, -⟩ := h.tree hp hsq
    exact ⟨⟨before ++ [ra, rb] ++ after, before' ++ [ra', rb'] ++ after',
      g.schemaRs⟩, generate_ok.mpr
        ⟨m, (h.finalModel hp pre post).mpr hm, hschema, hpgs, hsqs⟩⟩
  · intro g g' hg hg'
    obtain ⟨m, hm, hschema, -, -⟩ := generate_ok.mp hg
    obtain ⟨m', hm', hschema', -, -⟩ := generate_ok.mp hg'
    constructor
    · have hm'' := (h.finalModel hp pre post).mp hm
      rw [Except.ok.inj (hm''.symm.trans hm')] at hschema
      exact Except.ok.inj (hschema'.symm.trans hschema)
    · intro c
      obtain ⟨before, ra, rb, rab, after, hpre, htree, htree', hmerged⟩ :=
        h.tree hp (generate_tree hg' c)
      exact ⟨before, ra, rb, rab, after,
        trees_unique htree (generate_tree hg c), htree',
        hpre.length_eq.symm, hmerged⟩

/-! ## Runs -/

def endsInSemicolon (s : String) : Prop := (visible s).getLast? = some ';'

instance : DecidablePred endsInSemicolon := fun s =>
  decidable_of_iff ((visible s).getLast? = some ';') Iff.rfl

theorem stretchParser_splits (known : List (String × Statement)) :
    Splits (stretchParser known) endsInSemicolon := by
  refine ⟨?_, ?_, ?_⟩
  · intro s t h stmts hs
    simp only [stretchParser] at hs ⊢
    rw [← visible_eq_of_trim_eq h]
    exact hs
  · intro s t h hs
    rw [endsInSemicolon, ← visible_eq_of_trim_eq h]
    exact hs
  · intro s t hs _ stmts
    have happend : visible (s ++ t) = visible s ++ visible t := by
      rw [visible, String.toList_append, List.filter_append]
      rfl
    simp only [stretchParser, happend, stretches_append _ hs, List.map_append,
      Except.ok.injEq]
    constructor
    · rintro rfl
      exact ⟨_, _, rfl, rfl, rfl⟩
    · rintro ⟨_, _, rfl, rfl, rfl⟩
      rfl

def squashParser : Sqlparser := stretchParser
  [("CREATETABLEt(aINT)", createTable (bare "t") [col "a" (.int none) []] []),
    ("CREATETABLEu(bINT)", createTable (bare "u") [col "b" (.int none) []] [])]

def createT : Migration := ⟨"1", "CREATE TABLE t (a INT);", none⟩

/-- It starts with a shared statement, after a blank line, and stops at a
    block. -/
def createU : Migration :=
  ⟨"2", "\nCREATE TABLE u (b INT);\n-- dualdb:sqlite\nVACUUM\n-- dualdb:end",
    none⟩

def createBoth : Migration :=
  ⟨"1", createT.upSql ++ "\n" ++ createU.upSql, none⟩

theorem squash_preserves_of_two :
    ∃ g g', generate squashParser ([] ++ [createT, createU] ++ []) = .ok g ∧
      generate squashParser ([] ++ [createBoth] ++ []) = .ok g' ∧
      g'.schemaRs = g.schemaRs := by
  have hT : segment createT.upSql
      = .ok [.shared "CREATE TABLE t (a INT);\n"] := by decide +kernel
  have hU : segment createU.upSql
      = .ok [.shared "\nCREATE TABLE u (b INT);\n",
        .tagged .sqlite "VACUUM\n"] := by decide +kernel
  have hsquashed : Squashed endsInSemicolon createT createU createBoth := by
    refine ⟨⟨_, hT, ?_⟩, ⟨_, hU, ?_⟩, rfl, rfl, rfl, rfl⟩
    · intro sql hsql
      rw [Segment.shared.inj (List.mem_singleton.mp hsql)]
      decide +kernel
    · intro sql hsql
      rcases List.mem_cons.mp hsql with hsql | hsql
      · rw [Segment.shared.inj hsql]
        decide +kernel
      · cases List.mem_singleton.mp hsql
  obtain ⟨g, hg⟩ := exists_ok_of_isOk
    (x := generate squashParser ([] ++ [createT, createU] ++ []))
    (by decide +kernel)
  have hsplits : Splits squashParser endsInSemicolon := stretchParser_splits _
  have hsquash := squash_preserves hsplits hsquashed [] []
  obtain ⟨g', hg'⟩ := hsquash.1.mp ⟨g, hg⟩
  exact ⟨g, g', hg, hg', (hsquash.2 g g' hg hg').1⟩

/-- A block that is opened in one migration and closed in the next. -/
def opensBlock : Migration :=
  ⟨"1", "CREATE TABLE t (a INT);\n-- dualdb:sqlite\nVACUUM", none⟩

def closesBlock : Migration :=
  ⟨"2", "-- dualdb:end\nCREATE TABLE u (b INT);", none⟩

def closedBlock : Migration :=
  ⟨"1", opensBlock.upSql ++ "\n" ++ closesBlock.upSql, none⟩

/-- **TWO HALVES OF A BLOCK** are refused, squashed they are accepted; every
    shared chunk ends in `;`. -/
theorem two_halves_of_a_block :
    closedBlock.upSql = opensBlock.upSql ++ "\n" ++ closesBlock.upSql ∧
      segment closedBlock.upSql = .ok [.shared "CREATE TABLE t (a INT);\n",
        .tagged .sqlite "VACUUM\n", .shared "CREATE TABLE u (b INT);\n"] ∧
      endsInSemicolon "CREATE TABLE t (a INT);\n" ∧
      endsInSemicolon "CREATE TABLE u (b INT);\n" ∧
      (∃ g, generate squashParser ([] ++ [closedBlock] ++ []) = .ok g) ∧
      ¬ ∃ g, generate squashParser ([] ++ [opensBlock, closesBlock] ++ [])
        = .ok g := by
  refine ⟨rfl, by decide +kernel, by decide +kernel, by decide +kernel, ?_, ?_⟩
  · exact exists_ok_of_isOk (by decide +kernel)
  · rintro ⟨g, hg⟩
    obtain ⟨m, hm, -, -, -⟩ := generate_ok.mp hg
    have hrefused : (finalModel squashParser ([] ++ [opensBlock, closesBlock]
        ++ [])).toOption = none := by
      decide +kernel
    rw [hm] at hrefused
    cases hrefused

end DualdbSquash
