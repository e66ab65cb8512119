import DieselDualdb.SegmentProofs
import DieselDualdb.RewriteProofs
import DieselDualdb.SqlText
import DieselDualdb.TypeLeakProofs
import DieselDualdb.Lib.Pointwise

/-!
# Down scripts that a migration supplies

`up.sql` is segmented, parsed and rewritten for each backend; a `down.sql` is
copied to both trees.  To a database the directive lines of the copy are
comments, so it runs the blocks of both backends (`filePieces`), and the types
are the logical ones.

`DownRight` is what an emitted down script should hold: the pieces that the
up path makes of the script, with every type rewritten (`wantedPieces`).  The copy
holds them exactly for the scripts that need no translation
(`down_scripts_right_iff`).
-/

namespace DualdbDownScript

open DualdbAst DualdbTypeMap DualdbModel DualdbMigration DualdbSegment
open DualdbRewrite DualdbTypeLeak DualdbSqlText FallibleRun Pointwise RustStr

/-! ## What a copied script holds -/

/-- The pieces of a segment whose directive lines are read as comments. -/
def filePiece : Segment → List Statement → List Piece
  | .shared _, stmts => stmts.map .statement
  | .tagged _ raw, _ => [.block raw]

def filePieces (segs : List Segment) (chunks : List (List Statement)) :
    List Piece :=
  (List.zipWith filePiece segs chunks).flatten

/-- The statement with `b`'s native types at all positions. -/
def allNative (b : Backend) (s : Statement) : Statement :=
  mapTypes (nativeOr b) s

/-- The pieces that `b` should get of a segment. -/
def wantedPiece (b : Backend) : Segment → List Statement → List Piece
  | .shared _, stmts => stmts.map fun s => .statement (allNative b s)
  | .tagged b' raw, _ => if b' = b then [.block raw] else []

def wantedPieces (b : Backend) (segs : List Segment)
    (chunks : List (List Statement)) : List Piece :=
  (List.zipWith (wantedPiece b) segs chunks).flatten

def isBlank : Piece → Bool
  | .statement _ => false
  | .block raw => (trim raw).isEmpty

/-- The pieces that hold anything. -/
def visiblePieces (ps : List Piece) : List Piece := ps.filter (!isBlank ·)

/-- The same statement, its types printed alike. -/
structure SameStatement (p : Sqlparser) (s s' : Statement) : Prop where
  skeleton : mapTypes (fun _ => .other "") s = mapTypes (fun _ => .other "") s'
  types : (typePositions s).map p.dataTypeDisplay
    = (typePositions s').map p.dataTypeDisplay

inductive SamePiece (p : Sqlparser) : Piece → Piece → Prop where
  | statement {s s' : Statement} (h : SameStatement p s s') :
      SamePiece p (.statement s) (.statement s')
  | block {raw raw' : String} (h : trim raw = trim raw') :
      SamePiece p (.block raw) (.block raw')

/-- All types of the statements are mapped, at whatever position. -/
def PositionsMapped (stmts : List Statement) : Prop :=
  ∀ s ∈ stmts, AllMapped (typePositions s)

/-- `emitted` holds, in order, the shared statements of `down` with `b`'s native
    types and the blocks that `down` has for `b`, and nothing else; no directive is
    misplaced in `down`, and no type unmapped. -/
def DownRight (p : Sqlparser) (b : Backend) (down emitted : String) : Prop :=
  ∃ segs chunks segs' chunks', segment down = .ok segs ∧
    Chunks p segs chunks ∧ PositionsMapped chunks.flatten ∧
    segment emitted = .ok segs' ∧ Chunks p segs' chunks' ∧
    List.Forall₂ (SamePiece p) (visiblePieces (filePieces segs' chunks'))
      (visiblePieces (wantedPieces b segs chunks))

/-- Every type of the statement is mapped, and prints as `b`'s native type
    already. -/
def NativeTo (p : Sqlparser) (b : Backend) (s : Statement) : Prop :=
  ∀ dt ∈ typePositions s, ∃ row, mapType dt = some row ∧
    p.dataTypeDisplay dt = p.dataTypeDisplay (DataType.ofNative (row.native b))

/-- The script is well formed and parses, the types in it are `b`'s native types,
    and the other backend's blocks hold nothing. -/
def PortableTo (p : Sqlparser) (b : Backend) (down : String) : Prop :=
  ∃ segs chunks, segment down = .ok segs ∧ Chunks p segs chunks ∧
    (∀ s ∈ chunks.flatten, NativeTo p b s) ∧
    ∀ raw, .tagged b.other raw ∈ segs → (trim raw).isEmpty = true

/-! ## The copy has the segments of the script -/

/-- Equal up to whitespace around shared text. -/
inductive SameSegment : Segment → Segment → Prop where
  | shared {sql sql' : String} (h : trim sql = trim sql') :
      SameSegment (.shared sql) (.shared sql')
  | tagged (b : Backend) (raw : String) :
      SameSegment (.tagged b raw) (.tagged b raw)

theorem sharedRun_same {shared shared' : String}
    (h : trim shared' = trim shared) :
    List.Forall₂ SameSegment (sharedRun shared) (sharedRun shared') := by
  rw [sharedRun, sharedRun, h]
  by_cases hblank : (trim shared).isEmpty = true
  · rw [if_pos hblank, if_pos hblank]
    exact .nil
  · rw [if_neg hblank, if_neg hblank]
    exact .cons (.shared h.symm) .nil

theorem segments_same {s t : String} (h : SameState (lines s) (lines t))
    {segs : List Segment} (hs : segment s = .ok segs) :
    ∃ segs', segment t = .ok segs' ∧ List.Forall₂ SameSegment segs segs' := by
  obtain ⟨done, shared, hstate, hsegs⟩ := segment_ok_state.mp hs
  obtain ⟨shared', hstate', htrim⟩ := h.1 hstate
  refine ⟨_, segment_ok_state.mpr ⟨done, shared', hstate', rfl⟩, ?_⟩
  rw [hsegs]
  refine List.rel_append ?_ (sharedRun_same htrim)
  refine List.forall₂_same.mpr fun seg _ => ?_
  cases seg with
  | shared sql => exact .shared rfl
  | tagged b raw => exact .tagged b raw

theorem segments_trimEnd {down : String} {segs : List Segment}
    (h : segment down = .ok segs) :
    ∃ segs', segment (trimEnd down) = .ok segs' ∧
      List.Forall₂ SameSegment segs segs' := by
  obtain ⟨w, hw, hdown⟩ := trimEnd_append_blank down
  have hsame := sameState_append_blank (trimEnd down) hw
  rw [hdown] at hsame
  exact segments_same ⟨hsame.2, hsame.1⟩ h

/-- What is assumed of the parser: whitespace around a text does not matter. -/
def TrimBlind (p : Sqlparser) : Prop :=
  ∀ s t, trim s = trim t →
    ∀ stmts, p.parseSql s = .ok stmts → p.parseSql t = .ok stmts

theorem chunks_same {p : Sqlparser} (hp : TrimBlind p)
    {segs segs' : List Segment} (h : List.Forall₂ SameSegment segs segs')
    {chunks : List (List Statement)} (hc : Chunks p segs chunks) :
    Chunks p segs' chunks := by
  refine forall₂_of_common h hc fun seg seg' c hs hc => ?_
  cases hs with
  | shared hsql => exact mapError_ok.mpr (hp _ _ hsql _ (mapError_ok.mp hc))
  | tagged b raw => exact hc

theorem filePieces_same {segs segs' : List Segment}
    (h : List.Forall₂ SameSegment segs segs') (chunks : List (List Statement)) :
    filePieces segs' chunks = filePieces segs chunks := by
  have hzip : List.zipWith filePiece segs chunks
      = List.zipWith filePiece segs' chunks := by
    refine zipWith_eq_of_forall₂ h (fun seg seg' chunk hs => ?_) chunks
    cases hs <;> rfl
  rw [filePieces, filePieces, hzip]

/-- **THE COPY IS READ AS THE SCRIPT IS**: only the pieces kept differ. -/
theorem downRight_trimEnd {p : Sqlparser} (hp : TrimBlind p) {b : Backend}
    {down : String} :
    DownRight p b down (trimEnd down) ↔
      ∃ segs chunks, segment down = .ok segs ∧ Chunks p segs chunks ∧
        PositionsMapped chunks.flatten ∧
        List.Forall₂ (SamePiece p) (visiblePieces (filePieces segs chunks))
          (visiblePieces (wantedPieces b segs chunks)) := by
  constructor
  · rintro ⟨segs, chunks, copy, chunks', hsegs, hchunks, hmapped, hcopy,
      hchunks', hsame⟩
    obtain ⟨copy', hcopy', hsegments⟩ := segments_trimEnd hsegs
    have heq : copy' = copy := Except.ok.inj (hcopy'.symm.trans hcopy)
    rw [heq] at hsegments
    rw [chunks_unique (chunks_same hp hsegments hchunks) hchunks',
      filePieces_same hsegments] at hsame
    exact ⟨segs, chunks, hsegs, hchunks, hmapped, hsame⟩
  · rintro ⟨segs, chunks, hsegs, hchunks, hmapped, hsame⟩
    obtain ⟨copy, hcopy, hsegments⟩ := segments_trimEnd hsegs
    refine ⟨segs, chunks, copy, chunks, hsegs, hchunks, hmapped, hcopy,
      chunks_same hp hsegments hchunks, ?_⟩
    rw [filePieces_same hsegments]
    exact hsame

/-! ## Statement by statement -/

theorem sameStatement_allNative {p : Sqlparser} {b : Backend}
    {s : Statement} :
    SameStatement p s (allNative b s) ↔
      ∀ dt ∈ typePositions s,
        p.dataTypeDisplay dt = p.dataTypeDisplay (nativeOr b dt) := by
  constructor
  · rintro ⟨-, htypes⟩
    rw [allNative, typePositions_mapTypes, List.map_map] at htypes
    exact List.map_inj_left.mp htypes
  · intro h
    have hskeleton := mapTypes_comp (fun _ => .other "") (nativeOr b) s
    refine ⟨hskeleton.symm, ?_⟩
    rw [allNative, typePositions_mapTypes, List.map_map]
    exact List.map_inj_left.mpr h

theorem nativeTo_iff {p : Sqlparser} {b : Backend} {s : Statement} :
    NativeTo p b s ↔
      AllMapped (typePositions s) ∧ SameStatement p s (allNative b s) := by
  rw [sameStatement_allNative]
  constructor
  · intro h
    refine ⟨fun dt hdt => ?_, fun dt hdt => ?_⟩
    · obtain ⟨row, hrow, -⟩ := h dt hdt
      exact ⟨row, hrow⟩
    · obtain ⟨row, hrow, hsame⟩ := h dt hdt
      rw [nativeOr_of_row hrow]
      exact hsame
  · rintro ⟨hmapped, hsame⟩ dt hdt
    obtain ⟨row, hrow⟩ := hmapped dt hdt
    refine ⟨row, hrow, ?_⟩
    rw [hsame dt hdt, nativeOr_of_row hrow]

/-- A related pair of pieces has related statements, or none. -/
theorem SamePiece.statements {p : Sqlparser} {q q' : Piece}
    (h : SamePiece p q q') :
    Option.Rel (SameStatement p) q.statement? q'.statement? := by
  cases h with
  | statement h => exact .some h
  | block _ => exact .none

/-- Leaving out blank blocks leaves out no statement. -/
theorem statements_of_visible (ps : List Piece) :
    (visiblePieces ps).filterMap Piece.statement?
      = ps.filterMap Piece.statement? := by
  rw [visiblePieces, List.filterMap_filter]
  refine List.filterMap_congr fun q _ => ?_
  cases q with
  | statement s => rfl
  | block raw => exact ite_self _

/-- The statements among pieces made segment by segment. -/
theorem statements_by_segment {p : Sqlparser}
    {f : Segment → List Statement → List Piece} {φ : Statement → Statement}
    (hshared : ∀ sql stmts,
      f (.shared sql) stmts = stmts.map fun s => .statement (φ s))
    (htagged : ∀ b raw, (f (.tagged b raw) []).filterMap Piece.statement? = [])
    {segs : List Segment} {chunks : List (List Statement)}
    (h : Chunks p segs chunks) :
    (List.zipWith f segs chunks).flatten.filterMap Piece.statement?
      = chunks.flatten.map φ := by
  induction h with
  | nil => rfl
  | @cons seg chunk segs chunks hc _ ih =>
      have hhead : (f seg chunk).filterMap Piece.statement? = chunk.map φ := by
        cases seg with
        | shared sql =>
            rw [hshared, List.filterMap_map]
            exact congrFun List.filterMap_eq_map chunk
        | tagged b raw =>
            rw [← Except.ok.inj hc]
            exact htagged b raw
      rw [List.zipWith_cons_cons, List.flatten_cons, List.filterMap_append,
        hhead, ih, List.flatten_cons, List.map_append]

theorem statements_of_file {p : Sqlparser} {segs : List Segment}
    {chunks : List (List Statement)} (h : Chunks p segs chunks) :
    (filePieces segs chunks).filterMap Piece.statement? = chunks.flatten := by
  have hfile := statements_by_segment (f := filePiece) (φ := id)
    (fun _ _ => rfl) (fun _ _ => rfl) h
  rwa [List.map_id] at hfile

theorem statements_of_wanted {p : Sqlparser} {b : Backend}
    {segs : List Segment} {chunks : List (List Statement)}
    (h : Chunks p segs chunks) :
    (wantedPieces b segs chunks).filterMap Piece.statement?
      = chunks.flatten.map (allNative b) := by
  refine statements_by_segment (fun _ _ => rfl) (fun b' raw => ?_) h
  rw [wantedPiece]
  split <;> rfl

/-- Where the up path passes over no type, it makes the wanted pieces. -/
theorem pieces_eq_wanted {b : Backend} {segs : List Segment}
    {chunks : List (List Statement)}
    (h : ∀ chunk ∈ chunks, ∀ s ∈ chunk, passedTypes s = []) :
    pieces b segs chunks = wantedPieces b segs chunks := by
  have hsegment : ∀ seg, ∀ chunk ∈ chunks,
      segmentPieces b seg chunk = wantedPiece b seg chunk := by
    intro seg chunk hchunk
    cases seg with
    | shared sql =>
        refine List.map_congr_left fun s hs => ?_
        exact congrArg Piece.statement
          (withNative_eq_mapTypes (h chunk hchunk s hs))
    | tagged b' raw => rfl
  rw [pieces, wantedPieces]
  refine congrArg List.flatten ?_
  clear h
  induction segs generalizing chunks with
  | nil => rfl
  | cons seg segs ih =>
      cases chunks with
      | nil => rfl
      | cons chunk chunks =>
          obtain ⟨hhead, hrest⟩ : (∀ seg,
              segmentPieces b seg chunk = wantedPiece b seg chunk) ∧
              ∀ seg, ∀ chunk ∈ chunks,
                segmentPieces b seg chunk = wantedPiece b seg chunk :=
            ⟨fun seg => hsegment seg chunk List.mem_cons_self,
              fun seg c hc => hsegment seg c (List.mem_cons_of_mem _ hc)⟩
          rw [List.zipWith_cons_cons, List.zipWith_cons_cons, hhead, ih hrest]

/-! ## Block by block -/

/-- The blocks of a segment that hold anything. -/
def segmentBlocks : Segment → List (Backend × String)
  | .shared _ => []
  | .tagged b raw => if (trim raw).isEmpty then [] else [(b, raw)]

def isBlock : Piece → Bool
  | .statement _ => false
  | .block _ => true

/-- The visible blocks among pieces made segment by segment. -/
theorem blocks_of_pieces {f : Segment → List Statement → List Piece}
    {keep : Backend × String → Bool}
    (hf : ∀ seg stmts, (visiblePieces (f seg stmts)).filter isBlock
      = ((segmentBlocks seg).filter keep).map fun k => .block k.2)
    {segs : List Segment} {chunks : List (List Statement)}
    (h : segs.length = chunks.length) :
    (visiblePieces (List.zipWith f segs chunks).flatten).filter isBlock
      = ((segs.flatMap segmentBlocks).filter keep).map fun k => .block k.2 := by
  induction segs generalizing chunks with
  | nil => rfl
  | cons seg segs ih =>
      cases chunks with
      | nil => cases h
      | cons stmts chunks =>
          have hrest := ih (Nat.succ.inj h)
          have hhead := hf seg stmts
          simp only [visiblePieces] at hrest hhead ⊢
          rw [List.zipWith_cons_cons, List.flatten_cons, List.filter_append,
            List.filter_append, hhead, hrest, List.flatMap_cons,
            List.filter_append, List.map_append]

theorem visible_statements (stmts : List Statement)
    (f : Statement → Statement) :
    (visiblePieces (stmts.map fun s => .statement (f s))).filter isBlock
      = [] := by
  rw [visiblePieces, List.filter_filter, List.filter_eq_nil_iff]
  intro q hq
  obtain ⟨s, -, rfl⟩ := List.mem_map.mp hq
  exact Bool.false_ne_true

theorem visible_block (raw : String) :
    (visiblePieces [.block raw]).filter isBlock
      = if (trim raw).isEmpty then [] else [.block raw] := by
  rw [visiblePieces, List.filter_cons, isBlank]
  cases (trim raw).isEmpty <;> rfl

theorem blocks_of_file {segs : List Segment} {chunks : List (List Statement)}
    (h : segs.length = chunks.length) :
    (visiblePieces (filePieces segs chunks)).filter isBlock
      = (segs.flatMap segmentBlocks).map fun k => .block k.2 := by
  have hsegment : ∀ seg stmts, (visiblePieces (filePiece seg stmts)).filter
      isBlock = ((segmentBlocks seg).filter fun _ => true).map
        fun k => .block k.2 := by
    intro seg stmts
    rw [List.filter_true]
    cases seg with
    | shared sql => exact visible_statements stmts id
    | tagged b raw =>
        rw [filePiece, visible_block, segmentBlocks]
        split <;> rfl
  have hfile := blocks_of_pieces hsegment h
  rw [List.filter_true] at hfile
  exact hfile

theorem blocks_of_backend {b : Backend} {segs : List Segment}
    {chunks : List (List Statement)} (h : segs.length = chunks.length) :
    (visiblePieces (wantedPieces b segs chunks)).filter isBlock
      = ((segs.flatMap segmentBlocks).filter (·.1 = b)).map
          fun k => .block k.2 := by
  refine blocks_of_pieces ?_ h
  intro seg stmts
  cases seg with
  | shared sql => exact visible_statements stmts (allNative b)
  | tagged b' raw =>
      rw [wantedPiece, segmentBlocks]
      by_cases hb : b' = b
      · rw [if_pos hb, visible_block]
        split
        · rfl
        · rw [List.filter_cons_of_pos (by simpa using hb)]
          rfl
      · rw [if_neg hb]
        split
        · rfl
        · rw [List.filter_cons_of_neg (by simpa using hb)]
          rfl

theorem SamePiece.isBlock {p : Sqlparser} {q q' : Piece}
    (h : SamePiece p q q') : isBlock q = isBlock q' := by
  cases h <;> rfl

theorem Backend.eq_other {b b' : Backend} (h : b' ≠ b) : b' = b.other := by
  cases b <;> cases b' <;> first | rfl | exact absurd rfl h

/-- **NO BLOCK OF THE OTHER BACKEND**, if the two lists of pieces match: the
    copy has all visible blocks, `b` should get its own, and the lists have
    one length. -/
theorem other_blank_of_same {p : Sqlparser} {b : Backend}
    {segs : List Segment} {chunks : List (List Statement)}
    (hchunks : Chunks p segs chunks)
    (h : List.Forall₂ (SamePiece p) (visiblePieces (filePieces segs chunks))
      (visiblePieces (wantedPieces b segs chunks))) :
    ∀ raw, .tagged b.other raw ∈ segs → (trim raw).isEmpty = true := by
  have hblocks := (forall₂_filter h fun _ _ hq _ _ => hq.isBlock).length_eq
  rw [blocks_of_file hchunks.length_eq, blocks_of_backend hchunks.length_eq,
    List.length_map, List.length_map, eq_comm,
    List.length_filter_eq_length_iff] at hblocks
  intro raw hraw
  by_contra hne
  have hmem : (b.other, raw) ∈ segs.flatMap segmentBlocks := by
    refine List.mem_flatMap.mpr ⟨_, hraw, ?_⟩
    rw [segmentBlocks, if_neg hne]
    exact List.mem_singleton.mpr rfl
  have hb := of_decide_eq_true (hblocks _ hmem)
  cases b <;> cases hb

/-- The pieces of one segment match if its statements print as they are and it
    is no visible block of the other backend. -/
theorem same_segment {p : Sqlparser} {b : Backend} {seg : Segment}
    {stmts : List Statement}
    (hstmts : ∀ s ∈ stmts, SameStatement p s (allNative b s))
    (hblock : ∀ raw, seg = .tagged b.other raw → (trim raw).isEmpty = true) :
    List.Forall₂ (SamePiece p) (visiblePieces (filePiece seg stmts))
      (visiblePieces (wantedPiece b seg stmts)) := by
  cases seg with
  | shared sql =>
      -- the same statements, in native types
      refine forall₂_filter ?_ ?_
      · rw [filePiece, wantedPiece, List.forall₂_map_left_iff,
          List.forall₂_map_right_iff]
        exact List.forall₂_same.mpr fun s hs => .statement (hstmts s hs)
      · intro q q' hq _ _
        cases hq with
        | statement _ => rfl
        | block h => rw [isBlank, isBlank, h]
  | tagged b' raw =>
      rw [filePiece, wantedPiece]
      by_cases hb : b' = b
      · rw [if_pos hb, visiblePieces, List.filter_cons]
        split
        · exact .cons (.block rfl) .nil
        · exact .nil
      · -- a block of the other backend is blank, so neither side shows it
        rw [if_neg hb, visiblePieces, List.filter_cons_of_neg]
        · exact .nil
        · rw [isBlank, hblock raw (by rw [Backend.eq_other hb])]
          exact Bool.false_ne_true

theorem same_of_portable {p : Sqlparser} {b : Backend}
    {segs : List Segment} {chunks : List (List Statement)}
    (hchunks : Chunks p segs chunks)
    (hstmts : ∀ s ∈ chunks.flatten, SameStatement p s (allNative b s))
    (hblock : ∀ raw, .tagged b.other raw ∈ segs →
      (trim raw).isEmpty = true) :
    List.Forall₂ (SamePiece p) (visiblePieces (filePieces segs chunks))
      (visiblePieces (wantedPieces b segs chunks)) := by
  induction hchunks with
  | nil => exact .nil
  | @cons seg stmts segs chunks _ _ ih =>
      obtain ⟨hhead, hrest⟩ := List.forall_mem_append.mp hstmts
      have hseg := same_segment hhead fun raw hraw =>
        hblock raw (hraw ▸ List.mem_cons_self)
      have htail := ih hrest fun raw hraw =>
        hblock raw (List.mem_cons_of_mem _ hraw)
      simp only [visiblePieces, filePieces, wantedPieces, List.zipWith_cons_cons,
        List.flatten_cons, List.filter_append] at hseg htail ⊢
      exact List.rel_append hseg htail

/-- **WHEN THE COPY IS RIGHT**: the script needs no translation. -/
theorem downRight_iff {p : Sqlparser} (hp : TrimBlind p) {b : Backend}
    {down : String} :
    DownRight p b down (trimEnd down) ↔ PortableTo p b down := by
  rw [downRight_trimEnd hp]
  constructor
  · rintro ⟨segs, chunks, hsegs, hchunks, hmapped, hsame⟩
    refine ⟨segs, chunks, hsegs, hchunks, ?_,
      other_blank_of_same hchunks hsame⟩
    have hstmts := forall₂_filterMap hsame fun _ _ => SamePiece.statements
    rw [statements_of_visible, statements_of_visible,
      statements_of_file hchunks, statements_of_wanted hchunks,
      List.forall₂_map_right_iff, List.forall₂_same] at hstmts
    exact fun s hs => nativeTo_iff.mpr ⟨hmapped s hs, hstmts s hs⟩
  · rintro ⟨segs, chunks, hsegs, hchunks, hnative, hblock⟩
    exact ⟨segs, chunks, hsegs, hchunks,
      fun s hs => (nativeTo_iff.mp (hnative s hs)).1,
      same_of_portable hchunks (fun s hs => (nativeTo_iff.mp (hnative s hs)).2)
        hblock⟩

/-! ## The down scripts of a run -/

/-- **WHICH DOWN SCRIPTS ARE RIGHT**: of the migrations of an accepted list
    that supply one, those whose script needs no translation to the backend. -/
theorem down_scripts_right_iff {p : Sqlparser} (hp : TrimBlind p)
    {pre post : List Migration} {m : Migration} {g : Generated}
    (hg : generate p (pre ++ m :: post) = .ok g) {down : String}
    (hdown : m.downSql = some down) (b : Backend) :
    ∃ r, (g.tree b)[pre.length]? = some r ∧ r.dirName = m.dirName ∧
      (DownRight p b down r.downSql ↔ PortableTo p b down) := by
  obtain ⟨r, hr, segs, up, emitted, -, -, hemitted, rfl⟩ :=
    forall₂_at (generate_tree hg b)
  refine ⟨_, hr, rfl, ?_⟩
  rw [migrationDown, hdown] at hemitted
  rw [← Except.ok.inj hemitted]
  exact downRight_iff hp

theorem stretchParser_trimBlind (known : List (String × Statement)) :
    TrimBlind (stretchParser known) := by
  intro s t h stmts hs
  simp only [stretchParser] at hs ⊢
  rw [← visible_eq_of_trim_eq h]
  exact hs

/-- Adding the columns back, as the down scripts below do. -/
def addBack (name : String) (dt : DataType) : Statement :=
  alterTable (bare "t") [addColumn (col name dt [])]

def downParser : Sqlparser := stretchParser
  [("CREATETABLEt(aUUID,bTEXT)",
      createTable (bare "t") [col "a" .uuid [], col "b" .text []] []),
    ("ALTERTABLEtADDCOLUMNaUUID", addBack "a" .uuid),
    ("ALTERTABLEtADDCOLUMNbTEXT", addBack "b" .text)]

def createAB : Migration := ⟨"1_t", "CREATE TABLE t (a UUID, b TEXT);", none⟩

def dropB : Migration :=
  ⟨"2_b", "ALTER TABLE t DROP COLUMN b;",
    some "ALTER TABLE t ADD COLUMN b TEXT;\n"⟩

theorem down_scripts_right_iff_of_text :
    ∃ g r, generate downParser ([createAB] ++ dropB :: []) = .ok g ∧
      (g.tree .sqlite)[1]? = some r ∧
      DownRight downParser .sqlite "ALTER TABLE t ADD COLUMN b TEXT;\n"
        r.downSql := by
  obtain ⟨g, hg⟩ := exists_ok_of_isOk
    (x := generate downParser ([createAB] ++ dropB :: [])) (by decide +kernel)
  have hblind : TrimBlind downParser := stretchParser_trimBlind _
  obtain ⟨r, hr, -, hright⟩ :=
    down_scripts_right_iff hblind hg (m := dropB) rfl .sqlite
  refine ⟨g, r, hg, hr, hright.mpr ?_⟩
  have hsegs : segment "ALTER TABLE t ADD COLUMN b TEXT;\n"
      = .ok [.shared "ALTER TABLE t ADD COLUMN b TEXT;\n"] := by
    decide +kernel
  have hparse : segmentStatements downParser
      (.shared "ALTER TABLE t ADD COLUMN b TEXT;\n")
      = .ok [addBack "b" .text] := by decide +kernel
  refine ⟨_, [[addBack "b" .text]], hsegs, .cons hparse .nil, ?_, ?_⟩
  · intro s hs dt hdt
    rw [List.mem_singleton.mp hs] at hdt
    rw [List.mem_singleton.mp hdt]
    exact ⟨_, rfl, by decide⟩
  · intro raw hraw
    cases List.mem_singleton.mp hraw

def dropA : Migration :=
  ⟨"2_a", "ALTER TABLE t DROP COLUMN a;",
    some ("ALTER TABLE t ADD COLUMN a UUID;\n-- dualdb:postgres\n"
      ++ "ANALYZE t;\n-- dualdb:end\n")⟩

/-- **A BLOCK REACHES THE OTHER BACKEND**: SQLite's down script runs `ANALYZE t`
    from the Postgres block, and adds a `UUID` column back. -/
theorem down_block_crosses :
    ∃ g r, generate downParser [createAB, dropA] = .ok g ∧
      g.sqlite[1]? = some r ∧
      r.downSql = "ALTER TABLE t ADD COLUMN a UUID;\n-- dualdb:postgres\n"
        ++ "ANALYZE t;\n-- dualdb:end" ∧
      ¬ DownRight downParser .sqlite ("ALTER TABLE t ADD COLUMN a UUID;\n"
        ++ "-- dualdb:postgres\nANALYZE t;\n-- dualdb:end\n") r.downSql := by
  obtain ⟨g, hg⟩ := exists_ok_of_isOk
    (x := generate downParser ([createAB] ++ dropA :: [])) (by decide +kernel)
  obtain ⟨r, hr, segs, up, emitted, -, -, hemitted, hrendered⟩ :=
    forall₂_at (generate_tree hg .sqlite)
  have htrim : trimEnd ("ALTER TABLE t ADD COLUMN a UUID;\n"
      ++ "-- dualdb:postgres\nANALYZE t;\n-- dualdb:end\n")
      = "ALTER TABLE t ADD COLUMN a UUID;\n-- dualdb:postgres\n"
        ++ "ANALYZE t;\n-- dualdb:end" := by decide +kernel
  -- a written down script is copied
  have hdown : r.downSql = trimEnd ("ALTER TABLE t ADD COLUMN a UUID;\n"
      ++ "-- dualdb:postgres\nANALYZE t;\n-- dualdb:end\n") := by
    rw [hrendered]
    exact (Except.ok.inj hemitted).symm
  refine ⟨g, r, hg, hr, hdown.trans htrim, ?_⟩
  have hblind : TrimBlind downParser := stretchParser_trimBlind _
  rw [hdown, downRight_iff hblind]
  -- the block for Postgres is in the SQLite tree and not blank
  rintro ⟨segs', chunks, hsegs', -, -, hblank⟩
  have hsegs : segment ("ALTER TABLE t ADD COLUMN a UUID;\n"
      ++ "-- dualdb:postgres\nANALYZE t;\n-- dualdb:end\n")
      = .ok [.shared "ALTER TABLE t ADD COLUMN a UUID;\n",
        .tagged .postgres "ANALYZE t;\n"] := by decide +kernel
  have heq := Except.ok.inj (hsegs.symm.trans hsegs')
  have hmem : Segment.tagged .postgres "ANALYZE t;\n" ∈ segs' := by
    rw [← heq]
    exact List.mem_cons_of_mem _ (List.mem_singleton.mpr rfl)
  exact absurd (hblank _ hmem) (by decide +kernel)

end DualdbDownScript
