import DieselDualdb.Migration

/-!
# The segmenter reads exactly the balanced scripts

A `Layout` is a script cut at its directive lines: a run of shared lines, then
blocks, each with its two directive lines, its body, and the shared run that
follows it.  The fields of a layout say which lines are directives, so a
layout that is not a balanced script cannot be built.

`segment_ok` says that the line segmenter, with its three variables, accepts
exactly the scripts that have a layout, and returns the layout's segments.
What the segmenter keeps, drops and never does twice is then read off the
layout (`segmentation_exact`).
-/

namespace DualdbSegment

open DualdbAst DualdbTypeMap DualdbMigration FallibleRun RustStr

/-! ## Scripts cut at their directives -/

/-- The keyword that opens a block. -/
def keyword : Backend → String
  | .postgres => "postgres"
  | .sqlite => "sqlite"

/-- The lines of a buffer: each line and its terminator. -/
def textOf : List String → String
  | [] => ""
  | line :: lines => line ++ "\n" ++ textOf lines

structure Block where
  backend : Backend
  opening : String
  body : List String
  closing : String
  /-- The shared lines up to the next directive. -/
  after : List String
  opening_keyword : directive opening = some (keyword backend)
  body_plain : ∀ l ∈ body, directive l = none
  closing_keyword : directive closing = some "end"
  after_plain : ∀ l ∈ after, directive l = none

structure Layout where
  before : List String
  blocks : List Block
  before_plain : ∀ l ∈ before, directive l = none

def Block.lines (k : Block) : List String :=
  k.opening :: k.body ++ k.closing :: k.after

def Layout.lines (L : Layout) : List String :=
  L.before ++ L.blocks.flatMap Block.lines

/-- The segment of a shared run, if it is not blank. -/
def sharedRun (text : String) : List Segment :=
  if (trim text).isEmpty then [] else [.shared text]

def Block.segments (k : Block) : List Segment :=
  .tagged k.backend (textOf k.body) :: sharedRun (textOf k.after)

/-- The segments of a layout that is read with `buffer` in the shared buffer. -/
def Layout.segmentsFrom (L : Layout) (buffer : String) : List Segment :=
  sharedRun (buffer ++ textOf L.before) ++ L.blocks.flatMap Block.segments

def Layout.segments (L : Layout) : List Segment := L.segmentsFrom ""

/-- The layout with one more shared line in front. -/
def Layout.consLine (line : String) (hline : directive line = none)
    (L : Layout) : Layout where
  before := line :: L.before
  blocks := L.blocks
  before_plain := List.forall_mem_cons.mpr ⟨hline, L.before_plain⟩

/-- A block, and the rest of the script after it. -/
def Layout.consBlock (b : Backend) (opening : String) (body : List String)
    (closing : String) (hopening : directive opening = some (keyword b))
    (hbody : ∀ l ∈ body, directive l = none)
    (hclosing : directive closing = some "end") (L : Layout) : Layout where
  before := []
  blocks := ⟨b, opening, body, closing, L.before, hopening, hbody, hclosing,
    L.before_plain⟩ :: L.blocks
  before_plain := fun _ hl => absurd hl List.not_mem_nil

theorem Layout.lines_consBlock {b : Backend} {opening closing : String}
    {body : List String} {hopening hbody hclosing} {L : Layout} :
    (L.consBlock b opening body closing hopening hbody hclosing).lines
      = opening :: (body ++ closing :: L.lines) := by
  simp [Layout.lines, Layout.consBlock, Block.lines, List.flatMap_cons]

theorem Layout.segmentsFrom_consBlock {b : Backend}
    {opening closing : String} {body : List String}
    {hopening hbody hclosing} {L : Layout} {buffer : String} :
    (L.consBlock b opening body closing hopening hbody hclosing).segmentsFrom
        buffer
      = sharedRun buffer
        ++ .tagged b (textOf body) :: L.segmentsFrom "" := by
  simp [Layout.segmentsFrom, Layout.consBlock, Block.segments, textOf,
    List.flatMap_cons]

theorem Layout.segmentsFrom_consLine {line : String}
    {hline : directive line = none} {L : Layout} {buffer : String} :
    (L.consLine line hline).segmentsFrom buffer
      = L.segmentsFrom (buffer ++ line ++ "\n") := by
  simp only [Layout.segmentsFrom, Layout.consLine, textOf, String.append_assoc]

theorem Layout.eq_of_lines_nil {L : Layout} (h : L.lines = []) :
    L.before = [] ∧ L.blocks = [] := by
  obtain ⟨hbefore, hblocks⟩ := List.append_eq_nil_iff.mp h
  refine ⟨hbefore, ?_⟩
  cases hks : L.blocks with
  | nil => rfl
  | cons k ks =>
      rw [hks] at hblocks
      cases hblocks

/-- How a layout of a non-empty script starts: with a shared line, or with a
    block. -/
theorem Layout.lines_cons {L : Layout} {line : String} {rest : List String}
    (h : L.lines = line :: rest) :
    (∃ hline L', L = Layout.consLine line hline L' ∧ L'.lines = rest) ∨
      ∃ b body closing hopening hbody hclosing L',
        L = Layout.consBlock b line body closing hopening hbody hclosing L' ∧
          rest = body ++ closing :: L'.lines := by
  obtain ⟨before, blocks, hplain⟩ := L
  cases before with
  | cons l ls =>
      obtain ⟨rfl, hrest⟩ := List.cons.inj h
      obtain ⟨hline, hls⟩ := List.forall_mem_cons.mp hplain
      exact Or.inl ⟨hline, ⟨ls, blocks, hls⟩, rfl, hrest⟩
  | nil =>
      cases blocks with
      | nil => cases h
      | cons k ks =>
          obtain ⟨b, opening, body, closing, after, hopening, hbody, hclosing,
            hafter⟩ := k
          obtain ⟨rfl, hrest⟩ := List.cons.inj h
          refine Or.inr ⟨b, body, closing, hopening, hbody, hclosing,
            ⟨after, ks, hafter⟩, rfl, ?_⟩
          exact hrest.symm.trans (List.append_assoc body (closing :: after) _)

/-! ## One line -/

theorem flushed_eq (st : SegmentState) :
    st.flushed = st.segments ++ sharedRun st.shared := by
  rw [SegmentState.flushed, sharedRun]
  split
  · rw [List.append_nil]
  · rfl

/-- What a line is: text, one of the three known directives, or unknown. -/
theorem directive_cases (line : String) :
    directive line = none ∨ (∃ b, directive line = some (keyword b)) ∨
      directive line = some "end" ∨
      ∃ k, directive line = some k ∧ (∀ b, k ≠ keyword b) ∧ k ≠ "end" := by
  cases hline : directive line with
  | none => exact Or.inl rfl
  | some k =>
      by_cases hpg : k = "postgres"
      · exact Or.inr (Or.inl ⟨.postgres, congrArg some hpg⟩)
      by_cases hsq : k = "sqlite"
      · exact Or.inr (Or.inl ⟨.sqlite, congrArg some hsq⟩)
      by_cases hend : k = "end"
      · exact Or.inr (Or.inr (Or.inl (congrArg some hend)))
      · refine Or.inr (Or.inr (Or.inr ⟨k, rfl, ?_, hend⟩))
        intro b
        cases b with
        | postgres => exact hpg
        | sqlite => exact hsq

theorem segmentLine_opening {st : SegmentState} {line : String} {b : Backend}
    (h : directive line = some (keyword b)) :
    segmentLine st line = st.openBlock b := by
  cases b with
  | postgres => simp only [segmentLine, h, keyword, if_true]
  | sqlite =>
      have hne : "sqlite" ≠ "postgres" := by decide
      simp only [segmentLine, h, keyword, if_neg hne, if_true]

theorem segmentLine_end {segs : List Segment} {shared line : String}
    {tagged : Option (Backend × String)} {st' : SegmentState}
    (h : directive line = some "end") :
    segmentLine ⟨segs, shared, tagged⟩ line = .ok st' ↔
      ∃ b raw, tagged = some (b, raw) ∧
        st' = ⟨segs ++ [.tagged b raw], shared, none⟩ := by
  have hpg : "end" ≠ "postgres" := by decide
  have hsq : "end" ≠ "sqlite" := by decide
  simp only [segmentLine, h, if_neg hpg, if_neg hsq, if_true]
  cases tagged with
  | none =>
      constructor
      · intro h; cases h
      · rintro ⟨b, raw, h, -⟩; cases h
  | some block =>
      constructor
      · intro h; exact ⟨block.1, block.2, rfl, (Except.ok.inj h).symm⟩
      · rintro ⟨b, raw, h, rfl⟩; cases h; rfl

theorem segmentLine_text {segs : List Segment} {shared line : String}
    (h : directive line = none) :
    segmentLine ⟨segs, shared, none⟩ line
      = .ok ⟨segs, shared ++ line ++ "\n", none⟩ := by
  simp only [segmentLine, h]

theorem segmentLine_body {segs : List Segment} {shared raw line : String}
    {b : Backend} (h : directive line = none) :
    segmentLine ⟨segs, shared, some (b, raw)⟩ line
      = .ok ⟨segs, shared, some (b, raw ++ line ++ "\n")⟩ := by
  simp only [segmentLine, h]

theorem segmentLine_unknown {st : SegmentState} {line k : String}
    (h : directive line = some k) (hopen : ∀ b, k ≠ keyword b)
    (hend : k ≠ "end") : ∃ e, segmentLine st line = .error e := by
  have hpg : k ≠ "postgres" := hopen .postgres
  have hsq : k ≠ "sqlite" := hopen .sqlite
  simp only [segmentLine, h, if_neg hpg, if_neg hsq, if_neg hend]
  exact ⟨_, rfl⟩

/-! ## All lines -/

/-- The line loop from `st` on, and the check and flush after it. -/
def scan (lines : List String) (st : SegmentState) :
    Except String (List Segment) := do
  let st ← lines.foldlM segmentLine st
  if st.tagged.isSome then
    .error "unclosed `-- dualdb:` block (missing `-- dualdb:end`)"
  else pure st.flushed

theorem segment_eq_scan (sql : String) :
    segment sql = scan (lines sql) ⟨[], "", none⟩ := rfl

theorem scan_cons {line : String} {lines : List String} {st : SegmentState}
    {out : List Segment} :
    scan (line :: lines) st = .ok out ↔
      ∃ st', segmentLine st line = .ok st' ∧ scan lines st' = .ok out := by
  simp only [scan, bind_ok, foldlM_cons_ok]
  constructor
  · rintro ⟨s, ⟨s', h, hrest⟩, hfinish⟩
    exact ⟨s', h, s, hrest, hfinish⟩
  · rintro ⟨s', h, s, hrest, hfinish⟩
    exact ⟨s, ⟨s', h, hrest⟩, hfinish⟩

theorem scan_nil {st : SegmentState} {out : List Segment} :
    scan [] st = .ok out ↔ st.tagged = none ∧ out = st.flushed := by
  simp only [scan, bind_ok, foldlM_nil_ok]
  constructor
  · rintro ⟨_, rfl, h⟩
    by_cases hsome : st.tagged.isSome = true
    · rw [if_pos hsome] at h
      cases h
    · rw [if_neg hsome, pure_ok] at h
      exact ⟨Option.not_isSome_iff_eq_none.mp hsome, h.symm⟩
  · intro h
    refine ⟨st, rfl, ?_⟩
    rw [h.1, h.2]
    rfl

/-- Outside a block, after the lines `lines`. -/
def OutsideSpec (lines : List String) : Prop :=
  ∀ segs shared out, scan lines ⟨segs, shared, none⟩ = .ok out ↔
    ∃ L : Layout, L.lines = lines ∧ out = segs ++ L.segmentsFrom shared

/-- Inside a block of `b`: its body goes on up to the first `end`. -/
def InsideSpec (lines : List String) : Prop :=
  ∀ segs b raw out, scan lines ⟨segs, "", some (b, raw)⟩ = .ok out ↔
    ∃ (body : List String) (closing : String) (L : Layout),
      (∀ l ∈ body, directive l = none) ∧ directive closing = some "end" ∧
      lines = body ++ closing :: L.lines ∧
      out = segs ++ .tagged b (raw ++ textOf body) :: L.segmentsFrom ""

theorem outside_nil : OutsideSpec [] := by
  intro segs shared out
  rw [scan_nil, flushed_eq]
  constructor
  · rintro ⟨-, rfl⟩
    exact ⟨⟨[], [], fun _ hl => absurd hl List.not_mem_nil⟩, rfl,
      by simp [Layout.segmentsFrom, textOf]⟩
  · rintro ⟨L, hL, rfl⟩
    obtain ⟨hbefore, hblocks⟩ := Layout.eq_of_lines_nil hL
    refine ⟨rfl, ?_⟩
    simp [Layout.segmentsFrom, hbefore, hblocks, textOf]

theorem inside_nil : InsideSpec [] := by
  intro segs b raw out
  rw [scan_nil]
  constructor
  · rintro ⟨h, -⟩; cases h
  · rintro ⟨body, closing, L, -, -, hlines, -⟩
    exact absurd hlines.symm (by simp)

/-- A line outside a block: text joins the buffer, an opening directive
    flushes it, anything else is refused. -/
theorem outside_cons {line : String} {lines : List String}
    (hout : OutsideSpec lines) (hin : InsideSpec lines) :
    OutsideSpec (line :: lines) := by
  intro segs shared out
  rw [scan_cons]
  constructor
  · rintro ⟨st', hst', hrest⟩
    -- text, an opening line, an `end` that closes nothing, or an unknown one
    rcases directive_cases line with hd | ⟨b, hd⟩ | hd | ⟨k, hd, hopen, hend⟩
    · rw [segmentLine_text hd] at hst'
      rw [← Except.ok.inj hst'] at hrest
      obtain ⟨L, rfl, rfl⟩ := (hout _ _ _).mp hrest
      exact ⟨L.consLine line hd, rfl, by rw [Layout.segmentsFrom_consLine]⟩
    · rw [segmentLine_opening hd] at hst'
      rw [← Except.ok.inj hst', flushed_eq] at hrest
      obtain ⟨body, closing, L, hbody, hclosing, rfl, rfl⟩ :=
        (hin _ _ _ _).mp hrest
      refine ⟨L.consBlock b line body closing hd hbody hclosing,
        Layout.lines_consBlock, ?_⟩
      rw [Layout.segmentsFrom_consBlock, List.append_assoc, String.empty_append]
    · obtain ⟨b, raw, h, -⟩ := (segmentLine_end hd).mp hst'
      cases h
    · obtain ⟨e, he⟩ := segmentLine_unknown hd hopen hend
      rw [he] at hst'
      cases hst'
  · rintro ⟨L, hL, rfl⟩
    rcases Layout.lines_cons hL with ⟨hd, L', rfl, hrest⟩ |
      ⟨b, body, closing, hd, hbody, hclosing, L', rfl, hrest⟩
    · refine ⟨_, segmentLine_text hd, (hout _ _ _).mpr ⟨L', hrest, ?_⟩⟩
      rw [Layout.segmentsFrom_consLine]
    · refine ⟨⟨segs ++ sharedRun shared, "", some (b, "")⟩, ?_,
        (hin _ _ _ _).mpr ⟨body, closing, L', hbody, hclosing, hrest, ?_⟩⟩
      · rw [segmentLine_opening hd, ← flushed_eq ⟨segs, shared, none⟩]
        rfl
      · rw [Layout.segmentsFrom_consBlock, List.append_assoc,
          String.empty_append]

/-- A line inside a block: text joins the body, `end` closes the block,
    anything else is refused. -/
theorem inside_cons {line : String} {lines : List String}
    (hout : OutsideSpec lines) (hin : InsideSpec lines) :
    InsideSpec (line :: lines) := by
  intro segs b raw out
  rw [scan_cons]
  constructor
  · rintro ⟨st', hst', hrest⟩
    -- body, a nested opening, the closing line, or an unknown directive
    rcases directive_cases line with hd | ⟨b', hd⟩ | hd | ⟨k, hd, hopen, hend⟩
    · rw [segmentLine_body hd] at hst'
      rw [← Except.ok.inj hst'] at hrest
      obtain ⟨body, closing, L, hbody, hclosing, rfl, rfl⟩ :=
        (hin _ _ _ _).mp hrest
      refine ⟨line :: body, closing, L, List.forall_mem_cons.mpr ⟨hd, hbody⟩,
        hclosing, rfl, ?_⟩
      simp only [textOf, String.append_assoc]
    · rw [segmentLine_opening hd] at hst'
      cases hst'
    · obtain ⟨b', raw', h, rfl⟩ := (segmentLine_end hd).mp hst'
      cases h
      obtain ⟨L, rfl, rfl⟩ := (hout _ _ _).mp hrest
      refine ⟨[], line, L, fun _ hl => absurd hl List.not_mem_nil, hd, rfl, ?_⟩
      simp [textOf]
    · obtain ⟨e, he⟩ := segmentLine_unknown hd hopen hend
      rw [he] at hst'
      cases hst'
  · rintro ⟨body, closing, L, hbody, hclosing, hlines, rfl⟩
    cases body with
    | nil =>
        obtain ⟨rfl, hrest⟩ := List.cons.inj hlines
        refine ⟨_, (segmentLine_end hclosing).mpr ⟨b, raw, rfl, rfl⟩,
          (hout _ _ _).mpr ⟨L, hrest.symm, ?_⟩⟩
        simp [textOf]
    | cons l body =>
        obtain ⟨rfl, hrest⟩ := List.cons.inj hlines
        obtain ⟨hd, hbody⟩ := List.forall_mem_cons.mp hbody
        refine ⟨_, segmentLine_body hd, (hin _ _ _ _).mpr
          ⟨body, closing, L, hbody, hclosing, hrest, ?_⟩⟩
        simp only [textOf, String.append_assoc]

/-- Both halves are one induction on the lines: an opening directive goes from
    the first to the second, `end` goes back. -/
theorem scan_ok (lines : List String) : OutsideSpec lines ∧ InsideSpec lines := by
  induction lines with
  | nil => exact ⟨outside_nil, inside_nil⟩
  | cons line lines ih =>
      exact ⟨outside_cons ih.1 ih.2, inside_cons ih.1 ih.2⟩

/-- **WHAT THE SEGMENTER ACCEPTS, AND WHAT IT RETURNS**: the scripts that have
    a layout, and the layout's segments. -/
theorem segment_ok {sql : String} {segs : List Segment} :
    segment sql = .ok segs ↔
      ∃ L : Layout, L.lines = lines sql ∧ segs = L.segments := by
  rw [segment_eq_scan, (scan_ok (lines sql)).1]
  simp only [List.nil_append, Layout.segments]

/-! ## Whitespace at the end of a script -/

theorem scan_append {ls ls' : List String} {st : SegmentState}
    {out : List Segment} :
    scan (ls ++ ls') st = .ok out ↔
      ∃ st', ls.foldlM segmentLine st = .ok st' ∧ scan ls' st' = .ok out := by
  simp only [scan, bind_ok, foldlM_append_ok]
  constructor
  · rintro ⟨s, ⟨s', h, hrest⟩, hfinish⟩
    exact ⟨s', h, s, hrest, hfinish⟩
  · rintro ⟨s', h, s, hrest, hfinish⟩
    exact ⟨s, ⟨s', h, hrest⟩, hfinish⟩

/-- An accepted script leaves the segmenter outside a block. -/
theorem segment_ok_state {sql : String} {segs : List Segment} :
    segment sql = .ok segs ↔ ∃ done shared,
      (lines sql).foldlM segmentLine ⟨[], "", none⟩
          = .ok ⟨done, shared, none⟩ ∧
        segs = done ++ sharedRun shared := by
  rw [segment_eq_scan, ← List.append_nil (lines sql), scan_append]
  simp only [scan_nil, flushed_eq, List.append_nil]
  constructor
  · rintro ⟨⟨done, shared, tagged⟩, hst, htagged, hsegs⟩
    simp only at htagged
    rw [htagged] at hst
    exact ⟨done, shared, hst, hsegs⟩
  · rintro ⟨done, shared, hst, hsegs⟩
    exact ⟨_, hst, rfl, hsegs⟩

theorem directive_of_trim_eq {l l' : String} (h : trim l = trim l') :
    directive l = directive l' := by
  rw [directive, directive, h]

/-- An opening directive leaves the segmenter inside a block. -/
theorem openBlock_tagged {st st' : SegmentState} {b : Backend}
    (h : st.openBlock b = .ok st') : st'.tagged = some (b, "") := by
  rw [SegmentState.openBlock] at h
  by_cases hopen : st.tagged.isSome = true
  · rw [if_pos hopen] at h
    exact absurd h error_ne_ok
  · rw [if_neg hopen] at h
    rw [← Except.ok.inj h]

/-- Whitespace at the end of the last line is whitespace at the end of the
    shared buffer. -/
theorem trim_line_tail (buffer line : String) {v : String}
    (hv : v.toList.all isWhitespace = true) :
    trim (buffer ++ (line ++ v) ++ "\n") = trim (buffer ++ line) := by
  rw [← String.append_assoc, String.append_assoc]
  refine trim_append_blank _ ?_
  rw [String.toList_append, List.all_append, hv]
  decide

/-- Two lines that differ in whitespace at the end leave the segmenter, outside
    a block, with shared buffers that differ there only. -/
theorem segmentLine_tail {st : SegmentState} {line v w : String}
    {done : List Segment} {shared : String}
    (hv : v.toList.all isWhitespace = true)
    (hw : w.toList.all isWhitespace = true)
    (h : segmentLine st (line ++ v) = .ok ⟨done, shared, none⟩) :
    ∃ shared', segmentLine st (line ++ w) = .ok ⟨done, shared', none⟩ ∧
      trim shared' = trim shared := by
  obtain ⟨segs, buffer, tagged⟩ := st
  have hdirective : directive (line ++ w) = directive (line ++ v) :=
    directive_of_trim_eq (by
      rw [trim_append_blank line hw, trim_append_blank line hv])
  -- no block is open afterwards, so the line was text or closed one
  rcases directive_cases (line ++ v) with hd | ⟨b, hd⟩ | hd |
    ⟨k, hd, hopen, hend⟩
  · cases tagged with
    | some block =>
        rw [segmentLine_body hd] at h
        exact absurd (congrArg SegmentState.tagged (Except.ok.inj h))
          (Option.some_ne_none _)
    | none =>
        rw [segmentLine_text hd] at h
        have hdone : segs = done :=
          congrArg SegmentState.segments (Except.ok.inj h)
        have hshared : buffer ++ (line ++ v) ++ "\n" = shared :=
          congrArg SegmentState.shared (Except.ok.inj h)
        refine ⟨buffer ++ (line ++ w) ++ "\n", ?_, ?_⟩
        · rw [segmentLine_text (hdirective.trans hd), hdone]
        · rw [← hshared, trim_line_tail _ _ hw, trim_line_tail _ _ hv]
  · rw [segmentLine_opening hd] at h
    exact absurd (openBlock_tagged h).symm (Option.some_ne_none _)
  · obtain ⟨b, raw, htagged, hst⟩ := (segmentLine_end hd).mp h
    have hshared : shared = buffer := congrArg SegmentState.shared hst
    rw [hshared] at hst ⊢
    exact ⟨buffer, (segmentLine_end (hdirective.trans hd)).mpr
      ⟨b, raw, htagged, hst⟩, rfl⟩
  · obtain ⟨e, he⟩ := segmentLine_unknown hd hopen hend
    rw [he] at h
    exact absurd h error_ne_ok

/-- The two lists of lines are accepted together, with the same segments done
    and shared buffers that differ in whitespace around them. -/
def SameState (ls ls' : List String) : Prop :=
  (∀ {done shared}, ls.foldlM segmentLine ⟨[], "", none⟩
      = .ok ⟨done, shared, none⟩ →
    ∃ shared', ls'.foldlM segmentLine ⟨[], "", none⟩
      = .ok ⟨done, shared', none⟩ ∧ trim shared' = trim shared) ∧
  ∀ {done shared}, ls'.foldlM segmentLine ⟨[], "", none⟩
      = .ok ⟨done, shared, none⟩ →
    ∃ shared', ls.foldlM segmentLine ⟨[], "", none⟩
      = .ok ⟨done, shared', none⟩ ∧ trim shared' = trim shared

theorem SameState.trans {ls ls' ls'' : List String} (h : SameState ls ls')
    (h' : SameState ls' ls'') : SameState ls ls'' := by
  constructor
  · intro done shared hst
    obtain ⟨s₁, h₁, e₁⟩ := h.1 hst
    obtain ⟨s₂, h₂, e₂⟩ := h'.1 h₁
    exact ⟨s₂, h₂, e₂.trans e₁⟩
  · intro done shared hst
    obtain ⟨s₁, h₁, e₁⟩ := h'.2 hst
    obtain ⟨s₂, h₂, e₂⟩ := h.2 h₁
    exact ⟨s₂, h₂, e₂.trans e₁⟩

/-- The last line with another end. -/
theorem sameState_tail (front : List String) (line : String) {v w : String}
    (hv : v.toList.all isWhitespace = true)
    (hw : w.toList.all isWhitespace = true) :
    SameState (front ++ [line ++ v]) (front ++ [line ++ w]) := by
  have hone : ∀ {v w : String}, v.toList.all isWhitespace = true →
      w.toList.all isWhitespace = true → ∀ {done : List Segment} {shared},
      (front ++ [line ++ v]).foldlM segmentLine ⟨[], "", none⟩
        = .ok ⟨done, shared, none⟩ →
      ∃ shared', (front ++ [line ++ w]).foldlM segmentLine ⟨[], "", none⟩
        = .ok ⟨done, shared', none⟩ ∧ trim shared' = trim shared := by
    intro v w hv hw done shared hst
    obtain ⟨st, hfront, hline⟩ := foldlM_append_ok.mp hst
    obtain ⟨st', hst', hnil⟩ := foldlM_cons_ok.mp hline
    rw [foldlM_nil_ok.mp hnil] at hst'
    obtain ⟨shared', hshared', htrim⟩ := segmentLine_tail hv hw hst'
    exact ⟨shared', foldlM_append_ok.mpr
      ⟨st, hfront, foldlM_cons_ok.mpr ⟨_, hshared', rfl⟩⟩, htrim⟩
  exact ⟨hone hv hw, hone hw hv⟩

/-- One more blank line. -/
theorem sameState_blank (front : List String) {w : String}
    (hw : w.toList.all isWhitespace = true) :
    SameState front (front ++ [w]) := by
  -- a blank line is text
  have hdirective : directive w = none := by
    have hblank : directive "" = none := by decide
    refine (directive_of_trim_eq ?_).trans hblank
    have htrim := trim_append_blank "" hw
    rwa [String.empty_append] at htrim
  constructor
  · intro done shared hst
    refine ⟨_, foldlM_append_ok.mpr ⟨_, hst,
      foldlM_cons_ok.mpr ⟨_, segmentLine_text hdirective, rfl⟩⟩, ?_⟩
    rw [String.append_assoc]
    refine trim_append_blank shared ?_
    rw [String.toList_append, List.all_append, hw]
    decide
  · intro done shared hst
    obtain ⟨⟨segs, buffer, tagged⟩, hfront, hline⟩ := foldlM_append_ok.mp hst
    obtain ⟨st', hst', hnil⟩ := foldlM_cons_ok.mp hline
    rw [foldlM_nil_ok.mp hnil] at hst'
    -- the state ends outside a block, so it was there before the line
    cases tagged with
    | some block =>
        rw [segmentLine_body hdirective] at hst'
        exact absurd (congrArg SegmentState.tagged (Except.ok.inj hst'))
          (Option.some_ne_none _)
    | none =>
        rw [segmentLine_text hdirective] at hst'
        have hdone : segs = done :=
          congrArg SegmentState.segments (Except.ok.inj hst')
        have hshared : buffer ++ w ++ "\n" = shared :=
          congrArg SegmentState.shared (Except.ok.inj hst')
        refine ⟨buffer, ?_, ?_⟩
        · rw [← hdone]
          exact hfront
        · rw [← hshared, String.append_assoc, trim_append_blank buffer]
          rw [String.toList_append, List.all_append, hw]
          decide

theorem sameState_closed (front : List String) (last : List Char) :
    SameState (front ++ openLine last) (front ++ [closedLine last]) := by
  cases last with
  | nil =>
      rw [show openLine [] = [] from rfl, List.append_nil]
      exact sameState_blank front (by decide)
  | cons c cs =>
      obtain ⟨cr, hcr, hline⟩ := openLine_eq c cs
      have htail := sameState_tail front (closedLine (c :: cs)) hcr
        (w := "") (by decide)
      rwa [← hline, String.append_empty] at htail

/-- One more character of whitespace at the end. -/
theorem sameState_char (s : String) {c : Char} (hc : isWhitespace c = true) :
    SameState (lines s) (lines (s ++ String.ofList [c])) := by
  by_cases hnl : c = '\n'
  · obtain ⟨front, last, hopen, hclosed⟩ := lines_append_newline s ""
    rw [String.append_empty] at hclosed
    rw [hnl, show String.ofList ['\n'] = "\n" from rfl, hopen, hclosed]
    exact sameState_closed front last
  · obtain ⟨front, last, hopen, hmore⟩ := lines_append_char s hnl
    rw [hopen, hmore]
    cases last with
    | nil =>
        rw [show openLine [] = [] from rfl, List.append_nil]
        exact sameState_blank front (by simpa using hc)
    | cons d ds =>
        have hline : openLine (c :: d :: ds)
            = [String.ofList (d :: ds).reverse ++ String.ofList [c]] := by
          rw [openLine, List.reverse_cons, String.ofList_append]
          rfl
        have htail := sameState_tail front (String.ofList (d :: ds).reverse)
          (v := "") (by decide) (w := String.ofList [c]) (by simpa using hc)
        rw [String.append_empty] at htail
        rw [hline]
        exact htail

theorem sameState_append_blank (s : String) {w : String}
    (hw : w.toList.all isWhitespace = true) :
    SameState (lines s) (lines (s ++ w)) := by
  obtain ⟨cs, rfl⟩ : ∃ cs, w = String.ofList cs :=
    ⟨w.toList, String.ofList_toList.symm⟩
  rw [String.toList_ofList] at hw
  induction cs generalizing s with
  | nil =>
      rw [String.ofList_nil, String.append_empty]
      exact ⟨fun h => ⟨_, h, rfl⟩, fun h => ⟨_, h, rfl⟩⟩
  | cons c cs ih =>
      rw [List.all_cons, Bool.and_eq_true] at hw
      have hrest := ih (s ++ String.ofList [c]) hw.2
      rw [String.append_assoc, ← String.ofList_append] at hrest
      exact (sameState_char s hw.1).trans hrest

/-! ## What a layout keeps -/

/-- One opening and one closing keyword for each block. -/
def pairOf (b : Backend) : List String := [keyword b, "end"]

/-- The keywords are pairs: `postgres` or `sqlite`, then `end`. -/
def Balanced (keywords : List String) : Prop :=
  ∃ bs : List Backend, keywords = bs.flatMap pairOf

theorem filterMap_plain {ls : List String} (h : ∀ l ∈ ls, directive l = none) :
    ls.filterMap directive = [] :=
  List.filterMap_eq_nil_iff.mpr h

theorem Block.keywords (k : Block) :
    k.lines.filterMap directive = pairOf k.backend := by
  simp only [Block.lines, List.cons_append, List.filterMap_cons,
    k.opening_keyword, List.filterMap_append, filterMap_plain k.body_plain,
    k.closing_keyword, filterMap_plain k.after_plain, List.nil_append, pairOf]

theorem Layout.keywords (L : Layout) :
    L.lines.filterMap directive
      = (L.blocks.map Block.backend).flatMap pairOf := by
  simp only [Layout.lines, List.filterMap_append,
    filterMap_plain L.before_plain, List.nil_append, List.filterMap_flatMap,
    Block.keywords, List.flatMap_map]

/-- Balanced keywords have a layout around them.  As for `scan_ok`, outside
    and inside a block are one induction on the lines. -/
theorem layout_of_balanced (ls : List String) :
    (∀ bs : List Backend, ls.filterMap directive = bs.flatMap pairOf →
      ∃ L : Layout, L.lines = ls) ∧
    ∀ bs : List Backend, ls.filterMap directive = "end" :: bs.flatMap pairOf →
      ∃ (body : List String) (closing : String) (L : Layout),
        (∀ l ∈ body, directive l = none) ∧ directive closing = some "end" ∧
        ls = body ++ closing :: L.lines := by
  induction ls with
  | nil =>
      constructor
      · intro bs _
        exact ⟨⟨[], [], fun _ hl => absurd hl List.not_mem_nil⟩, rfl⟩
      · intro bs h
        cases h
  | cons line ls ih =>
      -- a directive is the next of the alternating list
      cases hd : directive line with
      | none =>
          rw [List.filterMap_cons_none hd]
          constructor
          · intro bs h
            obtain ⟨L, rfl⟩ := ih.1 bs h
            exact ⟨L.consLine line hd, rfl⟩
          · intro bs h
            obtain ⟨body, closing, L, hbody, hclosing, rfl⟩ := ih.2 bs h
            exact ⟨line :: body, closing, L,
              List.forall_mem_cons.mpr ⟨hd, hbody⟩, hclosing, rfl⟩
      | some k =>
          rw [List.filterMap_cons_some hd]
          constructor
          · intro bs h
            cases bs with
            | nil => cases h
            | cons b bs =>
                obtain ⟨rfl, hrest⟩ := List.cons.inj h
                obtain ⟨body, closing, L, hbody, hclosing, rfl⟩ :=
                  ih.2 bs hrest
                exact ⟨L.consBlock b line body closing hd hbody hclosing,
                  Layout.lines_consBlock⟩
          · intro bs h
            obtain ⟨rfl, hrest⟩ := List.cons.inj h
            obtain ⟨L, rfl⟩ := ih.1 bs hrest
            exact ⟨[], line, L, fun _ hl => absurd hl List.not_mem_nil, hd, rfl⟩

theorem accepts_iff_balanced {sql : String} :
    (∃ segs, segment sql = .ok segs) ↔
      Balanced ((lines sql).filterMap directive) := by
  constructor
  · rintro ⟨segs, h⟩
    obtain ⟨L, hL, -⟩ := segment_ok.mp h
    exact ⟨L.blocks.map Block.backend, by rw [← hL, Layout.keywords]⟩
  · rintro ⟨bs, h⟩
    obtain ⟨L, hL⟩ := (layout_of_balanced (lines sql)).1 bs h
    exact ⟨L.segments, segment_ok.mpr ⟨L, hL, rfl⟩⟩

def isBlank (line : String) : Bool := (trim line).isEmpty

/-- A shared run is kept unless all of it is blank. -/
def keptRun (run : List String) : List String :=
  if run.all isBlank then [] else run

theorem toList_textOf (ls : List String) :
    (textOf ls).toList = ls.flatMap fun l => l.toList ++ ['\n'] := by
  induction ls with
  | nil => rfl
  | cons l ls ih =>
      rw [textOf, String.toList_append, String.toList_append, ih,
        List.flatMap_cons]
      rfl

theorem textOf_append (ls ls' : List String) :
    textOf (ls ++ ls') = textOf ls ++ textOf ls' := by
  induction ls with
  | nil => rw [List.nil_append, textOf, String.empty_append]
  | cons l ls ih =>
      rw [List.cons_append, textOf, textOf, ih]
      simp only [String.append_assoc]

/-- A buffer is blank exactly when each of its lines is. -/
theorem trim_textOf_isEmpty (run : List String) :
    (trim (textOf run)).isEmpty = run.all isBlank := by
  rw [trim_isEmpty, toList_textOf, List.all_flatMap]
  refine congrArg (List.all run) (funext fun l => ?_)
  rw [List.all_append, isBlank, trim_isEmpty]
  exact Bool.and_true _

theorem sharedRun_textOf (run : List String) :
    sharedRun (textOf run)
      = if run.all isBlank then [] else [.shared (textOf run)] := by
  rw [sharedRun, trim_textOf_isEmpty]

def Segment.content : Segment → String
  | .shared sql => sql
  | .tagged _ raw => raw

def Segment.tagged? : Segment → Option (Backend × String)
  | .shared _ => none
  | .tagged b raw => some (b, raw)

/-- The lines whose text the segments hold. -/
def Layout.kept (L : Layout) : List String :=
  keptRun L.before ++ L.blocks.flatMap fun k => k.body ++ keptRun k.after

theorem sharedRun_content (run : List String) :
    join "" ((sharedRun (textOf run)).map Segment.content)
      = textOf (keptRun run) := by
  rw [sharedRun_textOf, keptRun]
  split
  · rfl
  · rfl

theorem sharedRun_tagged (text : String) :
    (sharedRun text).filterMap Segment.tagged? = [] := by
  rw [sharedRun]
  split
  · rfl
  · rfl

theorem Layout.tagged (L : Layout) :
    L.segments.filterMap Segment.tagged?
      = L.blocks.map fun k => (k.backend, textOf k.body) := by
  rw [Layout.segments, Layout.segmentsFrom, List.filterMap_append,
    sharedRun_tagged, List.nil_append, List.filterMap_flatMap]
  induction L.blocks with
  | nil => rfl
  | cons k ks ih =>
      rw [List.flatMap_cons, List.map_cons, ih, Block.segments,
        List.filterMap_cons_some (show Segment.tagged? _ = some _ from rfl),
        sharedRun_tagged, List.singleton_append]

theorem filter_plain {ls : List String} (h : ∀ l ∈ ls, directive l = none) :
    ls.filter (fun l => (directive l).isNone) = ls :=
  List.filter_eq_self.mpr fun l hl => by rw [h l hl]; rfl

theorem Block.plain_lines (k : Block) :
    k.lines.filter (fun l => (directive l).isNone) = k.body ++ k.after := by
  simp only [Block.lines, List.cons_append, List.filter_cons,
    List.filter_append, k.opening_keyword, k.closing_keyword,
    filter_plain k.body_plain, filter_plain k.after_plain, Option.isNone_some,
    Bool.false_eq_true, if_false]

theorem Layout.plain_lines (L : Layout) :
    L.lines.filter (fun l => (directive l).isNone)
      = L.before ++ L.blocks.flatMap fun k => k.body ++ k.after := by
  simp only [Layout.lines, List.filter_append, filter_plain L.before_plain,
    List.filter_flatMap, Block.plain_lines]

theorem Block.content (k : Block) :
    join "" (k.segments.map Segment.content)
      = textOf (k.body ++ keptRun k.after) := by
  rw [Block.segments, List.map_cons, ← List.singleton_append,
    join_empty_append, sharedRun_content, textOf_append]
  rfl

theorem Layout.content (L : Layout) :
    join "" (L.segments.map Segment.content) = textOf L.kept := by
  rw [Layout.segments, Layout.segmentsFrom, Layout.kept, String.empty_append,
    List.map_append, join_empty_append, sharedRun_content, textOf_append]
  refine congrArg (textOf (keptRun L.before) ++ ·) ?_
  induction L.blocks with
  | nil => rfl
  | cons k ks ih =>
      rw [List.flatMap_cons, List.flatMap_cons, List.map_append,
        join_empty_append, textOf_append, Block.content, ih]

/-! ## Where a segment comes from -/

/-- The segment is the text of the script's lines from `span.1` up to
    `span.2`, none of which is a directive. -/
def HeldAt (ls : List String) (s : Segment) (span : Nat × Nat) : Prop :=
  span.1 ≤ span.2 ∧ span.2 ≤ ls.length ∧
    Segment.content s = textOf ((ls.take span.2).drop span.1) ∧
    ∀ l ∈ (ls.take span.2).drop span.1, directive l = none

theorem heldAt_of_split (pre : List String) {run : List String}
    (post : List String) {s : Segment}
    (hs : Segment.content s = textOf run) (hrun : ∀ l ∈ run, directive l = none) :
    HeldAt (pre ++ (run ++ post)) s
      (pre.length, pre.length + run.length) := by
  have hcut : ((pre ++ (run ++ post)).take (pre.length + run.length)).drop
      pre.length = run := by
    rw [← List.append_assoc, ← List.length_append, List.take_left,
      List.drop_left]
  refine ⟨Nat.le_add_right _ _, ?_, ?_, ?_⟩
  · simp only [List.length_append]
    omega
  · rw [hcut, hs]
  · rw [hcut]
    exact hrun

/-- The segments stand at disjoint places of the script, in order, from line
    `start` on. -/
def Placed (ls : List String) (start : Nat) (segs : List Segment) : Prop :=
  ∃ spans : List (Nat × Nat), List.Forall₂ (HeldAt ls) segs spans ∧
    spans.Pairwise (fun s t => s.2 ≤ t.1) ∧ ∀ s ∈ spans, start ≤ s.1

theorem placed_nil (ls : List String) (start : Nat) : Placed ls start [] :=
  ⟨[], .nil, .nil, fun _ hs => absurd hs List.not_mem_nil⟩

theorem Placed.mono {ls : List String} {start start' : Nat}
    {segs : List Segment} (h : Placed ls start' segs) (hle : start ≤ start') :
    Placed ls start segs := by
  obtain ⟨spans, hheld, hpair, hstart⟩ := h
  exact ⟨spans, hheld, hpair, fun s hs => Nat.le_trans hle (hstart s hs)⟩

/-- One more segment, in front of the others. -/
theorem Placed.cons {ls : List String} {s : Segment} {span : Nat × Nat}
    {segs : List Segment} (hs : HeldAt ls s span)
    (h : Placed ls span.2 segs) : Placed ls span.1 (s :: segs) := by
  obtain ⟨spans, hheld, hpair, hstart⟩ := h
  refine ⟨span :: spans, .cons hs hheld, ?_, ?_⟩
  · exact List.pairwise_cons.mpr ⟨hstart, hpair⟩
  · intro t ht
    rcases List.mem_cons.mp ht with rfl | ht
    · exact Nat.le_refl _
    · exact Nat.le_trans hs.1 (hstart t ht)

/-- A shared run in front of placed segments. -/
theorem placed_sharedRun (pre : List String) {run post : List String}
    {segs : List Segment}
    (hrun : ∀ l ∈ run, directive l = none)
    (h : Placed (pre ++ (run ++ post)) (pre.length + run.length) segs) :
    Placed (pre ++ (run ++ post)) pre.length
      (sharedRun (textOf run) ++ segs) := by
  rw [sharedRun_textOf]
  split
  · exact h.mono (Nat.le_add_right _ _)
  · exact Placed.cons (heldAt_of_split _ _ rfl hrun) h

theorem placed_blocks (ks : List Block) (pre : List String) :
    Placed (pre ++ ks.flatMap Block.lines) pre.length
      (ks.flatMap Block.segments) := by
  induction ks generalizing pre with
  | nil => exact placed_nil _ _
  | cons k ks ih =>
      rw [List.flatMap_cons, List.flatMap_cons, Block.segments,
        List.cons_append]
      -- the body stands after the opening line, the run after the closing one
      have hbody : pre ++ (k.lines ++ ks.flatMap Block.lines)
          = (pre ++ [k.opening]) ++ (k.body
            ++ (k.closing :: k.after ++ ks.flatMap Block.lines)) := by
        simp only [Block.lines, List.append_assoc, List.cons_append,
          List.nil_append]
      have hafter : pre ++ (k.lines ++ ks.flatMap Block.lines)
          = (pre ++ k.opening :: k.body ++ [k.closing]) ++ (k.after
            ++ ks.flatMap Block.lines) := by
        simp only [Block.lines, List.append_assoc, List.cons_append,
          List.nil_append]
      have hrest := ih ((pre ++ k.opening :: k.body ++ [k.closing]) ++ k.after)
      rw [List.append_assoc, List.length_append] at hrest
      have hrun := placed_sharedRun _ k.after_plain hrest
      have hheld := heldAt_of_split (pre ++ [k.opening])
        (k.closing :: k.after ++ ks.flatMap Block.lines)
        (s := .tagged k.backend (textOf k.body)) rfl k.body_plain
      rw [← hafter] at hrun
      rw [← hbody] at hheld
      refine (Placed.cons hheld (hrun.mono ?_)).mono ?_
      · simp only [List.length_append, List.length_cons, List.length_nil]
        omega
      · simp only [List.length_append]
        omega

theorem Layout.placed (L : Layout) : Placed L.lines 0 L.segments := by
  have hblocks := placed_blocks L.blocks L.before
  have h := placed_sharedRun [] L.before_plain
    (hblocks.mono (Nat.le_of_eq (Nat.zero_add _)))
  rw [Layout.segments, Layout.segmentsFrom, String.empty_append]
  exact h

/-! ## The segmenter -/

/-- **SEGMENTATION IS EXACT**: a script is accepted exactly when its directive
    keywords are pairs of an opening keyword and `end`.  An accepted script is
    cut at the lines of a layout: one tagged segment for each pair, of the
    pair's backend and of exactly the lines between the two; the contents in
    order are all other lines in order, less the blank shared runs; and the
    segments stand at disjoint places of the script. -/
theorem segmentation_exact (sql : String) :
    ((∃ segs, segment sql = .ok segs) ↔
      Balanced ((lines sql).filterMap directive)) ∧
    ∀ segs, segment sql = .ok segs → ∃ L : Layout, L.lines = lines sql ∧
      (lines sql).filterMap directive
        = L.blocks.flatMap (fun k => pairOf k.backend) ∧
      segs.filterMap Segment.tagged?
        = L.blocks.map (fun k => (k.backend, textOf k.body)) ∧
      (lines sql).filter (fun l => (directive l).isNone)
        = L.before ++ L.blocks.flatMap (fun k => k.body ++ k.after) ∧
      join "" (segs.map Segment.content)
        = textOf (keptRun L.before
            ++ L.blocks.flatMap (fun k => k.body ++ keptRun k.after)) ∧
      ∃ spans : List (Nat × Nat), List.Forall₂ (HeldAt (lines sql)) segs spans ∧
        spans.Pairwise (fun s t => s.2 ≤ t.1) := by
  refine ⟨accepts_iff_balanced, ?_⟩
  intro segs h
  obtain ⟨L, hL, hsegs⟩ := segment_ok.mp h
  obtain ⟨spans, hheld, hpair, -⟩ := L.placed
  rw [hsegs, ← hL]
  refine ⟨L, rfl, ?_, L.tagged, L.plain_lines, ?_, spans, hheld, hpair⟩
  · rw [L.keywords, List.flatMap_map]
  · rw [L.content, Layout.kept]

/-- A shared statement and a block for each backend, with a blank line between
    the blocks. -/
def twoBlocks : String :=
  join "\n" ["CREATE TABLE t (id INT);", "-- dualdb:postgres", "SELECT 1;",
    "-- dualdb:end", "", "  -- dualdb:sqlite", "SELECT 2;", "-- dualdb: end"]

theorem segmentation_exact_two_blocks :
    ∃ spans : List (Nat × Nat),
      List.Forall₂ (HeldAt (lines twoBlocks))
        [.shared "CREATE TABLE t (id INT);\n",
          .tagged .postgres "SELECT 1;\n", .tagged .sqlite "SELECT 2;\n"]
        spans ∧ spans.Pairwise (fun s t => s.2 ≤ t.1) := by
  have hsegs : segment twoBlocks = .ok
      [.shared "CREATE TABLE t (id INT);\n", .tagged .postgres "SELECT 1;\n",
        .tagged .sqlite "SELECT 2;\n"] := by decide +kernel
  obtain ⟨-, -, -, -, -, -, hspans⟩ :=
    (segmentation_exact twoBlocks).2 _ hsegs
  exact hspans

end DualdbSegment
