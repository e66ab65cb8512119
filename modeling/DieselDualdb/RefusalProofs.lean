import DieselDualdb.Invocation
import DieselDualdb.SegmentProofs

/-!
# What a refusal says

`generate` refuses a history at one place: the first migration that does not go
through, and in it the first directive, segment or statement.  `Fault` lists
what can be wrong there, with the message for it, and `refusal_exact` says that
`generate` returns exactly these messages, under the migration's name.  What
comes after the place is not looked at, and no output is written.

What is wrong with a directive is said by the keywords before it: whether they
are pairs of an opening keyword and `end`, or pairs and one opening keyword more
(`Pairs`).
-/

namespace DualdbRefusal

open DualdbAst DualdbTypeMap DualdbModel DualdbMigration DualdbAcceptance
open DualdbRewrite DualdbOutputs DualdbInvocation DualdbSegment
open FallibleRun FileTree FirstUpdate RustStr

variable {p : Sqlparser}

/-! ## Faults -/

/-- The keywords are pairs; `inside` a block, with an opening one after them. -/
def Pairs (inside : Bool) (keywords : List String) : Prop :=
  ∃ bs : List Backend, if inside then
      ∃ b, keywords = bs.flatMap pairOf ++ [keyword b]
    else keywords = bs.flatMap pairOf

/-- A keyword that cannot stand inside a block, or outside of all blocks. -/
inductive BadKeyword : Bool → String → String → Prop where
  | nested (b : Backend) :
      BadKeyword true (keyword b) "nested `-- dualdb:` block"
  | stray : BadKeyword false "end" "`-- dualdb:end` without an open block"
  | unknown {inside : Bool} {k : String} (hopen : ∀ b, k ≠ keyword b)
      (hend : k ≠ "end") :
      BadKeyword inside k ("unknown directive `-- dualdb:" ++ k ++ "`")

/-- What is wrong with the directives of a text. -/
inductive BadText (sql : String) : String → Prop where
  | line {before after : List String} {line k e : String} {inside : Bool}
      (hsplit : lines sql = before ++ line :: after)
      (hbefore : Pairs inside (before.filterMap directive))
      (hline : directive line = some k) (hk : BadKeyword inside k e) :
      BadText sql e
  | unclosed (h : Pairs true ((lines sql).filterMap directive)) :
      BadText sql "unclosed `-- dualdb:` block (missing `-- dualdb:end`)"

/-- An added column that the model refuses. -/
inductive BadOperation (p : Sqlparser) (tname : String) (m : Model) :
    AlterTableOperation → String → Prop where
  | unmapped {kw ifNotExists : Bool} {c : ColumnDef} {position : Option Clause}
      (h : mapType c.dataType = none) :
      BadOperation p tname m (.addColumn kw ifNotExists c position)
        ("ALTER `" ++ tname ++ "` ADD `" ++ p.identDisplay c.name
          ++ "`: no mapping for type " ++ p.dataTypeDebug c.dataType)
  | noTable {kw ifNotExists : Bool} {c : ColumnDef} {position : Option Clause}
      {row : Mapped} (h : mapType c.dataType = some row)
      (hm : ∀ t ∈ m.tables, t.name ≠ tname) :
      BadOperation p tname m (.addColumn kw ifNotExists c position)
        ("ALTER on unknown table `" ++ tname ++ "`")

/-- A statement that the model refuses. -/
inductive BadStatement (p : Sqlparser) (m : Model) :
    Statement → String → Prop where
  | column {ct : CreateTable} {before after : List ColumnDef} {c : ColumnDef}
      (hsplit : ct.columns = before ++ c :: after)
      (hbefore : AllMapped (before.map ColumnDef.dataType))
      (h : mapType c.dataType = none) :
      BadStatement p m (.createTable ct)
        ("table `" ++ lastIdent ct.name ++ "`, column `"
          ++ p.identDisplay c.name ++ "`: no mapping for type "
          ++ p.dataTypeDebug c.dataType)
  | operation {name : ObjectName} {ifExists only : Bool}
      {ops before after : List AlterTableOperation} {clauses : Clause}
      {op : AlterTableOperation} {m' : Model} {e : String}
      (hsplit : ops = before ++ op :: after)
      (hbefore : before.foldlM (Model.applyOperation p (lastIdent name)) m
        = .ok m')
      (hop : BadOperation p (lastIdent name) m' op e) :
      BadStatement p m (.alterTable name ifExists only ops clauses) e

/-- What is wrong with a migration, coming after this model. -/
inductive Fault (p : Sqlparser) (model : Model) (m : Migration) :
    String → Prop where
  | directives {e : String} (h : BadText m.upSql e) : Fault p model m e
  | unparsable {before after : List Segment} {sql e : String} {model' : Model}
      (hsegs : segment m.upSql = .ok (before ++ .shared sql :: after))
      (hbefore : before.foldlM (applySegment p) model = .ok model')
      (hparse : p.parseSql sql = .error e) :
      Fault p model m ("SQL parse error: " ++ e)
  | statement {before after : List Segment} {sql e : String}
      {model' model'' : Model} {sbefore safter : List Statement}
      {s : Statement}
      (hsegs : segment m.upSql = .ok (before ++ .shared sql :: after))
      (hbefore : before.foldlM (applySegment p) model = .ok model')
      (hparse : p.parseSql sql = .ok (sbefore ++ s :: safter))
      (hsbefore : sbefore.foldlM (Model.apply p) model' = .ok model'')
      (hs : BadStatement p model'' s e) : Fault p model m e

/-! ## Directives -/

theorem openBlock_error {st : SegmentState} {b : Backend} {e : String} :
    st.openBlock b = .error e ↔
      st.tagged.isSome = true ∧ e = "nested `-- dualdb:` block" := by
  rw [SegmentState.openBlock]
  split
  · next hopen =>
    rw [Except.error.injEq]
    exact ⟨fun h => ⟨hopen, h.symm⟩, fun h => h.2.symm⟩
  · next hopen =>
    exact iff_of_false (fun h => by cases h) fun h => hopen h.1

theorem segmentLine_error {st : SegmentState} {line e : String} :
    segmentLine st line = .error e ↔
      ∃ k, directive line = some k ∧ BadKeyword st.tagged.isSome k e := by
  have hkeyword : ∀ {k : String}, directive line = some k →
      ((∃ k, directive line = some k ∧ BadKeyword st.tagged.isSome k e) ↔
        BadKeyword st.tagged.isSome k e) := by
    intro k hk
    simp only [hk, Option.some.injEq, exists_eq_left']
  rcases directive_cases line with hd | ⟨b, hd⟩ | hd | ⟨k, hd, hopen, hend⟩
  · refine iff_of_false ?_ ?_
    · rw [segmentLine, hd]
      cases st.tagged with
      | none => intro h; cases h
      | some block => intro h; cases h
    · rintro ⟨k, hk, -⟩
      rw [hd] at hk
      cases hk
  · rw [segmentLine_opening hd, openBlock_error, hkeyword hd]
    constructor
    · rintro ⟨hinside, rfl⟩
      rw [hinside]
      exact .nested b
    · intro h
      generalize st.tagged.isSome = inside at h ⊢
      generalize hk : keyword b = k at h
      cases h with
      | nested _ => exact ⟨rfl, rfl⟩
      | stray => exact absurd hk (by cases b <;> decide)
      | unknown hopen _ => exact absurd hk.symm (hopen b)
  · rw [hkeyword hd]
    have hpg : "end" ≠ "postgres" := by decide
    have hsq : "end" ≠ "sqlite" := by decide
    simp only [segmentLine, hd, if_neg hpg, if_neg hsq, if_true]
    cases st.tagged with
    | none =>
        rw [Except.error.injEq]
        constructor
        · rintro rfl
          exact .stray
        · intro h
          cases h with
          | stray => rfl
          | unknown _ hend => exact absurd rfl hend
    | some block =>
        refine iff_of_false (fun h => by cases h) fun h => ?_
        generalize hk : "end" = k at h
        cases h with
        | nested b => exact absurd hk (by cases b <;> decide)
        | unknown _ hend => exact hend hk.symm
  · rw [hkeyword hd]
    have hpg : k ≠ "postgres" := hopen .postgres
    have hsq : k ≠ "sqlite" := hopen .sqlite
    simp only [segmentLine, hd, if_neg hpg, if_neg hsq, if_neg hend,
      Except.error.injEq]
    constructor
    · rintro rfl
      exact .unknown hopen hend
    · intro h
      generalize st.tagged.isSome = inside at h
      cases h with
      | nested b => exact absurd rfl (hopen b)
      | stray => exact absurd rfl hend
      | unknown _ _ => rfl

/-- Keywords are pairs again when an `end` follows an open block. -/
theorem pairs_snoc_outside {keywords : List String} {k : String} :
    Pairs false (keywords ++ [k]) ↔ Pairs true keywords ∧ k = "end" := by
  constructor
  · rintro ⟨bs, h⟩
    have h : keywords ++ [k] = bs.flatMap pairOf := h
    rcases List.eq_nil_or_concat bs with rfl | ⟨bs, b, rfl⟩
    · exact absurd h (by simp)
    · rw [List.concat_eq_append, List.flatMap_append,
        List.flatMap_singleton] at h
      have hsplit : keywords ++ [k]
          = (bs.flatMap pairOf ++ [keyword b]) ++ ["end"] := by
        rw [h, List.append_assoc]
        rfl
      obtain ⟨rfl, hk⟩ := List.append_inj' hsplit rfl
      exact ⟨⟨bs, b, rfl⟩, (List.cons.inj hk).1⟩
  · rintro ⟨⟨bs, b, rfl⟩, rfl⟩
    refine ⟨bs ++ [b], ?_⟩
    show _ = (bs ++ [b]).flatMap pairOf
    rw [List.flatMap_append, List.flatMap_singleton, List.append_assoc]
    rfl

/-- A block is open after an opening keyword that follows pairs. -/
theorem pairs_snoc_inside {keywords : List String} {k : String} :
    Pairs true (keywords ++ [k]) ↔
      Pairs false keywords ∧ ∃ b, k = keyword b := by
  constructor
  · rintro ⟨bs, b, h⟩
    obtain ⟨rfl, hk⟩ := List.append_inj' h rfl
    exact ⟨⟨bs, rfl⟩, b, (List.cons.inj hk).1⟩
  · rintro ⟨⟨bs, h⟩, b, rfl⟩
    have h : keywords = bs.flatMap pairOf := h
    exact ⟨bs, b, by rw [h]⟩

/-- The line is accepted, and a block is open after it or not. -/
def Leads (st : SegmentState) (line : String) (inside : Bool) : Prop :=
  ∃ st', segmentLine st line = .ok st' ∧ st'.tagged.isSome = inside

theorem leads_text {st : SegmentState} {line : String} {inside : Bool}
    (h : directive line = none) :
    Leads st line inside ↔ st.tagged.isSome = inside := by
  obtain ⟨segs, shared, tagged⟩ := st
  cases tagged with
  | none =>
      simp only [Leads, segmentLine_text h, Except.ok.injEq, exists_eq_left']
  | some block =>
      simp only [Leads, segmentLine_body h, Except.ok.injEq, exists_eq_left',
        Option.isSome_some]

theorem leads_opening {st : SegmentState} {line : String} {inside : Bool}
    {b : Backend} (h : directive line = some (keyword b)) :
    Leads st line inside ↔ st.tagged.isSome = false ∧ inside = true := by
  rw [Leads, segmentLine_opening h, SegmentState.openBlock]
  cases st.tagged.isSome with
  | false => simp [eq_comm]
  | true => simp

theorem leads_end {st : SegmentState} {line : String} {inside : Bool}
    (h : directive line = some "end") :
    Leads st line inside ↔ st.tagged.isSome = true ∧ inside = false := by
  obtain ⟨segs, shared, tagged⟩ := st
  simp only [Leads, segmentLine_end h]
  cases tagged with
  | none => simp
  | some block =>
      obtain ⟨b, raw⟩ := block
      simp [eq_comm]

theorem leads_unknown {st : SegmentState} {line k : String} {inside : Bool}
    (h : directive line = some k) (hopen : ∀ b, k ≠ keyword b)
    (hend : k ≠ "end") : ¬ Leads st line inside := by
  rintro ⟨st', hst', -⟩
  obtain ⟨e, he⟩ := segmentLine_unknown h hopen hend
  rw [he] at hst'
  cases hst'

/-- **WHERE THE SEGMENTER STANDS** after some lines can be told from their
    keywords. -/
theorem run_pairs_iff (ls : List String) (inside : Bool) :
    (∃ st, ls.foldlM segmentLine ⟨[], "", none⟩ = .ok st ∧
        st.tagged.isSome = inside) ↔ Pairs inside (ls.filterMap directive) := by
  induction ls using List.reverseRecOn generalizing inside with
  | nil =>
      cases inside with
      | false => exact iff_of_true ⟨_, rfl, rfl⟩ ⟨[], rfl⟩
      | true =>
          refine iff_of_false ?_ ?_
          · rintro ⟨st, hst, hinside⟩
            rw [← foldlM_nil_ok.mp hst] at hinside
            cases hinside
          · rintro ⟨bs, b, h⟩
            exact absurd h (by simp)
  | append_singleton ls line ih =>
      have hstep : (∃ st, (ls ++ [line]).foldlM segmentLine ⟨[], "", none⟩
            = .ok st ∧ st.tagged.isSome = inside) ↔
          ∃ st, ls.foldlM segmentLine ⟨[], "", none⟩ = .ok st ∧
            Leads st line inside := by
        simp only [foldlM_append_ok, foldlM_cons_ok, foldlM_nil_ok, Leads]
        constructor
        · rintro ⟨_, ⟨st, hst, st', hst', rfl⟩, hinside⟩
          exact ⟨st, hst, st', hst', hinside⟩
        · rintro ⟨st, hst, st', hst', hinside⟩
          exact ⟨st', ⟨st, hst, st', hst', rfl⟩, hinside⟩
      rw [hstep, List.filterMap_append]
      rcases directive_cases line with hd | ⟨b, hd⟩ | hd | ⟨k, hd, hopen, hend⟩
      · simp only [leads_text hd, ih, List.filterMap_cons_none hd,
          List.filterMap_nil, List.append_nil]
      · simp only [leads_opening hd, List.filterMap_cons_some hd,
          List.filterMap_nil]
        cases inside with
        | false =>
            rw [pairs_snoc_outside]
            have hne : keyword b ≠ "end" := by cases b <;> decide
            simp [hne]
        | true => simp [pairs_snoc_inside, ← ih]
      · simp only [leads_end hd, List.filterMap_cons_some hd,
          List.filterMap_nil]
        cases inside with
        | false => simp [pairs_snoc_outside, ← ih]
        | true =>
            rw [pairs_snoc_inside]
            have hne : ∀ b, "end" ≠ keyword b := by
              intro b
              cases b <;> decide
            simp [hne]
      · simp only [leads_unknown hd hopen hend, and_false, exists_false,
          List.filterMap_cons_some hd, List.filterMap_nil, false_iff]
        cases inside with
        | false =>
            rw [pairs_snoc_outside]
            exact fun h => hend h.2
        | true =>
            rw [pairs_snoc_inside]
            exact fun ⟨_, b, h⟩ => hopen b h

theorem segment_error {sql e : String} :
    segment sql = .error e ↔ BadText sql e := by
  rw [DualdbMigration.segment, bind_error, foldlM_error]
  constructor
  · rintro (⟨before, line, after, st, hsplit, hbefore, hline⟩ | ⟨st, hrun, h⟩)
    · obtain ⟨k, hk, hbad⟩ := segmentLine_error.mp hline
      exact .line hsplit ((run_pairs_iff _ _).mp ⟨st, hbefore, rfl⟩) hk hbad
    · split at h
      · next hopen =>
        rw [← Except.error.inj h]
        exact .unclosed ((run_pairs_iff _ _).mp ⟨st, hrun, hopen⟩)
      · cases h
  · intro h
    cases h with
    | line hsplit hbefore hk hbad =>
        obtain ⟨st, hst, rfl⟩ := (run_pairs_iff _ _).mpr hbefore
        exact Or.inl ⟨_, _, _, st, hsplit, hst,
          segmentLine_error.mpr ⟨_, hk, hbad⟩⟩
    | unclosed hopen =>
        obtain ⟨st, hst, hinside⟩ := (run_pairs_iff _ _).mpr hopen
        refine Or.inr ⟨st, hst, ?_⟩
        rw [if_pos hinside]

/-! ## Statements -/

theorem pushColumn_error {t : ModelTable} {c : ColumnDef} {e : String} :
    t.pushColumn p c = .error e ↔
      mapType c.dataType = none ∧
        e = "table `" ++ t.name ++ "`, column `" ++ p.identDisplay c.name
          ++ "`: no mapping for type " ++ p.dataTypeDebug c.dataType := by
  rw [ModelTable.pushColumn]
  cases mapType c.dataType with
  | none =>
      rw [Except.error.injEq]
      exact ⟨fun h => ⟨rfl, h.symm⟩, fun h => h.2.symm⟩
  | some row => exact iff_of_false (fun h => by cases h) fun h => by cases h.1

theorem allMapped_of_rows {cs : List ColumnDef} :
    (∃ rows, RowsOf cs rows) ↔ AllMapped (cs.map ColumnDef.dataType) := by
  induction cs with
  | nil => exact iff_of_true ⟨[], .nil⟩ fun dt h => absurd h List.not_mem_nil
  | cons c cs ih =>
      rw [List.map_cons, allMapped_cons, ← ih]
      constructor
      · rintro ⟨_, hrows⟩
        cases hrows with
        | cons hrow hrows => exact ⟨⟨_, hrow⟩, ⟨_, hrows⟩⟩
      · rintro ⟨⟨row, hrow⟩, ⟨rows, hrows⟩⟩
        exact ⟨row :: rows, .cons hrow hrows⟩

theorem ofCreate_error {ct : CreateTable} {e : String} :
    ModelTable.ofCreate p ct = .error e ↔
      ∃ before c after, ct.columns = before ++ c :: after ∧
        AllMapped (before.map ColumnDef.dataType) ∧
        mapType c.dataType = none ∧
        e = "table `" ++ lastIdent ct.name ++ "`, column `"
          ++ p.identDisplay c.name ++ "`: no mapping for type "
          ++ p.dataTypeDebug c.dataType := by
  rw [ModelTable.ofCreate, bind_error, foldlM_error]
  constructor
  · rintro (⟨before, c, after, t, hsplit, hbefore, hc⟩ | ⟨t, -, h⟩)
    · obtain ⟨rows, hrows, rfl⟩ := pushColumns_ok.mp hbefore
      obtain ⟨hnone, rfl⟩ := pushColumn_error.mp hc
      exact ⟨before, c, after, hsplit, allMapped_of_rows.mp ⟨rows, hrows⟩,
        hnone, rfl⟩
    · cases h
  · rintro ⟨before, c, after, hsplit, hbefore, hnone, rfl⟩
    obtain ⟨rows, hrows⟩ := allMapped_of_rows.mpr hbefore
    exact Or.inl ⟨before, c, after, _, hsplit,
      pushColumns_ok.mpr ⟨rows, hrows, rfl⟩, pushColumn_error.mpr ⟨hnone, rfl⟩⟩

theorem tableMut_eq_none {m : Model} {name : String}
    {f : ModelTable → ModelTable} :
    m.tableMut name f = none ↔ ∀ t ∈ m.tables, t.name ≠ name := by
  rw [Model.tableMut, Option.map_eq_none_iff, updateFirst_eq_none]
  refine forall₂_congr fun t _ => ?_
  rw [beq_eq_false_iff_ne]

theorem applyOperation_error {tname : String} {m : Model}
    {op : AlterTableOperation} {e : String} :
    m.applyOperation p tname op = .error e ↔ BadOperation p tname m op e := by
  cases op with
  | addColumn kw ine c position =>
      rw [Model.applyOperation]
      cases hrow : mapType c.dataType with
      | none =>
          simp only [Except.error.injEq]
          constructor
          · rintro rfl
            exact .unmapped hrow
          · intro h
            cases h with
            | unmapped _ => rfl
            | noTable h _ => rw [hrow] at h; cases h
      | some row =>
          dsimp only
          cases hmut : m.tableMut tname _ with
          | none =>
              simp only [Except.error.injEq]
              constructor
              · rintro rfl
                exact .noTable hrow (tableMut_eq_none.mp hmut)
              · intro h
                cases h with
                | unmapped h => rw [hrow] at h; cases h
                | noTable _ _ => rfl
          | some m' =>
              refine iff_of_false (fun h => by cases h) fun h => ?_
              cases h with
              | unmapped h => rw [hrow] at h; cases h
              | noTable _ hm =>
                  rw [tableMut_eq_none.mpr hm] at hmut
                  cases hmut
  | addConstraint con =>
      refine iff_of_false ?_ fun h => by cases h
      cases con <;> exact fun h => by cases h
  | _ => exact iff_of_false (fun h => by cases h) fun h => by cases h

theorem apply_error {m : Model} {s : Statement} {e : String} :
    m.apply p s = .error e ↔ BadStatement p m s e := by
  cases s with
  | createTable ct =>
      rw [Model.apply, bind_error, ofCreate_error]
      constructor
      · rintro (⟨before, c, after, hsplit, hbefore, hnone, rfl⟩ | ⟨t, -, h⟩)
        · exact .column hsplit hbefore hnone
        · cases h
      · intro h
        cases h with
        | column hsplit hbefore hnone =>
            exact Or.inl ⟨_, _, _, hsplit, hbefore, hnone, rfl⟩
  | alterTable name ifExists only ops clauses =>
      rw [Model.apply, foldlM_error]
      constructor
      · rintro ⟨before, op, after, m', hsplit, hbefore, hop⟩
        exact .operation hsplit hbefore (applyOperation_error.mp hop)
      · intro h
        cases h with
        | operation hsplit hbefore hop =>
            exact ⟨_, _, _, _, hsplit, hbefore, applyOperation_error.mpr hop⟩
  | _ => exact iff_of_false (fun h => by cases h) fun h => by cases h

/-! ## Migrations -/

theorem applySegment_error {m : Model} {seg : Segment} {e : String} :
    applySegment p m seg = .error e ↔
      ∃ sql, seg = .shared sql ∧
        ((∃ e', p.parseSql sql = .error e' ∧ e = "SQL parse error: " ++ e') ∨
          ∃ before s after m', p.parseSql sql = .ok (before ++ s :: after) ∧
            before.foldlM (Model.apply p) m = .ok m' ∧
            BadStatement p m' s e) := by
  cases seg with
  | tagged b raw =>
      refine iff_of_false (fun h => by cases h) ?_
      rintro ⟨_, h, -⟩
      cases h
  | shared sql =>
      rw [applySegment, bind_error, parse, mapError_error]
      constructor
      · rintro (herr | ⟨stmts, hstmts, h⟩)
        · exact ⟨sql, rfl, Or.inl herr⟩
        · obtain ⟨before, s, after, m', rfl, hbefore, hs⟩ := foldlM_error.mp h
          exact ⟨sql, rfl, Or.inr ⟨before, s, after, m', mapError_ok.mp hstmts,
            hbefore, apply_error.mp hs⟩⟩
      · rintro ⟨_, heq, herr | ⟨before, s, after, m', hparse, hbefore, hs⟩⟩
        · cases heq
          exact Or.inl herr
        · cases heq
          exact Or.inr ⟨_, mapError_ok.mpr hparse, foldlM_error.mpr
            ⟨before, s, after, m', rfl, hbefore, apply_error.mpr hs⟩⟩

theorem modelPass_error {model : Model} {m : Migration} {e : String} :
    modelPass p model m = .error e ↔
      ∃ fault, Fault p model m fault ∧
        e = "migration `" ++ m.dirName ++ "`: " ++ fault := by
  rw [modelPass, mapError_error]
  refine exists_congr fun fault => and_congr_left fun _ => ?_
  rw [bind_error, segment_error]
  constructor
  · rintro (h | ⟨segs, hsegs, h⟩)
    · exact .directives h
    · obtain ⟨before, seg, after, model', rfl, hbefore, hseg⟩ :=
        foldlM_error.mp h
      obtain ⟨sql, rfl, ⟨e', hparse, rfl⟩ |
        ⟨sbefore, s, safter, model'', hparse, hsbefore, hs⟩⟩ :=
        applySegment_error.mp hseg
      · exact .unparsable hsegs hbefore hparse
      · exact .statement hsegs hbefore hparse hsbefore hs
  · intro h
    cases h with
    | directives h => exact Or.inl h
    | unparsable hsegs hbefore hparse =>
        refine Or.inr ⟨_, hsegs, foldlM_error.mpr
          ⟨_, _, _, _, rfl, hbefore, applySegment_error.mpr ?_⟩⟩
        exact ⟨_, rfl, Or.inl ⟨_, hparse, rfl⟩⟩
    | statement hsegs hbefore hparse hsbefore hs =>
        refine Or.inr ⟨_, hsegs, foldlM_error.mpr
          ⟨_, _, _, _, rfl, hbefore, applySegment_error.mpr ?_⟩⟩
        exact ⟨_, rfl, Or.inr ⟨_, _, _, _, hparse, hsbefore, hs⟩⟩

/-! ## Histories -/

/-- The first migration of a history that does not go through, and what is
    wrong with it. -/
def Refused (p : Sqlparser) (ms : List Migration) (e : String) : Prop :=
  ∃ before m after model fault, ms = before ++ m :: after ∧
    finalModel p before = .ok model ∧ Fault p model m fault ∧
    e = "migration `" ++ m.dirName ++ "`: " ++ fault

theorem generate_error {ms : List Migration} {e : String} :
    generate p ms = .error e ↔ Refused p ms e := by
  have hpass : generate p ms = .error e ↔
      ms.foldlM (modelPass p) Model.empty = .error e := by
    rcases generate_cases p ms with ⟨e', hg, hfold⟩ | ⟨g, m, hg, hfold, -⟩
    · rw [hg, hfold, Except.error.injEq, Except.error.injEq]
    · rw [hg, hfold]
      exact iff_of_false (fun h => by cases h) fun h => by cases h
  rw [hpass, foldlM_error]
  constructor
  · rintro ⟨before, m, after, model, hsplit, hbefore, hm⟩
    obtain ⟨fault, hfault, rfl⟩ := modelPass_error.mp hm
    exact ⟨before, m, after, model, fault, hsplit,
      bind_ok.mpr (modelPasses_ok.mp hbefore), hfault, rfl⟩
  · rintro ⟨before, m, after, model, fault, hsplit, hbefore, hfault, rfl⟩
    exact ⟨before, m, after, model, hsplit,
      modelPasses_ok.mpr (bind_ok.mp hbefore),
      modelPass_error.mpr ⟨fault, hfault, rfl⟩⟩

/-- **A REFUSAL SAYS WHAT IS WRONG**: `generate` returns exactly the messages of
    the faults there are, each at the first migration that has one, and the
    invocation then prints the message, exits with 1 and leaves the disk as it
    was. -/
theorem refusal_exact (p : Sqlparser) :
    (∀ ms e, generate p ms = .error e ↔ Refused p ms e) ∧
    ∀ src outDir rest d ms e, readMigrations d src = .ok ms →
      Refused p ms e →
      main p (src :: outDir :: rest) d
        = ⟨1, "", "diesel-dualdb-schema: " ++ e ++ "\n", d⟩ := by
  refine ⟨fun ms e => generate_error, fun src outDir rest d ms e hread h => ?_⟩
  have hg := generate_error.mpr h
  simp only [main, runOn, hread, hg]

/-- One migration, with a directive that is not known. -/
def unknownDirective : Disk String :=
  [(["m"], .dir), (["m", "1"], .dir),
    (["m", "1", "up.sql"], .file "-- dualdb:mysql")]

theorem refusal_exact_of_unknown_directive :
    main outputsParser [["m"], ["out"]] unknownDirective
      = ⟨1, "", "diesel-dualdb-schema: migration `1`: "
        ++ "unknown directive `-- dualdb:mysql`\n", unknownDirective⟩ := by
  have hlines : lines "-- dualdb:mysql" = [] ++ "-- dualdb:mysql" :: [] := by
    decide +kernel
  have hdir : directive "-- dualdb:mysql" = some "mysql" := by decide +kernel
  have hfault : Fault outputsParser Model.empty ⟨"1", "-- dualdb:mysql", none⟩
      "unknown directive `-- dualdb:mysql`" :=
    .directives (.line hlines (⟨[], rfl⟩ : Pairs false []) hdir
      (.unknown (fun b => by cases b <;> decide) (by decide)))
  have hread : readMigrations unknownDirective ["m"]
      = .ok [⟨"1", "-- dualdb:mysql", none⟩] := by decide +kernel
  exact (refusal_exact outputsParser).2 ["m"] ["out"] [] _ _ _ hread
    ⟨[], _, [], Model.empty, _, rfl, rfl, hfault, rfl⟩

end DualdbRefusal
