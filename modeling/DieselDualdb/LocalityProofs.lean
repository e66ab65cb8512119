import DieselDualdb.AcceptanceProofs
import DieselDualdb.Lib.KeyedRuns

/-!
# Tables are independent of each other

A `CREATE TABLE` or an `ALTER TABLE` is addressed to the last part of the name
it gives, and `Model.apply` neither looks at nor changes any other block.  The
blocks of a name are therefore a run of their own, over the statements addressed
to it (`table_locality`), and a history can be reordered as long as the
statements on each table stay in order (`reordered_history`).

This is what makes it safe to merge two branches that touch different tables:
however their migrations are interleaved by name, the merged history is accepted
exactly when both branches are, and each table is as its branch left it
(`merged_branches`).
-/

namespace DualdbLocality

open DualdbAst DualdbTypeMap DualdbModel DualdbRender DualdbMigration
open DualdbAcceptance FallibleRun FirstUpdate KeyedRuns Pointwise

/-- The table a statement is addressed to. -/
def addressee : Statement → Option String
  | .createTable ct => some (lastIdent ct.name)
  | .alterTable name _ _ _ _ => some (lastIdent name)
  | _ => none

/-- The blocks called `n`. -/
def blocksOf (n : String) (m : Model) : Model :=
  ⟨m.tables.filter fun t => t.name = n⟩

/-- The statements addressed to the table `n`. -/
def statementsOn (n : String) (stmts : List Statement) : List Statement :=
  addressed addressee n stmts

/-! ## One statement -/

section Statements

variable {p : Sqlparser} {n : String}

/-- Updating a block, seen among the blocks of its name. -/
theorem blocksOf_tableMut (m : Model) {f : ModelTable → ModelTable}
    (hf : ∀ t, (f t).name = t.name) :
    (m.tableMut n f).map (blocksOf n) = (blocksOf n m).tableMut n f := by
  have hp : (fun t : ModelTable => decide (t.name = n)) = fun t => t.name == n :=
    rfl
  simp only [Model.tableMut, blocksOf, hp]
  rw [← filter_updateFirst_self (fun t ht => by rw [hf t]; exact ht),
    Option.map_map, Option.map_map]
  rfl

theorem blocksOf_getD (m : Model) {f : ModelTable → ModelTable}
    (hf : ∀ t, (f t).name = t.name) :
    blocksOf n ((m.tableMut n f).getD m)
      = ((blocksOf n m).tableMut n f).getD (blocksOf n m) := by
  rw [← blocksOf_tableMut m hf]
  cases m.tableMut n f <;> rfl

/-- An operation on the table `n`, seen among the blocks of that name. -/
theorem applyOperation_here (m : Model) (op : AlterTableOperation) :
    (m.applyOperation p n op).map (blocksOf n)
      = (blocksOf n m).applyOperation p n op := by
  cases op with
  | addColumn kw ine c pos =>
      simp only [Model.applyOperation]
      cases mapType c.dataType with
      | none => rfl
      | some row =>
          have hblocks := blocksOf_tableMut (n := n) m
            (f := fun t => { t with
              columns := t.columns
                ++ [⟨c.name.value, row.marker, !c.options.any isNotNull⟩] })
            fun t => rfl
          simp only
          rw [← hblocks]
          cases m.tableMut n _ <;> rfl
  | dropColumn c ie cascade =>
      exact congrArg Except.ok (blocksOf_getD m fun t => rfl)
  | addConstraint con =>
      cases con with
      | foreignKey name cols ft refs act =>
          exact congrArg Except.ok (blocksOf_getD m fun t => rfl)
      | unique _ _ _ | primaryKey _ _ _ | check _ _ | other _ => rfl
  | dropConstraint _ _ _ | dropPrimaryKey | renameColumn _ _ | renameTable _
  | changeColumn _ _ _ _ _ | modifyColumn _ _ _ _ | alterColumn _ _
  | other _ => rfl

/-- An operation on another table. -/
theorem applyOperation_elsewhere {m m' : Model} {tname : String}
    {op : AlterTableOperation} (hn : tname ≠ n)
    (h : m.applyOperation p tname op = .ok m') :
    blocksOf n m' = blocksOf n m := by
  rcases applyOperation_cases h with ⟨rfl, -⟩ | hupd
  · rfl
  · refine congrArg Model.mk (filter_updateFirst_of_disjoint ?_ hupd)
    intro t ht
    have hne : t.name ≠ n := fun heq => hn ((eq_of_beq ht).symm.trans heq)
    rw [operationUpdate_name]
    exact ⟨decide_eq_false hne, decide_eq_false hne⟩

/-- A new block, seen among the blocks of its name. -/
theorem createTable_here (m : Model) (ct : CreateTable) :
    (m.apply p (.createTable ct)).map (blocksOf (lastIdent ct.name))
      = (blocksOf (lastIdent ct.name) m).apply p (.createTable ct) := by
  simp only [Model.apply]
  cases ht : ModelTable.ofCreate p ct with
  | error e => rfl
  | ok t =>
      obtain ⟨rows, -, rfl⟩ := ofCreate_ok.mp ht
      refine congrArg Except.ok (congrArg Model.mk ?_)
      rw [List.filter_append, List.filter_cons_of_pos
        (p := fun t : ModelTable => decide (t.name = lastIdent ct.name))
        (decide_eq_true rfl)]
      rfl

/-- **A STATEMENT CONCERNS ITS OWN TABLE ONLY.** -/
theorem apply_keyed (p : Sqlparser) :
    Keyed (Model.apply p) addressee blocksOf (Model.apply p) where
  here m s n hn := by
    cases s with
    | createTable ct =>
        cases Option.some.inj hn
        exact createTable_here m ct
    | alterTable name ie only ops clauses =>
        cases Option.some.inj hn
        exact map_foldlM (fun m op => applyOperation_here m op) m ops
    | drop _ _ _ _ _ | createIndex _ | other _ => cases hn
  elsewhere m m' s n hn h := by
    cases s with
    | createTable ct =>
        obtain ⟨rows, -, rfl⟩ := apply_createTable_ok.mp h
        have hne : lastIdent ct.name ≠ n := fun heq => hn (congrArg some heq)
        refine congrArg Model.mk ?_
        rw [List.filter_append, List.filter_cons_of_neg (by
          rw [decide_eq_true_iff]; exact hne), List.filter_nil,
          List.append_nil]
    | alterTable name ie only ops clauses =>
        have hne : lastIdent name ≠ n := fun heq => hn (congrArg some heq)
        exact run_invariant (I := fun m₁ => blocksOf n m₁ = blocksOf n m)
          (fun m₁ op m₂ hI hop =>
            (applyOperation_elsewhere hne hop).trans hI) ops m m' rfl h
    | drop _ _ _ _ _ | createIndex _ | other _ => rw [← Except.ok.inj h]
  free m s hs := by
    cases s with
    | createTable ct => cases hs
    | alterTable name ie only ops clauses => cases hs
    | drop _ _ _ _ _ | createIndex _ | other _ => exact ⟨m, rfl⟩

end Statements

/-! ## Histories of statements -/

/-- **TABLES ARE INDEPENDENT**: a history is accepted exactly when, for every
    name, the statements addressed to it are; and the blocks of a name are then
    what these statements alone make of them. -/
theorem table_locality (p : Sqlparser) (stmts : List Statement) (m : Model) :
    ((∃ m', stmts.foldlM (Model.apply p) m = .ok m') ↔
      ∀ n, ∃ m', (statementsOn n stmts).foldlM (Model.apply p) (blocksOf n m)
        = .ok m') ∧
    ∀ m', stmts.foldlM (Model.apply p) m = .ok m' →
      ∀ n, (statementsOn n stmts).foldlM (Model.apply p) (blocksOf n m)
        = .ok (blocksOf n m') :=
  ⟨(apply_keyed p).run_accepted_iff,
    fun _ h n => (apply_keyed p).run_view n h⟩

/-- Blocks stand in the order of their `CREATE TABLE`s. -/
theorem apply_names {p : Sqlparser} {stmts : List Statement} {m m' : Model}
    (h : stmts.foldlM (Model.apply p) m = .ok m') :
    m'.tables.map ModelTable.name
      = m.tables.map ModelTable.name ++ stmts.filterMap createdTable := by
  induction stmts generalizing m with
  | nil =>
      rw [foldlM_nil_ok.mp h, List.filterMap_nil, List.append_nil]
  | cons s stmts ih =>
      obtain ⟨m₁, hs, hrest⟩ := foldlM_cons_ok.mp h
      rw [ih hrest]
      cases s with
      | createTable ct =>
          obtain ⟨rows, -, rfl⟩ := apply_createTable_ok.mp hs
          rw [List.filterMap_cons_some (f := createdTable) rfl,
            List.map_append, List.append_assoc]
          rfl
      | alterTable name ie only ops clauses =>
          rw [List.filterMap_cons_none (f := createdTable) rfl]
          congr 1
          exact run_invariant
            (I := fun m₂ : Model => m₂.tables.map ModelTable.name
              = m.tables.map ModelTable.name)
            (fun m₂ op m₃ hI hop =>
              (applyOperation_map (operationUpdate_name op) hop).trans hI)
            ops m m₁ rfl hs
      | drop _ _ _ _ _ | createIndex _ | other _ =>
          rw [List.filterMap_cons_none (f := createdTable) rfl,
            ← Except.ok.inj hs]

/-! ## Histories of migrations, reordered -/

section Reordered

variable {p : Sqlparser} {ss ss' : List Statement} {m : Model}

theorem reordered_models (h : ∀ n, statementsOn n ss = statementsOn n ss') :
    RelOk (fun m₁ m₂ : Model => m₁.tables.Perm m₂.tables ∧
        (ss.filterMap createdTable = ss'.filterMap createdTable → m₁ = m₂))
      (ss.foldlM (Model.apply p) m) (ss'.foldlM (Model.apply p) m) := by
  have hviews := (apply_keyed p).runs_alike h m
  cases hs : ss.foldlM (Model.apply p) m with
  | error e =>
      rw [hs] at hviews
      cases hs' : ss'.foldlM (Model.apply p) m with
      | error e' => exact .error
      | ok m₂ => rw [hs'] at hviews; cases hviews
  | ok m₁ =>
      rw [hs] at hviews
      cases hs' : ss'.foldlM (Model.apply p) m with
      | error e' => rw [hs'] at hviews; cases hviews
      | ok m₂ =>
          rw [hs'] at hviews
          have hshards : ∀ n, m₁.tables.filter (fun t => t.name = n)
              = m₂.tables.filter fun t => t.name = n := fun n =>
            congrArg Model.tables (hviews.results rfl rfl n)
          refine .ok ⟨perm_of_shards hshards, fun hcreated => ?_⟩
          have hnames : m₁.tables.map ModelTable.name
              = m₂.tables.map ModelTable.name := by
            rw [apply_names hs, apply_names hs', hcreated]
          obtain ⟨ts⟩ := m₁
          obtain ⟨ts'⟩ := m₂
          exact congrArg Model.mk (eq_of_shards hnames hshards)

end Reordered

/-- **ONLY THE ORDER ON EACH TABLE MATTERS**: histories whose statements on each
    table are the same, in the same order, are accepted together and describe
    the same tables; and if the tables are also created in the same order, they
    print the same `schema.rs`. -/
theorem reordered_history {p : Sqlparser} {ms ms' : List Migration}
    {ss ss' : List Statement} (hss : allStatements p ms = .ok ss)
    (hss' : allStatements p ms' = .ok ss')
    (h : ∀ n, statementsOn n ss = statementsOn n ss') :
    ((∃ g, generate p ms = .ok g) ↔ ∃ g', generate p ms' = .ok g') ∧
    ∀ g g', generate p ms = .ok g → generate p ms' = .ok g' →
      (∃ m m', finalModel p ms = .ok m ∧ finalModel p ms' = .ok m' ∧
        m.tables.Perm m'.tables) ∧
      (ss.filterMap createdTable = ss'.filterMap createdTable →
        g.schemaRs = g'.schemaRs) := by
  have hmodels := reordered_models (p := p) (m := Model.empty) h
  have hfinal : ∀ {m}, finalModel p ms = .ok m ↔
      ss.foldlM (Model.apply p) Model.empty = .ok m := by
    intro m
    rw [finalModel, hss]
    rfl
  have hfinal' : ∀ {m}, finalModel p ms' = .ok m ↔
      ss'.foldlM (Model.apply p) Model.empty = .ok m := by
    intro m
    rw [finalModel, hss']
    rfl
  constructor
  · rw [accepted_iff, accepted_iff]
    simp only [hfinal, hfinal']
    exact hmodels.accepts_iff
  · intro g g' hg hg'
    obtain ⟨m, hm, hprint, -⟩ := generate_ok.mp hg
    obtain ⟨m', hm', hprint', -⟩ := generate_ok.mp hg'
    obtain ⟨hperm, heq⟩ := hmodels.results (hfinal.mp hm) (hfinal'.mp hm')
    refine ⟨⟨m, m', hm, hm', hperm⟩, fun hcreated => ?_⟩
    rw [← heq hcreated] at hprint'
    exact Except.ok.inj (hprint.symm.trans hprint')

/-! ## Merging branches -/

/-- A shared statement of `ms` is addressed to the table `n`. -/
def Touches (p : Sqlparser) (ms : List Migration) (n : String) : Prop :=
  ∃ m ∈ ms, ∃ stmts, migrationStatements p m = .ok stmts ∧
    ∃ s ∈ stmts, addressee s = some n

section Branches

variable {p : Sqlparser} {base as bs cs : List Migration}

theorem touches_iff {ms : List Migration} {n : String}
    {stmts : List Statement} (h : allStatements p ms = .ok stmts) :
    Touches p ms n ↔ ∃ s ∈ stmts, addressee s = some n := by
  obtain ⟨chunks, hchunks, rfl⟩ := allStatements_ok.mp h
  constructor
  · rintro ⟨m, hm, stmts, hstmts, s, hs, hn⟩
    obtain ⟨chunk, hchunk, hmc⟩ := forall₂_of_mem_left hchunks hm
    rw [Except.ok.inj (hstmts.symm.trans hmc)] at hs
    exact ⟨s, List.mem_flatten.mpr ⟨chunk, hchunk, hs⟩, hn⟩
  · rintro ⟨s, hs, hn⟩
    obtain ⟨chunk, hchunk, hs⟩ := List.mem_flatten.mp hs
    obtain ⟨m, hm, hmc⟩ := forall₂_of_mem_left hchunks.flip hchunk
    exact ⟨m, hm, chunk, hmc, s, hs, hn⟩

theorem statementsOn_untouched {n : String} {stmts : List Statement}
    (h : allStatements p bs = .ok stmts) (hn : ¬ Touches p bs n) :
    ∀ s ∈ stmts, addressee s ≠ some n :=
  fun s hs hsn => hn ((touches_iff h).mpr ⟨s, hs, hsn⟩)

/-- The statements of interleaved branches. -/
theorem interleaved_statements (hmerge : Interleaving as bs cs)
    {sc : List Statement} (h : allStatements p cs = .ok sc) :
    ∃ sa sb, allStatements p as = .ok sa ∧ allStatements p bs = .ok sb ∧
      Interleaving sa sb sc := by
  obtain ⟨chunks, hchunks, rfl⟩ := allStatements_ok.mp h
  obtain ⟨xs, ys, hxs, hys, hi⟩ := hmerge.partners hchunks
  exact ⟨xs.flatten, ys.flatten, allStatements_ok.mpr ⟨xs, hxs, rfl⟩,
    allStatements_ok.mpr ⟨ys, hys, rfl⟩, hi.flatten⟩

theorem interleave_statements (hmerge : Interleaving as bs cs)
    {sa sb : List Statement} (ha : allStatements p as = .ok sa)
    (hb : allStatements p bs = .ok sb) :
    ∃ sc, allStatements p cs = .ok sc ∧ Interleaving sa sb sc := by
  obtain ⟨xs, hxs, rfl⟩ := allStatements_ok.mp ha
  obtain ⟨ys, hys, rfl⟩ := allStatements_ok.mp hb
  obtain ⟨zs, hzs, hi⟩ := hmerge.of_partners hxs hys
  exact ⟨zs.flatten, allStatements_ok.mpr ⟨zs, hzs, rfl⟩, hi.flatten⟩

/-- The blocks the other branch does not touch are as this branch left them. -/
theorem merged_blocks (hmerge : Interleaving as bs cs) {m ma : Model}
    (hm : finalModel p (base ++ cs) = .ok m)
    (hma : finalModel p (base ++ as) = .ok ma) {n : String}
    (hn : ¬ Touches p bs n) : blocksOf n m = blocksOf n ma := by
  obtain ⟨m₀, sc, hm₀, hsc, hc⟩ := finalModel_append_ok.mp hm
  obtain ⟨m₀', sa, hm₀', hsa, ha⟩ := finalModel_append_ok.mp hma
  cases Except.ok.inj (hm₀.symm.trans hm₀')
  obtain ⟨sa', sb, hsa', hsb, hi⟩ := interleaved_statements hmerge hsc
  cases Except.ok.inj (hsa.symm.trans hsa')
  -- both are the run of the statements on `n`
  have hview := (table_locality p sc m₀).2 m hc n
  rw [statementsOn, hi.addressed_left (statementsOn_untouched hsb hn)] at hview
  exact Except.ok.inj (hview.symm.trans ((table_locality p sa m₀).2 ma ha n))

/-- A branch is accepted when the merged history is. -/
theorem branch_accepted (hmerge : Interleaving as bs cs)
    (hdisjoint : ∀ n, Touches p as n → ¬ Touches p bs n) {m : Model}
    (hm : finalModel p (base ++ cs) = .ok m) :
    ∃ ma, finalModel p (base ++ as) = .ok ma := by
  obtain ⟨m₀, sc, hm₀, hsc, hc⟩ := finalModel_append_ok.mp hm
  obtain ⟨sa, sb, hsa, hsb, hi⟩ := interleaved_statements hmerge hsc
  obtain ⟨ma, ha⟩ := (table_locality p sa m₀).1.mpr fun n => by
    by_cases hn : Touches p as n
    · rw [statementsOn, ← hi.addressed_left
        (statementsOn_untouched hsb (hdisjoint n hn))]
      exact (table_locality p sc m₀).1.mp ⟨m, hc⟩ n
    · -- nothing is addressed to the table
      rw [statementsOn, addressed_eq_nil.mpr (statementsOn_untouched hsa hn)]
      exact ⟨_, rfl⟩
  exact ⟨ma, finalModel_append_ok.mpr ⟨m₀, sa, hm₀, hsa, ha⟩⟩

/-- Accepted branches can be merged. -/
theorem merge_accepted (hmerge : Interleaving as bs cs)
    (hdisjoint : ∀ n, Touches p as n → ¬ Touches p bs n) {ma mb : Model}
    (hma : finalModel p (base ++ as) = .ok ma)
    (hmb : finalModel p (base ++ bs) = .ok mb) :
    ∃ m, finalModel p (base ++ cs) = .ok m := by
  obtain ⟨m₀, sa, hm₀, hsa, ha⟩ := finalModel_append_ok.mp hma
  obtain ⟨m₀', sb, hm₀', hsb, hb⟩ := finalModel_append_ok.mp hmb
  cases Except.ok.inj (hm₀.symm.trans hm₀')
  obtain ⟨sc, hsc, hi⟩ := interleave_statements hmerge hsa hsb
  obtain ⟨m, hc⟩ := (table_locality p sc m₀).1.mpr fun n => by
    by_cases hn : Touches p as n
    · rw [statementsOn, hi.addressed_left
        (statementsOn_untouched hsb (hdisjoint n hn))]
      exact (table_locality p sa m₀).1.mp ⟨ma, ha⟩ n
    · rw [statementsOn, hi.symm.addressed_left (statementsOn_untouched hsa hn)]
      exact (table_locality p sb m₀).1.mp ⟨mb, hb⟩ n
  exact ⟨m, finalModel_append_ok.mpr ⟨m₀, sc, hm₀, hsc, hc⟩⟩

/-- The tree of a merged history: the common part, then the branches' entries,
    interleaved like their migrations. -/
theorem merged_tree (hmerge : Interleaving as bs cs) {g ga gb : Generated}
    (hg : generate p (base ++ cs) = .ok g)
    (hga : generate p (base ++ as) = .ok ga)
    (hgb : generate p (base ++ bs) = .ok gb) (c : Backend) :
    ∃ rs ra rb rc, ga.tree c = rs ++ ra ∧ gb.tree c = rs ++ rb ∧
      g.tree c = rs ++ rc ∧ Interleaving ra rb rc := by
  obtain ⟨rs, rc, hrs, hrc, hc⟩ := forall₂_append_iff.mp (generate_tree hg c)
  obtain ⟨rs', ra, hrs', hra, ha⟩ :=
    forall₂_append_iff.mp (generate_tree hga c)
  obtain ⟨rs'', rb, hrs'', hrb, hb⟩ :=
    forall₂_append_iff.mp (generate_tree hgb c)
  rw [trees_unique hrs hrs'] at ha
  rw [trees_unique hrs hrs''] at hb
  obtain ⟨ra', rb', hra', hrb', hi⟩ := hmerge.partners hrc
  rw [trees_unique hra hra', trees_unique hrb hrb'] at hi
  exact ⟨rs, ra, rb, rc, ha, hb, hc, hi⟩

/-- **MERGING BRANCHES THAT TOUCH DIFFERENT TABLES**: however the migrations of
    two branches are interleaved, the merged history is accepted exactly when
    both branches are; its trees are the branches' trees, interleaved the same
    way; and each table is as the branch that may touch it left it. -/
theorem merged_branches (hmerge : Interleaving as bs cs)
    (hdisjoint : ∀ n, Touches p as n → ¬ Touches p bs n) :
    ((∃ g, generate p (base ++ cs) = .ok g) ↔
      (∃ ga, generate p (base ++ as) = .ok ga) ∧
        ∃ gb, generate p (base ++ bs) = .ok gb) ∧
    (∀ g ga gb c, generate p (base ++ cs) = .ok g →
      generate p (base ++ as) = .ok ga → generate p (base ++ bs) = .ok gb →
      ∃ rs ra rb rc, ga.tree c = rs ++ ra ∧ gb.tree c = rs ++ rb ∧
        g.tree c = rs ++ rc ∧ Interleaving ra rb rc) ∧
    ∀ m ma mb n, finalModel p (base ++ cs) = .ok m →
      finalModel p (base ++ as) = .ok ma →
      finalModel p (base ++ bs) = .ok mb →
      (¬ Touches p bs n → blocksOf n m = blocksOf n ma) ∧
      (¬ Touches p as n → blocksOf n m = blocksOf n mb) := by
  refine ⟨?_, fun g ga gb c hg hga hgb => merged_tree hmerge hg hga hgb c,
    fun m ma mb n hm hma hmb => ⟨merged_blocks hmerge hm hma,
      merged_blocks hmerge.symm hm hmb⟩⟩
  rw [accepted_iff, accepted_iff, accepted_iff]
  constructor
  · rintro ⟨m, hm⟩
    exact ⟨branch_accepted hmerge hdisjoint hm,
      branch_accepted hmerge.symm (fun n hb ha => hdisjoint n ha hb) hm⟩
  · rintro ⟨⟨ma, hma⟩, mb, hmb⟩
    exact merge_accepted hmerge hdisjoint hma hmb

end Branches

/-! ## Runs -/

section Runs

open DualdbSqlText

def branchParser : Sqlparser := parserOf
  [("CREATE TABLE users (id INT)\n",
      [createTable (bare "users") [col "id" (.int none) []] []]),
    ("ALTER TABLE users ADD COLUMN email TEXT\n",
      [alterTable (bare "users") [addColumn (col "email" .text [])]]),
    ("CREATE TABLE posts (id INT)\n",
      [createTable (bare "posts") [col "id" (.int none) []] []])]

def createUsers : Migration := ⟨"1", "CREATE TABLE users (id INT)", none⟩

def addEmail : Migration :=
  ⟨"2", "ALTER TABLE users ADD COLUMN email TEXT", none⟩

def createPosts : Migration := ⟨"3", "CREATE TABLE posts (id INT)", none⟩

theorem addEmail_statements : allStatements branchParser [addEmail]
    = .ok [alterTable (bare "users") [addColumn (col "email" .text [])]] := by
  decide +kernel

theorem createPosts_statements : allStatements branchParser [createPosts]
    = .ok [createTable (bare "posts") [col "id" (.int none) []] []] := by
  decide +kernel

theorem emailAndPosts_disjoint (n : String)
    (h : Touches branchParser [addEmail] n) :
    ¬ Touches branchParser [createPosts] n := by
  intro h'
  obtain ⟨s, hs, hn⟩ := (touches_iff addEmail_statements).mp h
  obtain ⟨s', hs', hn'⟩ := (touches_iff createPosts_statements).mp h'
  rw [List.mem_singleton.mp hs] at hn
  rw [List.mem_singleton.mp hs', ← hn] at hn'
  exact absurd hn' (by decide)

/-- The branch with the later name comes first in the merged history. -/
theorem merged_branches_of_email_and_posts :
    ∃ g, generate branchParser ([createUsers] ++ [createPosts, addEmail])
      = .ok g := by
  have hmerge : Interleaving [addEmail] [createPosts]
      [createPosts, addEmail] := .right (.left .nil)
  refine (merged_branches hmerge emailAndPosts_disjoint).1.mpr ⟨?_, ?_⟩
  · exact exists_ok_of_isOk
      (x := generate branchParser ([createUsers] ++ [addEmail]))
      (by decide +kernel)
  · exact exists_ok_of_isOk
      (x := generate branchParser ([createUsers] ++ [createPosts]))
      (by decide +kernel)

theorem emailPosts_statements :
    allStatements branchParser [createUsers, addEmail, createPosts] = .ok
      [createTable (bare "users") [col "id" (.int none) []] [],
        alterTable (bare "users") [addColumn (col "email" .text [])],
        createTable (bare "posts") [col "id" (.int none) []] []] := by
  decide +kernel

theorem postsEmail_statements :
    allStatements branchParser [createUsers, createPosts, addEmail] = .ok
      [createTable (bare "users") [col "id" (.int none) []] [],
        createTable (bare "posts") [col "id" (.int none) []] [],
        alterTable (bare "users") [addColumn (col "email" .text [])]] := by
  decide +kernel

/-- The column is added before the second table is made, or after it. -/
theorem reordered_history_of_email_and_posts :
    ∃ g g', generate branchParser [createUsers, addEmail, createPosts] = .ok g ∧
      generate branchParser [createUsers, createPosts, addEmail] = .ok g' ∧
      g.schemaRs = g'.schemaRs := by
  have hne : addressee (alterTable (bare "users")
        [addColumn (col "email" .text [])])
      ≠ addressee (createTable (bare "posts") [col "id" (.int none) []] []) := by
    decide
  have horder : ∀ n, statementsOn n
        ([createTable (bare "users") [col "id" (.int none) []] []]
          ++ [alterTable (bare "users") [addColumn (col "email" .text [])],
            createTable (bare "posts") [col "id" (.int none) []] []])
      = statementsOn n
        ([createTable (bare "users") [col "id" (.int none) []] []]
          ++ [createTable (bare "posts") [col "id" (.int none) []] [],
            alterTable (bare "users") [addColumn (col "email" .text [])]]) := by
    intro n
    rw [statementsOn, statementsOn, addressed_append, addressed_append,
      addressed_swap hne]
  obtain ⟨hiff, hsame⟩ := reordered_history emailPosts_statements
    postsEmail_statements horder
  obtain ⟨g, hg⟩ := exists_ok_of_isOk
    (x := generate branchParser [createUsers, addEmail, createPosts])
    (by decide +kernel)
  obtain ⟨g', hg'⟩ := hiff.mp ⟨g, hg⟩
  exact ⟨g, g', hg, hg', (hsame g g' hg hg').2 (by decide +kernel)⟩

end Runs

end DualdbLocality
