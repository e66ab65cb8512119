import DieselDualdb.CatalogFrame
import DieselDualdb.EmittedRun
import DieselDualdb.SqlText

/-!
# Deploying two branches in any order

Two branches grow from one history and are merged.  A database that was ahead with
one of them gets the other one late, so its migrations are executed in another
order than in a database that starts with the merged tree.

When the branches change tables of their own, and refer to tables of their own and
to shared ones that neither changes, the order does not matter: every interleaving
of the two is executed without a refusal as soon as each branch is on its own, and
all of them leave the same tables (`branches_deploy`).
-/

namespace DualdbBranches

open DualdbAst DualdbTypeMap DualdbMigration DualdbRewrite DualdbCatalog
open DualdbEmitted DualdbFrame DualdbSqlText
open FallibleRun KeyedRuns RustStr TwoViews

variable {κ : Type} {d : Dialect κ} {A B : κ → Bool} {p : Sqlparser}
  {b : Backend}

/-! ## The pieces of a branch -/

/-- The migrations change tables of `A` only, refer to none of `B` and copy no
    table. -/
def Touches (p : Sqlparser) (d : Dialect κ) (A B : κ → Bool)
    (ms : List Migration) : Prop :=
  ∀ m ∈ ms, ∀ stmts, migrationStatements p m = .ok stmts →
    ∀ s ∈ stmts, Within d A B s

/-- The rewriter changes types, which are no tables. -/
theorem within_withNative {s : Statement} (h : Within d A B s) :
    Within d A B (withNative b s) := by
  cases s with
  | createTable ct =>
      obtain ⟨hA, hown, hrefs⟩ := h
      refine ⟨hA, hown, fun con hcon => hrefs con ?_⟩
      rw [declaredConstraints, List.flatMap_map] at hcon
      exact hcon
  | alterTable name ie only ops cl =>
      obtain ⟨hA, hops⟩ := h
      refine ⟨hA, List.forall_mem_map.mpr fun op hop => ?_⟩
      have hop := hops op hop
      cases op <;> exact hop
  | drop _ _ _ _ _ | createIndex _ | other _ => exact h

/-- `b`'s tagged blocks in the migrations are never refused and change no table
    and no index. -/
def Inert (raw : Raw κ) (p : Sqlparser) (b : Backend) (ms : List Migration) :
    Prop :=
  ∀ m ∈ ms, ∀ ps, migrationPieces p b m = .ok ps →
    ∀ text, Piece.block text ∈ ps → ∀ c, raw c text = .ok c

def PieceWithin (d : Dialect κ) (raw : Raw κ) (A B : κ → Bool) : Piece → Prop
  | .statement s => Within d A B s
  | .block text => ∀ c, raw c text = .ok c

variable {raw : Raw κ}

theorem pieces_within {m : Migration} {ps : List Piece}
    (h : ∀ stmts, migrationStatements p m = .ok stmts →
      ∀ s ∈ stmts, Within d A B s)
    (hblocks : ∀ text, Piece.block text ∈ ps → ∀ c, raw c text = .ok c)
    (hps : migrationPieces p b m = .ok ps) :
    ∀ piece ∈ ps, PieceWithin d raw A B piece := by
  obtain ⟨stmts, hstmts, hpieces⟩ := migrationPieces_statements hps
  intro piece hpiece
  cases piece with
  | block text => exact hblocks text hpiece
  | statement s =>
      have hs : s ∈ ps.filterMap Piece.statement? :=
        List.mem_filterMap.mpr ⟨_, hpiece, rfl⟩
      rw [hpieces] at hs
      obtain ⟨s', hs', rfl⟩ := List.mem_map.mp hs
      exact within_withNative (h stmts hstmts s' hs')

variable [DecidableEq κ]

theorem piece_private (hAB : ∀ k, A k = true → B k = false) {piece : Piece}
    (h : PieceWithin d raw A B piece) :
    Private (execPiece d raw) (Apart d A B) (restrict d (without B))
      (restrict d (without A)) (execPiece d raw) piece := by
  cases piece with
  | statement s =>
      have hs := exec_private hAB h
      exact ⟨hs.own, hs.unseen, hs.keeps⟩
  | block text =>
      refine ⟨fun c _ => ?_, fun c c' _ hc' => ?_, fun c c' hc hc' => ?_⟩
      · rw [execPiece, execPiece, h c, h]
        rfl
      · rw [execPiece, h c] at hc'
        rw [Except.ok.inj hc']
      · rw [execPiece, h c] at hc'
        exact Except.ok.inj hc' ▸ hc

omit [DecidableEq κ] in
theorem theirs_of_mine (hAB : ∀ k, A k = true → B k = false) :
    ∀ k, B k = true → A k = false := by
  intro k hk
  cases hA : A k with
  | false => rfl
  | true => exact absurd ((hAB k hA).symm.trans hk) Bool.false_ne_true

theorem piece_private_theirs (hAB : ∀ k, A k = true → B k = false)
    {piece : Piece} (h : PieceWithin d raw B A piece) :
    Private (execPiece d raw) (Apart d A B) (restrict d (without A))
      (restrict d (without B)) (execPiece d raw) piece := by
  have hp := piece_private (theirs_of_mine hAB) h
  exact ⟨fun c hc => hp.own c hc.symm, fun c c' hc => hp.unseen c c' hc.symm,
    fun c c' hc hc' => (hp.keeps c c' hc.symm hc').symm⟩

/-! ## Deploying -/

/-- Executing `b`'s scripts of the migrations, in this order. -/
def Applies (d : Dialect κ) (raw : Raw κ) (p : Sqlparser) (b : Backend)
    (ms : List Migration) (c c' : Catalog κ) : Prop :=
  ∃ ps, treePieces p b ms = .ok ps ∧ ps.foldlM (execPiece d raw) c = .ok c'

theorem applies_of_leaves {c : Catalog κ} {ms : List Migration}
    (h : Leaves d raw p b ms c) : Applies d raw p b ms Catalog.empty c := by
  obtain ⟨ps, hps, -, hrun⟩ := h
  exact ⟨ps, hps, hrun⟩

section Deploy

variable {base ns₁ ns₂ ns : List Migration} {c : Catalog κ}

omit [DecidableEq κ] in
/-- The pieces of a merged branch are the pieces of the two, interleaved. -/
theorem pieces_interleaved (h : Interleaving ns₁ ns₂ ns) :
    (∀ ps, treePieces p b ns = .ok ps → ∃ ps₁ ps₂,
      treePieces p b ns₁ = .ok ps₁ ∧ treePieces p b ns₂ = .ok ps₂ ∧
        Interleaving ps₁ ps₂ ps) ∧
    ∀ ps₁ ps₂, treePieces p b ns₁ = .ok ps₁ → treePieces p b ns₂ = .ok ps₂ →
      ∃ ps, treePieces p b ns = .ok ps ∧ Interleaving ps₁ ps₂ ps := by
  constructor
  · intro ps hps
    obtain ⟨pss, hpss, rfl⟩ := treePieces_ok.mp hps
    obtain ⟨pss₁, pss₂, h₁, h₂, hi⟩ := h.partners hpss
    exact ⟨_, _, treePieces_ok.mpr ⟨pss₁, h₁, rfl⟩,
      treePieces_ok.mpr ⟨pss₂, h₂, rfl⟩, hi.flatten⟩
  · intro ps₁ ps₂ hps₁ hps₂
    obtain ⟨pss₁, h₁, rfl⟩ := treePieces_ok.mp hps₁
    obtain ⟨pss₂, h₂, rfl⟩ := treePieces_ok.mp hps₂
    obtain ⟨pss, hpss, hi⟩ := h.of_partners h₁ h₂
    exact ⟨_, treePieces_ok.mpr ⟨pss, hpss, rfl⟩, hi.flatten⟩

omit [DecidableEq κ] in
theorem treePieces_within (h : Touches p d A B ns) (hraw : Inert raw p b ns)
    {ps : List Piece} (hps : treePieces p b ns = .ok ps) :
    ∀ piece ∈ ps, PieceWithin d raw A B piece := by
  obtain ⟨pss, hpss, rfl⟩ := treePieces_ok.mp hps
  intro piece hpiece
  obtain ⟨ps, hps, hpiece⟩ := List.mem_flatten.mp hpiece
  obtain ⟨m, hm, hmps⟩ := Pointwise.forall₂_of_mem_left hpss.flip hps
  exact pieces_within (h m hm) (hraw m hm ps hmps) hmps piece hpiece

theorem applies_append {ms : List Migration} {c'' : Catalog κ} :
    Applies d raw p b (ms ++ ns) c c'' ↔
      ∃ c', Applies d raw p b ms c c' ∧ Applies d raw p b ns c' c'' := by
  constructor
  · rintro ⟨ps, hps, hrun⟩
    obtain ⟨pss, hpss, rfl⟩ := treePieces_ok.mp hps
    obtain ⟨xs, ys, hxs, hys, rfl⟩ := Pointwise.forall₂_append_iff.mp hpss
    rw [List.flatten_append] at hrun
    obtain ⟨c', h₁, h₂⟩ := foldlM_append_ok.mp hrun
    exact ⟨c', ⟨_, treePieces_ok.mpr ⟨xs, hxs, rfl⟩, h₁⟩,
      ⟨_, treePieces_ok.mpr ⟨ys, hys, rfl⟩, h₂⟩⟩
  · rintro ⟨c', ⟨ps, hps, h₁⟩, ⟨qs, hqs, h₂⟩⟩
    obtain ⟨xs, hxs, rfl⟩ := treePieces_ok.mp hps
    obtain ⟨ys, hys, rfl⟩ := treePieces_ok.mp hqs
    refine ⟨xs.flatten ++ ys.flatten, treePieces_ok.mpr ⟨xs ++ ys,
      List.rel_append hxs hys, List.flatten_append⟩, ?_⟩
    exact foldlM_append_ok.mpr ⟨c', h₁, h₂⟩

theorem applies_unique {ms : List Migration} {c₁ c₂ : Catalog κ}
    (h₁ : Applies d raw p b ms c c₁) (h₂ : Applies d raw p b ms c c₂) :
    c₁ = c₂ := by
  obtain ⟨ps, hps, hrun⟩ := h₁
  obtain ⟨ps', hps', hrun'⟩ := h₂
  cases Except.ok.inj (hps.symm.trans hps')
  exact Except.ok.inj (hrun.symm.trans hrun')

/-- The pieces of the two branches do not notice each other. -/
theorem pieces_run_interleaved (hAB : ∀ k, A k = true → B k = false)
    (hc : Apart d A B c) (h₁ : Touches p d A B ns₁) (h₂ : Touches p d B A ns₂)
    (hraw₁ : Inert raw p b ns₁) (hraw₂ : Inert raw p b ns₂)
    {ps₁ ps₂ ps : List Piece} (hps₁ : treePieces p b ns₁ = .ok ps₁)
    (hps₂ : treePieces p b ns₂ = .ok ps₂) (hps : Interleaving ps₁ ps₂ ps) :
    ((∃ c', ps.foldlM (execPiece d raw) c = .ok c') ↔
      (∃ c₁, ps₁.foldlM (execPiece d raw) c = .ok c₁) ∧
        ∃ c₂, ps₂.foldlM (execPiece d raw) c = .ok c₂) ∧
    ∀ c', ps.foldlM (execPiece d raw) c = .ok c' →
      (∀ c₁, ps₁.foldlM (execPiece d raw) c = .ok c₁ →
        restrict d (without B) c' = restrict d (without B) c₁) ∧
      ∀ c₂, ps₂.foldlM (execPiece d raw) c = .ok c₂ →
        restrict d (without A) c' = restrict d (without A) c₂ := by
  have hmine : ∀ piece ∈ ps₁, Private (execPiece d raw) (Apart d A B)
      (restrict d (without B)) (restrict d (without A)) (execPiece d raw)
      piece := by
    intro piece hpiece
    exact piece_private hAB (treePieces_within h₁ hraw₁ hps₁ piece hpiece)
  have htheirs : ∀ piece ∈ ps₂, Private (execPiece d raw) (Apart d A B)
      (restrict d (without A)) (restrict d (without B)) (execPiece d raw)
      piece := by
    intro piece hpiece
    exact piece_private_theirs hAB
      (treePieces_within h₂ hraw₂ hps₂ piece hpiece)
  exact run_interleaved hps hmine htheirs hc

/-- **THE TWO BRANCHES, ON ANY DATABASE**, in any order. -/
theorem applies_interleaved (hAB : ∀ k, A k = true → B k = false)
    (hc : Apart d A B c) (h₁ : Touches p d A B ns₁) (h₂ : Touches p d B A ns₂)
    (hraw₁ : Inert raw p b ns₁) (hraw₂ : Inert raw p b ns₂)
    (hi : Interleaving ns₁ ns₂ ns) :
    ((∃ c', Applies d raw p b ns c c') ↔
      (∃ c₁, Applies d raw p b ns₁ c c₁) ∧ ∃ c₂, Applies d raw p b ns₂ c c₂) ∧
    ∀ c', Applies d raw p b ns c c' →
      (∀ c₁, Applies d raw p b ns₁ c c₁ →
        restrict d (without B) c' = restrict d (without B) c₁) ∧
      ∀ c₂, Applies d raw p b ns₂ c c₂ →
        restrict d (without A) c' = restrict d (without A) c₂ := by
  obtain ⟨hapart, hmerge⟩ := pieces_interleaved (p := p) (b := b) hi
  refine ⟨⟨?_, ?_⟩, ?_⟩
  · rintro ⟨c', ps, hps, hrun⟩
    obtain ⟨ps₁, ps₂, hps₁, hps₂, hpieces⟩ := hapart ps hps
    obtain ⟨haccepted, -⟩ :=
      pieces_run_interleaved hAB hc h₁ h₂ hraw₁ hraw₂ hps₁ hps₂ hpieces
    obtain ⟨⟨c₁, hrun₁⟩, c₂, hrun₂⟩ := haccepted.mp ⟨c', hrun⟩
    exact ⟨⟨c₁, ps₁, hps₁, hrun₁⟩, c₂, ps₂, hps₂, hrun₂⟩
  · rintro ⟨⟨c₁, ps₁, hps₁, hrun₁⟩, c₂, ps₂, hps₂, hrun₂⟩
    obtain ⟨ps, hps, hpieces⟩ := hmerge ps₁ ps₂ hps₁ hps₂
    obtain ⟨haccepted, -⟩ :=
      pieces_run_interleaved hAB hc h₁ h₂ hraw₁ hraw₂ hps₁ hps₂ hpieces
    obtain ⟨c', hrun⟩ := haccepted.mpr ⟨⟨c₁, hrun₁⟩, c₂, hrun₂⟩
    exact ⟨c', ps, hps, hrun⟩
  · rintro c' ⟨ps, hps, hrun⟩
    obtain ⟨ps₁, ps₂, hps₁, hps₂, hpieces⟩ := hapart ps hps
    obtain ⟨-, hviews⟩ :=
      pieces_run_interleaved hAB hc h₁ h₂ hraw₁ hraw₂ hps₁ hps₂ hpieces
    obtain ⟨hleft, hright⟩ := hviews c' hrun
    refine ⟨?_, ?_⟩
    · rintro c₁ ⟨ps₁', hps₁', hrun₁⟩
      cases Except.ok.inj (hps₁.symm.trans hps₁')
      exact hleft c₁ hrun₁
    · rintro c₂ ⟨ps₂', hps₂', hrun₂⟩
      cases Except.ok.inj (hps₂.symm.trans hps₂')
      exact hright c₂ hrun₂

/-- The same tables and the same indexes, up to their order. -/
structure SameTables (c c' : Catalog κ) : Prop where
  tables : c.tables.Perm c'.tables
  indexes : c.indexes.Perm c'.indexes

omit [DecidableEq κ] in
theorem sameTables_of_views (hAB : ∀ k, A k = true → B k = false)
    {c c' : Catalog κ}
    (hmine : restrict d (without B) c = restrict d (without B) c')
    (htheirs : restrict d (without A) c = restrict d (without A) c') :
    SameTables c c' := by
  have hall : ∀ k, without B k = false → without A k = true := by
    intro k hk
    refine without_eq_true.mpr (theirs_of_mine hAB k ?_)
    rwa [without, Bool.not_eq_false'] at hk
  exact ⟨Positions.perm_of_parts (fun t => hall (t.key d))
      (congrArg Catalog.tables hmine) (congrArg Catalog.tables htheirs),
    Positions.perm_of_parts (fun ix => hall ix.table)
      (congrArg Catalog.indexes hmine) (congrArg Catalog.indexes htheirs)⟩

/-- **BRANCHES MAY BE DEPLOYED IN ANY ORDER**: let two branches over a common
    history change tables of their own, and refer to their own and to tables that
    neither changes, with tagged blocks that change nothing.  For every history
    that merges them, `b`'s tree is executed on an empty database exactly if each
    branch's tree is; it leaves every table as its branch's tree does; and a
    database that gets the migrations in any other order accepts them, and has the
    same tables in the end. -/
theorem branches_deploy {g : Generated} (hg : generate p (base ++ ns) = .ok g)
    (hAB : ∀ k, A k = true → B k = false)
    (hbase : Applies d raw p b base Catalog.empty c) (hc : Apart d A B c)
    (h₁ : Touches p d A B ns₁) (h₂ : Touches p d B A ns₂)
    (hraw₁ : Inert raw p b ns₁) (hraw₂ : Inert raw p b ns₂)
    (hi : Interleaving ns₁ ns₂ ns) :
    (∃ pss, TreeHolds p b (base ++ ns) (g.tree b) pss) ∧
    ((∃ c', Applies d raw p b (base ++ ns) Catalog.empty c') ↔
      (∃ c₁, Applies d raw p b (base ++ ns₁) Catalog.empty c₁) ∧
        ∃ c₂, Applies d raw p b (base ++ ns₂) Catalog.empty c₂) ∧
    ∀ c', Applies d raw p b (base ++ ns) Catalog.empty c' →
      (∀ c₁, Applies d raw p b (base ++ ns₁) Catalog.empty c₁ →
        restrict d (without B) c' = restrict d (without B) c₁) ∧
      (∀ c₂, Applies d raw p b (base ++ ns₂) Catalog.empty c₂ →
        restrict d (without A) c' = restrict d (without A) c₂) ∧
      ∀ ns', Interleaving ns₁ ns₂ ns' → ∃ c'',
        Applies d raw p b (base ++ ns') Catalog.empty c'' ∧
          SameTables c'' c' := by
  have hfrom : ∀ ms c', Applies d raw p b (base ++ ms) Catalog.empty c' ↔
      Applies d raw p b ms c c' := by
    intro ms c'
    rw [applies_append]
    constructor
    · rintro ⟨c₀, hc₀, h⟩
      rwa [applies_unique hc₀ hbase] at h
    · intro h
      exact ⟨c, hbase, h⟩
  simp only [hfrom]
  obtain ⟨haccepted, hviews⟩ :=
    applies_interleaved hAB hc h₁ h₂ hraw₁ hraw₂ hi
  refine ⟨tree_pieces hg b, haccepted, fun c' hc' => ?_⟩
  obtain ⟨hmine, htheirs⟩ := hviews c' hc'
  refine ⟨hmine, htheirs, fun ns' hi' => ?_⟩
  -- the other order is accepted because the branches are
  obtain ⟨⟨c₁, hc₁⟩, c₂, hc₂⟩ := haccepted.mp ⟨c', hc'⟩
  obtain ⟨haccepted', hviews'⟩ :=
    applies_interleaved hAB hc h₁ h₂ hraw₁ hraw₂ hi'
  obtain ⟨c'', hc''⟩ := haccepted'.mpr ⟨⟨c₁, hc₁⟩, c₂, hc₂⟩
  obtain ⟨hmine', htheirs'⟩ := hviews' c'' hc''
  refine ⟨c'', hc'', sameTables_of_views (d := d) hAB ?_ ?_⟩
  · rw [hmine' c₁ hc₁, hmine c₁ hc₁]
  · rw [htheirs' c₂ hc₂, htheirs c₂ hc₂]

end Deploy

section Posts

/-- Skips the tagged blocks. -/
def skipping : Raw κ := fun c _ => .ok c

omit [DecidableEq κ] in
theorem skipping_inert (ms : List Migration) : Inert (skipping : Raw κ) p b ms :=
  fun _ _ _ _ _ _ _ => rfl

/-- A table with one column, which refers to the users. -/
def ofUsers (name column : String) : Statement :=
  createTable (bare name)
    [col column (.int none) [.foreignKey (bare "users") [] ""]] []

def blogParser : Sqlparser := parserOf
  [("CREATE TABLE users (id INT PRIMARY KEY)\n",
      [createTable (bare "users") [col "id" (.int none) [pk]] []]),
    ("CREATE TABLE posts (author INT REFERENCES users)\n",
      [ofUsers "posts" "author"]),
    ("CREATE TABLE tags (owner INT REFERENCES users)\n",
      [ofUsers "tags" "owner"])]

def usersFirst : List Migration :=
  [⟨"1", "CREATE TABLE users (id INT PRIMARY KEY)", none⟩]

def posts : Migration :=
  ⟨"2", "CREATE TABLE posts (author INT REFERENCES users)", none⟩

def tags : Migration :=
  ⟨"3", "CREATE TABLE tags (owner INT REFERENCES users)", none⟩

def only (name : String) (k : List String) : Bool := k == ["public", name]

theorem touches_ofUsers {m : Migration} {name column other : String}
    (hname : only name (folding.table (bare name)) = true)
    (hother : only other (folding.table (bare "users")) = false)
    (hstmts : migrationStatements blogParser m = .ok [ofUsers name column]) :
    Touches blogParser folding (only name) (only other) [m] := by
  intro m' hm' stmts hs s hmem
  rw [List.mem_singleton.mp hm'] at hs
  cases Except.ok.inj (hstmts.symm.trans hs)
  rw [List.mem_singleton.mp hmem]
  exact ⟨hname, rfl, List.forall_mem_singleton.mpr hother⟩

def usersCatalog : Catalog (List String) :=
  ⟨[⟨⟨bare "users", [⟨Ident.new "id", DataType.ofNative "INTEGER", false, true⟩],
    some ⟨"users_id_key", ["id"]⟩⟩, []⟩], []⟩

/-- Whoever got `tags` first accepts `posts` after it. -/
theorem branches_deploy_of_posts_and_tags :
    ∃ g c', generate blogParser (usersFirst ++ [posts, tags]) = .ok g ∧
      Applies folding skipping blogParser .postgres
        (usersFirst ++ [posts, tags]) Catalog.empty c' ∧
      ∃ c'', Applies folding skipping blogParser .postgres
        (usersFirst ++ [tags, posts]) Catalog.empty c'' ∧
          SameTables c'' c' := by
  obtain ⟨g, hg⟩ := exists_ok_of_isOk
    (x := generate blogParser (usersFirst ++ [posts, tags]))
    (by decide +kernel)
  have hquiet : ∀ text (c c' : Catalog (List String)),
      skipping c text = .ok c' → c'.tables = c.tables :=
    fun _ _ _ h => congrArg Catalog.tables (Except.ok.inj h).symm
  have hbase : Applies folding skipping blogParser .postgres usersFirst
      Catalog.empty usersCatalog :=
    applies_of_leaves (leaves_of_execute folding blogParser .postgres usersFirst
      usersCatalog hquiet (by decide +kernel))
  obtain ⟨c', hc'⟩ := exists_leaves folding blogParser .postgres
    (usersFirst ++ [posts, tags]) hquiet (by decide +kernel)
  have hapart : Apart folding (only "posts") (only "tags") usersCatalog :=
    ⟨⟨by decide, fun ix hix => absurd hix List.not_mem_nil⟩,
      ⟨by decide, fun ix hix => absurd hix List.not_mem_nil⟩⟩
  have hdisjoint : ∀ k, only "posts" k = true → only "tags" k = false := by
    intro k hk
    rw [eq_of_beq hk]
    decide
  have hposts : migrationStatements blogParser posts
      = .ok [ofUsers "posts" "author"] := by
    decide +kernel
  have htags : migrationStatements blogParser tags
      = .ok [ofUsers "tags" "owner"] := by
    decide +kernel
  obtain ⟨-, -, hviews⟩ := branches_deploy hg hdisjoint hbase hapart
    (touches_ofUsers (by decide) (by decide) hposts)
    (touches_ofUsers (by decide) (by decide) htags)
    (skipping_inert _) (skipping_inert _) (.left (.right .nil))
  obtain ⟨-, -, horder⟩ := hviews c' (applies_of_leaves hc')
  exact ⟨g, c', hg, applies_of_leaves hc', horder _ (.right (.left .nil))⟩

end Posts

end DualdbBranches
