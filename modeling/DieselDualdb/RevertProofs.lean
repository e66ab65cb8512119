import DieselDualdb.DownProofs
import DieselDualdb.Lib.UndoRuns

/-!
# Up and down a tree

A tree is made to be applied migration by migration and to be taken back in the
opposite order, as often as one likes.  Each migration has its two scripts: the
emitted one, which is executed piece by piece, and the derived one, which is
executed line by line.

Applying and reverting at will never leaves the catalogs of the straight run, and
no derived script is refused, exactly if each migration can be taken back from the
catalog it runs on (`up_and_down_iff`).  One migration that cannot is enough for a
database to drift from its history.
-/

namespace DualdbRevert

open DualdbAst DualdbTypeMap DualdbMigration DualdbRewrite DualdbCatalog
open DualdbEmitted DualdbDown DualdbSqlText FallibleRun RustStr UndoRuns

variable {κ : Type} [DecidableEq κ] {d : Dialect κ} {p : Sqlparser}
  {b : Backend}

/-- The pieces of a migration's `up.sql`, and the statements that its
    `down.sql` is derived from. -/
structure Script where
  pieces : List Piece
  statements : List Statement

/-- The migration has `CREATE`s only, no `down.sql` and no block, and this is
    its script for `b`. -/
structure Derived (p : Sqlparser) (b : Backend) (m : Migration) (s : Script) :
    Prop where
  down : m.downSql = none
  pieces : migrationPieces p b m = .ok s.pieces
  untagged : ∀ text, Piece.block text ∉ s.pieces
  statements : migrationStatements p m = .ok s.statements
  creates : ∀ stmt ∈ s.statements, IsCreate stmt

/-- Applying the migration to a database, and reverting it. -/
def Script.reversible (d : Dialect κ) (raw : Raw κ)
    (reads : String → Option (List ObjectName)) (s : Script) :
    Reversible (Catalog κ) Refusal where
  up c := s.pieces.foldlM (execPiece d raw) c
  down c := (downLines s.statements).foldlM (execLine d reads) c

section OneMigration

variable {raw : Raw κ} {reads : String → Option (List ObjectName)}
  {m : Migration} {s : Script} {c c' : Catalog κ}

/-- The texts of the tree. -/
theorem Derived.texts (h : Derived p b m s) {r : RenderedMigration}
    (hr : Renders p b m r) :
    r.upSql = join "\n\n" (s.pieces.map (Piece.text p)) ∧
      r.downSql = join "\n" (downLines s.statements) := by
  obtain ⟨ps, hps, hup⟩ := renders_pieces hr
  cases Except.ok.inj (h.pieces.symm.trans hps)
  exact ⟨hup, renders_down hr h.down h.statements⟩

/-- No block runs, so the up script does what its statements do. -/
theorem Derived.run (h : Derived p b m s)
    (hup : (s.reversible d raw reads).up c = .ok c') :
    s.statements.foldlM (fun c stmt => exec d c (withNative b stmt)) c
      = .ok c' := by
  obtain ⟨stmts, hstmts, hpieces⟩ := migrationPieces_statements h.pieces
  cases Except.ok.inj (h.statements.symm.trans hstmts)
  have hrun := execPieces_untagged h.untagged hup
  rwa [hpieces, List.foldlM_map] at hrun

/-- **ONE MIGRATION**: the catalog stays closed, and the lines take the up script
    back exactly if its statements can be taken back. -/
theorem Derived.step (h : Derived p b m s) (hclosed : Closed d c)
    (hup : (s.reversible d raw reads).up c = .ok c') :
    Closed d c' ∧ ((s.reversible d raw reads).down c' = .ok c ↔
      Undoable d reads s.statements c) := by
  obtain ⟨ts, ixs, hext, hmade, hnames⟩ :=
    creates_extend hclosed h.creates (h.run hup)
  exact ⟨hext.closed, downLines_iff hclosed hext hmade hnames⟩

end OneMigration

/-! ## Names of its own -/

/-- The tables that a list of statements creates. -/
def createdKeys (d : Dialect κ) (stmts : List Statement) : List κ :=
  (createNames stmts).map d.table

/-- Every derived line is read as the table it was derived from, and indexes
    are made on tables of the list only. -/
structure Simple (d : Dialect κ) (reads : String → Option (List ObjectName))
    (stmts : List Statement) : Prop where
  readable : ∀ n ∈ createNames stmts, ∃ names,
    reads (dropLine (lastIdent n)) = some names ∧ names.map d.table = [d.table n]
  indexes : ∀ ci, Statement.createIndex ci ∈ stmts →
    d.table ci.tableName ∈ createdKeys d stmts

/-- What an up script adds when the names that it creates are free: a table for
    each of them, none of which refers to a later one. -/
structure Adds (d : Dialect κ) (stmts : List Statement) (c c' : Catalog κ)
    (ts : List (Table κ)) (ixs : List (Index κ)) : Prop where
  closed : Closed d c'
  added : c' = ⟨c.tables ++ ts, c.indexes ++ ixs⟩
  keys : ts.map (tableKey d) = createdKeys d stmts
  layered : ts.Pairwise fun t u => tableKey d u ∉ Table.parents t

section Names

variable {reads : String → Option (List ObjectName)} {stmts : List Statement}
  {c c' : Catalog κ}

/-- **WHAT FREE NAMES ADD.** -/
theorem creates_add {b : Backend} (hclosed : Closed d c)
    (hcreate : ∀ s ∈ stmts, IsCreate s)
    (hfree : ∀ k ∈ createdKeys d stmts, c.lookup d k = none)
    (hnodup : (createdKeys d stmts).Nodup)
    (h : stmts.foldlM (fun c s => exec d c (withNative b s)) c = .ok c') :
    ∃ ts ixs, Adds d stmts c c' ts ixs := by
  induction stmts generalizing c with
  | nil =>
      rw [← foldlM_nil_ok.mp h]
      refine ⟨[], [], hclosed, ?_, rfl, .nil⟩
      rw [List.append_nil, List.append_nil]
  | cons s stmts ih =>
      obtain ⟨c₁, h₁, hrest⟩ := foldlM_cons_ok.mp h
      obtain ⟨hs, hrestCreate⟩ := List.forall_mem_cons.mp hcreate
      cases s with
      | createTable ct =>
          have hcreated : createdKeys d (.createTable ct :: stmts)
              = d.table ct.name :: createdKeys d stmts := rfl
          rw [hcreated] at hfree hnodup
          obtain ⟨hname, hfreeRest⟩ := List.forall_mem_cons.mp hfree
          obtain ⟨hnew, hnodupRest⟩ := List.nodup_cons.mp hnodup
          rcases createTable_extends hclosed h₁ with
            ⟨-, htaken⟩ | ⟨t, hext, ⟨hkey, -⟩, -⟩
          · obtain ⟨u, hu, hukey⟩ := List.mem_map.mp htaken
            exact absurd hukey (lookup_eq_none.mp hname u hu)
          · have hkey : tableKey d t = d.table ct.name := hkey
            -- the later names are free in the catalog with the new table
            have hfree₁ : ∀ k ∈ createdKeys d stmts, c₁.lookup d k = none := by
              intro k hk
              rw [← Option.not_isSome_iff_eq_none, hext.added, lookup_append,
                hfreeRest k hk]
              rintro (hthere | ⟨u, hu, hukey⟩)
              · cases hthere
              · rw [List.mem_singleton.mp hu] at hukey
                exact hnew ((hkey.symm.trans hukey) ▸ hk)
            obtain ⟨ts, ixs, hadds⟩ :=
              ih hext.closed hrestCreate hfree₁ hnodupRest hrest
            refine ⟨t :: ts, ixs, hadds.closed, ?_, ?_, ?_⟩
            · rw [hadds.added, hext.added, List.append_assoc, List.append_nil]
              rfl
            · rw [List.map_cons, hkey, hadds.keys, hcreated]
            · refine List.pairwise_cons.mpr
                ⟨fun u hu hparent => ?_, hadds.layered⟩
              have hukey : tableKey d u ∈ createdKeys d stmts := by
                rw [← hadds.keys]
                exact List.mem_map_of_mem hu
              have htc : t ∈ c₁.tables := by
                rw [hext.added]
                exact List.mem_append_right _ List.mem_cons_self
              have hthere := hext.closed.parents t htc _ hparent
              rw [hfree₁ _ hukey] at hthere
              cases hthere
      | createIndex ci =>
          rcases createIndex_extends hclosed h₁ with ⟨rfl, -⟩ | ⟨hext, -⟩
          · obtain ⟨ts, ixs, hadds⟩ := ih hclosed hrestCreate hfree hnodup hrest
            exact ⟨ts, ixs, hadds.closed, hadds.added, hadds.keys,
              hadds.layered⟩
          · have hfree₁ : ∀ k ∈ createdKeys d stmts, c₁.lookup d k = none := by
              intro k hk
              have hsame : c₁.lookup d k = c.lookup d k := by
                rw [hext.added]
                exact congrArg _ (List.append_nil c.tables)
              exact hsame.trans (hfree k hk)
            obtain ⟨ts, ixs, hadds⟩ :=
              ih hext.closed hrestCreate hfree₁ hnodup hrest
            refine ⟨ts, [madeIndex d ci] ++ ixs, hadds.closed, ?_, hadds.keys,
              hadds.layered⟩
            rw [hadds.added, hext.added, List.append_nil, List.append_assoc]
      | alterTable _ _ _ _ _ | drop _ _ _ _ _ | other _ => cases hs

omit [DecidableEq κ] in
/-- Every created name reads as its own table. -/
theorem Simple.readAs (h : Simple d reads stmts) {n : ObjectName}
    (hn : n ∈ createNames stmts) : DualdbDown.readAs d reads n = [d.table n] := by
  obtain ⟨names, hreads, hnames⟩ := h.readable n hn
  rw [DualdbDown.readAs, denoted, hreads, Option.getD_some, hnames]

/-- **SIMPLE NAMES CAN BE TAKEN BACK** wherever they are free. -/
theorem Simple.undoable {b : Backend} (h : Simple d reads stmts)
    (hclosed : Closed d c) (hcreate : ∀ s ∈ stmts, IsCreate s)
    (hfree : ∀ k ∈ createdKeys d stmts, c.lookup d k = none)
    (hnodup : (createdKeys d stmts).Nodup)
    (hrun : stmts.foldlM (fun c s => exec d c (withNative b s)) c = .ok c') :
    Undoable d reads stmts c := by
  obtain ⟨ts, ixs, hadds⟩ := creates_add hclosed hcreate hfree hnodup hrun
  obtain ⟨_, _, hext, hmade, -⟩ := creates_extend hclosed hcreate hrun
  have hspares : ∀ n ∈ createNames stmts, ∀ k ∈ DualdbDown.readAs d reads n,
      c.lookup d k = none := by
    intro n hn k hk
    rw [h.readAs hn, List.mem_singleton] at hk
    exact hfree k (hk ▸ List.mem_map_of_mem hn)
  have hlines : (downLines stmts).map (denoted d reads)
      = ts.reverse.map fun t => [tableKey d t] := by
    have hkeys : ts.reverse.map (fun t => [tableKey d t])
        = (ts.map (tableKey d)).reverse.map fun k => [k] := by
      rw [← List.map_reverse, List.map_map]
      rfl
    rw [denoted_downLines, hkeys, hadds.keys, createdKeys, ← List.map_reverse,
      List.map_map]
    exact List.map_congr_left fun n hn => h.readAs (List.mem_reverse.mp hn)
  refine ⟨fun n hn => ?_, hspares, fun n hn _ => ⟨n, hn, ?_⟩,
    (ordered_lines_iff hclosed hext hmade hspares).mp ?_, fun ci hci => ?_⟩
  · obtain ⟨names, hreads, -⟩ := h.readable n hn
    rw [hreads]
    rfl
  · rw [h.readAs hn]
    exact List.mem_cons_self
  · -- the new tables are dropped last one first
    rw [hlines, hadds.added]
    refine RestrictDrop.ordered_reverse (hadds.keys ▸ hnodup)
      (fun u hu t ht hparent => ?_) hadds.layered
    have hkey : tableKey d t ∈ createdKeys d stmts := by
      rw [← hadds.keys]
      exact List.mem_map_of_mem ht
    have hthere := hclosed.parents u hu _ hparent
    rw [hfree _ hkey] at hthere
    cases hthere
  · exact hfree _ (h.indexes ci (newIndexes_mem hci))

end Names

section Tree

variable {raw : Raw κ} {reads : String → Option (List ObjectName)}
  {ms : List Migration} {scripts : List Script} {c : Catalog κ}
  {cs : List (Catalog κ)}

/-- Every catalog of the straight run is closed. -/
theorem straight_closed (hms : List.Forall₂ (Derived p b) ms scripts)
    (hclosed : Closed d c)
    (hrun : Straight (scripts.map (Script.reversible d raw reads)) c cs) :
    ∀ c' ∈ cs, Closed d c' := by
  induction hms generalizing c cs with
  | nil =>
      cases hrun with
      | nil => exact List.forall_mem_singleton.mpr hclosed
  | cons hm _ ih =>
      cases hrun with
      | cons hup hrest =>
          exact List.forall_mem_cons.mpr
            ⟨hclosed, ih (hm.step hclosed hup).1 hrest⟩

theorem derived_at (hms : List.Forall₂ (Derived p b) ms scripts) {i : Nat}
    {s : Script} (hs : scripts[i]? = some s) : ∃ m, Derived p b m s := by
  have hmem := List.mem_of_getElem? hs
  obtain ⟨m, -, hm⟩ := Pointwise.forall₂_of_mem_left hms.flip hmem
  exact ⟨m, hm⟩

/-- The texts of the tree are those of the scripts. -/
theorem derived_texts {g : Generated} (hg : generate p ms = .ok g)
    (hms : List.Forall₂ (Derived p b) ms scripts) :
    List.Forall₂ (fun r s =>
      r.upSql = join "\n\n" (s.pieces.map (Piece.text p)) ∧
        r.downSql = join "\n" (downLines s.statements)) (g.tree b) scripts := by
  have htree := generate_tree hg b
  generalize g.tree b = rs at htree
  clear hg
  induction hms generalizing rs with
  | nil =>
      cases htree
      exact .nil
  | cons hm _ ih =>
      cases htree with
      | cons hr hrs => exact .cons (hm.texts hr) (ih _ hrs)

/-- Every migration can be taken back from the catalog it runs on. -/
def AllUndoable (d : Dialect κ) (reads : String → Option (List ObjectName))
    (scripts : List Script) (cs : List (Catalog κ)) : Prop :=
  ∀ (i : Nat) (s : Script) (before : Catalog κ), scripts[i]? = some s →
    cs[i]? = some before → Undoable d reads s.statements before

theorem faithful_iff_undoable (hms : List.Forall₂ (Derived p b) ms scripts)
    (hclosed : Closed d c)
    (hrun : Straight (scripts.map (Script.reversible d raw reads)) c cs) :
    Faithful (scripts.map (Script.reversible d raw reads)) c cs ↔
      AllUndoable d reads scripts cs := by
  have hall := straight_closed hms hclosed hrun
  have hstep : ∀ i s before after, scripts[i]? = some s →
      cs[i]? = some before → cs[i + 1]? = some after →
      ((s.reversible d raw reads).down after = .ok before ↔
        Undoable d reads s.statements before) := by
    intro i s before after hs hbefore hafter
    obtain ⟨m, hm⟩ := derived_at hms hs
    have hu : (scripts.map (Script.reversible d raw reads))[i]?
        = some (s.reversible d raw reads) := by
      rw [List.getElem?_map, hs]
      rfl
    obtain ⟨t, t', ht, ht', hup⟩ := hrun.step hu
    cases Option.some.inj (hbefore.symm.trans ht)
    cases Option.some.inj (hafter.symm.trans ht')
    exact (hm.step (hall before (List.mem_of_getElem? hbefore)) hup).2
  rw [faithful_iff hrun]
  constructor
  · intro hdown i s before hs hbefore
    have hu : (scripts.map (Script.reversible d raw reads))[i]?
        = some (s.reversible d raw reads) := by
      rw [List.getElem?_map, hs]
      rfl
    obtain ⟨-, after, -, hafter, -⟩ := hrun.step hu
    exact (hstep i s before after hs hbefore hafter).mp
      (hdown i _ before after hu hbefore hafter)
  · intro hundoable i u before after hu hbefore hafter
    rw [List.getElem?_map, Option.map_eq_some_iff] at hu
    obtain ⟨s, hs, rfl⟩ := hu
    exact (hstep i s before after hs hbefore hafter).mpr
      (hundoable i s before hs hbefore)

/-- **UP AND DOWN A TREE**: with derived scripts throughout, applying and
    reverting in any order visits the catalogs of the straight run only, and no
    revert is refused, exactly if each migration can be taken back from the
    catalog it runs on. -/
theorem up_and_down_iff {g : Generated} (hg : generate p ms = .ok g)
    (hms : List.Forall₂ (Derived p b) ms scripts) (hclosed : Closed d c)
    (hrun : Straight (scripts.map (Script.reversible d raw reads)) c cs) :
    List.Forall₂ (fun r s =>
      r.upSql = join "\n\n" (s.pieces.map (Piece.text p)) ∧
        r.downSql = join "\n" (downLines s.statements)) (g.tree b) scripts ∧
    (Faithful (scripts.map (Script.reversible d raw reads)) c cs ↔
      AllUndoable d reads scripts cs) :=
  ⟨derived_texts hg hms, faithful_iff_undoable hms hclosed hrun⟩

/-- The tables that the scripts create, one migration after the other. -/
def treeKeys (d : Dialect κ) (scripts : List Script) : List κ :=
  scripts.flatMap fun s => createdKeys d s.statements

theorem simple_undoable (hms : List.Forall₂ (Derived p b) ms scripts)
    (hclosed : Closed d c)
    (hsimple : ∀ s ∈ scripts, Simple d reads s.statements)
    (hfree : ∀ k ∈ treeKeys d scripts, c.lookup d k = none)
    (hnodup : (treeKeys d scripts).Nodup)
    (hrun : Straight (scripts.map (Script.reversible d raw reads)) c cs) :
    AllUndoable d reads scripts cs := by
  induction hms generalizing c cs with
  | nil =>
      intro i s before hs
      cases hs
  | @cons m s ms scripts hm _ ih =>
      cases hrun with
      | @cons _ _ _ c₁ _ hup hrest =>
          obtain ⟨hhead, hsimpleRest⟩ := List.forall_mem_cons.mp hsimple
          have hkeys : treeKeys d (s :: scripts)
              = createdKeys d s.statements ++ treeKeys d scripts :=
            List.flatMap_cons
          rw [hkeys] at hfree hnodup
          obtain ⟨hfreeHead, hfreeRest⟩ := List.forall_mem_append.mp hfree
          obtain ⟨hnodupHead, hnodupRest, hapart⟩ := List.nodup_append.mp hnodup
          obtain ⟨ts, ixs, hadds⟩ := creates_add hclosed hm.creates hfreeHead
            hnodupHead (hm.run hup)
          -- what is added has the names of this migration only
          have hfree₁ : ∀ k ∈ treeKeys d scripts, c₁.lookup d k = none := by
            intro k hk
            rw [← Option.not_isSome_iff_eq_none, hadds.added, lookup_append,
              hfreeRest k hk]
            rintro (hthere | ⟨t, ht, rfl⟩)
            · cases hthere
            · refine hapart (tableKey d t) ?_ _ hk rfl
              rw [← hadds.keys]
              exact List.mem_map_of_mem ht
          intro i s' before hs hbefore
          cases i with
          | zero =>
              cases hs
              cases hbefore
              exact hhead.undoable hclosed hm.creates hfreeHead hnodupHead
                (hm.run hup)
          | succ i =>
              exact ih hadds.closed hsimpleRest hfree₁ hnodupRest hrest i s'
                before hs hbefore

/-- **A TREE OF SIMPLE NAMES GOES UP AND DOWN FAITHFULLY**: when the derived lines
    are read as the tables they are derived from, no table name is used twice or
    taken, and indexes are on tables of their own migration, applying and
    reverting in any order visits the catalogs of the straight run only, and no
    revert is refused; reverting everything gives back the first catalog. -/
theorem simple_tree_reverts {g : Generated} (hg : generate p ms = .ok g)
    (hms : List.Forall₂ (Derived p b) ms scripts) (hclosed : Closed d c)
    (hsimple : ∀ s ∈ scripts, Simple d reads s.statements)
    (hfree : ∀ k ∈ treeKeys d scripts, c.lookup d k = none)
    (hnodup : (treeKeys d scripts).Nodup)
    (hrun : Straight (scripts.map (Script.reversible d raw reads)) c cs) :
    List.Forall₂ (fun r s =>
      r.upSql = join "\n\n" (s.pieces.map (Piece.text p)) ∧
        r.downSql = join "\n" (downLines s.statements)) (g.tree b) scripts ∧
    Faithful (scripts.map (Script.reversible d raw reads)) c cs :=
  ⟨derived_texts hg hms, (faithful_iff_undoable hms hclosed hrun).mpr
    (simple_undoable hms hclosed hsimple hfree hnodup hrun)⟩

end Tree

/-! ## A parent and a child, in two migrations -/

def createParent : Migration := ⟨"1", "CREATE TABLE a (x INT PRIMARY KEY)", none⟩

def createChild : Migration := ⟨"2", "CREATE TABLE b (y INT REFERENCES a)", none⟩

def parentTable : Statement :=
  createTable (bare "a") [col "x" (.int none) [pk]] []

def childTable : Statement :=
  createTable (bare "b") [col "y" (.int none) [.foreignKey (bare "a") [] ""]] []

def revertParser : Sqlparser := parserOf
  [("CREATE TABLE a (x INT PRIMARY KEY)\n", [parentTable]),
    ("CREATE TABLE b (y INT REFERENCES a)\n", [childTable])]

/-- The script of a migration of one statement. -/
def oneStatement (s : Statement) : Script :=
  ⟨[.statement (withNative .postgres s)], [s]⟩

theorem derived_of_shared {m : Migration} (sql : String) {stmt : Statement}
    (hdown : m.downSql = none) (hsegs : segment m.upSql = .ok [.shared sql])
    (hparse : parse p sql = .ok [stmt]) (hcreate : IsCreate stmt) :
    Derived p .postgres m (oneStatement stmt) where
  down := hdown
  pieces := migrationPieces_of_shared hsegs hparse
  untagged := by simp [oneStatement]
  statements := migrationStatements_of_shared hsegs hparse
  creates := List.forall_mem_singleton.mpr hcreate

theorem parent_and_child_derived :
    List.Forall₂ (Derived revertParser .postgres) [createParent, createChild]
      [oneStatement parentTable, oneStatement childTable] := by
  refine .cons ?_ (.cons ?_ .nil)
  · exact derived_of_shared (createParent.upSql ++ "\n") rfl (by decide +kernel)
      (by decide +kernel) trivial
  · exact derived_of_shared (createChild.upSql ++ "\n") rfl (by decide +kernel)
      (by decide +kernel) trivial

/-- Both migrations, applied to a database with a table `t`. -/
theorem parent_and_child_straight : ∃ c₁ c₂,
    Straight ([oneStatement parentTable, oneStatement childTable].map
        (Script.reversible folding noRaw plainLine))
      startCatalog [startCatalog, c₁, c₂] := by
  have hruns : (((oneStatement parentTable).reversible folding noRaw plainLine).up
        startCatalog >>= fun c =>
      ((oneStatement childTable).reversible folding noRaw plainLine).up c).isOk
        = true := by
    decide +kernel
  obtain ⟨c₂, hc₂⟩ := exists_ok_of_isOk hruns
  obtain ⟨c₁, hparent, hchild⟩ := bind_ok.mp hc₂
  exact ⟨c₁, c₂, .cons hparent (.cons hchild (.nil c₂))⟩

theorem parent_and_child_simple :
    ∀ s ∈ [oneStatement parentTable, oneStatement childTable],
      Simple folding plainLine s.statements := by
  have hone : ∀ (name : String) (cols : List ColumnDef),
      plainLine (dropLine name) = some [bare name] →
        Simple folding plainLine [createTable (bare name) cols []] := by
    intro name cols hread
    refine ⟨List.forall_mem_singleton.mpr ⟨_, hread, rfl⟩, fun ci hci => ?_⟩
    cases List.mem_singleton.mp hci
  refine List.forall_mem_cons.mpr ⟨?_, List.forall_mem_singleton.mpr ?_⟩
  · exact hone "a" _ (by decide +kernel)
  · exact hone "b" _ (by decide +kernel)

theorem up_and_down_iff_of_parent_and_child :
    ∃ g cs, generate revertParser [createParent, createChild] = .ok g ∧
      (Faithful ([oneStatement parentTable, oneStatement childTable].map
          (Script.reversible folding noRaw plainLine)) startCatalog cs ↔
        AllUndoable folding plainLine [oneStatement parentTable,
          oneStatement childTable] cs) := by
  obtain ⟨g, hg⟩ := exists_ok_of_isOk
    (x := generate revertParser [createParent, createChild]) (by decide +kernel)
  obtain ⟨c₁, c₂, hrun⟩ := parent_and_child_straight
  exact ⟨g, _, hg, (up_and_down_iff hg parent_and_child_derived
    startCatalog_closed hrun).2⟩

theorem simple_tree_reverts_of_parent_and_child :
    ∃ g cs, generate revertParser [createParent, createChild] = .ok g ∧
      Faithful ([oneStatement parentTable, oneStatement childTable].map
        (Script.reversible folding noRaw plainLine)) startCatalog cs := by
  obtain ⟨g, hg⟩ := exists_ok_of_isOk
    (x := generate revertParser [createParent, createChild]) (by decide +kernel)
  obtain ⟨c₁, c₂, hrun⟩ := parent_and_child_straight
  exact ⟨g, _, hg, (simple_tree_reverts hg parent_and_child_derived
    startCatalog_closed parent_and_child_simple (by decide +kernel)
    (by decide +kernel) hrun).2⟩

end DualdbRevert
