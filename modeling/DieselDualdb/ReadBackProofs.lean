import DieselDualdb.RecoveryProofs

/-!
# Reading the trees back

A tree is itself a directory of migrations, and this is what its reader finds
there.  Across any number of runs the tree is a store from directory names to
migrations: a run overrides the names it has and keeps the others, so what
`read_migrations` reads in the end is the latest rendering of every migration
there ever was (`tree_is_store`).  Nothing of the texts is lost but for the line
end that the writer adds.
-/

namespace DualdbReadBack

open DualdbAst DualdbTypeMap DualdbMigration DualdbOutputs DualdbOrder
open DualdbRecovery
open FallibleRun FileTree Pointwise

variable {p : Sqlparser} {outDir : Path} {b : Backend}

def treeDir (outDir : Path) (b : Backend) : Path := outDir ++ [treeName b]

/-- A rendered migration as it stands in a tree. -/
def asRead (rm : RenderedMigration) : Migration :=
  ⟨rm.dirName, rm.upSql ++ "\n", some (rm.downSql ++ "\n")⟩

/-! ## The abstract store -/

/-- What the tree of `b` should hold after these runs: of each name the
    rendering by the last run that had it. -/
inductive Latest (p : Sqlparser) (b : Backend) :
    List (List Migration) → Migration → Prop where
  | last {mss : List (List Migration)} {ms : List Migration} {x : Migration}
      {rm : RenderedMigration} (hx : x ∈ ms) (hrm : Renders p b x rm) :
      Latest p b (mss ++ [ms]) (asRead rm)
  | kept {mss : List (List Migration)} {ms : List Migration} {m : Migration}
      (h : Latest p b mss m) (hother : ∀ x ∈ ms, x.dirName ≠ m.dirName) :
      Latest p b (mss ++ [ms]) m

/-! ## What one run puts there -/

theorem lookup_of_forall {es : Disk String} {q : Path} {node : Node}
    (hsome : (es.lookup q).isSome = true)
    (hall : ∀ e ∈ es, e.1 = q → e.2 = node) : es.lookup q = some node := by
  obtain ⟨found, hfound⟩ := Option.isSome_iff_exists.mp hsome
  obtain ⟨before, after, hsplit, -⟩ := List.lookup_eq_some_iff.mp hfound
  rw [hfound, ← hall (q, found) (by rw [hsplit]; simp) rfl]

theorem mem_outputEntries {g : Generated} {e : Path × Node} :
    e ∈ outputEntries outDir g ↔
      e = (outDir ++ ["schema.rs"], .file g.schemaRs) ∨
        ∃ b, ∃ rm ∈ g.tree b, e ∈ migrationEntries outDir b rm := by
  simp only [outputEntries, treeEntries, List.mem_append, List.mem_flatMap,
    List.mem_reverse, List.mem_singleton]
  refine or_congr_right ⟨?_, ?_⟩
  · rintro (h | h)
    · exact ⟨.sqlite, h⟩
    · exact ⟨.postgres, h⟩
  · rintro ⟨b, h⟩
    cases b with
    | postgres => exact Or.inr h
    | sqlite => exact Or.inl h

theorem treeName_inj {b b' : Backend} (h : treeName b = treeName b') :
    b = b' := by
  cases b <;> cases b' <;> first | rfl | exact absurd h (by decide)

theorem treeName_ne_schema (b : Backend) : treeName b ≠ "schema.rs" := by
  cases b <;> decide

/-- Two entries of one path are of one migration, or directories. -/
theorem entries_agree {b b' : Backend} {rm rm' : RenderedMigration}
    {e e' : Path × Node} (he : e ∈ migrationEntries outDir b rm)
    (he' : e' ∈ migrationEntries outDir b' rm') (hpath : e'.1 = e.1)
    (hsame : b' = b → rm'.dirName = rm.dirName → rm' = rm) :
    e'.2 = e.2 := by
  have hup : "up.sql" ≠ "down.sql" := by decide
  simp only [migrationEntries, List.mem_cons, List.not_mem_nil,
    or_false] at he he'
  rcases he with rfl | rfl | rfl | rfl <;>
    rcases he' with rfl | rfl | rfl | rfl <;>
    simp only [List.append_cancel_left_eq, List.cons.injEq, List.nil_eq,
      List.cons_ne_nil, and_false, and_true, hup, hup.symm] at hpath ⊢
  all_goals
    obtain ⟨htree, hname⟩ := hpath
    rw [hsame (treeName_inj htree) hname]

theorem lookup_entry {g : Generated} {rm : RenderedMigration}
    {e : Path × Node}
    (hnodup : ((g.tree b).map RenderedMigration.dirName).Nodup)
    (hrm : rm ∈ g.tree b) (he : e ∈ migrationEntries outDir b rm) :
    (outputEntries outDir g).lookup e.1 = some e.2 := by
  refine lookup_of_forall ?_ fun e' he' hpath => ?_
  · exact lookup_isSome.mpr (List.mem_map_of_mem
      (mem_outputEntries.mpr (Or.inr ⟨b, rm, hrm, he⟩)))
  · rcases mem_outputEntries.mp he' with rfl | ⟨b', rm', hrm', he'⟩
    · refine absurd hpath ?_
      simp only [migrationEntries, List.mem_cons, List.not_mem_nil,
        or_false] at he
      rcases he with rfl | rfl | rfl | rfl <;>
        simp [(treeName_ne_schema b).symm]
    · refine entries_agree he he' hpath ?_
      rintro rfl hname
      exact List.inj_on_of_nodup_map hnodup hrm' hrm hname

/-- A run says nothing about the names it has not. -/
theorem lookup_other {g : Generated} {names : List String} {name : String}
    (hnames : ∀ b, (g.tree b).map RenderedMigration.dirName = names)
    (hother : name ∉ names) (rest : List String) :
    (outputEntries outDir g).lookup
      (outDir ++ treeName b :: name :: rest) = none := by
  rw [← Option.not_isSome_iff_eq_none, entries_isSome hnames]
  rintro (h | ⟨b', name', hname', h⟩)
  · rw [List.append_cancel_left_eq, List.cons.injEq] at h
    exact treeName_ne_schema b h.1
  · simp only [migrationPaths, List.mem_cons, List.append_cancel_left_eq,
      List.cons.injEq, List.not_mem_nil, or_false, reduceCtorEq,
      and_false] at h
    rcases h with ⟨-, rfl, -⟩ | ⟨-, rfl, -⟩ | ⟨-, rfl, -⟩ <;>
      exact hother hname'

/-! ## The store after every run -/

theorem not_latest_nil (m : Migration) : ¬ Latest p b [] m := by
  intro h
  generalize hall : ([] : List (List Migration)) = all at h
  have hne : ∀ mss ms, all ≠ mss ++ [ms] := by
    rintro mss ms rfl
    exact List.append_ne_nil_of_right_ne_nil _ (List.cons_ne_nil _ _) hall.symm
  cases h with
  | last hx hrm => exact hne _ _ rfl
  | kept h hother => exact hne _ _ rfl

theorem latest_snoc {mss : List (List Migration)} {ms : List Migration}
    {m : Migration} :
    Latest p b (mss ++ [ms]) m ↔
      (∃ x ∈ ms, ∃ rm, Renders p b x rm ∧ m = asRead rm) ∨
        (Latest p b mss m ∧ ∀ x ∈ ms, x.dirName ≠ m.dirName) := by
  constructor
  · intro h
    generalize hall : mss ++ [ms] = all at h
    cases h with
    | last hx hrm =>
        obtain ⟨-, hms⟩ := List.append_inj' hall rfl
        rw [← List.singleton_inj.mp hms] at hx
        exact Or.inl ⟨_, hx, _, hrm, rfl⟩
    | kept h hother =>
        obtain ⟨rfl, hms⟩ := List.append_inj' hall rfl
        rw [← List.singleton_inj.mp hms] at hother
        exact Or.inr ⟨h, hother⟩
  · rintro (⟨x, hx, rm, hrm, rfl⟩ | ⟨h, hother⟩)
    · exact .last hx hrm
    · exact .kept h hother

/-- The migration stands in the tree, with these two texts. -/
structure Stored (outDir : Path) (b : Backend) (d : Disk String)
    (m : Migration) : Prop where
  dir : get d (outDir ++ [treeName b, m.dirName]) = some .dir
  up : get d (outDir ++ [treeName b, m.dirName, "up.sql"])
    = some (.file m.upSql)
  down : ∃ text, m.downSql = some text ∧
    get d (outDir ++ [treeName b, m.dirName, "down.sql"]) = some (.file text)

theorem Stored.reads {d : Disk String} {m : Migration}
    (h : Stored outDir b d m) :
    readMigration d (treeDir outDir b ++ [m.dirName]) = .ok (some m) := by
  obtain ⟨text, htext, hdown⟩ := h.down
  have hup := h.up
  obtain ⟨name, upSql, downSql⟩ := m
  cases htext
  have hpath : ∀ f, treeDir outDir b ++ [name] ++ [f]
      = outDir ++ [treeName b, name, f] := by
    intro f
    simp [treeDir]
  have hname : (treeDir outDir b ++ [name]).getLast?.getD "" = name := by simp
  simp only [readMigration, readToString, hpath, hname]
  rw [hup, hdown]
  rfl

/-- What the tree of `b` is between two runs. -/
structure Holds (p : Sqlparser) (outDir : Path) (b : Backend)
    (mss : List (List Migration)) (d : Disk String) : Prop where
  stored : ∀ m, Latest p b mss m → Stored outDir b d m
  named : ∀ name, get d (outDir ++ [treeName b, name]) = some .dir →
    ∃ m, Latest p b mss m ∧ m.dirName = name
  tree : get d (treeDir outDir b) = some .dir ∨
    (get d (treeDir outDir b) = none ∧ ∀ m, ¬ Latest p b mss m)

theorem isOutput_tree (rest : List String) :
    IsOutput outDir (outDir ++ treeName b :: rest) :=
  Or.inr ⟨b, rest, rfl⟩

theorem exists_rendered {ms : List Migration} {g : Generated}
    (hg : generate p ms = .ok g) {rm : RenderedMigration}
    (hrm : rm ∈ g.tree b) : ∃ x ∈ ms, Renders p b x rm :=
  forall₂_of_mem_left (generate_tree hg b).flip hrm

/-- **WHAT A RUN DOES TO A TREE**: it overrides its own names. -/
theorem Holds.run {mss : List (List Migration)} {ms : List Migration}
    {g : Generated} {d d' : Disk String} (h : Holds p outDir b mss d)
    (hg : generate p ms = .ok g) (hnodup : (ms.map Migration.dirName).Nodup)
    (hget : ∀ q, IsOutput outDir q →
      get d' q = ((outputEntries outDir g).lookup q).or (get d q)) :
    Holds p outDir b (mss ++ [ms]) d' := by
  have hnames := tree_names hg
  have hentry : ∀ rm ∈ g.tree b, ∀ e ∈ migrationEntries outDir b rm,
      IsOutput outDir e.1 → get d' e.1 = some e.2 := by
    intro rm hrm e he hout
    rw [hget _ hout, lookup_entry (hnames b ▸ hnodup) hrm he]
    rfl
  have hother : ∀ name, name ∉ ms.map Migration.dirName → ∀ rest,
      get d' (outDir ++ treeName b :: name :: rest)
        = get d (outDir ++ treeName b :: name :: rest) := by
    intro name hname rest
    rw [hget _ (isOutput_tree _), lookup_other hnames hname]
    rfl
  refine ⟨fun m hm => ?_, fun name hname => ?_, ?_⟩
  · rcases latest_snoc.mp hm with ⟨x, hx, rm, hrm, rfl⟩ | ⟨hm, hmx⟩
    · obtain ⟨rm', hrm', hren⟩ := forall₂_of_mem_left (generate_tree hg b) hx
      cases renders_unique hren hrm
      have hall := hentry rm hrm'
      refine ⟨?_, ?_, _, rfl, ?_⟩
      · exact hall (_, .dir) (by simp [migrationEntries, asRead])
          (isOutput_tree _)
      · exact hall (_, .file _) (by simp [migrationEntries, asRead])
          (isOutput_tree _)
      · exact hall (_, .file _) (by simp [migrationEntries, asRead])
          (isOutput_tree _)
    · have hm' : m.dirName ∉ ms.map Migration.dirName := by
        intro hmem
        obtain ⟨x, hx, heq⟩ := List.mem_map.mp hmem
        exact hmx x hx heq
      have hold := h.stored m hm
      obtain ⟨text, htext, hdown⟩ := hold.down
      refine ⟨?_, ?_, text, htext, ?_⟩
      · rw [hother _ hm', hold.dir]
      · rw [hother _ hm', hold.up]
      · rw [hother _ hm', hdown]
  · by_cases hmem : name ∈ ms.map Migration.dirName
    · obtain ⟨x, hx, rfl⟩ := List.mem_map.mp hmem
      obtain ⟨rm, -, hrm⟩ := forall₂_of_mem_left (generate_tree hg b) hx
      refine ⟨asRead rm, .last hx hrm, ?_⟩
      obtain ⟨segs, up, down, -, -, -, rfl⟩ := hrm
      rfl
    · rw [hother name hmem] at hname
      obtain ⟨m, hm, rfl⟩ := h.named name hname
      refine ⟨m, .kept hm fun x hx heq => hmem ?_, rfl⟩
      exact List.mem_map.mpr ⟨x, hx, heq⟩
  · -- a run over no migrations does not make the directory
    cases htree : g.tree b with
    | nil =>
        have hms : ms = [] := by
          have hlength := (generate_tree hg b).length_eq
          rw [htree] at hlength
          exact List.length_eq_zero_iff.mp hlength
        have hnone : (outputEntries outDir g).lookup (treeDir outDir b)
            = none := by
          rw [← Option.not_isSome_iff_eq_none, entries_isSome hnames, hms]
          rintro (hq | ⟨b', name, hname, -⟩)
          · have hq := List.append_cancel_left hq
            exact treeName_ne_schema b (List.singleton_inj.mp hq)
          · cases hname
        have htreeDir : get d' (treeDir outDir b) = get d (treeDir outDir b) := by
          rw [hget (treeDir outDir b) (isOutput_tree []), hnone]
          rfl
        rw [htreeDir]
        refine h.tree.imp_right fun hfree => ⟨hfree.1, fun m hm => ?_⟩
        rcases latest_snoc.mp hm with ⟨x, hx, -⟩ | ⟨hm, -⟩
        · rw [hms] at hx
          cases hx
        · exact hfree.2 m hm
    | cons rm rms =>
        refine Or.inl (hentry rm ?_ (treeDir outDir b, .dir) ?_
          (isOutput_tree []))
        · rw [htree]
          exact List.mem_cons_self
        · simp [migrationEntries, treeDir]

theorem Runs.holds {mss : List (List Migration)} {d : Disk String}
    (h : Runs p outDir mss d) (b : Backend) : Holds p outDir b mss d := by
  induction h with
  | start hstart =>
      refine ⟨fun m hm => absurd hm (not_latest_nil m), fun name hname => ?_,
        Or.inr ⟨hstart _ (isOutput_tree []), not_latest_nil⟩⟩
      rw [hstart _ (isOutput_tree _)] at hname
      cases hname
  | @run mss d d₀ d' src ms n _ hedit hread hrun ih =>
      obtain ⟨ms', g, hread', hg, hwrite, -⟩ := run_ok.mp hrun
      cases Except.ok.inj (hread.symm.trans hread')
      refine ih.run hg ((readMigrations_sorted hread).imp ne_of_lt) ?_
      intro q hq
      rw [overlay_outputs hwrite q hq.not_above, hedit q hq]

/-- What a tree that is there has to give. -/
theorem Holds.read {mss : List (List Migration)} {d : Disk String}
    (h : Holds p outDir b mss d) (htree : get d (treeDir outDir b) = some .dir) :
    ∃ ms, readMigrations d (treeDir outDir b) = .ok ms ∧
      (ms.map Migration.dirName).Pairwise (· < ·) ∧
      ∀ m, m ∈ ms ↔ Latest p b mss m := by
  -- every directory that is gone through is one that a run wrote
  have hread : ∀ q ∈ sourceDirs d (treeDir outDir b), ∃ m,
      readMigration d q = .ok (some m) ∧ Latest p b mss m := by
    intro q hq
    obtain ⟨name, rfl, hdir⟩ := mem_sourceDirs.mp hq
    rw [treeDir, List.append_assoc] at hdir
    obtain ⟨m, hm, rfl⟩ := h.named name hdir
    exact ⟨m, (h.stored m hm).reads, hm⟩
  obtain ⟨found, hfound⟩ := exists_forall₂ (R := fun m q =>
    readMigration d q = .ok (some m) ∧ Latest p b mss m) hread
  have hmapM : (sourceDirs d (treeDir outDir b)).mapM (readMigration d)
      = .ok (found.map some) := by
    refine mapM_ok.mpr ?_
    rw [List.forall₂_map_right_iff]
    exact hfound.flip.imp fun _ _ hqm => hqm.1
  have hms : readMigrations d (treeDir outDir b) = .ok found := by
    rw [readMigrations_eq htree, hmapM]
    exact congrArg Except.ok (by simp [List.reduceOption])
  refine ⟨found, hms, readMigrations_sorted hms, fun m => ⟨fun hm => ?_,
    fun hm => ?_⟩⟩
  · obtain ⟨q, -, -, hlatest⟩ := forall₂_of_mem_left hfound hm
    exact hlatest
  · have hstored := h.stored m hm
    have hq : treeDir outDir b ++ [m.dirName]
        ∈ sourceDirs d (treeDir outDir b) := by
      refine mem_sourceDirs.mpr ⟨_, rfl, ?_⟩
      rw [treeDir, List.append_assoc]
      exact hstored.dir
    obtain ⟨m', hm', hread', -⟩ := forall₂_of_mem_left hfound.flip hq
    cases Option.some.inj (Except.ok.inj (hstored.reads.symm.trans hread'))
    exact hm'

/-- **A TREE IS A STORE**: after any number of runs, reading a tree gives the
    latest rendering of every migration that any run had, by name and in the
    order of the names; a tree that is not there has none to give. -/
theorem tree_is_store {mss : List (List Migration)} {d : Disk String}
    (h : Runs p outDir mss d) (b : Backend) :
    (get d (treeDir outDir b) = none ∧ ∀ m, ¬ Latest p b mss m) ∨
    ∃ ms, readMigrations d (treeDir outDir b) = .ok ms ∧
      (ms.map Migration.dirName).Pairwise (· < ·) ∧
      ∀ m, m ∈ ms ↔ Latest p b mss m := by
  have hholds := Runs.holds h b
  rcases hholds.tree with htree | hfree
  · exact Or.inr (hholds.read htree)
  · exact Or.inl hfree

/-- `one` is renamed to `two` between two runs, and both are read back. -/
theorem tree_is_store_of_renamed :
    ∃ d ms, Runs outputsParser generated
        ([[tableMigration "one"]] ++ [[tableMigration "two"]]) d ∧
      readMigrations d (treeDir generated .postgres) = .ok ms ∧
      ∀ m, m ∈ ms ↔ Latest outputsParser .postgres
        ([[tableMigration "one"]] ++ [[tableMigration "two"]]) m := by
  have hruns := first_run.regenerate ["two"] (by decide)
    (by decide +kernel) (by decide +kernel)
  rcases tree_is_store hruns .postgres with ⟨hnone, -⟩ | ⟨ms, hread, -, hmem⟩
  · exact absurd hnone (by decide +kernel)
  · exact ⟨_, ms, hruns, hread, hmem⟩

end DualdbReadBack
