import DieselDualdb.Outputs
import DieselDualdb.SqlText
import DieselDualdb.Lib.Pointwise

/-!
# What earlier runs leave behind

`write_outputs` creates and overwrites; nothing in it removes.  What one run
leaves in the output directory is a list of entries put over what was there
(`Overlay`), so after any number of runs a path is there exactly if some run
wrote it (`runs_get`), and the last run alone would leave the same exactly if
every directory name of an earlier run is one of its own
(`runs_forget_iff`).

Between two runs anything may happen to the disk, except inside the outputs.
-/

namespace DualdbOutputs

open DualdbAst DualdbTypeMap DualdbModel DualdbMigration DualdbSqlText
open FallibleRun FileTree Pointwise

/-! ## What one run writes -/

/-- Inside one of the two trees, or `schema.rs`. -/
def IsOutput (outDir path : Path) : Prop :=
  path = outDir ++ ["schema.rs"] ∨ ∃ b rest, path = outDir ++ treeName b :: rest

def migrationEntries (outDir : Path) (b : Backend) (rm : RenderedMigration) :
    Disk String :=
  [(outDir ++ [treeName b, rm.dirName, "down.sql"], .file (rm.downSql ++ "\n")),
    (outDir ++ [treeName b, rm.dirName, "up.sql"], .file (rm.upSql ++ "\n")),
    (outDir ++ [treeName b, rm.dirName], .dir),
    (outDir ++ [treeName b], .dir)]

def treeEntries (outDir : Path) (b : Backend) (rms : List RenderedMigration) :
    Disk String :=
  rms.reverse.flatMap (migrationEntries outDir b)

/-- Everything that `write_outputs` leaves, the last write first. -/
def outputEntries (outDir : Path) (g : Generated) : Disk String :=
  [(outDir ++ ["schema.rs"], .file g.schemaRs)]
    ++ (treeEntries outDir .sqlite g.sqlite
      ++ treeEntries outDir .postgres g.postgres)

/-- The second disk is the first with `es` put over it, except for the output
    directory itself and what is above it. -/
def Overlay (outDir : Path) (es d d' : Disk String) : Prop :=
  ∀ q, ¬ q <+: outDir → get d' q = (es.lookup q).or (get d q)

variable {outDir : Path}

theorem Overlay.refl (d : Disk String) : Overlay outDir [] d d :=
  fun _ _ => rfl

theorem Overlay.trans {es es' d d₁ d₂ : Disk String}
    (h : Overlay outDir es d d₁) (h' : Overlay outDir es' d₁ d₂) :
    Overlay outDir (es' ++ es) d d₂ := by
  intro q hq
  rw [h' q hq, h q hq, List.lookup_append, Option.or_assoc]

theorem overlay_write {path : Path} {contents : String} {d d' : Disk String}
    (h : writeFile d path contents = .ok d') :
    Overlay outDir [(path, .file contents)] d d' := by
  intro q _
  rw [get_write (mapError_ok.mp h), lookup_cons_ite]
  by_cases hq : q = path
  · rw [if_pos hq, if_pos hq]
    rfl
  · rw [if_neg hq, if_neg hq]
    rfl

theorem overlay_createDirAll {sub name : String} {d d' : Disk String}
    (h : createDirAll d (outDir ++ [sub, name]) = .ok d') :
    Overlay outDir
      [(outDir ++ [sub, name], .dir), (outDir ++ [sub], .dir)] d d' := by
  intro q hq
  -- below the output directory two are made
  have hcreated : q <+: outDir ++ [sub, name] ↔
      q = outDir ++ [sub, name] ∨ q = outDir ++ [sub] := by
    rw [List.append_cons, List.prefix_concat_iff, List.prefix_concat_iff]
    constructor
    · rintro (h | h | h)
      · exact Or.inl h
      · exact Or.inr h
      · exact absurd h hq
    · rintro (h | h)
      · exact Or.inl h
      · exact Or.inr (Or.inl h)
  rw [get_createDirAll h, lookup_cons_ite, lookup_cons_ite]
  by_cases hdir : q = outDir ++ [sub, name]
  · rw [if_pos (hcreated.mpr (Or.inl hdir)), if_pos hdir]
    rfl
  · rw [if_neg hdir]
    by_cases hsub : q = outDir ++ [sub]
    · rw [if_pos (hcreated.mpr (Or.inr hsub)), if_pos hsub]
      rfl
    · rw [if_neg fun h => (hcreated.mp h).elim hdir hsub, if_neg hsub]
      rfl

theorem overlay_migration {b : Backend} {d d' : Disk String}
    {rm : RenderedMigration} (h : writeMigration outDir b d rm = .ok d') :
    Overlay outDir (migrationEntries outDir b rm) d d' := by
  obtain ⟨d₁, hdirs, h⟩ := bind_ok.mp h
  obtain ⟨d₂, hup, hdown⟩ := bind_ok.mp h
  rw [List.append_assoc] at hup hdown
  exact ((overlay_createDirAll (mapError_ok.mp hdirs)).trans
    (overlay_write hup)).trans (overlay_write hdown)

theorem overlay_tree {b : Backend} {rms : List RenderedMigration}
    {d d' : Disk String}
    (h : rms.foldlM (writeMigration outDir b) d = .ok d') :
    Overlay outDir (treeEntries outDir b rms) d d' := by
  induction rms generalizing d with
  | nil =>
      rw [← foldlM_nil_ok.mp h]
      exact Overlay.refl d
  | cons rm rms ih =>
      obtain ⟨d₁, hstep, hrest⟩ := foldlM_cons_ok.mp h
      rw [treeEntries, List.reverse_cons, List.flatMap_append]
      have hhead := overlay_migration hstep
      rw [← List.append_nil (migrationEntries outDir b rm)] at hhead
      exact hhead.trans (ih hrest)

/-- **ONE RUN IN CLOSED FORM**: its entries, over what was there. -/
theorem overlay_outputs {g : Generated} {d d' : Disk String}
    (h : writeOutputs g outDir d = .ok d') :
    Overlay outDir (outputEntries outDir g) d d' := by
  obtain ⟨d₁, hpg, h⟩ := bind_ok.mp h
  obtain ⟨d₂, hsq, hschema⟩ := bind_ok.mp h
  exact ((overlay_tree hpg).trans (overlay_tree hsq)).trans
    (overlay_write hschema)

/-! ## Which paths a run writes -/

def migrationPaths (outDir : Path) (b : Backend) (name : String) : List Path :=
  [outDir ++ [treeName b, name, "down.sql"],
    outDir ++ [treeName b, name, "up.sql"], outDir ++ [treeName b, name],
    outDir ++ [treeName b]]

/-- A path that a run over directories of these names writes. -/
def Leaves (outDir : Path) (names : List String) (q : Path) : Prop :=
  q = outDir ++ ["schema.rs"] ∨
    ∃ b, ∃ name ∈ names, q ∈ migrationPaths outDir b name

theorem lookup_isSome {es : Disk String} {q : Path} :
    (es.lookup q).isSome = true ↔ q ∈ es.map Prod.fst := by
  rw [List.lookup_isSome_iff, List.mem_map]
  constructor
  · rintro ⟨e, he, heq⟩
    exact ⟨e, he, (beq_iff_eq.mp heq).symm⟩
  · rintro ⟨e, he, heq⟩
    exact ⟨e, he, beq_iff_eq.mpr heq.symm⟩

theorem mem_treeEntries {b : Backend} {rms : List RenderedMigration}
    {q : Path} :
    q ∈ (treeEntries outDir b rms).map Prod.fst ↔
      ∃ name ∈ rms.map RenderedMigration.dirName,
        q ∈ migrationPaths outDir b name := by
  rw [treeEntries, List.map_flatMap, List.mem_flatMap]
  constructor
  · rintro ⟨rm, hrm, hq⟩
    exact ⟨rm.dirName, List.mem_map_of_mem (List.mem_reverse.mp hrm), hq⟩
  · rintro ⟨name, hname, hq⟩
    obtain ⟨rm, hrm, rfl⟩ := List.mem_map.mp hname
    exact ⟨rm, List.mem_reverse.mpr hrm, hq⟩

theorem entries_isSome {names : List String} {g : Generated}
    (hnames : ∀ b, (g.tree b).map RenderedMigration.dirName = names)
    {q : Path} :
    ((outputEntries outDir g).lookup q).isSome = true ↔
      Leaves outDir names q := by
  rw [lookup_isSome, outputEntries, List.map_append, List.map_append,
    List.mem_append, List.mem_append, mem_treeEntries, mem_treeEntries]
  have hpg := hnames .postgres
  have hsq := hnames .sqlite
  simp only [Generated.tree] at hpg hsq
  rw [hpg, hsq]
  constructor
  · rintro (hq | hq | hq)
    · exact Or.inl (List.mem_singleton.mp hq)
    · exact Or.inr ⟨.sqlite, hq⟩
    · exact Or.inr ⟨.postgres, hq⟩
  · rintro (hq | ⟨b, hq⟩)
    · exact Or.inl (List.mem_singleton.mpr hq)
    · cases b with
      | postgres => exact Or.inr (Or.inr hq)
      | sqlite => exact Or.inr (Or.inl hq)

/-- Both trees have the directory names of the migrations. -/
theorem tree_names {p : Sqlparser} {ms : List Migration} {g : Generated}
    (h : generate p ms = .ok g) (b : Backend) :
    (g.tree b).map RenderedMigration.dirName = ms.map Migration.dirName := by
  have htree := generate_tree h b
  generalize g.tree b = rs at htree
  clear h
  induction htree with
  | nil => rfl
  | cons hr _ ih =>
      obtain ⟨segs, up, down, -, -, -, rfl⟩ := hr
      rw [List.map_cons, List.map_cons, ih]

theorem leaves_dir {names : List String} {b : Backend} {name : String} :
    Leaves outDir names (outDir ++ [treeName b, name]) ↔ name ∈ names := by
  constructor
  · rintro (h | ⟨b', name', hname', h⟩)
    · cases congrArg List.length (List.append_cancel_left h)
    · simp only [migrationPaths, List.mem_cons, List.append_cancel_left_eq,
        List.cons.injEq, List.not_mem_nil, or_false] at h
      rcases h with ⟨-, -, h⟩ | ⟨-, -, h⟩ | ⟨-, h, -⟩ | ⟨-, h⟩
      · cases h
      · cases h
      · rw [h]
        exact hname'
      · cases h
  · intro h
    refine Or.inr ⟨b, name, h, ?_⟩
    simp [migrationPaths]

theorem Leaves.mono {names names' : List String} {q : Path}
    (h : Leaves outDir names q) (hsub : ∀ n ∈ names, n ∈ names') :
    Leaves outDir names' q := by
  rcases h with h | ⟨b, name, hname, h⟩
  · exact Or.inl h
  · exact Or.inr ⟨b, name, hsub name hname, h⟩

theorem IsOutput.not_above {q : Path} (h : IsOutput outDir q) :
    ¬ q <+: outDir := by
  intro hle
  have hlength := hle.length_le
  rcases h with rfl | ⟨b, rest, rfl⟩
  · rw [List.length_append, List.length_singleton] at hlength
    omega
  · rw [List.length_append, List.length_cons] at hlength
    omega

/-! ## Runs into one directory -/

theorem run_ok {p : Sqlparser} {src : Path} {d d' : Disk String} {n : Nat} :
    run p src outDir d = .ok (n, d') ↔
      ∃ ms g, readMigrations d src = .ok ms ∧ generate p ms = .ok g ∧
        writeOutputs g outDir d = .ok d' ∧ n = ms.length := by
  simp only [run, bind_ok, pure_ok, Prod.mk.injEq]
  constructor
  · rintro ⟨ms, hms, g, hg, _, hd', rfl, rfl⟩
    exact ⟨ms, g, hms, hg, hd', rfl⟩
  · rintro ⟨ms, g, hms, hg, hd', rfl⟩
    exact ⟨ms, hms, g, hg, d', hd', rfl, rfl⟩

/-- The disk after runs into `outDir`, each over the listed migrations.  There
    are no outputs at first; before each run the disk may change anywhere but
    in the outputs. -/
inductive Runs (p : Sqlparser) (outDir : Path) :
    List (List Migration) → Disk String → Prop where
  | start {d : Disk String} (h : ∀ q, IsOutput outDir q → get d q = none) :
      Runs p outDir [] d
  | run {mss : List (List Migration)} {d d₀ d' : Disk String} {src : Path}
      {ms : List Migration} {n : Nat} (hprev : Runs p outDir mss d)
      (hedit : ∀ q, IsOutput outDir q → get d₀ q = get d q)
      (hread : readMigrations d₀ src = .ok ms)
      (hrun : DualdbOutputs.run p src outDir d₀ = .ok (n, d')) :
      Runs p outDir (mss ++ [ms]) d'

/-- The last of some runs: the outputs before it, and what it put over them. -/
theorem Runs.last {p : Sqlparser} {mss : List (List Migration)}
    {ms : List Migration} {d : Disk String}
    (h : Runs p outDir (mss ++ [ms]) d) :
    ∃ g before, Runs p outDir mss before ∧ generate p ms = .ok g ∧
      ∀ q, IsOutput outDir q → get d q
        = ((outputEntries outDir g).lookup q).or (get before q) := by
  generalize hall : mss ++ [ms] = all at h
  cases h with
  | start _ => cases List.append_ne_nil_of_right_ne_nil _ (List.cons_ne_nil _ _) hall
  | run hprev hedit hread hrun =>
      obtain ⟨rfl, hms⟩ := List.append_inj' hall rfl
      obtain ⟨ms', g, hread', hg, hwrite, -⟩ := run_ok.mp hrun
      rw [← Except.ok.inj (hread.symm.trans hread'),
        ← List.singleton_inj.mp hms] at hg
      refine ⟨g, _, hprev, hg, fun q hq => ?_⟩
      rw [overlay_outputs hwrite q hq.not_above, hedit q hq]

/-- **WHAT IS THERE AFTER SOME RUNS**: every path that one of them wrote. -/
theorem runs_get {p : Sqlparser} {mss : List (List Migration)}
    {d : Disk String} (h : Runs p outDir mss d) {q : Path}
    (hq : IsOutput outDir q) :
    (get d q).isSome = true ↔
      ∃ ms ∈ mss, Leaves outDir (ms.map Migration.dirName) q := by
  induction mss using List.reverseRecOn generalizing d with
  | nil =>
      generalize hall : ([] : List (List Migration)) = all at h
      cases h with
      | start hstart =>
          rw [hstart q hq]
          constructor
          · intro h
            cases h
          · rintro ⟨ms, hms, -⟩
            rw [← hall] at hms
            cases hms
      | run _ _ _ _ =>
          cases List.append_ne_nil_of_right_ne_nil _ (List.cons_ne_nil _ _)
            hall.symm
  | append_singleton mss ms ih =>
      obtain ⟨g, before, hbefore, hg, hget⟩ := h.last
      rw [hget q hq, Option.isSome_or, Bool.or_eq_true,
        entries_isSome (tree_names hg), ih hbefore]
      constructor
      · rintro (hlast | ⟨ms', hms', hearlier⟩)
        · exact ⟨ms, List.mem_append_right _ (List.mem_singleton.mpr rfl),
            hlast⟩
        · exact ⟨ms', List.mem_append_left _ hms', hearlier⟩
      · rintro ⟨ms', hms', hleaves⟩
        -- of the last run, or of an earlier one
        rcases List.mem_append.mp hms' with hms' | hms'
        · exact Or.inr ⟨ms', hms', hleaves⟩
        · rw [List.mem_singleton.mp hms'] at hleaves
          exact Or.inl hleaves

/-! ## A run into an empty directory -/

structure EmptyOut (outDir : Path) (e : Disk String) : Prop where
  dirs : ∀ q, q <+: outDir → get e q = some .dir
  empty : ∀ q, outDir <+: q → q ≠ outDir → get e q = none

/-- Nothing is in the way of a run into `outDir`. -/
structure Clear (outDir : Path) (d : Disk String) : Prop where
  dirs : ∀ q, q <+: outDir → get d q = some .dir
  trees : ∀ b, DirOrFree d (outDir ++ [treeName b])
  migrations : ∀ b name, DirOrFree d (outDir ++ [treeName b, name])
  files : ∀ b name file,
    get d (outDir ++ [treeName b, name, file]) ≠ some .dir
  schema : get d (outDir ++ ["schema.rs"]) ≠ some .dir

theorem EmptyOut.clear {e : Disk String} (h : EmptyOut outDir e) :
    Clear outDir e := by
  have hnone : ∀ (c : String) rest, get e (outDir ++ c :: rest) = none := by
    intro c rest
    refine h.empty _ (List.prefix_append _ _) fun heq => ?_
    rw [List.append_right_eq_self] at heq
    cases heq
  refine ⟨h.dirs, fun b => Or.inl (hnone _ _), fun b name => Or.inl (hnone _ _),
    fun b name file => ?_, ?_⟩
  · rw [hnone]
    exact (Option.some_ne_none _).symm
  · rw [hnone]
    exact (Option.some_ne_none _).symm

theorem Clear.dirsCreated {d d' : Disk String} (h : Clear outDir d)
    {b : Backend} {name : String}
    (hd' : createDirAll d (outDir ++ [treeName b, name]) = .ok d') :
    Clear outDir d' := by
  have hkeep : ∀ q, DirOrFree d q → DirOrFree d' q := by
    intro q hq
    rw [DirOrFree, get_createDirAll hd']
    split
    · exact Or.inr rfl
    · exact hq
  refine ⟨fun q hq => ?_, fun b => hkeep _ (h.trees b),
    fun b name => hkeep _ (h.migrations b name), fun b' name' file => ?_, ?_⟩
  · rw [get_createDirAll hd',
      if_pos (hq.trans (List.prefix_append _ _))]
  · rw [get_createDirAll hd', if_neg]
    · exact h.files b' name' file
    · intro hle
      have hlength := hle.length_le
      simp at hlength
  · rw [get_createDirAll hd', if_neg]
    · exact h.schema
    · intro hle
      rw [List.prefix_append_right_inj, List.cons_prefix_cons] at hle
      cases b <;> exact absurd hle.1 (by decide)

theorem Clear.fileWritten {d d' : Disk String} (h : Clear outDir d) {b : Backend}
    {name file contents : String}
    (hd' : writeFile d (outDir ++ [treeName b, name, file]) contents
      = .ok d') : Clear outDir d' := by
  have hget := get_write (mapError_ok.mp hd')
  -- only a path as long as the written one can be it
  have hkeep : ∀ q : Path, q.length ≠ outDir.length + 3 →
      get d' q = get d q := by
    intro q hq
    rw [hget, if_neg]
    intro heq
    rw [heq] at hq
    simp at hq
  refine ⟨fun q hq => ?_, fun b => ?_, fun b name => ?_,
    fun b' name' file' => ?_, ?_⟩
  · have hlength := hq.length_le
    rw [hkeep q (by omega)]
    exact h.dirs q hq
  · rw [DirOrFree, hkeep _ (by simp)]
    exact h.trees b
  · rw [DirOrFree, hkeep _ (by simp)]
    exact h.migrations b name
  · rw [hget]
    split
    · intro heq
      cases heq
    · exact h.files b' name' file'
  · rw [hkeep _ (by simp)]
    exact h.schema

theorem Clear.migration {d : Disk String} (h : Clear outDir d)
    (b : Backend) (rm : RenderedMigration) :
    ∃ d', writeMigration outDir b d rm = .ok d' ∧ Clear outDir d' := by
  -- the directory and both above it can be made
  have hdirs : ∀ q, q <+: outDir ++ [treeName b, rm.dirName] →
      DirOrFree d q := by
    intro q hq
    rw [List.append_cons, List.prefix_concat_iff,
      List.prefix_concat_iff] at hq
    rcases hq with rfl | rfl | hq
    · rw [← List.append_cons]
      exact h.migrations b rm.dirName
    · exact h.trees b
    · exact Or.inr (h.dirs q hq)
  obtain ⟨d₁, h₁⟩ := createDirAll_total hdirs
  have hclear₁ := h.dirsCreated h₁
  have hdir₁ : get d₁ (outDir ++ [treeName b, rm.dirName]) = some .dir := by
    rw [get_createDirAll h₁, if_pos (List.prefix_refl _)]
  -- both files stand directly in the directory
  have hparent : ∀ file : String,
      (outDir ++ [treeName b, rm.dirName, file]).dropLast
        = outDir ++ [treeName b, rm.dirName] := by
    intro file
    rw [List.dropLast_append_of_ne_nil (List.cons_ne_nil _ _)]
    rfl
  obtain ⟨d₂, h₂⟩ := write_total (by rw [hparent "up.sql"]; exact hdir₁)
    (hclear₁.files b rm.dirName "up.sql") (rm.upSql ++ "\n")
  have hwrite₂ : writeFile d₁ (outDir ++ [treeName b, rm.dirName, "up.sql"])
      (rm.upSql ++ "\n") = .ok d₂ := mapError_ok.mpr h₂
  have hclear₂ := hclear₁.fileWritten hwrite₂
  have hdir₂ : get d₂ (outDir ++ [treeName b, rm.dirName]) = some .dir := by
    rw [get_write h₂, if_neg, hdir₁]
    intro heq
    cases congrArg List.length (List.append_cancel_left heq)
  obtain ⟨d₃, h₃⟩ := write_total (by rw [hparent "down.sql"]; exact hdir₂)
    (hclear₂.files b rm.dirName "down.sql") (rm.downSql ++ "\n")
  have hwrite₃ : writeFile d₂ (outDir ++ [treeName b, rm.dirName, "down.sql"])
      (rm.downSql ++ "\n") = .ok d₃ := mapError_ok.mpr h₃
  refine ⟨d₃, bind_ok.mpr ⟨d₁, mapError_ok.mpr h₁, bind_ok.mpr ⟨d₂, ?_, ?_⟩⟩,
    hclear₂.fileWritten hwrite₃⟩
  · rw [List.append_assoc]
    exact hwrite₂
  · rw [List.append_assoc]
    exact hwrite₃

theorem Clear.tree {d : Disk String} (h : Clear outDir d) (b : Backend)
    (rms : List RenderedMigration) :
    ∃ d', rms.foldlM (writeMigration outDir b) d = .ok d' ∧
      Clear outDir d' := by
  induction rms generalizing d with
  | nil => exact ⟨d, rfl, h⟩
  | cons rm rms ih =>
      obtain ⟨d₁, hstep, h₁⟩ := h.migration b rm
      obtain ⟨d', hrest, h'⟩ := ih h₁
      exact ⟨d', foldlM_cons_ok.mpr ⟨d₁, hstep, hrest⟩, h'⟩

/-- A run into a clear directory writes everything. -/
theorem Clear.outputs {d : Disk String} (h : Clear outDir d) (g : Generated) :
    ∃ d', writeOutputs g outDir d = .ok d' := by
  obtain ⟨d₁, hpg, h₁⟩ := h.tree .postgres (g.tree .postgres)
  obtain ⟨d₂, hsq, h₂⟩ := h₁.tree .sqlite (g.tree .sqlite)
  have hparent : get d₂ (outDir ++ ["schema.rs"]).dropLast = some .dir := by
    rw [List.dropLast_concat]
    exact h₂.dirs outDir (List.prefix_refl _)
  obtain ⟨d₃, hschema⟩ := write_total hparent h₂.schema g.schemaRs
  exact ⟨d₃, bind_ok.mpr ⟨d₁, hpg, bind_ok.mpr ⟨d₂, hsq,
    mapError_ok.mpr hschema⟩⟩⟩

/-! ## Regeneration -/

/-- **WHEN REGENERATION FORGETS THE PAST**: after any number of runs, the
    outputs are what the last run alone leaves in an empty directory exactly if
    the last run has every directory name of the earlier ones. -/
theorem runs_forget_iff {p : Sqlparser} {mss : List (List Migration)}
    {ms : List Migration} {d e : Disk String}
    (h : Runs p outDir (mss ++ [ms]) d) (he : EmptyOut outDir e) :
    ∃ g fresh, generate p ms = .ok g ∧ writeOutputs g outDir e = .ok fresh ∧
      ((∀ q, IsOutput outDir q → get d q = get fresh q) ↔
        ∀ ms' ∈ mss, ∀ m ∈ ms', ∃ m' ∈ ms, m'.dirName = m.dirName) := by
  obtain ⟨g, before, hbefore, hg, hget⟩ := h.last
  obtain ⟨fresh, hfresh⟩ := he.clear.outputs g
  have hlast : ∀ q, IsOutput outDir q →
      get fresh q = (outputEntries outDir g).lookup q := by
    intro q hq
    have hnone : get e q = none := by
      refine he.empty q ?_ ?_
      · rcases hq with rfl | ⟨b, rest, rfl⟩
        · exact List.prefix_append _ _
        · exact List.prefix_append _ _
      · rintro rfl
        exact hq.not_above (List.prefix_refl _)
    rw [overlay_outputs hfresh q hq.not_above, hnone, Option.or_none]
  refine ⟨g, fresh, hg, hfresh, ?_⟩
  constructor
  · intro hsame ms' hms' m hm
    -- the directory an earlier run made is there, so the last run made it
    have hq : IsOutput outDir (outDir ++ [treeName .postgres, m.dirName]) :=
      Or.inr ⟨.postgres, _, rfl⟩
    have hthere := (runs_get h hq).mpr ⟨ms', List.mem_append_left _ hms',
      leaves_dir.mpr (List.mem_map_of_mem hm)⟩
    rw [hsame _ hq, hlast _ hq, entries_isSome (tree_names hg), leaves_dir]
      at hthere
    exact List.mem_map.mp hthere
  · intro hnames q hq
    rw [hget q hq, hlast q hq]
    cases hentry : (outputEntries outDir g).lookup q with
    | some node => rfl
    | none =>
        rw [Option.none_or, ← Option.not_isSome_iff_eq_none,
          runs_get hbefore hq]
        rintro ⟨ms', hms', hleaves⟩
        -- what an earlier run left there the last run wrote again
        have hlate : Leaves outDir (ms.map Migration.dirName) q := by
          refine hleaves.mono fun name hname => ?_
          obtain ⟨m, hm, rfl⟩ := List.mem_map.mp hname
          obtain ⟨m', hm', hsame⟩ := hnames ms' hms' m hm
          rw [← hsame]
          exact List.mem_map_of_mem hm'
        rw [← entries_isSome (tree_names hg), hentry] at hlate
        cases hlate

/-! ## Two runs in one directory -/

/-- `schema/migrations` with these directories, one table each. -/
def schemaDir (names : List String) : Disk String :=
  (["schema"], .dir) :: (["schema", "migrations"], .dir) :: names.flatMap
    fun name => [(["schema", "migrations", name], .dir),
      (["schema", "migrations", name, "up.sql"],
        .file ("CREATE TABLE " ++ name ++ " (a INT);"))]

def generated : Path := ["schema", "generated"]

/-- The disk with a new migrations directory and the outputs there were. -/
def withSchema (names : List String) (d : Disk String) : Disk String :=
  schemaDir names ++ d.filter fun e => e.1.take 2 = generated

def tableMigration (name : String) : Migration :=
  ⟨name, "CREATE TABLE " ++ name ++ " (a INT);", none⟩

deriving instance DecidableEq for Migration

def tableStatement (name : String) : Statement :=
  createTable (bare name) [col "a" (.int none) []] []

def outputsParser : Sqlparser := stretchParser
  [("CREATETABLEone(aINT)", tableStatement "one"),
    ("CREATETABLEtwo(aINT)", tableStatement "two")]

theorem lookup_filter (keep : Path → Bool) {q : Path} (hq : keep q = true)
    (d : Disk String) :
    (d.filter fun e => keep e.1).lookup q = d.lookup q := by
  induction d with
  | nil => rfl
  | cons e d ih =>
      obtain ⟨path, node⟩ := e
      rw [lookup_cons_ite, List.filter_cons]
      by_cases hpath : q = path
      · rw [if_pos hpath, if_pos (by rw [← hpath]; exact hq), lookup_cons_ite,
          if_pos hpath]
      · rw [if_neg hpath, ← ih]
        by_cases hkeep : keep path = true
        · rw [if_pos hkeep, lookup_cons_ite, if_neg hpath]
        · rw [if_neg hkeep]

/-- A new migrations directory leaves the outputs as they are. -/
theorem get_withSchema {names : List String}
    (hnames : ∀ e ∈ schemaDir names, e.1.take 2 ≠ generated) (d : Disk String)
    {q : Path} (hq : IsOutput generated q) :
    get (withSchema names d) q = get d q := by
  have htake : q.take 2 = generated := by
    rcases hq with rfl | ⟨b, rest, rfl⟩ <;> rfl
  have hne : q ≠ [] := by
    rintro rfl
    cases htake
  have hschema : (schemaDir names).lookup q = none := by
    rw [← Option.not_isSome_iff_eq_none, lookup_isSome]
    intro hmem
    obtain ⟨e, he, rfl⟩ := List.mem_map.mp hmem
    exact hnames e he htake
  have hkept := lookup_filter (fun path => path.take 2 = generated)
    (decide_eq_true htake) d
  rw [get_of_ne hne, get_of_ne hne, withSchema, List.lookup_append, hschema,
    Option.none_or, hkept]

/-- The disk after a run over a new migrations directory. -/
def regenerate (names : List String) (d : Disk String) : Disk String :=
  match run outputsParser ["schema", "migrations"] generated
    (withSchema names d) with
  | .ok (_, d') => d'
  | .error _ => d

theorem Runs.regenerate {mss : List (List Migration)} {d : Disk String}
    (h : Runs outputsParser generated mss d) (names : List String)
    (hnames : ∀ e ∈ schemaDir names, e.1.take 2 ≠ generated)
    (hread : readMigrations (withSchema names d) ["schema", "migrations"]
      = .ok (names.map tableMigration))
    (hrun : (DualdbOutputs.run outputsParser ["schema", "migrations"] generated
      (withSchema names d)).isOk = true) :
    Runs outputsParser generated (mss ++ [names.map tableMigration])
      (DualdbOutputs.regenerate names d) := by
  obtain ⟨⟨n, d'⟩, hd'⟩ := exists_ok_of_isOk hrun
  have hregenerate : DualdbOutputs.regenerate names d = d' := by
    rw [DualdbOutputs.regenerate, hd']
  rw [hregenerate]
  exact .run h (fun _ hq => get_withSchema hnames d hq) hread hd'

def emptyOut : Disk String := [(["schema"], .dir), (generated, .dir)]

theorem emptyOut_empty : EmptyOut generated emptyOut := by
  constructor
  · intro q hq
    have hmem := (List.mem_inits q generated).mpr hq
    simp only [generated, List.inits, List.map_cons, List.map_nil,
      List.mem_cons, List.not_mem_nil, or_false] at hmem
    rcases hmem with rfl | rfl | rfl <;> rfl
  · rintro _ ⟨rest, rfl⟩ hne
    cases rest with
    | nil => exact absurd (List.append_nil _) hne
    | cons c rest => rfl

theorem first_run : Runs outputsParser generated [[tableMigration "one"]]
    (regenerate ["one"] []) := by
  have hstart : Runs outputsParser generated [] [] := by
    refine .start fun q hq => get_of_ne ?_
    rintro rfl
    exact hq.not_above List.nil_prefix
  exact hstart.regenerate ["one"] (by decide) (by decide +kernel)
    (by decide +kernel)

/-- A migration is added between the runs. -/
theorem runs_forget_iff_of_added :
    ∃ d g fresh, Runs outputsParser generated
        ([[tableMigration "one"]] ++ [[tableMigration "one",
          tableMigration "two"]]) d ∧
      generate outputsParser [tableMigration "one", tableMigration "two"]
        = .ok g ∧
      writeOutputs g generated emptyOut = .ok fresh ∧
      ∀ q, IsOutput generated q → get d q = get fresh q := by
  have hruns := first_run.regenerate ["one", "two"] (by decide)
    (by decide +kernel) (by decide +kernel)
  obtain ⟨g, fresh, hg, hfresh, hiff⟩ := runs_forget_iff hruns emptyOut_empty
  exact ⟨_, g, fresh, hruns, hg, hfresh, hiff.mpr (by decide)⟩

/-- **A RENAMED MIGRATION STAYS**: `one` is renamed to `two` between two runs,
    and both are in the trees after the second. -/
theorem renamed_migration_stays :
    ∃ d g fresh, Runs outputsParser generated
        ([[tableMigration "one"]] ++ [[tableMigration "two"]]) d ∧
      generate outputsParser [tableMigration "two"] = .ok g ∧
      writeOutputs g generated emptyOut = .ok fresh ∧
      get d (generated ++ ["migrations-postgres", "one", "up.sql"])
        = some (.file "CREATE TABLE one (a INTEGER);\n") ∧
      get fresh (generated ++ ["migrations-postgres", "one", "up.sql"])
        = none := by
  have hruns := first_run.regenerate ["two"] (by decide)
    (by decide +kernel) (by decide +kernel)
  obtain ⟨g, hg⟩ := exists_ok_of_isOk
    (x := generate outputsParser [tableMigration "two"]) (by decide +kernel)
  obtain ⟨fresh, hfresh⟩ := emptyOut_empty.clear.outputs g
  refine ⟨_, g, fresh, hruns, hg, hfresh, by decide +kernel, ?_⟩
  have hwritten : IsOutput generated
      (generated ++ ["migrations-postgres", "one", "up.sql"]) :=
    Or.inr ⟨.postgres, ["one", "up.sql"], rfl⟩
  rw [overlay_outputs hfresh _ hwritten.not_above,
    emptyOut_empty.empty _ (List.prefix_append _ _) (by decide), Option.or_none,
    ← Option.not_isSome_iff_eq_none, entries_isSome (tree_names hg)]
  rintro (h | ⟨b, name, hname, h⟩)
  · exact absurd h (by decide)
  · rw [List.mem_singleton.mp hname] at h
    cases b <;> exact absurd h (by decide)

end DualdbOutputs
