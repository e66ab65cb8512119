import DieselDualdb.OutputsProofs
import DieselDualdb.AcceptanceProofs
import DieselDualdb.Lib.WritePlan

/-!
# One invocation of the program

`run` says what an accepted run leaves; here is what any invocation leaves,
refused ones included.  `write_outputs` is a list of calls, carried out one by
one until the file system refuses one, and what was written by then stays.
`main` reads the two arguments, runs, and reports with its exit code.

The calls and `run` are one program (`writeOutputs_eq`, `runOn_eq`).  What an
invocation may change on the disk is `invocation_frame`, and when it succeeds is
`exits_zero_iff`.
-/

namespace DualdbInvocation

open DualdbAst DualdbTypeMap DualdbMigration DualdbOutputs DualdbAcceptance
open FallibleRun FileTree WritePlan

/-! ## The calls -/

def migrationCalls (outDir : Path) (b : Backend) (rm : RenderedMigration) :
    List (Step String) :=
  let dir := outDir ++ [treeName b, rm.dirName]
  dirSteps dir
    ++ [.write (dir ++ ["up.sql"]) (rm.upSql ++ "\n"),
      .write (dir ++ ["down.sql"]) (rm.downSql ++ "\n")]

def treeCalls (outDir : Path) (g : Generated) (b : Backend) :
    List (Step String) :=
  (g.tree b).flatMap (migrationCalls outDir b)

/-- Both trees, file by file. -/
def treesCalls (outDir : Path) (g : Generated) : List (Step String) :=
  treeCalls outDir g .postgres ++ treeCalls outDir g .sqlite

/-- Everything that `write_outputs` asks of the file system, in order. -/
def outputCalls (outDir : Path) (g : Generated) : List (Step String) :=
  treesCalls outDir g ++ [.write (outDir ++ ["schema.rs"]) g.schemaRs]

/-- The error of a call that is refused. -/
def refusal : Step String → IoError → String
  | .ensureDir path _, e => "creating " ++ display path ++ ": " ++ ioText e
  | .write path _, e => "writing " ++ display path ++ ": " ++ ioText e

/-- Carry out calls until one is refused; what was done stays done. -/
def perform (d : Disk String) :
    List (Step String) → Except String Unit × Disk String
  | [] => (.ok (), d)
  | call :: calls =>
      match call.exec d with
      | .ok d' => perform d' calls
      | .error e => (.error (refusal call e), d)

/-! ## The program -/

/-- `run`, with the disk it leaves behind in any case. -/
def runOn (p : Sqlparser) (migrationsDir outDir : Path) (d : Disk String) :
    Except String Nat × Disk String :=
  match readMigrations d migrationsDir with
  | .error e => (.error e, d)
  | .ok migrations =>
      match generate p migrations with
      | .error e => (.error e, d)
      | .ok generated =>
          match perform d (outputCalls outDir generated) with
          | (.ok (), d') => (.ok migrations.length, d')
          | (.error e, d') => (.error e, d')

structure Outcome where
  exitCode : Nat
  stdout : String
  stderr : String
  disk : Disk String

/-- The arguments are paths, without the program's name. -/
def main (p : Sqlparser) (args : List Path) (d : Disk String) : Outcome :=
  match args with
  | migrationsDir :: outDir :: _ =>
      match runOn p migrationsDir outDir d with
      | (.ok count, d') =>
          ⟨0, "generated " ++ toString count ++ " migration(s) + schema.rs\n",
            "", d'⟩
      | (.error e, d') => ⟨1, "", "diesel-dualdb-schema: " ++ e ++ "\n", d'⟩
  | _ =>
      ⟨2, "", "usage: diesel-dualdb-schema <migrations_dir> <out_dir>\n", d⟩

/-! ## The calls are `write_outputs` -/

/-- The disk, when every call was carried out. -/
def finished (x : Except String Unit × Disk String) :
    Except String (Disk String) :=
  match x with
  | (.ok (), d) => .ok d
  | (.error e, _) => .error e

theorem finished_append (d : Disk String) (calls calls' : List (Step String)) :
    finished (perform d (calls ++ calls'))
      = finished (perform d calls) >>= fun d₁ =>
        finished (perform d₁ calls') := by
  induction calls generalizing d with
  | nil => rfl
  | cons call calls ih =>
      rw [List.cons_append, perform, perform]
      cases call.exec d with
      | ok d₁ => exact ih d₁
      | error e => rfl

theorem finished_ok {d d' : Disk String} {calls : List (Step String)} :
    finished (perform d calls) = .ok d' ↔
      calls.foldlM Step.exec d = .ok d' := by
  induction calls generalizing d with
  | nil =>
      rw [foldlM_nil_ok]
      exact ⟨fun h => Except.ok.inj h, fun h => congrArg Except.ok h⟩
  | cons call calls ih =>
      rw [perform, foldlM_cons_ok]
      cases hcall : call.exec d with
      | ok d₁ =>
          rw [ih]
          constructor
          · intro h
            exact ⟨d₁, rfl, h⟩
          · rintro ⟨d₂, hd₂, h⟩
            rw [Except.ok.inj hd₂]
            exact h
      | error e =>
          refine iff_of_false error_ne_ok ?_
          rintro ⟨d₁, h, -⟩
          exact error_ne_ok h

theorem finished_dirs (d : Disk String) (path : Path) (pres : List Path) :
    finished (perform d (pres.map (.ensureDir path)))
      = whileDoing "creating" path (pres.foldlM (ensureDir path) d) := by
  induction pres generalizing d with
  | nil => rfl
  | cons pre pres ih =>
      rw [List.map_cons, perform, List.foldlM_cons]
      have hexec : (Step.ensureDir path pre).exec d = ensureDir path d pre :=
        rfl
      rw [hexec]
      cases ensureDir path d pre with
      | ok d₁ => exact ih d₁
      | error e => rfl

theorem finished_write (d : Disk String) (path : Path) (contents : String) :
    finished (perform d [.write path contents]) = writeFile d path contents := by
  have hexec : (Step.write path contents).exec d
      = FileTree.write d path contents := rfl
  rw [perform, hexec, writeFile]
  cases FileTree.write d path contents with
  | ok d₁ => rfl
  | error e => rfl

theorem writeMigration_eq (outDir : Path) (b : Backend) (d : Disk String)
    (rm : RenderedMigration) :
    writeMigration outDir b d rm
      = finished (perform d (migrationCalls outDir b rm)) := by
  have hsplit : migrationCalls outDir b rm
      = dirSteps (outDir ++ [treeName b, rm.dirName])
        ++ ([.write (outDir ++ [treeName b, rm.dirName] ++ ["up.sql"])
            (rm.upSql ++ "\n")]
          ++ [.write (outDir ++ [treeName b, rm.dirName] ++ ["down.sql"])
            (rm.downSql ++ "\n")]) := rfl
  rw [hsplit, finished_append, dirSteps, finished_dirs]
  simp only [finished_append, finished_write]
  rfl

theorem writeTree_eq (outDir : Path) (b : Backend)
    (rms : List RenderedMigration) (d : Disk String) :
    rms.foldlM (writeMigration outDir b) d
      = finished (perform d (rms.flatMap (migrationCalls outDir b))) := by
  induction rms generalizing d with
  | nil => rfl
  | cons rm rms ih =>
      rw [List.foldlM_cons, List.flatMap_cons, finished_append,
        writeMigration_eq]
      exact bind_congr fun d₁ => ih d₁

/-- **`write_outputs` IS ITS CALLS**, error texts included. -/
theorem writeOutputs_eq (g : Generated) (outDir : Path) (d : Disk String) :
    writeOutputs g outDir d
      = finished (perform d (outputCalls outDir g)) := by
  rw [outputCalls, treesCalls, List.append_assoc, finished_append, treeCalls,
    ← writeTree_eq]
  refine bind_congr fun d₁ => ?_
  rw [finished_append, treeCalls, ← writeTree_eq]
  exact bind_congr fun d₂ => (finished_write d₂ _ _).symm

theorem writeOutputs_ok {g : Generated} {outDir : Path} {d d' : Disk String} :
    writeOutputs g outDir d = .ok d' ↔
      (outputCalls outDir g).foldlM Step.exec d = .ok d' := by
  rw [writeOutputs_eq, finished_ok]

/-- The invocation's result, when it is accepted. -/
theorem runOn_eq (p : Sqlparser) (src outDir : Path) (d : Disk String) :
    run p src outDir d = match runOn p src outDir d with
      | (.ok n, d') => .ok (n, d')
      | (.error e, _) => .error e := by
  rw [run, runOn]
  cases hread : readMigrations d src with
  | error e => rfl
  | ok ms =>
      cases hgen : generate p ms with
      | error e =>
          simp only [bind, Except.bind, hgen]
      | ok g =>
          have hwrite := writeOutputs_eq g outDir d
          simp only [bind, Except.bind, hgen]
          rw [hwrite]
          cases hperform : perform d (outputCalls outDir g) with
          | mk result d' =>
              cases result with
              | ok u => rfl
              | error e => rfl

/-! ## The calls as a plan -/

section Plans

variable {outDir q : Path} {g : Generated}

/-- The files of one migration. -/
def IsFile (outDir : Path) (b : Backend) (name : String) (q : Path) : Prop :=
  q = outDir ++ [treeName b, name, "up.sql"] ∨
    q = outDir ++ [treeName b, name, "down.sql"]

theorem creates_migration {b : Backend} {rm : RenderedMigration} :
    Creates (migrationCalls outDir b rm) q ↔
      q <+: outDir ++ [treeName b, rm.dirName] := by
  rw [migrationCalls, creates_append, creates_dirSteps]
  refine or_iff_left ?_
  rintro ⟨path, hmem⟩
  simp at hmem

theorem writes_migration {b : Backend} {rm : RenderedMigration} :
    Writes (migrationCalls outDir b rm) q ↔
      IsFile outDir b rm.dirName q := by
  rw [migrationCalls, writes_append, or_iff_right writes_dirSteps]
  simp only [Writes, IsFile, List.mem_cons, Step.write.injEq,
    List.not_mem_nil, or_false, List.append_assoc, List.cons_append,
    List.nil_append]
  constructor
  · rintro ⟨contents, ⟨hq, -⟩ | ⟨hq, -⟩⟩
    · exact Or.inl hq
    · exact Or.inr hq
  · rintro (hq | hq)
    · exact ⟨_, Or.inl ⟨hq, rfl⟩⟩
    · exact ⟨_, Or.inr ⟨hq, rfl⟩⟩

theorem creates_trees : Creates (treesCalls outDir g) q ↔
    ∃ b, ∃ rm ∈ g.tree b, q <+: outDir ++ [treeName b, rm.dirName] := by
  rw [treesCalls, creates_append, treeCalls, treeCalls, creates_flatMap,
    creates_flatMap]
  simp only [creates_migration]
  constructor
  · rintro (h | h)
    · exact ⟨.postgres, h⟩
    · exact ⟨.sqlite, h⟩
  · rintro ⟨b, h⟩
    cases b with
    | postgres => exact Or.inl h
    | sqlite => exact Or.inr h

theorem writes_trees : Writes (treesCalls outDir g) q ↔
    ∃ b, ∃ rm ∈ g.tree b, IsFile outDir b rm.dirName q := by
  rw [treesCalls, writes_append, treeCalls, treeCalls, writes_flatMap,
    writes_flatMap]
  simp only [writes_migration]
  constructor
  · rintro (h | h)
    · exact ⟨.postgres, h⟩
    · exact ⟨.sqlite, h⟩
  · rintro ⟨b, h⟩
    cases b with
    | postgres => exact Or.inl h
    | sqlite => exact Or.inr h

theorem creates_outputs : Creates (outputCalls outDir g) q ↔
    ∃ b, ∃ rm ∈ g.tree b, q <+: outDir ++ [treeName b, rm.dirName] := by
  rw [outputCalls, creates_snoc_write, creates_trees]

theorem writes_outputs : Writes (outputCalls outDir g) q ↔
    (∃ b, ∃ rm ∈ g.tree b, IsFile outDir b rm.dirName q) ∨
      q = outDir ++ ["schema.rs"] := by
  rw [outputCalls, writes_snoc_write, writes_trees]

theorem IsFile.length {b : Backend} {name : String}
    (h : IsFile outDir b name q) : q.length = outDir.length + 3 := by
  rcases h with rfl | rfl <;> simp

/-- A file is not at or above the directory of a migration. -/
theorem not_above_dir {b : Backend} {name : String}
    (h : q <+: outDir ++ [treeName b, name]) :
    (∀ b' name', ¬ IsFile outDir b' name' q) ∧
      q ≠ outDir ++ ["schema.rs"] := by
  have hlength := h.length_le
  refine ⟨fun b' name' hfile => ?_, ?_⟩
  · rw [hfile.length] at hlength
    simp at hlength
  · rintro rfl
    rw [List.prefix_append_right_inj, List.cons_prefix_cons] at h
    cases b <;> exact absurd h.1 (by decide)

/-- **THE CALLS ARE A PLAN**: directories first, and no path in two roles. -/
theorem outputCalls_plan (outDir : Path) (g : Generated) :
    Plan (outputCalls outDir g) := by
  have hmigration : ∀ b rm, Rooted (migrationCalls outDir b rm) := by
    intro b rm
    refine rooted_dir fun path contents hmem => ?_
    simp only [List.mem_cons, Step.write.injEq, List.not_mem_nil,
      or_false] at hmem
    rcases hmem with ⟨rfl, -⟩ | ⟨rfl, -⟩ <;> rw [List.dropLast_concat]
  have hrooted : Rooted (treesCalls outDir g) :=
    (rooted_flatMap (hmigration _) _).append (rooted_flatMap (hmigration _) _)
  refine hrooted.plan_snoc fun q hc hw => ?_
  obtain ⟨b, rm, -, hq⟩ := creates_trees.mp hc
  obtain ⟨hfile, hschema⟩ := not_above_dir hq
  rcases writes_snoc_write.mp hw with hw | hw
  · obtain ⟨b', rm', -, hq'⟩ := writes_trees.mp hw
    exact hfile b' rm'.dirName hq'
  · exact hschema hw

/-- Every path the calls concern is an output, or on the way to them. -/
theorem touched_outputs
    (h : Creates (outputCalls outDir g) q ∨ Writes (outputCalls outDir g) q) :
    IsOutput outDir q ∨ q <+: outDir := by
  rcases h with h | h
  · obtain ⟨b, rm, -, hq⟩ := creates_outputs.mp h
    rw [List.append_cons, List.prefix_concat_iff, List.prefix_concat_iff] at hq
    rcases hq with rfl | rfl | hq
    · exact Or.inl (Or.inr ⟨b, [rm.dirName], List.append_assoc _ _ _⟩)
    · exact Or.inl (Or.inr ⟨b, [], rfl⟩)
    · exact Or.inr hq
  · refine Or.inl ?_
    rcases writes_outputs.mp h with ⟨b, rm, -, rfl | rfl⟩ | rfl
    · exact Or.inr ⟨b, [rm.dirName, "up.sql"], rfl⟩
    · exact Or.inr ⟨b, [rm.dirName, "down.sql"], rfl⟩
    · exact Or.inl rfl

end Plans

/-! ## What an invocation changes -/

theorem perform_interrupted (d : Disk String) (calls : List (Step String)) :
    ∃ done rest, calls = done ++ rest ∧
      done.foldlM Step.exec d = .ok (perform d calls).2 := by
  induction calls generalizing d with
  | nil => exact ⟨[], [], rfl, rfl⟩
  | cons call calls ih =>
      rw [perform]
      cases hcall : call.exec d with
      | ok d₁ =>
          obtain ⟨done, rest, hsplit, hrun⟩ := ih d₁
          exact ⟨call :: done, rest, congrArg (call :: ·) hsplit,
            foldlM_cons_ok.mpr ⟨d₁, hcall, hrun⟩⟩
      | error e => exact ⟨[], call :: calls, rfl, rfl⟩

/-- The disk an invocation leaves: some of the calls, or none. -/
theorem main_disk (p : Sqlparser) (args : List Path) (d : Disk String) :
    (main p args d).disk = d ∨
      ∃ src outDir rest ms g, args = src :: outDir :: rest ∧
        readMigrations d src = .ok ms ∧ generate p ms = .ok g ∧
        (main p args d).disk = (perform d (outputCalls outDir g)).2 := by
  rcases args with _ | ⟨src, _ | ⟨outDir, rest⟩⟩
  · exact Or.inl rfl
  · exact Or.inl rfl
  · simp only [main, runOn]
    cases hread : readMigrations d src with
    | error e => exact Or.inl rfl
    | ok ms =>
        cases hgen : generate p ms with
        | error e =>
            refine Or.inl ?_
            simp only [hgen]
        | ok g =>
            refine Or.inr ⟨src, outDir, rest, ms, g, rfl, hread, hgen, ?_⟩
            simp only [hgen]
            cases perform d (outputCalls outDir g) with
            | mk result d' => cases result <;> rfl

theorem exitCode_zero (p : Sqlparser) (args : List Path) (d : Disk String) :
    (main p args d).exitCode = 0 ↔
      ∃ src outDir rest n, args = src :: outDir :: rest ∧
        run p src outDir d = .ok (n, (main p args d).disk) := by
  rcases args with _ | ⟨src, _ | ⟨outDir, rest⟩⟩
  · refine iff_of_false (fun h => by cases h) ?_
    rintro ⟨_, _, _, _, h, -⟩
    cases h
  · refine iff_of_false (fun h => by cases h) ?_
    rintro ⟨_, _, _, _, h, -⟩
    cases h
  · have hrun := runOn_eq p src outDir d
    simp only [main]
    cases hon : runOn p src outDir d with
    | mk result d' =>
        rw [hon] at hrun
        cases result with
        | ok n => exact iff_of_true rfl ⟨src, outDir, rest, n, rfl, hrun⟩
        | error e =>
            refine iff_of_false (fun h => by cases h) ?_
            rintro ⟨src', outDir', rest', n, hargs, h⟩
            cases hargs
            exact error_ne_ok (hrun.symm.trans h)

/-- **WHAT AN INVOCATION MAY DO**: it exits with 0 exactly when the run is
    accepted; it changes nothing when the migrations cannot be read or are
    refused; and whatever happens, it changes nothing but outputs and the
    directories on the way to them, removes nothing, and leaves every directory
    a directory. -/
theorem invocation_frame (p : Sqlparser) (args : List Path)
    (d : Disk String) :
    ((main p args d).exitCode = 0 ↔
      ∃ src outDir rest n, args = src :: outDir :: rest ∧
        run p src outDir d = .ok (n, (main p args d).disk)) ∧
    ((∀ src outDir rest, args = src :: outDir :: rest →
        ∀ ms g, readMigrations d src = .ok ms → generate p ms ≠ .ok g) →
      (main p args d).disk = d) ∧
    ∀ q, (get (main p args d).disk q ≠ get d q →
        ∃ src outDir rest, args = src :: outDir :: rest ∧
          (IsOutput outDir q ∨ q <+: outDir)) ∧
      ((get d q).isSome = true → (get (main p args d).disk q).isSome = true) ∧
      (get d q = some .dir → get (main p args d).disk q = some .dir) := by
  refine ⟨exitCode_zero p args d, fun hrefused => ?_, fun q => ?_⟩
  · rcases main_disk p args d with hdisk |
      ⟨src, outDir, rest, ms, g, hargs, hread, hgen, -⟩
    · exact hdisk
    · exact absurd hgen (hrefused src outDir rest hargs ms g hread)
  · rcases main_disk p args d with hdisk |
      ⟨src, outDir, rest, ms, g, hargs, -, -, hdisk⟩
    · rw [hdisk]
      exact ⟨fun h => absurd rfl h, id, id⟩
    · obtain ⟨done, todo, hsplit, hrun⟩ :=
        perform_interrupted d (outputCalls outDir g)
      have hplan := outputCalls_plan outDir g
      rw [hsplit] at hplan
      rw [hdisk]
      refine ⟨fun hne => ⟨src, outDir, rest, hargs, ?_⟩,
        fun hq => get_kept hrun hq, fun hq => ?_⟩
      · by_contra hout
        refine hne (get_untouched hrun (fun hc => hout ?_)
          fun hw => hout ?_)
        · refine touched_outputs (g := g) (Or.inl ?_)
          rw [hsplit]
          exact creates_append.mpr (Or.inl hc)
        · refine touched_outputs (g := g) (Or.inr ?_)
          rw [hsplit]
          exact writes_append.mpr (Or.inl hw)
      · refine hplan.left.dir_kept hrun (fun hw => ?_) hq
        exact (hplan.left.accepted_iff.mp ⟨_, hrun⟩).files q hw hq

/-! ## When an invocation succeeds -/

section Success

variable {outDir : Path} {names : List String} {d : Disk String}

/-- Nothing is in the way of outputs for migrations of these names. -/
structure Room (outDir : Path) (names : List String) (d : Disk String) :
    Prop where
  dirs : ∀ b, ∀ name ∈ names, ∀ q, q <+: outDir ++ [treeName b, name] →
    DirOrFree d q
  files : ∀ b, ∀ name ∈ names, ∀ q, IsFile outDir b name q →
    get d q ≠ some .dir
  schema : get d (outDir ++ ["schema.rs"]) ≠ some .dir
  -- only a migration's directory brings `outDir` with it
  parent : names = [] → get d outDir = some .dir

theorem IsFile.dropLast {b : Backend} {name : String} {q : Path}
    (h : IsFile outDir b name q) :
    q.dropLast = outDir ++ [treeName b, name] := by
  rcases h with rfl | rfl
  · rw [List.dropLast_append_of_ne_nil (List.cons_ne_nil _ _)]
    rfl
  · rw [List.dropLast_append_of_ne_nil (List.cons_ne_nil _ _)]
    rfl

theorem creates_named {g : Generated} {q : Path}
    (hnames : ∀ b, (g.tree b).map RenderedMigration.dirName = names) :
    Creates (outputCalls outDir g) q ↔
      ∃ b, ∃ name ∈ names, q <+: outDir ++ [treeName b, name] := by
  rw [creates_outputs]
  refine exists_congr fun b => ?_
  simp only [← hnames b, List.mem_map, exists_exists_and_eq_and]

theorem writes_named {g : Generated} {q : Path}
    (hnames : ∀ b, (g.tree b).map RenderedMigration.dirName = names) :
    Writes (outputCalls outDir g) q ↔
      (∃ b, ∃ name ∈ names, IsFile outDir b name q) ∨
        q = outDir ++ ["schema.rs"] := by
  rw [writes_outputs]
  refine or_congr_left (exists_congr fun b => ?_)
  simp only [← hnames b, List.mem_map, exists_exists_and_eq_and]

theorem free_iff_room {g : Generated}
    (hnames : ∀ b, (g.tree b).map RenderedMigration.dirName = names) :
    Free (outputCalls outDir g) d ↔ Room outDir names d := by
  have hc : ∀ q, Creates (outputCalls outDir g) q ↔ _ :=
    fun q => creates_named hnames
  have hw : ∀ q, Writes (outputCalls outDir g) q ↔ _ :=
    fun q => writes_named hnames
  constructor
  · intro h
    refine ⟨fun b name hname q hq =>
        h.dirs q ((hc q).mpr ⟨b, name, hname, hq⟩),
      fun b name hname q hq =>
        h.files q ((hw q).mpr (Or.inl ⟨b, name, hname, hq⟩)),
      h.files _ ((hw _).mpr (Or.inr rfl)), fun hnone => ?_⟩
    have hparent := h.parents _ ((hw _).mpr (Or.inr rfl))
    rw [List.dropLast_concat] at hparent
    refine hparent fun hcreated => ?_
    obtain ⟨b, name, hname, -⟩ := (hc _).mp hcreated
    rw [hnone] at hname
    exact List.not_mem_nil hname
  · intro h
    refine ⟨fun q hq => ?_, fun q hq => ?_, fun q hq hnc => ?_⟩
    · obtain ⟨b, name, hname, hq⟩ := (hc q).mp hq
      exact h.dirs b name hname q hq
    · rcases (hw q).mp hq with ⟨b, name, hname, hq⟩ | rfl
      · exact h.files b name hname q hq
      · exact h.schema
    · rcases (hw q).mp hq with ⟨b, name, hname, hq⟩ | rfl
      · refine absurd ((hc _).mpr ⟨b, name, hname, ?_⟩) hnc
        rw [hq.dropLast]
      · rw [List.dropLast_concat] at hnc ⊢
        cases names with
        | nil => exact h.parent rfl
        | cons name names =>
            refine absurd ((hc _).mpr ⟨.postgres, name, ?_, ?_⟩) hnc
            · exact List.mem_cons_self
            · exact List.prefix_append _ _

/-- **WHEN AN INVOCATION SUCCEEDS**: exactly if the migrations can be read,
    their shared statements fold into a model, and the outputs have room.
    Nothing else can fail, in rendering or in writing. -/
theorem exits_zero_iff (p : Sqlparser) (src outDir : Path) (rest : List Path)
    (d : Disk String) :
    (main p (src :: outDir :: rest) d).exitCode = 0 ↔
      ∃ ms m, readMigrations d src = .ok ms ∧ finalModel p ms = .ok m ∧
        Room outDir (ms.map Migration.dirName) d := by
  rw [exitCode_zero]
  constructor
  · rintro ⟨_, _, _, n, hargs, hrun⟩
    cases hargs
    obtain ⟨ms, g, hread, hgen, hwrite, -⟩ := run_ok.mp hrun
    obtain ⟨m, hm⟩ := accepted_iff.mp ⟨g, hgen⟩
    refine ⟨ms, m, hread, hm, (free_iff_room (tree_names hgen)).mp ?_⟩
    exact (outputCalls_plan outDir g).accepted_iff.mp
      ⟨_, writeOutputs_ok.mp hwrite⟩
  · rintro ⟨ms, m, hread, hm, hroom⟩
    obtain ⟨g, hgen⟩ := accepted_iff.mpr ⟨m, hm⟩
    obtain ⟨d', hwrite⟩ := (outputCalls_plan outDir g).accepted_iff.mpr
      ((free_iff_room (tree_names hgen)).mpr hroom)
    have hrun := run_ok.mpr ⟨ms, g, hread, hgen, writeOutputs_ok.mpr hwrite, rfl⟩
    refine ⟨src, outDir, rest, ms.length, rfl, hrun.trans ?_⟩
    have hon := runOn_eq p src outDir d
    rw [hrun] at hon
    simp only [main]
    cases hcase : runOn p src outDir d with
    | mk result d₁ =>
        rw [hcase] at hon
        cases result with
        | ok n =>
            cases hon
            rfl
        | error e => exact absurd hon.symm error_ne_ok

end Success

end DualdbInvocation
