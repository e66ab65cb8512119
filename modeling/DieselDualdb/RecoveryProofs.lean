import DieselDualdb.Invocation
import DieselDualdb.OrderProofs

/-!
# Interrupted runs, and running again

A run may end early: the file system refuses a call, or the process is stopped
between two calls or in the middle of a write.  Nothing is cleaned up then.
What repairs it is running again: a complete run leaves what it would have left
had the interrupted ones never been (`interruptions_repaired`), as long as these
had no directory names of their own.

The migrations are read from the same disk, often from next to the outputs.  As
long as no output is one of the files that are read (`Apart`), every further run
reads the same migrations (`reads_again`), so it can be repeated at any time and
a repetition changes nothing (`run_again`).
-/

namespace DualdbRecovery

open DualdbAst DualdbTypeMap DualdbMigration DualdbOutputs DualdbInvocation
open FallibleRun FileTree WritePlan

/-! ## Interrupted attempts -/

/-- The disk after attempts to write these generations, each interrupted
    somewhere. -/
inductive Attempts (outDir : Path) :
    List Generated → Disk String → Disk String → Prop where
  | none (d : Disk String) : Attempts outDir [] d d
  | more {gs : List Generated} {g : Generated} {d d₁ d₂ : Disk String}
      (h : Attempts outDir gs d d₁)
      (hstop : Interrupted (outputCalls outDir g) d₁ d₂) :
      Attempts outDir (gs ++ [g]) d d₂

/-- The directory names of `g'` are names of `g`. -/
def NamesWithin (g' g : Generated) : Prop :=
  ∀ b, ∀ rm ∈ g'.tree b, ∃ rm' ∈ g.tree b, rm'.dirName = rm.dirName

section Interruptions

variable {outDir : Path} {g : Generated}

theorem outputCalls_within {g' : Generated} (h : NamesWithin g' g) :
    Within (outputCalls outDir g') (outputCalls outDir g) := by
  refine ⟨fun q hq => ?_, fun q hq => ?_⟩
  · obtain ⟨b, rm, hrm, hq⟩ := creates_outputs.mp hq
    obtain ⟨rm', hrm', hname⟩ := h b rm hrm
    exact creates_outputs.mpr ⟨b, rm', hrm', by rw [hname]; exact hq⟩
  · rcases writes_outputs.mp hq with ⟨b, rm, hrm, hfile⟩ | hschema
    · obtain ⟨rm', hrm', hname⟩ := h b rm hrm
      exact writes_outputs.mpr
        (Or.inl ⟨b, rm', hrm', by rw [hname]; exact hfile⟩)
    · exact writes_outputs.mpr (Or.inr hschema)

theorem attempts_alike {gs : List Generated} {d d₁ : Disk String}
    (hnames : ∀ g' ∈ gs, NamesWithin g' g) (h : Attempts outDir gs d d₁) :
    Alike (outputCalls outDir g) d d₁ := by
  induction h with
  | none d => exact Alike.refl _ d
  | @more gs g' d d₁ d₂ _ hstop ih =>
      obtain ⟨hgs, hg'⟩ := List.forall_mem_append.mp hnames
      have hlast := (outputCalls_plan outDir g').interrupted_alike hstop
      exact (ih hgs).trans (hlast.mono (outputCalls_plan outDir g)
        (outputCalls_within (hg' g' (List.mem_singleton.mpr rfl))))

/-- **A COMPLETE RUN REPAIRS INTERRUPTED ONES**: after any number of attempts,
    each stopped between two calls or within one, writing is accepted exactly if
    it would have been at first, and leaves the same at every path. -/
theorem interruptions_repaired {gs : List Generated} {d d₁ : Disk String}
    (hnames : ∀ g' ∈ gs, NamesWithin g' g) (h : Attempts outDir gs d d₁) :
    ((∃ e, writeOutputs g outDir d = .ok e) ↔
      ∃ e₁, writeOutputs g outDir d₁ = .ok e₁) ∧
    ∀ e e₁, writeOutputs g outDir d = .ok e →
      writeOutputs g outDir d₁ = .ok e₁ → ∀ q, get e q = get e₁ q := by
  have hrerun := (outputCalls_plan outDir g).rerun_alike
    (attempts_alike hnames h)
  constructor
  · simp only [writeOutputs_ok]
    exact hrerun.accepts_iff
  · intro e e₁ he he₁
    exact hrerun.results (writeOutputs_ok.mp he) (writeOutputs_ok.mp he₁)

end Interruptions

/-- One migration, in one of the trees only. -/
def oneMigration : Generated := ⟨[⟨"1", "ANALYZE;", ""⟩], [], "// none\n"⟩

/-- The disk after a run that stopped while it wrote `up.sql`. -/
def halfWritten : Disk String :=
  [(["out", "migrations-postgres", "1", "up.sql"], .file "ANA"),
    (["out", "migrations-postgres", "1"], .dir),
    (["out", "migrations-postgres"], .dir), (["out"], .dir)]

theorem halfWritten_attempt :
    Attempts ["out"] [oneMigration] [(["out"], .dir)] halfWritten := by
  have hcalls : outputCalls ["out"] oneMigration
      = dirSteps ["out", "migrations-postgres", "1"]
        ++ .write ["out", "migrations-postgres", "1", "up.sql"] "ANALYZE;\n"
        :: [.write ["out", "migrations-postgres", "1", "down.sql"] "\n",
          .write ["out", "schema.rs"] "// none\n"] := rfl
  have hnode : Node.file "ANA" ≠ .dir := by decide
  exact .more (.none _) (.torn hcalls rfl rfl hnode)

theorem interruptions_repaired_of_halfWritten :
    ((∃ e, writeOutputs oneMigration ["out"] [(["out"], .dir)] = .ok e) ↔
      ∃ e₁, writeOutputs oneMigration ["out"] halfWritten = .ok e₁) ∧
    ∀ e e₁, writeOutputs oneMigration ["out"] [(["out"], .dir)] = .ok e →
      writeOutputs oneMigration ["out"] halfWritten = .ok e₁ →
      ∀ q, get e q = get e₁ q :=
  interruptions_repaired (fun g' hg' b rm hrm => ⟨rm, by
    rw [List.mem_singleton.mp hg'] at hrm
    exact hrm, rfl⟩) halfWritten_attempt

/-! ## Reading again -/

/-- Whatever is there stands in a directory, as in every file tree. -/
def WellFormed (d : Disk String) : Prop :=
  ∀ q, q ≠ [] → (get d q).isSome = true → get d q.dropLast = some .dir

section Reading

variable {d d' : Disk String} {src : Path}

/-- The directories that `readMigrations` goes through. -/
def sourceDirs (d : Disk String) (src : Path) : List Path :=
  ((((d.map Prod.fst).filter fun q => q ≠ [] ∧ q.dropLast = src).dedup).filter
    fun path => get d path = some .dir).insertionSort (· ≤ ·)

theorem readMigrations_eq (hsrc : get d src = some .dir) :
    readMigrations d src
      = List.reduceOption <$> (sourceDirs d src).mapM (readMigration d) := by
  have hdir : readDir d src = .ok ((d.map Prod.fst).filter fun q =>
      q ≠ [] ∧ q.dropLast = src).dedup := by
    rw [readDir, hsrc]
  rw [readMigrations, hdir]
  rfl

theorem src_of_read {ms : List Migration}
    (h : readMigrations d src = .ok ms) : get d src = some .dir := by
  obtain ⟨entries, hentries, -⟩ := bind_ok.mp h
  have hdir := mapError_ok.mp hentries
  rw [readDir] at hdir
  cases hnode : get d src with
  | none =>
      rw [hnode] at hdir
      exact absurd hdir error_ne_ok
  | some node =>
      rw [hnode] at hdir
      cases node with
      | dir => rfl
      | file contents => exact absurd hdir error_ne_ok
      | binary => exact absurd hdir error_ne_ok

theorem mem_sourceDirs {q : Path} :
    q ∈ sourceDirs d src ↔
      ∃ name, q = src ++ [name] ∧ get d q = some .dir := by
  rw [sourceDirs, (List.perm_insertionSort _ _).mem_iff, List.mem_filter,
    List.mem_dedup, List.mem_filter, decide_eq_true_iff, decide_eq_true_iff]
  constructor
  · rintro ⟨⟨-, hne, hdrop⟩, hdir⟩
    exact ⟨q.getLast hne, by rw [← hdrop, List.dropLast_append_getLast], hdir⟩
  · rintro ⟨name, rfl, hdir⟩
    have hne : src ++ [name] ≠ [] := by simp
    rw [get_of_ne hne] at hdir
    refine ⟨⟨?_, hne, List.dropLast_concat⟩, by rw [get_of_ne hne, hdir]⟩
    exact lookup_isSome.mp (by rw [hdir]; rfl)

theorem sourceDirs_sorted (d : Disk String) (src : Path) :
    (sourceDirs d src).Pairwise (· ≤ ·) ∧ (sourceDirs d src).Nodup := by
  refine ⟨List.pairwise_insertionSort _ _, ?_⟩
  exact (List.perm_insertionSort _ _).nodup_iff.mpr
    ((List.nodup_dedup _).filter _)

theorem readMigration_congr {path : Path}
    (hup : get d' (path ++ ["up.sql"]) = get d (path ++ ["up.sql"]))
    (hdown : get d' (path ++ ["down.sql"]) = get d (path ++ ["down.sql"])) :
    readMigration d' path = readMigration d path := by
  simp only [readMigration, readToString, hup, hdown]

/-- **WHAT READING LOOKS AT**: if every directory is still there, the files that
    are read are the same, and no new directory has an `up.sql`, the same
    migrations are read. -/
theorem readMigrations_frame (hsrc : get d src = some .dir)
    (hdirs : ∀ q, get d q = some .dir → get d' q = some .dir)
    (hfiles : ∀ x f, f = "up.sql" ∨ f = "down.sql" →
      get d' (src ++ [x, f]) = get d (src ++ [x, f]))
    (hnew : ∀ x, get d (src ++ [x]) ≠ some .dir →
      get d (src ++ [x, "up.sql"]) = none) :
    readMigrations d' src = readMigrations d src := by
  rw [readMigrations_eq hsrc, readMigrations_eq (hdirs src hsrc)]
  have hread : ∀ x, readMigration d' (src ++ [x])
      = readMigration d (src ++ [x]) := by
    intro x
    refine readMigration_congr ?_ ?_
    · rw [List.append_assoc]
      exact hfiles x "up.sql" (Or.inl rfl)
    · rw [List.append_assoc]
      exact hfiles x "down.sql" (Or.inr rfl)
  -- the old directories are the new ones, less those that give nothing
  have hsub : sourceDirs d src
      = (sourceDirs d' src).filter fun q => q ∈ sourceDirs d src := by
    refine List.Perm.eq_of_pairwise' (r := (· ≤ ·)) (sourceDirs_sorted d src).1
      ((sourceDirs_sorted d' src).1.filter _) ?_
    refine (List.perm_ext_iff_of_nodup (sourceDirs_sorted d src).2
      ((sourceDirs_sorted d' src).2.filter _)).mpr fun q => ?_
    rw [List.mem_filter, decide_eq_true_iff]
    refine ⟨fun hq => ⟨?_, hq⟩, And.right⟩
    obtain ⟨name, rfl, hdir⟩ := mem_sourceDirs.mp hq
    exact mem_sourceDirs.mpr ⟨name, rfl, hdirs _ hdir⟩
  rw [← reduceOption_mapM_filter (fun q => q ∈ sourceDirs d src)
      (f := readMigration d') ?_, ← hsub]
  · congr 1
    refine mapM_eq_of_forall₂ (R := fun q q' => q = q' ∧ q ∈ sourceDirs d src)
      (List.forall₂_same.mpr fun q hq => ⟨rfl, hq⟩) ?_
    rintro q _ ⟨rfl, hq⟩
    obtain ⟨name, rfl, -⟩ := mem_sourceDirs.mp hq
    exact hread name
  · intro q hq hold
    obtain ⟨name, rfl, -⟩ := mem_sourceDirs.mp hq
    have hnone : get d (src ++ [name, "up.sql"]) = none := by
      refine hnew name fun hdir => ?_
      rw [decide_eq_false_iff_not] at hold
      exact hold (mem_sourceDirs.mpr ⟨name, rfl, hdir⟩)
    have hup : get d (src ++ [name] ++ ["up.sql"]) = none := by
      rw [List.append_assoc]
      exact hnone
    rw [hread name, readMigration, hup]
    rfl

end Reading

/-! ## Running again -/

/-- No file that is read from `src` is one of the outputs.  It fails for the
    run that reads one of its own trees. -/
def Apart (src outDir : Path) (g : Generated) : Prop :=
  ∀ x f, f = "up.sql" ∨ f = "down.sql" →
    ¬ Creates (outputCalls outDir g) (src ++ [x, f]) ∧
    ¬ Writes (outputCalls outDir g) (src ++ [x, f])

section Layouts

variable {src outDir : Path} {g : Generated}

/-- The outputs next to the migrations, as in the crate's own examples. -/
theorem apart_in_place
    (h : ∀ b, ∀ rm ∈ g.tree b, rm.dirName ≠ "up.sql" ∧
      rm.dirName ≠ "down.sql") : Apart outDir outDir g := by
  intro x f hf
  have hlength : ∀ q : Path, q = outDir ++ [x, f] →
      q.length = outDir.length + 2 := by
    rintro q rfl
    simp
  constructor
  · intro hc
    obtain ⟨b, rm, hrm, hq⟩ := creates_outputs.mp hc
    rw [List.prefix_append_right_inj, List.cons_prefix_cons,
      List.cons_prefix_cons] at hq
    obtain ⟨hup, hdown⟩ := h b rm hrm
    rcases hf with rfl | rfl
    · exact hup hq.2.1.symm
    · exact hdown hq.2.1.symm
  · intro hw
    rcases writes_outputs.mp hw with ⟨b, rm, -, hfile⟩ | hschema
    · have h₂ := hlength _ rfl
      rw [hfile.length] at h₂
      omega
    · have h₂ := hlength _ hschema.symm
      simp at h₂

/-- Neither directory is in the other. -/
theorem apart_of_unrelated (h : ¬ src <+: outDir) (h' : ¬ outDir <+: src)
    (g : Generated) : Apart src outDir g := by
  -- two directories above one path are one above the other
  have hnot : ∀ q x f, q <+: outDir ++ x → src ++ f <+: q → False := by
    intro q x f hq hsrc
    have habove : src <+: outDir ++ x :=
      ((List.prefix_append src f).trans hsrc).trans hq
    rcases List.prefix_or_prefix_of_prefix habove
      (List.prefix_append outDir x) with hp | hp
    · exact h hp
    · exact h' hp
  intro x f _
  constructor
  · intro hc
    obtain ⟨b, rm, -, hq⟩ := creates_outputs.mp hc
    exact hnot _ _ [x, f] hq (List.prefix_refl _)
  · intro hw
    have hq : ∃ y, src ++ [x, f] = outDir ++ y := by
      rcases writes_outputs.mp hw with ⟨b, rm, -, hq | hq⟩ | hq
      · exact ⟨_, hq⟩
      · exact ⟨_, hq⟩
      · exact ⟨_, hq⟩
    obtain ⟨y, hq⟩ := hq
    refine hnot _ y [x, f] ?_ (List.prefix_refl _)
    rw [hq]

end Layouts

section Again

variable {p : Sqlparser} {src outDir : Path} {d d' : Disk String}
  {ms : List Migration} {g : Generated}

/-- The disk after runs that read what they found there, each of them
    interrupted somewhere or complete. -/
inductive Retries (p : Sqlparser) (src outDir : Path) (d : Disk String) :
    Disk String → Prop where
  | start : Retries p src outDir d d
  | again {d₁ d₂ : Disk String} {ms : List Migration} {g : Generated}
      (h : Retries p src outDir d d₁)
      (hread : readMigrations d₁ src = .ok ms)
      (hgen : generate p ms = .ok g)
      (hstop : Interrupted (outputCalls outDir g) d₁ d₂) :
      Retries p src outDir d d₂

/-- What one attempt after the other keeps. -/
structure Kept (src outDir : Path) (ms : List Migration) (g : Generated)
    (d d' : Disk String) : Prop where
  reads : readMigrations d' src = .ok ms
  alike : Alike (outputCalls outDir g) d d'
  dirs : ∀ q, get d q = some .dir → get d' q = some .dir

theorem Kept.attempt {d₁ : Disk String} (hwell : WellFormed d)
    (hread : readMigrations d src = .ok ms) (hapart : Apart src outDir g)
    (h : Kept src outDir ms g d d₁)
    (hstop : Interrupted (outputCalls outDir g) d₁ d') :
    Kept src outDir ms g d d' := by
  have hplan := outputCalls_plan outDir g
  have halike := h.alike.trans (hplan.interrupted_alike hstop)
  have hdirs : ∀ q, get d q = some .dir → get d' q = some .dir :=
    fun q hq => hplan.interrupted_dir hstop (h.dirs q hq)
  refine ⟨?_, halike, hdirs⟩
  rw [readMigrations_frame (src_of_read hread) hdirs ?_ ?_, hread]
  · intro x f hf
    obtain ⟨hc, hw⟩ := hapart x f hf
    exact (halike.rest _ hc hw).symm
  · intro x hx
    rw [← Option.not_isSome_iff_eq_none]
    intro hup
    have hparent := hwell _ (by simp) hup
    rw [List.append_cons, List.dropLast_concat] at hparent
    exact hx hparent

theorem Retries.kept (hwell : WellFormed d)
    (hread : readMigrations d src = .ok ms) (hgen : generate p ms = .ok g)
    (hapart : Apart src outDir g) (h : Retries p src outDir d d') :
    Kept src outDir ms g d d' := by
  induction h with
  | start => exact ⟨hread, Alike.refl _ d, fun _ hq => hq⟩
  | again _ hread' hgen' hstop ih =>
      -- the same migrations, so the same calls
      cases Except.ok.inj (ih.reads.symm.trans hread')
      cases Except.ok.inj (hgen.symm.trans hgen')
      exact ih.attempt hwell hread hapart hstop

/-- **RUNNING AGAIN**: however often a run was attempted, and wherever the
    attempts ended, the next one reads the same migrations, is accepted exactly
    if the first would have been, and leaves the same at every path. -/
theorem run_again (hwell : WellFormed d)
    (hread : readMigrations d src = .ok ms) (hgen : generate p ms = .ok g)
    (hapart : Apart src outDir g) (h : Retries p src outDir d d') :
    readMigrations d' src = .ok ms ∧
    ((∃ e, run p src outDir d = .ok (ms.length, e)) ↔
      ∃ e', run p src outDir d' = .ok (ms.length, e')) ∧
    ∀ n n' e e', run p src outDir d = .ok (n, e) →
      run p src outDir d' = .ok (n', e') →
      n = n' ∧ ∀ q, get e q = get e' q := by
  have hkept := h.kept hwell hread hgen hapart
  have hrerun := (outputCalls_plan outDir g).rerun_alike hkept.alike
  have hrun : ∀ d₁ n e, readMigrations d₁ src = .ok ms →
      (run p src outDir d₁ = .ok (n, e) ↔
        n = ms.length ∧ (outputCalls outDir g).foldlM Step.exec d₁ = .ok e) := by
    intro d₁ n e hread₁
    rw [run_ok]
    constructor
    · rintro ⟨ms', g', hms, hg, hwrite, hn⟩
      cases Except.ok.inj (hread₁.symm.trans hms)
      cases Except.ok.inj (hgen.symm.trans hg)
      exact ⟨hn, writeOutputs_ok.mp hwrite⟩
    · rintro ⟨hn, hwrite⟩
      exact ⟨ms, g, hread₁, hgen, writeOutputs_ok.mpr hwrite, hn⟩
  refine ⟨hkept.reads, ?_, fun n n' e e' he he' => ?_⟩
  · simp only [hrun d _ _ hread, hrun d' _ _ hkept.reads, true_and]
    exact hrerun.accepts_iff
  · obtain ⟨hn, hwrite⟩ := (hrun d n e hread).mp he
    obtain ⟨hn', hwrite'⟩ := (hrun d' n' e' hkept.reads).mp he'
    exact ⟨hn.trans hn'.symm, hrerun.results hwrite hwrite'⟩

end Again

theorem schemaDir_wellFormed : WellFormed (schemaDir ["one"]) := by
  intro q hne hsome
  rw [get_of_ne hne, lookup_isSome] at hsome
  have hall : ∀ path ∈ (schemaDir ["one"]).map Prod.fst,
      get (schemaDir ["one"]) path.dropLast = some .dir := by decide
  exact hall q hsome

/-- A complete run, and the same run after it. -/
theorem run_again_of_complete :
    ∃ n e e', run outputsParser ["schema", "migrations"] generated
        (schemaDir ["one"]) = .ok (n, e) ∧
      run outputsParser ["schema", "migrations"] generated e = .ok (n, e') ∧
      ∀ q, get e q = get e' q := by
  obtain ⟨⟨n, e⟩, hrun⟩ := exists_ok_of_isOk (x := run outputsParser
    ["schema", "migrations"] generated (schemaDir ["one"])) (by decide +kernel)
  obtain ⟨ms, g, hread, hgen, hwrite, rfl⟩ := run_ok.mp hrun
  have hretries : Retries outputsParser ["schema", "migrations"] generated
      (schemaDir ["one"]) e :=
    .again .start hread hgen (.stopped (List.append_nil _).symm
      (writeOutputs_ok.mp hwrite))
  obtain ⟨-, hiff, hsame⟩ := run_again schemaDir_wellFormed hread hgen
    (apart_of_unrelated (by decide) (by decide) g) hretries
  obtain ⟨e', hrun'⟩ := hiff.mp ⟨e, hrun⟩
  exact ⟨_, e, e', hrun, hrun', (hsame _ _ _ _ hrun hrun').2⟩

end DualdbRecovery
