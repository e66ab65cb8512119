import DieselDualdb.Lib.FileTree

/-!
# Plans of file system calls, and what is left when they stop

A program that writes files is a list of steps, each making a directory or
writing a file.  It may stop anywhere: a step is refused, or the process ends
between two steps or in the middle of a write.

For a `Plan` (no path is both a directory and a file, and a directory is made
before what stands in it) acceptance depends on the disk at the start only
(`accepted_iff`).  A disk that some attempt has left is `Alike` the one it
started from, and a plan does the same to both (`rerun_alike`): running it again
repairs what was left undone.
-/

namespace WritePlan

open FallibleRun FileTree

variable {C : Type}

inductive Step (C : Type) where
  /-- One step of creating `path`: the directory `pre` of it. -/
  | ensureDir (path pre : List C)
  | write (path : List C) (contents : String)
deriving DecidableEq

/-- Where the step does something. -/
def Step.target : Step C → List C
  | .ensureDir _ pre => pre
  | .write path _ => path

/-- What stands there afterwards. -/
def Step.node : Step C → Node
  | .ensureDir _ _ => .dir
  | .write _ contents => .file contents

def Creates (steps : List (Step C)) (q : List C) : Prop :=
  ∃ path, Step.ensureDir path q ∈ steps

def Writes (steps : List (Step C)) (q : List C) : Prop :=
  ∃ contents, Step.write q contents ∈ steps

/-- The steps that make a directory and those above it. -/
def dirSteps (path : List C) : List (Step C) :=
  path.inits.map (.ensureDir path)

section Targets

variable {steps steps' : List (Step C)} {q : List C}

theorem creates_append :
    Creates (steps ++ steps') q ↔ Creates steps q ∨ Creates steps' q := by
  simp only [Creates, List.mem_append, exists_or]

theorem writes_append :
    Writes (steps ++ steps') q ↔ Writes steps q ∨ Writes steps' q := by
  simp only [Writes, List.mem_append, exists_or]

theorem creates_dirSteps {path : List C} :
    Creates (dirSteps path) q ↔ q <+: path := by
  simp only [Creates, dirSteps, List.mem_map, List.mem_inits]
  constructor
  · rintro ⟨path', pre, hpre, heq⟩
    rw [Step.ensureDir.injEq] at heq
    rwa [heq.2] at hpre
  · intro h
    exact ⟨path, q, h, rfl⟩

theorem writes_dirSteps {path : List C} : ¬ Writes (dirSteps path) q := by
  rintro ⟨contents, hmem⟩
  obtain ⟨pre, -, heq⟩ := List.mem_map.mp hmem
  cases heq

theorem creates_flatMap {α : Type} {f : α → List (Step C)} {as : List α} :
    Creates (as.flatMap f) q ↔ ∃ a ∈ as, Creates (f a) q := by
  simp only [Creates, List.mem_flatMap]
  exact ⟨fun ⟨path, a, ha, h⟩ => ⟨a, ha, path, h⟩,
    fun ⟨a, ha, path, h⟩ => ⟨path, a, ha, h⟩⟩

theorem writes_flatMap {α : Type} {f : α → List (Step C)} {as : List α} :
    Writes (as.flatMap f) q ↔ ∃ a ∈ as, Writes (f a) q := by
  simp only [Writes, List.mem_flatMap]
  exact ⟨fun ⟨path, a, ha, h⟩ => ⟨a, ha, path, h⟩,
    fun ⟨a, ha, path, h⟩ => ⟨path, a, ha, h⟩⟩

/-- The plan makes all the directories and files that the other one makes. -/
def Within (steps steps' : List (Step C)) : Prop :=
  (∀ q, Creates steps q → Creates steps' q) ∧
    ∀ q, Writes steps q → Writes steps' q

theorem within_left (steps steps' : List (Step C)) :
    Within steps (steps ++ steps') :=
  ⟨fun _ hc => creates_append.mpr (Or.inl hc),
    fun _ hw => writes_append.mpr (Or.inl hw)⟩

section Snoc

variable {path pre : List C} {contents : String}

theorem writes_snoc_dir :
    Writes (steps ++ [.ensureDir path pre]) q ↔ Writes steps q := by
  rw [writes_append]
  refine or_iff_left ?_
  rintro ⟨_, hmem⟩
  cases List.mem_singleton.mp hmem

theorem creates_snoc_dir :
    Creates (steps ++ [.ensureDir path pre]) q ↔ Creates steps q ∨ q = pre := by
  rw [creates_append]
  refine or_congr_right ⟨?_, ?_⟩
  · rintro ⟨_, hmem⟩
    cases List.mem_singleton.mp hmem
    rfl
  · rintro rfl
    exact ⟨path, List.mem_cons_self⟩

theorem creates_snoc_write :
    Creates (steps ++ [.write path contents]) q ↔ Creates steps q := by
  rw [creates_append]
  refine or_iff_left ?_
  rintro ⟨_, hmem⟩
  cases List.mem_singleton.mp hmem

theorem writes_snoc_write :
    Writes (steps ++ [.write path contents]) q ↔ Writes steps q ∨ q = path := by
  rw [writes_append]
  refine or_congr_right ⟨?_, ?_⟩
  · rintro ⟨_, hmem⟩
    cases List.mem_singleton.mp hmem
    rfl
  · rintro rfl
    exact ⟨contents, List.mem_cons_self⟩

end Snoc

end Targets

/-! ## Well-ordered plans -/

/-- Every file is written into a directory that was made just before. -/
def Rooted (steps : List (Step C)) : Prop :=
  ∀ before path contents after,
    steps = before ++ .write path contents :: after →
    Creates before path.dropLast

structure Plan (steps : List (Step C)) : Prop where
  coherent : ∀ q, Creates steps q → ¬ Writes steps q
  /-- A directory the plan makes is there before a file is written into it. -/
  ordered : ∀ before path contents after,
    steps = before ++ .write path contents :: after →
    Creates steps path.dropLast → Creates before path.dropLast

section Ordered

variable {steps steps' : List (Step C)}

theorem rooted_nil : Rooted ([] : List (Step C)) := by
  intro before path contents after h
  exact absurd h (by simp)

theorem Rooted.append (h : Rooted steps) (h' : Rooted steps') :
    Rooted (steps ++ steps') := by
  intro before path contents after heq
  rcases List.append_eq_append_iff.mp heq with ⟨l, hbefore, hsteps'⟩ |
    ⟨l, hsteps, hafter⟩
  · -- the write is one of the second list
    rw [hbefore]
    exact creates_append.mpr (Or.inr (h' l path contents after hsteps'))
  · cases l with
    | nil =>
        -- the second list cannot start with a write
        obtain ⟨_, hmem⟩ := h' [] path contents after hafter.symm
        cases hmem
    | cons s l =>
        rw [List.cons_append, List.cons.injEq] at hafter
        obtain ⟨rfl, -⟩ := hafter
        exact h before path contents l hsteps

/-- A directory is made, and then files in it. -/
theorem rooted_dir {dir : List C}
    (h : ∀ path contents, Step.write path contents ∈ steps →
      path.dropLast = dir) : Rooted (dirSteps dir ++ steps) := by
  intro before path contents after heq
  have hmem : Step.write path contents ∈ steps := by
    have hall : Step.write path contents ∈ dirSteps dir ++ steps := by
      rw [heq]
      exact List.mem_append_right _ List.mem_cons_self
    rcases List.mem_append.mp hall with hdirs | hsteps
    · exact absurd ⟨contents, hdirs⟩ writes_dirSteps
    · exact hsteps
  have hdir : Creates (dirSteps dir) path.dropLast := by
    rw [creates_dirSteps, h path contents hmem]
  rcases List.append_eq_append_iff.mp heq with ⟨l, hbefore, -⟩ |
    ⟨l, hdirs, hafter⟩
  · rw [hbefore]
    exact creates_append.mpr (Or.inl hdir)
  · cases l with
    | nil =>
        rw [List.append_nil] at hdirs
        rwa [← hdirs]
    | cons s l =>
        -- no directory step is a write
        rw [List.cons_append, List.cons.injEq] at hafter
        have hnone : ¬ Writes (dirSteps dir) path := writes_dirSteps
        refine absurd ⟨contents, ?_⟩ hnone
        rw [hdirs, hafter.1]
        exact List.mem_append_right _ List.mem_cons_self

theorem rooted_flatMap {α : Type} {f : α → List (Step C)}
    (h : ∀ a, Rooted (f a)) (as : List α) : Rooted (as.flatMap f) := by
  induction as with
  | nil => exact rooted_nil
  | cons a as ih =>
      rw [List.flatMap_cons]
      exact (h a).append ih

/-- A last write into a directory that is made before, or not at all. -/
theorem Rooted.plan_snoc (h : Rooted steps) {path : List C}
    {contents : String}
    (hcoherent : ∀ q, Creates steps q →
      ¬ Writes (steps ++ [.write path contents]) q) :
    Plan (steps ++ [.write path contents]) where
  coherent q hq := by
    rcases creates_append.mp hq with hq | ⟨path', hmem⟩
    · exact hcoherent q hq
    · cases List.mem_singleton.mp hmem
  ordered before path' contents' after heq hcreates := by
    rcases List.append_eq_append_iff.mp heq with ⟨l, hbefore, hlast⟩ |
      ⟨l, hsteps, hafter⟩
    · rcases creates_append.mp hcreates with hc | ⟨_, hmem⟩
      · rw [hbefore]
        exact creates_append.mpr (Or.inl hc)
      · cases List.mem_singleton.mp hmem
    · cases l with
      | nil =>
          rw [List.append_nil] at hsteps
          rw [← hsteps]
          rcases creates_append.mp hcreates with hc | ⟨_, hmem⟩
          · exact hc
          · cases List.mem_singleton.mp hmem
      | cons s l =>
          rw [List.cons_append, List.cons.injEq] at hafter
          obtain ⟨rfl, -⟩ := hafter
          exact h before path' contents' l hsteps

/-- The beginning of a plan is one. -/
theorem Plan.left (h : Plan (steps ++ steps')) : Plan steps where
  coherent q hq hw :=
    h.coherent q (creates_append.mpr (Or.inl hq))
      (writes_append.mpr (Or.inl hw))
  ordered before path contents after heq hcreates := by
    refine h.ordered before path contents (after ++ steps') ?_
      (creates_append.mpr (Or.inl hcreates))
    rw [heq, List.append_assoc, List.cons_append]

end Ordered

/-! ## Running a plan -/

variable [DecidableEq C]

def Step.exec (d : Disk C) : Step C → Except IoError (Disk C)
  | .ensureDir path pre => FileTree.ensureDir path d pre
  | .write path contents => FileTree.write d path contents

theorem get_exec {s : Step C} {d d' : Disk C} (h : s.exec d = .ok d')
    (q : List C) : get d' q = if q = s.target then some s.node else get d q := by
  cases s with
  | ensureDir path pre => exact get_ensureDir h q
  | write path contents => exact get_write h q

/-- The last step that concerns the path. -/
def lastAt (steps : List (Step C)) (q : List C) : Option (Step C) :=
  steps.reverse.find? fun s => s.target = q

theorem lastAt_snoc (steps : List (Step C)) (s : Step C) (q : List C) :
    lastAt (steps ++ [s]) q
      = if q = s.target then some s else lastAt steps q := by
  rw [lastAt, List.reverse_append, List.reverse_singleton,
    List.singleton_append, List.find?_cons]
  by_cases hq : q = s.target
  · rw [if_pos hq, hq, decide_eq_true rfl]
  · rw [if_neg hq, decide_eq_false fun h => hq h.symm]
    rfl

/-- **WHAT A RUN LEAVES**: at each path, what the last step there put. -/
theorem get_run {steps : List (Step C)} {d d' : Disk C}
    (h : steps.foldlM Step.exec d = .ok d') (q : List C) :
    get d' q = ((lastAt steps q).map Step.node).or (get d q) := by
  induction steps using List.reverseRecOn generalizing d' with
  | nil =>
      rw [foldlM_nil_ok.mp h]
      rfl
  | append_singleton steps s ih =>
      obtain ⟨d₁, hrun, hlast⟩ := foldlM_append_ok.mp h
      obtain ⟨d₂, hstep, hnil⟩ := foldlM_cons_ok.mp hlast
      rw [← foldlM_nil_ok.mp hnil, get_exec hstep, lastAt_snoc]
      split
      · rfl
      · exact ih hrun

theorem lastAt_isSome {steps : List (Step C)} {q : List C} {s : Step C}
    (h : lastAt steps q = some s) : s ∈ steps ∧ s.target = q :=
  ⟨List.mem_reverse.mp (List.mem_of_find?_eq_some h),
    of_decide_eq_true (List.find?_some (p := fun s : Step C =>
      decide (s.target = q)) h)⟩

theorem lastAt_eq_none {steps : List (Step C)} {q : List C} :
    lastAt steps q = none ↔ ¬ Creates steps q ∧ ¬ Writes steps q := by
  rw [lastAt, List.find?_eq_none]
  constructor
  · intro h
    refine ⟨?_, ?_⟩
    · rintro ⟨path, hmem⟩
      exact h _ (List.mem_reverse.mpr hmem) (decide_eq_true rfl)
    · rintro ⟨contents, hmem⟩
      exact h _ (List.mem_reverse.mpr hmem) (decide_eq_true rfl)
  · rintro ⟨hc, hw⟩ s hs htarget
    cases s with
    | ensureDir path pre =>
        exact hc ⟨path, of_decide_eq_true htarget ▸ List.mem_reverse.mp hs⟩
    | write path contents =>
        exact hw ⟨contents, of_decide_eq_true htarget ▸ List.mem_reverse.mp hs⟩

section Effects

variable {steps : List (Step C)} {d d' : Disk C} {q : List C}

theorem Plan.get_created (hP : Plan steps)
    (h : steps.foldlM Step.exec d = .ok d') (hq : Creates steps q) :
    get d' q = some .dir := by
  rw [get_run h]
  cases hlast : lastAt steps q with
  | none => exact absurd hq (lastAt_eq_none.mp hlast).1
  | some s =>
      obtain ⟨hmem, htarget⟩ := lastAt_isSome hlast
      cases s with
      | ensureDir path pre => rfl
      | write path contents =>
          rw [← htarget] at hq
          exact absurd ⟨contents, hmem⟩ (hP.coherent path hq)

theorem Plan.get_written (hP : Plan steps)
    (h : steps.foldlM Step.exec d = .ok d') (hq : Writes steps q) :
    get d' q ≠ some .dir := by
  rw [get_run h]
  cases hlast : lastAt steps q with
  | none => exact absurd hq (lastAt_eq_none.mp hlast).2
  | some s =>
      obtain ⟨hmem, htarget⟩ := lastAt_isSome hlast
      cases s with
      | ensureDir path pre =>
          rw [← htarget] at hq
          exact absurd hq (hP.coherent pre ⟨path, hmem⟩)
      | write path contents =>
          intro heq
          cases heq

theorem get_untouched (h : steps.foldlM Step.exec d = .ok d')
    (hc : ¬ Creates steps q) (hw : ¬ Writes steps q) :
    get d' q = get d q := by
  rw [get_run h, lastAt_eq_none.mpr ⟨hc, hw⟩]
  rfl

/-- Nothing is removed. -/
theorem get_kept (h : steps.foldlM Step.exec d = .ok d')
    (hq : (get d q).isSome = true) : (get d' q).isSome = true := by
  rw [get_run h, Option.isSome_or, hq, Bool.or_true]

theorem Plan.dir_kept (hP : Plan steps)
    (h : steps.foldlM Step.exec d = .ok d') (hfiles : ¬ Writes steps q)
    (hq : get d q = some .dir) : get d' q = some .dir := by
  by_cases hc : Creates steps q
  · exact hP.get_created h hc
  · rw [get_untouched h hc hfiles, hq]

end Effects

/-! ## When a plan is accepted -/

/-- Nothing is in the way of the plan. -/
structure Free (steps : List (Step C)) (d : Disk C) : Prop where
  dirs : ∀ q, Creates steps q → DirOrFree d q
  files : ∀ q, Writes steps q → get d q ≠ some .dir
  parents : ∀ q, Writes steps q → ¬ Creates steps q.dropLast →
    get d q.dropLast = some .dir

theorem ensureDir_accepted {path pre : List C} {d : Disk C} :
    (∃ d', FileTree.ensureDir path d pre = .ok d') ↔ DirOrFree d pre := by
  constructor
  · rintro ⟨d', h⟩
    rw [FileTree.ensureDir] at h
    split at h
    · exact Or.inl ‹_›
    · exact Or.inr ‹_›
    · exact absurd h error_ne_ok
  · exact ensureDir_total path

theorem write_accepted {path : List C} (contents : String) {d : Disk C} :
    (∃ d', FileTree.write d path contents = .ok d') ↔
      get d path.dropLast = some .dir ∧ get d path ≠ some .dir := by
  constructor
  · rintro ⟨d', h⟩
    rw [FileTree.write] at h
    split at h
    · exact absurd h error_ne_ok
    · split at h
      · exact absurd h error_ne_ok
      · exact ⟨‹_›, ‹_›⟩
    · exact absurd h error_ne_ok
  · rintro ⟨hparent, hpath⟩
    exact write_total hparent hpath contents

section Acceptance

variable {steps : List (Step C)} {d : Disk C}

/-- What was a directory, or free, before an accepted run is so after it. -/
theorem Plan.dirOrFree_before (hP : Plan steps) {d' : Disk C} {q : List C}
    (hfree : Free steps d) (h : steps.foldlM Step.exec d = .ok d')
    (hw : ¬ Writes steps q) : DirOrFree d' q ↔ DirOrFree d q := by
  by_cases hc : Creates steps q
  · exact iff_of_true (Or.inr (hP.get_created h hc)) (hfree.dirs q hc)
  · rw [DirOrFree, DirOrFree, get_untouched h hc hw]

section Snoc

variable {path pre : List C} {contents : String}

theorem Plan.free_snoc_dir (hP : Plan (steps ++ [.ensureDir path pre])) :
    Free (steps ++ [.ensureDir path pre]) d ↔
      Free steps d ∧ DirOrFree d pre := by
  constructor
  · intro h
    refine ⟨⟨fun q hq => h.dirs q (creates_snoc_dir.mpr (Or.inl hq)),
      fun q hq => h.files q (writes_snoc_dir.mpr hq), fun q hq hnc => ?_⟩,
      h.dirs pre (creates_snoc_dir.mpr (Or.inr rfl))⟩
    refine h.parents q (writes_snoc_dir.mpr hq) fun hc => hnc ?_
    -- the directory would have been made before the file
    obtain ⟨text, hmem⟩ := hq
    obtain ⟨before, after, rfl⟩ := List.append_of_mem hmem
    have hbefore := hP.ordered before q text
      (after ++ [.ensureDir path pre]) (by simp) hc
    exact creates_append.mpr (Or.inl hbefore)
  · rintro ⟨h, hpre⟩
    refine ⟨fun q hq => ?_, fun q hq => h.files q (writes_snoc_dir.mp hq),
      fun q hq hnc => h.parents q (writes_snoc_dir.mp hq) fun hc =>
        hnc (creates_snoc_dir.mpr (Or.inl hc))⟩
    rcases creates_snoc_dir.mp hq with hq | rfl
    · exact h.dirs q hq
    · exact hpre

theorem free_snoc_write :
    Free (steps ++ [.write path contents]) d ↔
      Free steps d ∧ get d path ≠ some .dir ∧
        (¬ Creates steps path.dropLast →
          get d path.dropLast = some .dir) := by
  constructor
  · intro h
    refine ⟨⟨fun q hq => h.dirs q (creates_snoc_write.mpr hq),
      fun q hq => h.files q (writes_snoc_write.mpr (Or.inl hq)),
      fun q hq hnc => h.parents q (writes_snoc_write.mpr (Or.inl hq))
        fun hc => hnc (creates_snoc_write.mp hc)⟩,
      h.files path (writes_snoc_write.mpr (Or.inr rfl)), fun hnc => ?_⟩
    exact h.parents path (writes_snoc_write.mpr (Or.inr rfl))
      fun hc => hnc (creates_snoc_write.mp hc)
  · rintro ⟨h, hpath, hparent⟩
    refine ⟨fun q hq => h.dirs q (creates_snoc_write.mp hq),
      fun q hq => ?_, fun q hq hnc => ?_⟩
    · rcases writes_snoc_write.mp hq with hq | rfl
      · exact h.files q hq
      · exact hpath
    · rw [creates_snoc_write] at hnc
      rcases writes_snoc_write.mp hq with hq | rfl
      · exact h.parents q hq hnc
      · exact hparent hnc

/-- The last step, after the plan has run so far. -/
theorem Plan.accepts_dir (hP : Plan (steps ++ [.ensureDir path pre]))
    (hfree : Free steps d) {d₁ : Disk C}
    (hrun : steps.foldlM Step.exec d = .ok d₁) :
    (∃ d₂, (Step.ensureDir path pre).exec d₁ = .ok d₂) ↔ DirOrFree d pre := by
  have hw : ¬ Writes steps pre := fun hw =>
    hP.coherent pre (creates_snoc_dir.mpr (Or.inr rfl))
      (writes_snoc_dir.mpr hw)
  exact ensureDir_accepted.trans (hP.left.dirOrFree_before hfree hrun hw)

theorem Plan.accepts_write (hP : Plan (steps ++ [.write path contents]))
    (hfree : Free steps d) {d₁ : Disk C}
    (hrun : steps.foldlM Step.exec d = .ok d₁) :
    (∃ d₂, (Step.write path contents).exec d₁ = .ok d₂) ↔
      get d path ≠ some .dir ∧
        (¬ Creates steps path.dropLast →
          get d path.dropLast = some .dir) := by
  have hc : ¬ Creates steps path := fun hc =>
    hP.coherent path (creates_snoc_write.mpr hc)
      (writes_snoc_write.mpr (Or.inr rfl))
  have hpath : get d₁ path ≠ some .dir ↔ get d path ≠ some .dir := by
    by_cases hw : Writes steps path
    · exact iff_of_true (hP.left.get_written hrun hw) (hfree.files path hw)
    · rw [get_untouched hrun hc hw]
  have hparent : get d₁ path.dropLast = some .dir ↔
      (¬ Creates steps path.dropLast → get d path.dropLast = some .dir) := by
    by_cases hc : Creates steps path.dropLast
    · exact iff_of_true (hP.left.get_created hrun hc) fun hnc => absurd hc hnc
    · by_cases hw : Writes steps path.dropLast
      · exact iff_of_false (hP.left.get_written hrun hw)
          fun h => hfree.files _ hw (h hc)
      · rw [get_untouched hrun hc hw]
        exact ⟨fun h _ => h, fun h => h hc⟩
  rw [← hpath, ← hparent]
  exact (write_accepted contents).trans and_comm

end Snoc

theorem accepts_snoc {s : Step C} :
    (∃ d', (steps ++ [s]).foldlM Step.exec d = .ok d') ↔
      ∃ d₁, steps.foldlM Step.exec d = .ok d₁ ∧
        ∃ d₂, s.exec d₁ = .ok d₂ := by
  constructor
  · rintro ⟨d', h⟩
    obtain ⟨d₁, hrun, hlast⟩ := foldlM_append_ok.mp h
    obtain ⟨d₂, hstep, -⟩ := foldlM_cons_ok.mp hlast
    exact ⟨d₁, hrun, d₂, hstep⟩
  · rintro ⟨d₁, hrun, d₂, hstep⟩
    exact ⟨d₂, foldlM_append_ok.mpr ⟨d₁, hrun,
      foldlM_cons_ok.mpr ⟨d₂, hstep, rfl⟩⟩⟩

/-- **WHEN A PLAN IS ACCEPTED**: nothing else stands where it makes directories
    and files, and the directories it takes for granted are there. -/
theorem Plan.accepted_iff (hP : Plan steps) :
    (∃ d', steps.foldlM Step.exec d = .ok d') ↔ Free steps d := by
  induction steps using List.reverseRecOn with
  | nil =>
      refine iff_of_true ⟨d, rfl⟩ ⟨?_, ?_, ?_⟩
      · rintro q ⟨_, hmem⟩
        cases hmem
      · rintro q ⟨_, hmem⟩
        cases hmem
      · rintro q ⟨_, hmem⟩
        cases hmem
  | append_singleton steps s ih =>
      have hiff := ih hP.left
      rw [accepts_snoc]
      cases s with
      | ensureDir path pre =>
          rw [hP.free_snoc_dir]
          constructor
          · rintro ⟨d₁, hrun, hstep⟩
            have hfree := hiff.mp ⟨d₁, hrun⟩
            exact ⟨hfree, (hP.accepts_dir hfree hrun).mp hstep⟩
          · rintro ⟨hfree, hpre⟩
            obtain ⟨d₁, hrun⟩ := hiff.mpr hfree
            exact ⟨d₁, hrun, (hP.accepts_dir hfree hrun).mpr hpre⟩
      | write path contents =>
          rw [free_snoc_write]
          constructor
          · rintro ⟨d₁, hrun, hstep⟩
            have hfree := hiff.mp ⟨d₁, hrun⟩
            exact ⟨hfree, (hP.accepts_write hfree hrun).mp hstep⟩
          · rintro ⟨hfree, hpath⟩
            obtain ⟨d₁, hrun⟩ := hiff.mpr hfree
            exact ⟨d₁, hrun, (hP.accepts_write hfree hrun).mpr hpath⟩

end Acceptance

/-! ## Attempts that stop somewhere -/

/-- The disk after the plan has been carried out as far as it went: some steps,
    and after them perhaps a part of a write. -/
inductive Interrupted (steps : List (Step C)) (d : Disk C) : Disk C → Prop where
  | stopped {done rest : List (Step C)} {d' : Disk C}
      (h : steps = done ++ rest)
      (hrun : done.foldlM Step.exec d = .ok d') : Interrupted steps d d'
  | torn {done rest : List (Step C)} {path : List C} {contents : String}
      {d₁ d₂ : Disk C} {node : Node}
      (h : steps = done ++ .write path contents :: rest)
      (hrun : done.foldlM Step.exec d = .ok d₁)
      (hok : (Step.write path contents).exec d₁ = .ok d₂)
      (hnode : node ≠ .dir) : Interrupted steps d (put d₁ path node)

/-- The disks differ at most in what the plan has made of them: where it makes
    directories and files, nothing stands in its way on one of them only. -/
structure Alike (steps : List (Step C)) (d d' : Disk C) : Prop where
  dirs : ∀ q, Creates steps q → (DirOrFree d q ↔ DirOrFree d' q)
  files : ∀ q, Writes steps q → (get d q = some .dir ↔ get d' q = some .dir)
  rest : ∀ q, ¬ Creates steps q → ¬ Writes steps q → get d q = get d' q

section Attempts

variable {steps steps' : List (Step C)} {d d₁ d' : Disk C}

theorem Alike.refl (steps : List (Step C)) (d : Disk C) : Alike steps d d :=
  ⟨fun _ _ => Iff.rfl, fun _ _ => Iff.rfl, fun _ _ _ => rfl⟩

theorem Alike.symm (h : Alike steps d d') : Alike steps d' d :=
  ⟨fun q hc => (h.dirs q hc).symm, fun q hw => (h.files q hw).symm,
    fun q hc hw => (h.rest q hc hw).symm⟩

theorem Alike.trans (h : Alike steps d d₁) (h' : Alike steps d₁ d') :
    Alike steps d d' :=
  ⟨fun q hc => (h.dirs q hc).trans (h'.dirs q hc),
    fun q hw => (h.files q hw).trans (h'.files q hw),
    fun q hc hw => (h.rest q hc hw).trans (h'.rest q hc hw)⟩

/-- A larger plan allows more. -/
theorem Alike.mono (hP : Plan steps') (h : Alike steps d d')
    (hsub : Within steps steps') : Alike steps' d d' where
  dirs q hq := by
    by_cases hc : Creates steps q
    · exact h.dirs q hc
    · have hw : ¬ Writes steps q := fun hw =>
        hP.coherent q hq (hsub.2 q hw)
      rw [DirOrFree, DirOrFree, h.rest q hc hw]
  files q hq := by
    by_cases hw : Writes steps q
    · exact h.files q hw
    · have hc : ¬ Creates steps q := fun hc =>
        hP.coherent q (hsub.1 q hc) hq
      rw [h.rest q hc hw]
  rest q hc hw := h.rest q (fun h => hc (hsub.1 q h)) fun h => hw (hsub.2 q h)

/-- What an accepted run leaves. -/
theorem Plan.run_alike (hP : Plan steps)
    (h : steps.foldlM Step.exec d = .ok d') : Alike steps d d' := by
  have hfree := hP.accepted_iff.mp ⟨d', h⟩
  refine ⟨fun q hc => ?_, fun q hw => ?_, fun q hc hw => ?_⟩
  · exact iff_of_true (hfree.dirs q hc) (Or.inr (hP.get_created h hc))
  · exact iff_of_false (hfree.files q hw) (hP.get_written h hw)
  · exact (get_untouched h hc hw).symm

/-- **WHAT AN INTERRUPTED ATTEMPT LEAVES**, a half-written file included. -/
theorem Plan.interrupted_alike (hP : Plan steps)
    (h : Interrupted steps d d') : Alike steps d d' := by
  cases h with
  | stopped h hrun =>
      rw [h] at hP ⊢
      exact (hP.left.run_alike hrun).mono hP (within_left _ _)
  | @torn done rest path contents d₁ d₂ node h hrun hok hnode =>
      rw [h] at hP ⊢
      have hwrite : Writes (done ++ .write path contents :: rest) path :=
        ⟨contents, List.mem_append_right _ List.mem_cons_self⟩
      have hpath : get d₁ path ≠ some .dir :=
        ((write_accepted contents).mp ⟨d₂, hok⟩).2
      have hget : ∀ q, get (put d₁ path node) q
          = if q = path then some node else get d₁ q := by
        refine get_put ?_ node
        rintro rfl
        exact hpath (get_root d₁)
      refine ((hP.left.run_alike hrun).mono hP (within_left _ _)).trans ?_
      -- only the file being written has changed
      refine ⟨fun q hc => ?_, fun q hw => ?_, fun q hc hw => ?_⟩
      · have hne : q ≠ path := fun heq => hP.coherent q hc (heq ▸ hwrite)
        rw [DirOrFree, DirOrFree, hget, if_neg hne]
      · rw [hget]
        by_cases hq : q = path
        · rw [if_pos hq, hq]
          exact iff_of_false hpath fun heq => hnode (Option.some.inj heq)
        · rw [if_neg hq]
      · have hne : q ≠ path := fun heq => hw (heq ▸ hwrite)
        rw [hget, if_neg hne]

theorem Alike.free (h : Alike steps d d') (hfree : Free steps d) :
    Free steps d' where
  dirs q hq := (h.dirs q hq).mp (hfree.dirs q hq)
  files q hq hdir := hfree.files q hq ((h.files q hq).mpr hdir)
  parents q hq hnc := by
    have hdir := hfree.parents q hq hnc
    by_cases hw : Writes steps q.dropLast
    · exact (h.files _ hw).mp hdir
    · rwa [← h.rest _ hnc hw]

/-- No directory is lost, wherever the plan stops. -/
theorem Plan.interrupted_dir (hP : Plan steps) (h : Interrupted steps d d')
    {q : List C} (hq : get d q = some .dir) : get d' q = some .dir := by
  cases h with
  | stopped h hrun =>
      rw [h] at hP
      exact hP.left.dir_kept hrun
        (fun hw => (hP.left.accepted_iff.mp ⟨_, hrun⟩).files q hw hq) hq
  | @torn done rest path contents d₁ d₂ node h hrun hok hnode =>
      rw [h] at hP
      have hdir := hP.left.dir_kept hrun
        (fun hw => (hP.left.accepted_iff.mp ⟨_, hrun⟩).files q hw hq) hq
      have hpath : get d₁ path ≠ some .dir :=
        ((write_accepted contents).mp ⟨d₂, hok⟩).2
      have hne : path ≠ [] := by
        rintro rfl
        exact hpath (get_root d₁)
      rw [get_put hne, if_neg, hdir]
      rintro rfl
      exact hpath hdir

/-- **RUNNING AGAIN REPAIRS**: from disks that are alike, the plan is accepted
    from both or from neither, and leaves the same everywhere. -/
theorem Plan.rerun_alike (hP : Plan steps) (h : Alike steps d d₁) :
    RelOk (fun e e' => ∀ q, get e q = get e' q)
      (steps.foldlM Step.exec d) (steps.foldlM Step.exec d₁) := by
  have hiff : (∃ e, steps.foldlM Step.exec d = .ok e) ↔
      ∃ e', steps.foldlM Step.exec d₁ = .ok e' := by
    rw [hP.accepted_iff, hP.accepted_iff]
    exact ⟨h.free, h.symm.free⟩
  cases hrun : steps.foldlM Step.exec d with
  | error e =>
      cases hrun' : steps.foldlM Step.exec d₁ with
      | error e' => exact .error
      | ok d₂ =>
          obtain ⟨e, he⟩ := hiff.mpr ⟨d₂, hrun'⟩
          exact absurd (hrun.symm.trans he) error_ne_ok
  | ok e =>
      obtain ⟨e', hrun'⟩ := hiff.mp ⟨e, hrun⟩
      rw [hrun']
      refine .ok fun q => ?_
      rw [get_run hrun, get_run hrun']
      cases hlast : lastAt steps q with
      | some s => rfl
      | none =>
          -- no step concerns the path, so it was the same before
          obtain ⟨hc, hw⟩ := lastAt_eq_none.mp hlast
          exact h.rest q hc hw

end Attempts

end WritePlan
