import DieselDualdb.Lib.FallibleRun
import Mathlib.Data.List.Dedup
import Mathlib.Data.List.Infix

/-!
# A file tree

A disk is a list of paths with what stands there, the newest entry for a path
first; a path is the list of its components, and the root is a directory.  The
operations are those of a file system, with the reasons it has to refuse them.

`get_createDirAll` and `get_write` say what each writing operation leaves at
every path, `createDirAll_total` and `write_total` when it is accepted.
-/

namespace FileTree

open FallibleRun

variable {C : Type}

inductive Node where
  | dir
  | file (contents : String)
  /-- A file whose bytes are not text. -/
  | binary
deriving DecidableEq

inductive IoError where
  | notFound
  | alreadyExists
  | notADirectory
  | isADirectory
  | invalidUtf8
deriving DecidableEq

abbrev Disk (C : Type) := List (List C × Node)

section Operations

variable [DecidableEq C]

/-- What stands at a path, if anything does. -/
def get (d : Disk C) (path : List C) : Option Node :=
  if path = [] then some .dir else d.lookup path

def put (d : Disk C) (path : List C) (node : Node) : Disk C := (path, node) :: d

/-- One step of creating `path`: the directory `pre` of it, if missing. -/
def ensureDir (path : List C) (d : Disk C) (pre : List C) :
    Except IoError (Disk C) :=
  match get d pre with
  | none => .ok (put d pre .dir)
  | some .dir => .ok d
  | some _ => .error (if pre = path then .alreadyExists else .notADirectory)

/-- A directory and those above it, as far as they are missing. -/
def createDirAll (d : Disk C) (path : List C) : Except IoError (Disk C) :=
  path.inits.foldlM (ensureDir path) d

/-- A file with these contents, in the place of the file there was. -/
def write (d : Disk C) (path : List C) (contents : String) :
    Except IoError (Disk C) :=
  match get d path.dropLast with
  | none => .error .notFound
  | some .dir =>
      if get d path = some .dir then .error .isADirectory
      else .ok (put d path (.file contents))
  | some _ => .error .notADirectory

def readToString (d : Disk C) (path : List C) : Except IoError String :=
  match get d path with
  | none => .error .notFound
  | some .dir => .error .isADirectory
  | some (.file contents) => .ok contents
  | some .binary => .error .invalidUtf8

/-- The paths of a directory's entries, in any order. -/
def readDir (d : Disk C) (path : List C) : Except IoError (List (List C)) :=
  match get d path with
  | none => .error .notFound
  | some .dir =>
      .ok ((d.map Prod.fst).filter fun q => q ≠ [] ∧ q.dropLast = path).dedup
  | some _ => .error .notADirectory

end Operations

variable [DecidableEq C]

/-! ## What the operations leave behind -/

theorem get_root (d : Disk C) : get d [] = some .dir := if_pos rfl

theorem get_of_ne {d : Disk C} {path : List C} (h : path ≠ []) :
    get d path = d.lookup path :=
  if_neg h

theorem lookup_cons_ite (q path : List C) (node : Node) (d : Disk C) :
    ((path, node) :: d).lookup q = if q = path then some node else d.lookup q := by
  rw [List.lookup_cons]
  by_cases hq : q = path
  · rw [if_pos hq, hq, beq_self_eq_true]
  · rw [if_neg hq, beq_false_of_ne hq]

theorem get_put {d : Disk C} {path : List C} (h : path ≠ []) (node : Node)
    (q : List C) :
    get (put d path node) q = if q = path then some node else get d q := by
  by_cases hq : q = []
  · have hne : ¬ q = path := fun heq => h (heq.symm.trans hq)
    rw [if_neg hne, hq, get_root, get_root]
  · rw [get_of_ne hq, get_of_ne hq, put, lookup_cons_ite]

theorem get_ensureDir {path pre : List C} {d d' : Disk C}
    (h : ensureDir path d pre = .ok d') (q : List C) :
    get d' q = if q = pre then some .dir else get d q := by
  rw [ensureDir] at h
  cases hpre : get d pre with
  | none =>
      simp only [hpre] at h
      have hne : pre ≠ [] := by
        intro hnil
        rw [hnil, get_root] at hpre
        cases hpre
      rw [← Except.ok.inj h, get_put hne]
  | some node =>
      cases node with
      | dir =>
          simp only [hpre] at h
          rw [← Except.ok.inj h]
          split
          · next hq => rw [hq, hpre]
          · rfl
      | file _ | binary =>
          simp only [hpre] at h
          exact absurd h error_ne_ok

theorem get_ensureDirs {path : List C} {pres : List (List C)} {d d' : Disk C}
    (h : pres.foldlM (ensureDir path) d = .ok d') (q : List C) :
    get d' q = if q ∈ pres then some .dir else get d q := by
  induction pres generalizing d with
  | nil =>
      rw [foldlM_nil_ok.mp h, if_neg List.not_mem_nil]
  | cons pre pres ih =>
      obtain ⟨d₁, hstep, hrest⟩ := foldlM_cons_ok.mp h
      rw [ih hrest, get_ensureDir hstep]
      by_cases hq : q = pre
      · rw [if_pos hq, if_pos (List.mem_cons.mpr (Or.inl hq)), ite_self]
      · rw [if_neg hq]
        by_cases hmem : q ∈ pres
        · rw [if_pos hmem, if_pos (List.mem_cons_of_mem _ hmem)]
        · rw [if_neg hmem, if_neg fun h =>
            (List.mem_cons.mp h).elim hq hmem]

/-- **CREATING A DIRECTORY** makes the path and everything above it
    directories, and changes nothing else. -/
theorem get_createDirAll {path : List C} {d d' : Disk C}
    (h : createDirAll d path = .ok d') (q : List C) :
    get d' q = if q <+: path then some .dir else get d q := by
  rw [get_ensureDirs h]
  simp only [List.mem_inits]

/-- **WRITING A FILE** changes what stands at its path, and nothing else. -/
theorem get_write {path : List C} {contents : String} {d d' : Disk C}
    (h : write d path contents = .ok d') (q : List C) :
    get d' q = if q = path then some (.file contents) else get d q := by
  rw [write] at h
  cases hparent : get d path.dropLast with
  | none =>
      simp only [hparent] at h
      exact absurd h error_ne_ok
  | some node =>
      cases node with
      | dir =>
          simp only [hparent] at h
          by_cases hdir : get d path = some .dir
          · rw [if_pos hdir] at h
            exact absurd h error_ne_ok
          · rw [if_neg hdir] at h
            have hne : path ≠ [] := by
              intro hnil
              rw [hnil] at hdir
              exact hdir (get_root d)
            rw [← Except.ok.inj h, get_put hne]
      | file _ | binary =>
          simp only [hparent] at h
          exact absurd h error_ne_ok

/-! ## When they are accepted -/

/-- Nothing stands there, or a directory. -/
def DirOrFree (d : Disk C) (path : List C) : Prop :=
  get d path = none ∨ get d path = some .dir

theorem ensureDir_total (path : List C) {pre : List C} {d : Disk C}
    (h : DirOrFree d pre) : ∃ d', ensureDir path d pre = .ok d' := by
  rw [ensureDir]
  rcases h with hpre | hpre
  · exact ⟨_, by rw [hpre]⟩
  · exact ⟨_, by rw [hpre]⟩

theorem ensureDirs_total {path : List C} {pres : List (List C)} {d : Disk C}
    (h : ∀ q ∈ pres, DirOrFree d q) :
    ∃ d', pres.foldlM (ensureDir path) d = .ok d' := by
  induction pres generalizing d with
  | nil => exact ⟨d, rfl⟩
  | cons pre pres ih =>
      obtain ⟨hpre, hpres⟩ := List.forall_mem_cons.mp h
      obtain ⟨d₁, hstep⟩ := ensureDir_total path hpre
      obtain ⟨d', hrest⟩ := ih (d := d₁) fun q hq => by
        rw [DirOrFree, get_ensureDir hstep]
        by_cases heq : q = pre
        · rw [if_pos heq]
          exact Or.inr rfl
        · rw [if_neg heq]
          exact hpres q hq
      exact ⟨d', foldlM_cons_ok.mpr ⟨d₁, hstep, hrest⟩⟩

theorem createDirAll_total {path : List C} {d : Disk C}
    (h : ∀ q, q <+: path → DirOrFree d q) :
    ∃ d', createDirAll d path = .ok d' :=
  ensureDirs_total fun q hq => h q ((List.mem_inits _ _).mp hq)

theorem write_total {path : List C} {d : Disk C}
    (hparent : get d path.dropLast = some .dir)
    (hpath : get d path ≠ some .dir) (contents : String) :
    ∃ d', write d path contents = .ok d' := by
  refine ⟨put d path (.file contents), ?_⟩
  rw [write, hparent]
  exact if_neg hpath

end FileTree
