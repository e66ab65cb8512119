import DieselDualdb.OutputsProofs
import DieselDualdb.Lib.SortKeys
import Mathlib.Data.List.ReduceOption

/-!
# The order of the model, the order of the database

`read_migrations` sorts the directories by their names, and the model is folded
in that order; `diesel_migrations` runs a tree in the order of its versions,
the parts of the names before the first `_` without the dashes.  The orders
agree exactly if every two names compare as their versions do, as they do where
all versions have their dashes at the same places, like time stamps
(`model_order_iff`).

Without dashes it takes a name that stops where another version goes on with a
character below `_` for them to differ (`dashless_order_iff`).
-/

namespace DualdbOrder

open DualdbAst DualdbTypeMap DualdbModel DualdbMigration DualdbSqlText
open DualdbOutputs FallibleRun FileTree Pointwise SortKeys

/-! ## Versions -/

/-- A directory name up to the first `_`. -/
def versionPart (name : String) : List Char := name.toList.takeWhile (· ≠ '_')

/-- The version that `diesel_migrations` reads off a directory name. -/
def version (name : String) : String :=
  String.ofList ((versionPart name).filter (· ≠ '-'))

/-- The directories of a tree in the order in which they are run. -/
def applicationOrder (names : List String) : List String :=
  sortBy version names

/-- Versions of one length, with the dashes at the same places. -/
def SameLayout (name other : String) : Prop :=
  (versionPart name).map (fun c => decide (c = '-'))
    = (versionPart other).map fun c => decide (c = '-')

instance (name other : String) : Decidable (SameLayout name other) :=
  inferInstanceAs (Decidable (_ = _))

theorem version_lt {name other : String} :
    version name < version other ↔
      (versionPart name).filter (· ≠ '-')
        < (versionPart other).filter (· ≠ '-') := by
  rw [version, version, String.lt_iff_toList_lt, String.toList_ofList,
    String.toList_ofList]

theorem part_ne {name other : String} (h : version name ≠ version other) :
    versionPart name ≠ versionPart other := by
  intro heq
  rw [version, version, heq] at h
  exact h rfl

/-- A name is its version part and the rest. -/
theorem part_append (name : String) :
    versionPart name ++ name.toList.dropWhile (· ≠ '_') = name.toList :=
  List.takeWhile_append_dropWhile

/-- Versions of one layout compare as the names do. -/
theorem SameLayout.lt_iff {name other : String} (h : SameLayout name other)
    (hne : version name ≠ version other) :
    name < other ↔ version name < version other := by
  have hlength : (versionPart name).length = (versionPart other).length := by
    rw [← List.length_map, h, List.length_map]
  rw [version_lt, filter_lt_filter_iff h, String.lt_iff_toList_lt,
    ← part_append name, ← part_append other, append_lt_append_iff hlength]
  simp only [part_ne hne, false_and, or_false]

/-- Versions without dashes compare as the names do, unless one goes on where
    the other stops. -/
theorem dashless_lt_iff {name other : String}
    (hname : '-' ∉ versionPart name) (hother : '-' ∉ versionPart other)
    (hne : version name ≠ version other) :
    (name < other ↔ version name < version other) ↔
      ¬ Overrun '_' name.toList other.toList
        ∧ ¬ Overrun '_' other.toList name.toList := by
  have hkeep : ∀ {cs : List Char}, '-' ∉ cs → cs.filter (· ≠ '-') = cs := by
    intro cs hcs
    refine List.filter_eq_self.mpr fun c hc => decide_eq_true ?_
    rintro rfl
    exact hcs hc
  rw [version_lt, hkeep hname, hkeep hother, String.lt_iff_toList_lt]
  exact comparesCut_iff (part_ne hne)

/-! ## The names that are read -/

theorem dir_lt {dir : Path} {name other : String} :
    dir ++ [name] < dir ++ [other] ↔ name < other := by
  rw [append_lt_append_iff rfl, List.cons_lt_cons_iff]
  simp only [lt_self_iff_false, true_and, false_or, and_false, or_false]

/-- An entry of a directory is one component longer. -/
theorem mem_readDir {d : Disk String} {dir : Path} {entries : List Path}
    (h : readDir d dir = .ok entries) :
    entries.Nodup ∧ ∀ e ∈ entries, ∃ name, e = dir ++ [name] := by
  rw [readDir] at h
  split at h
  · exact absurd h error_ne_ok
  · rw [← Except.ok.inj h]
    refine ⟨List.nodup_dedup _, fun e he => ?_⟩
    obtain ⟨-, hpred⟩ := List.mem_filter.mp (List.mem_dedup.mp he)
    obtain ⟨hne, hdir⟩ := of_decide_eq_true hpred
    exact ⟨e.getLast hne, by rw [← hdir, List.dropLast_append_getLast]⟩
  · exact absurd h error_ne_ok

theorem readMigration_name {d : Disk String} {dir : Path} {name : String}
    {m : Migration}
    (h : readMigration d (dir ++ [name]) = .ok (some m)) :
    m.dirName = name := by
  rw [readMigration] at h
  split at h
  · cases pure_ok.mp h
  · obtain ⟨upSql, -, h⟩ := bind_ok.mp h
    dsimp only at h
    -- with a `down.sql` and without
    split at h
    all_goals
      obtain ⟨downSql, -, h⟩ := bind_ok.mp h
      rw [← Option.some.inj (pure_ok.mp h), List.getLast?_concat,
        Option.getD_some]

/-- What is read of sorted directories has sorted names. -/
theorem names_of_dirs {d : Disk String} (dir : Path) {dirs : List Path}
    {read : List (Option Migration)}
    (h : List.Forall₂ (fun path m => readMigration d path = .ok m) dirs read)
    (hsub : ∀ e ∈ dirs, ∃ name, e = dir ++ [name])
    (hsorted : dirs.Pairwise (· < ·)) :
    (read.reduceOption.map Migration.dirName).Pairwise (· < ·) := by
  induction h with
  | nil => exact .nil
  | @cons path m dirs read hm hread ih =>
      obtain ⟨hpath, hsorted⟩ := List.pairwise_cons.mp hsorted
      have htail := ih (fun e he => hsub e (List.mem_cons_of_mem path he))
        hsorted
      cases m with
      | none => exact htail
      | some m =>
          obtain ⟨name, rfl⟩ := hsub path List.mem_cons_self
          rw [List.reduceOption_cons_of_some, List.map_cons,
            List.pairwise_cons]
          refine ⟨fun other hother => ?_, htail⟩
          obtain ⟨n, hn, rfl⟩ := List.mem_map.mp hother
          obtain ⟨e, he, hen⟩ := forall₂_of_mem_left hread.flip
            (List.reduceOption_mem_iff.mp hn)
          obtain ⟨other, rfl⟩ := hsub e (List.mem_cons_of_mem _ he)
          rw [readMigration_name hm, readMigration_name hen]
          exact dir_lt.mp (hpath _ he)

/-- **THE MIGRATIONS COME SORTED**, no two of one name. -/
theorem readMigrations_sorted {d : Disk String} {dir : Path}
    {ms : List Migration} (h : readMigrations d dir = .ok ms) :
    (ms.map Migration.dirName).Pairwise (· < ·) := by
  obtain ⟨entries, hentries, h⟩ := bind_ok.mp h
  obtain ⟨read, hread, h⟩ := bind_ok.mp h
  obtain ⟨hnodup, hsub⟩ := mem_readDir (mapError_ok.mp hentries)
  rw [← pure_ok.mp h]
  have hperm := List.perm_insertionSort (· ≤ ·)
    (entries.filter fun path => get d path = some .dir)
  refine names_of_dirs dir (mapM_ok.mp hread) (fun e he => ?_) ?_
  · exact hsub e (List.mem_of_mem_filter (hperm.mem_iff.mp he))
  · have hsorted := List.pairwise_insertionSort (· ≤ ·)
      (entries.filter fun path => get d path = some .dir)
    have hdirs := hperm.nodup_iff.mpr (hnodup.filter _)
    exact hsorted.imp₂ (fun _ _ => lt_of_le_of_ne) hdirs

/-! ## The two orders -/

/-- The versions tell every two of the names apart. -/
theorem versions_ne {names : List String} (h : (names.map version).Nodup)
    {name other : String} (hname : name ∈ names) (hother : other ∈ names)
    (hne : name ≠ other) : version name ≠ version other :=
  fun heq => hne (List.inj_on_of_nodup_map h hname hother heq)

/-- Names of one layout compare as their versions do. -/
theorem alike_of_layout {names : List String} (h : (names.map version).Nodup)
    (hlayout : ∀ name ∈ names, ∀ other ∈ names, SameLayout name other) :
    Alike id version names := by
  intro name hname other hother
  by_cases heq : name = other
  · rw [heq, lt_self_iff_false, lt_self_iff_false]
  · exact (hlayout name hname other hother).lt_iff
      (versions_ne h hname hother heq)

section Trees

variable {p : Sqlparser} {d : Disk String} {dir : Path} {ms : List Migration}
  {g : Generated}

theorem nodup_versions
    (h : (ms.map fun m => version m.dirName).Nodup) :
    ((ms.map Migration.dirName).map version).Nodup := by
  rw [List.map_map]
  exact h

theorem applied_iff_alike (hread : readMigrations d dir = .ok ms)
    (hgen : generate p ms = .ok g)
    (hversions : (ms.map fun m => version m.dirName).Nodup) (b : Backend) :
    applicationOrder ((g.tree b).map RenderedMigration.dirName)
        = ms.map Migration.dirName ↔
      ∀ m ∈ ms, ∀ n ∈ ms,
        m.dirName < n.dirName ↔ version m.dirName < version n.dirName := by
  have hsorted : (ms.map Migration.dirName).Pairwise fun a b => id a < id b :=
    readMigrations_sorted hread
  rw [tree_names hgen b, applicationOrder,
    sortBy_eq_self_iff hsorted (nodup_versions hversions)]
  simp only [Alike, List.forall_mem_map, id_eq]

/-- **THE ORDER OF THE MODEL IS THE ORDER OF THE DATABASES** exactly if every
    two names compare as their versions do; it is so if all versions have one
    layout. -/
theorem model_order_iff (hread : readMigrations d dir = .ok ms)
    (hgen : generate p ms = .ok g)
    (hversions : (ms.map fun m => version m.dirName).Nodup) (b : Backend) :
    (applicationOrder ((g.tree b).map RenderedMigration.dirName)
        = ms.map Migration.dirName ↔
      ∀ m ∈ ms, ∀ n ∈ ms,
        m.dirName < n.dirName ↔ version m.dirName < version n.dirName) ∧
    ((∀ m ∈ ms, ∀ n ∈ ms, SameLayout m.dirName n.dirName) →
      applicationOrder ((g.tree b).map RenderedMigration.dirName)
        = ms.map Migration.dirName) := by
  refine ⟨applied_iff_alike hread hgen hversions b, fun hlayout => ?_⟩
  have halike := alike_of_layout (nodup_versions hversions) (by
    simpa only [List.forall_mem_map] using hlayout)
  rw [applied_iff_alike hread hgen hversions b]
  simpa only [Alike, List.forall_mem_map, id_eq] using halike

/-- **WITHOUT DASHES** the orders agree exactly if no name stops at its `_`
    where the version of another goes on with a character below `_`, as all
    digits and capitals are. -/
theorem dashless_order_iff (hread : readMigrations d dir = .ok ms)
    (hgen : generate p ms = .ok g)
    (hversions : (ms.map fun m => version m.dirName).Nodup)
    (hdash : ∀ m ∈ ms, '-' ∉ versionPart m.dirName) (b : Backend) :
    applicationOrder ((g.tree b).map RenderedMigration.dirName)
        = ms.map Migration.dirName ↔
      ∀ m ∈ ms, ∀ n ∈ ms,
        ¬ Overrun '_' m.dirName.toList n.dirName.toList := by
  rw [applied_iff_alike hread hgen hversions b]
  have hpair : ∀ m ∈ ms, ∀ n ∈ ms, m.dirName ≠ n.dirName →
      ((m.dirName < n.dirName ↔ version m.dirName < version n.dirName) ↔
        ¬ Overrun '_' m.dirName.toList n.dirName.toList
          ∧ ¬ Overrun '_' n.dirName.toList m.dirName.toList) := by
    intro m hm n hn hne
    exact dashless_lt_iff (hdash m hm) (hdash n hn)
      (versions_ne (nodup_versions hversions) (List.mem_map_of_mem hm)
        (List.mem_map_of_mem hn) hne)
  constructor
  · intro h m hm n hn hover
    by_cases hne : m.dirName = n.dirName
    · rw [hne] at hover
      exact not_overrun_self hover
    · exact ((hpair m hm n hn hne).mp (h m hm n hn)).1 hover
  · intro h m hm n hn
    by_cases hne : m.dirName = n.dirName
    · rw [hne, lt_self_iff_false, lt_self_iff_false]
    · exact (hpair m hm n hn hne).mpr ⟨h m hm n hn, h n hn m hm⟩

end Trees

/-! ## Runs -/

/-- A migrations directory that makes the tables `one` and `two`, in
    directories of these names. -/
def migrationsIn (one two : String) : Disk String :=
  [(["migrations"], .dir), (["migrations", one], .dir),
    (["migrations", one, "up.sql"], .file "CREATE TABLE one (a INT);"),
    (["migrations", two], .dir),
    (["migrations", two, "up.sql"], .file "CREATE TABLE two (a INT);")]

/-- Both are read, in this order, and rendered. -/
def ReadAs (d : Disk String) (first second : Migration) : Prop :=
  readMigrations d ["migrations"] = .ok [first, second] ∧
    (generate outputsParser [first, second]).isOk = true

/-- Two time stamps, with dashes. -/
def stampedOne : Migration :=
  ⟨"2026-01-01-000000_one", "CREATE TABLE one (a INT);", none⟩

def stampedTwo : Migration :=
  ⟨"2026-01-02-000000_two", "CREATE TABLE two (a INT);", none⟩

theorem stamped_read :
    ReadAs (migrationsIn stampedOne.dirName stampedTwo.dirName) stampedOne
      stampedTwo :=
  ⟨by decide +kernel, by decide +kernel⟩

theorem model_order_iff_of_stamps :
    ∃ g, generate outputsParser [stampedOne, stampedTwo] = .ok g ∧ ∀ b,
      applicationOrder ((g.tree b).map RenderedMigration.dirName)
        = [stampedOne.dirName, stampedTwo.dirName] := by
  obtain ⟨g, hg⟩ := exists_ok_of_isOk stamped_read.2
  refine ⟨g, hg, fun b => (model_order_iff stamped_read.1 hg ?_ b).2 ?_⟩
  · decide +kernel
  · decide +kernel

/-- **NUMBERS WITHOUT ZEROS**: `10_two` is read before `1_one`, and its tree is
    run after it. -/
theorem ten_is_read_before_one :
    ∃ ms g, readMigrations (migrationsIn "1_one" "10_two") ["migrations"]
        = .ok ms ∧
      generate outputsParser ms = .ok g ∧
      (ms.map fun m => version m.dirName).Nodup ∧
      ms.map Migration.dirName = ["10_two", "1_one"] ∧
      ∀ b, applicationOrder ((g.tree b).map RenderedMigration.dirName)
        = ["1_one", "10_two"] := by
  have hread : ReadAs (migrationsIn "1_one" "10_two")
      ⟨"10_two", "CREATE TABLE two (a INT);", none⟩
      ⟨"1_one", "CREATE TABLE one (a INT);", none⟩ :=
    ⟨by decide +kernel, by decide +kernel⟩
  obtain ⟨g, hg⟩ := exists_ok_of_isOk hread.2
  refine ⟨_, g, hread.1, hg, by decide +kernel, rfl, fun b => ?_⟩
  rw [tree_names hg b]
  decide +kernel

end DualdbOrder
