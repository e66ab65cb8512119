import DieselDualdb.FreshnessProofs
import DieselDualdb.SqlText
import DieselDualdb.Lib.RustUses
import Mathlib.Data.List.DropRight

/-!
# Imports match uses

A `table!` block prints the short names of its column types, and in front of
them the `use` lines that say where the names come from.  The two are computed
by separate loops; `ImportsMatch` says what they owe each other, on the printed
text: the imports are the names that the column lines use, each once, and every
name resolves to the marker of its column.

`pushColumns_collected` is the invariant of the loop that collects the imports.
That no two modules have a name in common is a fact about the mapping table
(`typeText_inj`).
-/

namespace DualdbImports

open DualdbAst DualdbTypeMap DualdbModel DualdbRender DualdbFresh FallibleRun
open Pointwise RustStr RustUses

/-! ## What a block says -/

/-- The imports of a block, behind the line that opens it. -/
def importsOf (text : String) : List Import := readUses ((lines text).drop 1)

/-- The type names of a column line: the words behind its last arrow. -/
def typeNames (line : String) : List String :=
  words (line.toList.rtakeWhile (· ≠ '-'))

def nullableMarker : String := "diesel::sql_types::Nullable"

/-- What the type of a column stands for, in the order of its names. -/
def columnMarkers (c : ModelColumn) : List String :=
  if c.nullable then [nullableMarker, c.marker] else [c.marker]

structure ImportsMatch (t : ModelTable) (lines : List String)
    (is : List Import) : Prop where
  /-- One sorted list for each module. -/
  lists : ∃ diesel dualdb : List String,
    is = diesel.map (Import.mk ["diesel", "sql_types"])
      ++ dualdb.map (Import.mk ["diesel_dualdb", "sql_types"]) ∧
    diesel.Pairwise (· < ·) ∧ dualdb.Pairwise (· < ·)
  once : (is.map Import.name).Nodup
  used : ∀ n, n ∈ is.map Import.name ↔ ∃ line ∈ lines, n ∈ typeNames line
  nullable : "Nullable" ∈ is.map Import.name ↔ ∃ c ∈ t.columns, c.nullable = true
  modules : ∀ i ∈ is, ∃ c ∈ t.columns, i.full ∈ columnMarkers c
  resolved : List.Forall₂ (fun c line =>
    (typeNames line).map (resolve is) = (columnMarkers c).map some)
    t.columns lines

/-! ## The `use` lines -/

theorem append_newline (a b c d e rest : String) :
    a ++ b ++ c ++ d ++ (e ++ "\n") ++ rest
      = a ++ b ++ c ++ d ++ e ++ "\n" ++ rest := by
  simp only [String.append_assoc]

/-- One printed line, and what it imports. -/
theorem lines_use {a b c d : String} {is : List Import} (ha : OneLine a)
    (hb : OneLine b) (hc : OneLine c) (hd : OneLine d)
    (hread : readUse ("    use " ++ a ++ b ++ c ++ d) = is) (rest : String) :
    ∃ ls, lines ("    use " ++ a ++ b ++ c ++ (d ++ "\n") ++ rest)
        = ls ++ lines rest ∧
      (∀ l ∈ ls, isUse l = true) ∧ ls.flatMap readUse = is := by
  refine ⟨["    use " ++ a ++ b ++ c ++ d], ?_, fun l hl => ?_, ?_⟩
  · rw [append_newline]
    exact lines_line (OneLine.line (by decide) ha hb hc hd) rest
  · rw [List.mem_singleton.mp hl]
    exact isUse_print a b c d
  · rw [List.flatMap_singleton, hread]

/-- **THE `use` LINES ARE READ BACK**. -/
theorem lines_renderUse {path : String} {names : List String}
    (hpath : OneLine path) (hbrace : '\x7b' ∉ path.toList)
    (hnames : ∀ n ∈ names, IsWord n) (rest : String) :
    ∃ ls, lines ((renderUse path names).getD "" ++ rest) = ls ++ lines rest ∧
      (∀ l ∈ ls, isUse l = true) ∧
      ls.flatMap readUse = names.map (Import.mk (words path.toList)) := by
  cases names with
  | nil =>
      refine ⟨[], ?_, fun l hl => absurd hl List.not_mem_nil, rfl⟩
      rw [renderUse, Option.getD_none, String.empty_append, List.nil_append]
  | cons one more =>
      cases more with
      | nil =>
          have hone := hnames one List.mem_cons_self
          exact lines_use hpath (by decide) hone.oneLine (by decide)
            (readUse_one hbrace hone) rest
      | cons two more =>
          exact lines_use hpath (by decide)
            (OneLine.join (by decide) fun n hn => (hnames n hn).oneLine)
            (by decide) (readUse_group hbrace hnames) rest

/-! ## The imports that a column asks for -/

def nullableImport : Import := ⟨["diesel", "sql_types"], "Nullable"⟩

def markerImport (marker : String) : Import :=
  match markerParts marker with
  | .ok (path, name) => ⟨words path.toList, name⟩
  | .error e => ⟨[], e⟩

theorem markerImport_eq {marker path name : String}
    (h : markerParts marker = .ok (path, name)) :
    markerImport marker = ⟨words path.toList, name⟩ := by
  rw [markerImport, h]

def columnImports (c : ModelColumn) : List Import :=
  if c.nullable then [nullableImport, markerImport c.marker]
  else [markerImport c.marker]

/-- A marker is imported from its own module, under a name that is neither
    `Nullable` nor that of another marker. -/
theorem markerImport_facts {marker : String} (h : IsMarker marker) :
    (markerImport marker).full = marker ∧
      (markerImport marker).name = typeText marker false ∧
      (markerImport marker).name ≠ "Nullable" ∧
      IsWord (markerImport marker).name := by
  have hall : ∀ m ∈ markers, (markerImport m).full = m ∧
      (markerImport m).name = typeText m false ∧
      (markerImport m).name ≠ "Nullable" ∧ IsWord (markerImport m).name := by
    decide +kernel
  exact hall marker (mem_markers h)

theorem columnImports_full {c : ModelColumn} (hc : IsMarker c.marker) :
    (columnImports c).map Import.full = columnMarkers c := by
  rw [columnImports, columnMarkers, apply_ite (List.map Import.full)]
  simp only [List.map_cons, List.map_nil, (markerImport_facts hc).1]
  rfl

theorem mem_columnImports {c : ModelColumn} {i : Import} :
    i ∈ columnImports c ↔
      (c.nullable = true ∧ i = nullableImport) ∨ i = markerImport c.marker := by
  rw [columnImports]
  cases c.nullable <;> simp

/-- **SHORT NAMES DO NOT COLLIDE**: over all columns, an import is known by its
    name. -/
theorem columnImports_inj {c d : ModelColumn} (hc : IsMarker c.marker)
    (hd : IsMarker d.marker) {i j : Import} (hi : i ∈ columnImports c)
    (hj : j ∈ columnImports d) (hname : i.name = j.name) : i = j := by
  obtain ⟨-, hshort, hnull, -⟩ := markerImport_facts hc
  obtain ⟨-, hshort', hnull', -⟩ := markerImport_facts hd
  rcases mem_columnImports.mp hi with ⟨-, rfl⟩ | rfl
  · rcases mem_columnImports.mp hj with ⟨-, rfl⟩ | rfl
    · rfl
    · exact absurd hname.symm hnull'
  · rcases mem_columnImports.mp hj with ⟨-, rfl⟩ | rfl
    · exact absurd hname hnull
    · rw [hshort, hshort'] at hname
      rw [(typeText_inj (mem_markers hc) (mem_markers hd) hname).1]

/-- Behind the last arrow of a line. -/
theorem rtakeWhile_arrow {a n arrow behind t : List Char}
    (harrow : arrow = ' ' :: '-' :: behind) (h : '-' ∉ behind ++ t) :
    (a ++ (n ++ (arrow ++ t))).rtakeWhile (· ≠ '-') = behind ++ t := by
  have hcut : (a ++ (n ++ (arrow ++ t))).reverse
      = (behind ++ t).reverse ++ '-' :: (a ++ (n ++ [' '])).reverse := by
    rw [harrow]
    simp only [List.reverse_append, List.reverse_cons, List.append_assoc,
      List.cons_append, List.nil_append, List.reverse_nil]
  have hall : ∀ c ∈ (behind ++ t).reverse, decide (c ≠ '-') = true :=
    all_ne fun hmem => h (List.mem_reverse.mp hmem)
  rw [List.rtakeWhile, hcut, List.takeWhile_append_of_pos hall,
    List.takeWhile_cons_of_neg (by decide), List.append_nil,
    List.reverse_reverse]

/-- The words of a printed type, between an arrow and the end of its line. -/
theorem words_type {name : String} (h : IsWord name) :
    words ("> ".toList ++ (name.toList ++ ",\n".toList)) = [name] ∧
      words ("> ".toList ++ (("Nullable<" ++ name ++ ">").toList ++ ",\n".toList))
        = ["Nullable", name] := by
  have hfront : ∀ cs, words ("> ".toList ++ cs) = words cs := fun cs =>
    (words_append_cons (c := '>') (by decide) [] (' ' :: cs)).trans
      (words_append_cons (c := ' ') (by decide) [] cs)
  have hback : ∀ cs, words (cs ++ ",\n".toList) = words cs := fun cs =>
    (words_append_cons (c := ',') (by decide) cs ['\n']).trans
      (List.append_nil (words cs))
  have hinner : words (name.toList ++ ">".toList) = [name] := by
    refine (words_append_cons (c := '>') (by decide) name.toList []).trans ?_
    rw [words_word h, words_nil, List.append_nil]
  constructor
  · rw [hfront, hback, words_word h]
  · rw [hfront, hback, String.toList_append, String.toList_append,
      List.append_assoc]
    refine (words_append_cons (c := '<') (by decide) "Nullable".toList _).trans ?_
    exact congrArg₂ (· ++ ·) (words_word (by decide : IsWord "Nullable")) hinner

theorem typeNames_line {c : ModelColumn} {line : String} (hc : IsMarker c.marker)
    (h : renderColumn c = .ok line) :
    typeNames line = (columnImports c).map Import.name := by
  have hplain : '-' ∉ "> ".toList
      ++ ((typeText c.marker c.nullable).toList ++ ",\n".toList) := by
    intro hmem
    rcases List.mem_append.mp hmem with hmem | hmem
    · exact absurd hmem (by decide)
    rcases List.mem_append.mp hmem with hmem | hmem
    · exact absurd (typeText_parts (mem_markers hc) _ _ hmem) (by decide)
    · exact absurd hmem (by decide)
  have harrow : " -> ".toList = ' ' :: '-' :: "> ".toList := by decide
  have hline := congrArg (List.rtakeWhile (· ≠ '-')) (renderColumn_text hc h)
  rw [typeNames, hline]
  refine (congrArg words (rtakeWhile_arrow harrow hplain)).trans ?_
  obtain ⟨path, name, hparts⟩ := markerParts_of_isMarker hc
  obtain ⟨-, -, -, hword⟩ := markerImport_facts hc
  rw [markerImport_eq hparts] at hword
  obtain ⟨hwords, hwords'⟩ := words_type hword
  rw [typeText_eq hparts, columnImports, markerImport_eq hparts]
  cases c.nullable with
  | false => exact hwords
  | true => exact hwords'

/-! ## The imports of a table -/

/-- As they are printed. -/
def printedImports (t : ModelTable) (u : UseNames) : List Import :=
  (u.dieselNames t).map (Import.mk ["diesel", "sql_types"])
    ++ u.dualdbNames.map (Import.mk ["diesel_dualdb", "sql_types"])

section Table

variable {t : ModelTable} {u : UseNames}

theorem mem_dieselNames (hu : Collected t.columns u) (n : String) :
    n ∈ u.dieselNames t ↔ (n = "Nullable" ∧ ∃ c ∈ t.columns, c.nullable = true) ∨
      Named "diesel::sql_types" n t.columns := by
  rw [UseNames.dieselNames, List.mem_insertionSort, ← hu.diesel, ← List.any_eq_true]
  cases hany : t.columns.any (·.nullable) with
  | false => simp
  | true =>
      cases hthere : u.diesel.contains "Nullable" with
      | false => simp [or_comm]
      | true =>
          have hmem := List.contains_iff_mem.mp hthere
          simp only [Bool.not_true, Bool.and_false, Bool.false_eq_true, if_false,
            and_true]
          exact (or_iff_right_of_imp fun hn => hn ▸ hmem).symm

theorem mem_dualdbNames (hu : Collected t.columns u) (n : String) :
    n ∈ u.dualdbNames ↔ Named "diesel_dualdb::sql_types" n t.columns := by
  rw [UseNames.dualdbNames, List.mem_insertionSort, hu.dualdb]

theorem nodup_dieselNames (hu : Collected t.columns u) :
    (u.dieselNames t).Nodup := by
  rw [UseNames.dieselNames, (List.perm_insertionSort _ _).nodup_iff]
  split
  · next hadd =>
      rw [Bool.and_eq_true, Bool.not_eq_true'] at hadd
      refine List.nodup_append.mpr
        ⟨hu.diesel_nodup, List.nodup_singleton _, ?_⟩
      rintro n hn m hm rfl
      rw [List.mem_singleton.mp hm] at hn
      rw [List.contains_iff_mem.mpr hn] at hadd
      cases hadd.2
  · exact hu.diesel_nodup

theorem nodup_dualdbNames (hu : Collected t.columns u) : u.dualdbNames.Nodup := by
  rw [UseNames.dualdbNames, (List.perm_insertionSort _ _).nodup_iff]
  exact hu.dualdb_nodup

/-- **WHAT IS IMPORTED IS WHAT THE COLUMNS ASK FOR**. -/
theorem mem_printedImports (ht : Marked t) (hu : Collected t.columns u)
    (i : Import) :
    i ∈ printedImports t u ↔ ∃ c ∈ t.columns, i ∈ columnImports c := by
  have hdiesel : words "diesel::sql_types".toList = ["diesel", "sql_types"] := by
    decide
  have hdualdb : words "diesel_dualdb::sql_types".toList
      = ["diesel_dualdb", "sql_types"] := by
    decide
  rw [printedImports, List.mem_append, List.mem_map, List.mem_map]
  constructor
  · rintro (⟨n, hn, rfl⟩ | ⟨n, hn, rfl⟩)
    · rcases (mem_dieselNames hu n).mp hn with ⟨rfl, c, hc, hnull⟩ | ⟨c, hc, hparts⟩
      · exact ⟨c, hc, mem_columnImports.mpr (Or.inl ⟨hnull, rfl⟩)⟩
      · refine ⟨c, hc, mem_columnImports.mpr (Or.inr ?_)⟩
        rw [markerImport_eq hparts, hdiesel]
    · obtain ⟨c, hc, hparts⟩ := (mem_dualdbNames hu n).mp hn
      refine ⟨c, hc, mem_columnImports.mpr (Or.inr ?_)⟩
      rw [markerImport_eq hparts, hdualdb]
  · rintro ⟨c, hc, hi⟩
    rcases mem_columnImports.mp hi with ⟨hnull, rfl⟩ | rfl
    · -- `Nullable` is pushed after the loop, onto the list of diesel's names
      exact Or.inl ⟨"Nullable",
        (mem_dieselNames hu _).mpr (Or.inl ⟨rfl, c, hc, hnull⟩), rfl⟩
    · obtain ⟨path, name, hparts, ⟨rfl, -⟩ | ⟨rfl, -⟩⟩ := markerParts_module (ht c hc)
      · refine Or.inl ⟨name,
          (mem_dieselNames hu name).mpr (Or.inr ⟨c, hc, hparts⟩), ?_⟩
        rw [markerImport_eq hparts, hdiesel]
      · refine Or.inr ⟨name, (mem_dualdbNames hu name).mpr ⟨c, hc, hparts⟩, ?_⟩
        rw [markerImport_eq hparts, hdualdb]

theorem nodup_printedImports (hu : Collected t.columns u) :
    (printedImports t u).Nodup := by
  have hmk : ∀ path, Function.Injective (Import.mk path) := fun _ _ _ h =>
    (Import.mk.inj h).2
  refine List.nodup_append.mpr ⟨?_, ?_, ?_⟩
  · exact (nodup_dieselNames hu).map (hmk _)
  · exact (nodup_dualdbNames hu).map (hmk _)
  · rintro i hi j hj rfl
    obtain ⟨n, -, rfl⟩ := List.mem_map.mp hi
    obtain ⟨n', -, hn'⟩ := List.mem_map.mp hj
    exact absurd (Import.mk.inj hn').1 (by decide)

/-- Each name is imported once, over both modules. -/
theorem names_once (ht : Marked t) (hu : Collected t.columns u) :
    ((printedImports t u).map Import.name).Nodup := by
  refine (nodup_printedImports hu).map_on fun i hi j hj hname => ?_
  obtain ⟨c, hc, hic⟩ := (mem_printedImports ht hu i).mp hi
  obtain ⟨d, hd, hjd⟩ := (mem_printedImports ht hu j).mp hj
  exact columnImports_inj (ht c hc) (ht d hd) hic hjd hname

theorem sorted_of_nodup {names : List String}
    (h : (names.insertionSort (· ≤ ·)).Nodup) :
    (names.insertionSort (· ≤ ·)).Pairwise (· < ·) :=
  (List.pairwise_insertionSort (· ≤ ·) names).imp₂
    (fun _ _ hle hne => lt_of_le_of_ne hle hne) h

/-- The names of the imports are those that the columns ask for. -/
theorem mem_names (ht : Marked t) (hu : Collected t.columns u) (n : String) :
    n ∈ (printedImports t u).map Import.name ↔
      ∃ c ∈ t.columns, n ∈ (columnImports c).map Import.name := by
  constructor
  · intro hn
    obtain ⟨i, hi, rfl⟩ := List.mem_map.mp hn
    obtain ⟨c, hc, hic⟩ := (mem_printedImports ht hu i).mp hi
    exact ⟨c, hc, List.mem_map_of_mem hic⟩
  · rintro ⟨c, hc, hn⟩
    obtain ⟨i, hic, rfl⟩ := List.mem_map.mp hn
    exact List.mem_map_of_mem ((mem_printedImports ht hu i).mpr ⟨c, hc, hic⟩)

/-- `Nullable` is asked for by the nullable columns alone. -/
theorem nullable_name {c : ModelColumn} (hc : IsMarker c.marker) :
    "Nullable" ∈ (columnImports c).map Import.name ↔ c.nullable = true := by
  constructor
  · intro hn
    obtain ⟨i, hi, hname⟩ := List.mem_map.mp hn
    rcases mem_columnImports.mp hi with ⟨hnull, -⟩ | rfl
    · exact hnull
    · exact absurd hname (markerImport_facts hc).2.2.1
  · intro hnull
    exact List.mem_map.mpr
      ⟨nullableImport, mem_columnImports.mpr (Or.inl ⟨hnull, rfl⟩), rfl⟩

/-- The imports of a table match the lines of its columns. -/
theorem printedImports_match {ls : List String} (ht : Marked t)
    (hu : Collected t.columns u) (hls : t.columns.mapM renderColumn = .ok ls) :
    ImportsMatch t ls (printedImports t u) := by
  have hlines : List.Forall₂ (fun c line =>
      c ∈ t.columns ∧ typeNames line = (columnImports c).map Import.name)
      t.columns ls := by
    have hmem := (List.forall₂_and_left (p := (· ∈ t.columns)) _ _).mpr
      ⟨fun _ hc => hc, mapM_ok.mp hls⟩
    exact hmem.imp fun c _ h => ⟨h.1, typeNames_line (ht c h.1) h.2⟩
  have honce := names_once ht hu
  refine ⟨⟨_, _, rfl, ?_, ?_⟩, honce, fun n => ?_, ?_, fun i hi => ?_, ?_⟩
  · exact sorted_of_nodup (nodup_dieselNames hu)
  · exact sorted_of_nodup (nodup_dualdbNames hu)
  · rw [mem_names ht hu]
    constructor
    · rintro ⟨c, hc, hn⟩
      obtain ⟨line, hline, -, hnames⟩ := forall₂_of_mem_left hlines hc
      exact ⟨line, hline, hnames ▸ hn⟩
    · rintro ⟨line, hline, hn⟩
      obtain ⟨c, hc, -, hnames⟩ := forall₂_of_mem_left hlines.flip hline
      exact ⟨c, hc, hnames ▸ hn⟩
  · rw [mem_names ht hu]
    exact exists_congr fun c =>
      and_congr_right fun hc => nullable_name (ht c hc)
  · obtain ⟨c, hc, hic⟩ := (mem_printedImports ht hu i).mp hi
    exact ⟨c, hc, columnImports_full (ht c hc) ▸ List.mem_map_of_mem hic⟩
  · refine hlines.imp fun c line h => ?_
    -- the names of a column are those of its imports, and so resolve to them
    have hresolve : ∀ i ∈ columnImports c,
        resolve (printedImports t u) i.name = some i.full := fun i hi =>
      resolve_of_mem honce ((mem_printedImports ht hu i).mpr ⟨c, h.1, hi⟩)
    rw [h.2, ← columnImports_full (ht c h.1), List.map_map, List.map_map]
    exact List.map_congr_left hresolve

end Table

/-! ## The printed block -/

theorem named_word {t : ModelTable} (ht : Marked t) {path n : String}
    (h : Named path n t.columns) : IsWord n := by
  obtain ⟨c, hc, hparts⟩ := h
  obtain ⟨-, -, -, hword⟩ := markerImport_facts (ht c hc)
  rwa [markerImport_eq hparts] at hword

/-- The first lines of a block: what opens it, the imports `b` and `c`, and an
    empty line. -/
theorem block_lines {a d o nl z k : String} (hopen : a = o ++ nl)
    (hblank : d = z ++ nl ++ k) (b c e f g h i j : String) :
    a ++ b ++ c ++ d ++ e ++ f ++ g ++ h ++ i ++ j
      = o ++ nl ++ (b ++ (c ++ (z ++ nl
        ++ (k ++ e ++ f ++ g ++ h ++ i ++ j)))) := by
  rw [hopen, hblank]
  simp only [String.append_assoc]

/-- Such a block is read up to the empty line. -/
theorem readUses_block {text o b c rest : String} {is js : List Import}
    (htext : text = o ++ "\n" ++ (b ++ (c ++ ("" ++ "\n" ++ rest))))
    (ho : OneLine o)
    (hb : ∀ r, ∃ ls, lines (b ++ r) = ls ++ lines r ∧
      (∀ l ∈ ls, isUse l = true) ∧ ls.flatMap readUse = is)
    (hc : ∀ r, ∃ ls, lines (c ++ r) = ls ++ lines r ∧
      (∀ l ∈ ls, isUse l = true) ∧ ls.flatMap readUse = js) :
    importsOf text = is ++ js := by
  obtain ⟨ls, hls, huse, hread⟩ := hb (c ++ ("" ++ "\n" ++ rest))
  obtain ⟨ls', hls', huse', hread'⟩ := hc ("" ++ "\n" ++ rest)
  have hempty : readUses ("" :: lines rest) = [] := rfl
  rw [importsOf, htext, lines_line ho, List.drop_succ_cons, List.drop_zero, hls,
    hls', lines_line (by decide), readUses_append huse, readUses_append huse',
    hread, hread', hempty, List.append_nil]

/-- **THE IMPORTS OF A BLOCK ARE READ OFF ITS TEXT**. -/
theorem importsOf_block {t : ModelTable} {u : UseNames} (ht : Marked t)
    (hu : Collected t.columns u) (columns : List String) :
    importsOf (blockText (u.dieselNames t) u.dualdbNames t.name
      t.primaryKeyCols columns) = printedImports t u := by
  have hdiesel : ∀ n ∈ u.dieselNames t, IsWord n := by
    intro n hn
    rcases (mem_dieselNames hu n).mp hn with ⟨rfl, -⟩ | hnamed
    · decide
    · exact named_word ht hnamed
  have hdualdb : ∀ n ∈ u.dualdbNames, IsWord n := fun n hn =>
    named_word ht ((mem_dualdbNames hu n).mp hn)
  have hopen : "diesel::table! \x7b\n" = "diesel::table! \x7b" ++ "\n" := by
    decide
  have hblank : "\n    " = "" ++ "\n" ++ "    " := by decide
  exact readUses_block (block_lines hopen hblank _ _ _ _ _ _ _ _) (by decide)
    (lines_renderUse (by decide) (by decide) hdiesel)
    (lines_renderUse (by decide) (by decide) hdualdb)

/-- **IMPORTS MATCH USES**: every table of a model built by `apply` prints as a
    block whose `use` lines import the names of its column lines, each once and
    from the module of its marker. -/
theorem imports_match_uses {p : Sqlparser} {stmts : List Statement} {m : Model}
    (hm : stmts.foldlM (Model.apply p) Model.empty = .ok m) {t : ModelTable}
    (ht : t ∈ m.tables) :
    (∀ c ∈ t.columns, ∃ parts, markerParts c.marker = .ok parts) ∧
    ∃ text columns head, renderTableMacro t = .ok text ∧
      t.columns.mapM renderColumn = .ok columns ∧
      text = head ++ join "" columns ++ "    \x7d\n\x7d" ∧
      ImportsMatch t columns (importsOf text) := by
  have hmarked := fold_marked hm t ht
  constructor
  · intro c hc
    obtain ⟨path, name, hparts⟩ := markerParts_of_isMarker (hmarked c hc)
    exact ⟨(path, name), hparts⟩
  · obtain ⟨text, htext⟩ := renderTableMacro_total hmarked
    obtain ⟨u, columns, hu, hcolumns, rfl⟩ := renderTableMacro_ok.mp htext
    have hcollected := collected_of_marked hmarked hu
    refine ⟨_, columns, _, htext, hcolumns, rfl, ?_⟩
    rw [importsOf_block hmarked hcollected]
    exact printedImports_match hmarked hcollected hcolumns

section Statements

open DualdbSqlText

/-- `CREATE TABLE users (id UUID NOT NULL, name TEXT)` -/
def usersTable : ModelTable :=
  ⟨"users", [⟨"id", "diesel_dualdb::sql_types::Uuid", false⟩,
    ⟨"name", "diesel::sql_types::Text", true⟩], [], []⟩

def usersStatements : List Statement :=
  [createTable (bare "users") [col "id" .uuid [.notNull], col "name" .text []] []]

theorem imports_match_uses_of_users :
    usersStatements.foldlM (Model.apply (parserOf [])) Model.empty
        = .ok ⟨[usersTable]⟩ ∧
      ∃ text columns, renderTableMacro usersTable = .ok text ∧
        usersTable.columns.mapM renderColumn = .ok columns ∧
        ImportsMatch usersTable columns (importsOf text) := by
  have hrun : usersStatements.foldlM (Model.apply (parserOf [])) Model.empty
      = .ok ⟨[usersTable]⟩ := by
    decide +kernel
  obtain ⟨-, text, columns, head, htext, hcolumns, -, hmatch⟩ :=
    imports_match_uses hrun (t := usersTable) List.mem_cons_self
  exact ⟨hrun, text, columns, htext, hcolumns, hmatch⟩

example : (renderTableMacro usersTable).map importsOf
    = .ok [⟨["diesel", "sql_types"], "Nullable"⟩,
      ⟨["diesel", "sql_types"], "Text"⟩,
      ⟨["diesel_dualdb", "sql_types"], "Uuid"⟩] := by
  decide +kernel

end Statements

end DualdbImports
