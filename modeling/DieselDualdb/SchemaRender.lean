import DieselDualdb.SchemaModel
import DieselDualdb.Lib.RustStr
import Mathlib.Data.List.Sort
import Mathlib.Data.String.Basic

/-!
# Printing `schema.rs`

The text of the generated file, piece by piece as the source prints it.
`marker_parts` unwraps an `rfind` with `expect`; the panic is an error here,
and `renderSchemaRs_total` shows that no model built by `Model.apply` meets it:
every marker in such a model stands in a row of the mapping table.
-/

namespace DualdbRender

open DualdbAst DualdbTypeMap DualdbModel FallibleRun FirstUpdate RustStr

def renderUse (path : String) : List String → Option String
  | [] => none
  | [one] => some ("    use " ++ path ++ "::" ++ one ++ ";\n")
  | many =>
      some ("    use " ++ path ++ "::\x7b" ++ join ", " many ++ "\x7d;\n")

/-- Cut at the first `::` of a reversed text, `after` being what follows it. -/
def rfindSep (after : List Char) : List Char → Option (List Char × List Char)
  | ':' :: ':' :: rest => some (rest.reverse, after)
  | c :: rest => rfindSep (c :: after) rest
  | [] => none

/-- The module path and the name of a marker, cut at its last `::`. -/
def markerParts (marker : String) : Except String (String × String) :=
  match rfindSep [] marker.toList.reverse with
  | some (path, name) => .ok (String.ofList path, String.ofList name)
  | none => .error "qualified marker path"

/-- The two import lists of a `table!` block while they are collected. -/
structure UseNames where
  diesel : List String
  dualdb : List String

def pushName (names : List String) (name : String) : List String :=
  if names.contains name then names else names ++ [name]

def UseNames.pushColumn (u : UseNames) (c : ModelColumn) :
    Except String UseNames := do
  let (path, name) ← markerParts c.marker
  if (stripPrefix path "diesel_dualdb").isSome then
    pure { u with dualdb := pushName u.dualdb name }
  else
    pure { u with diesel := pushName u.diesel name }

/-- One line of a `table!` block. -/
def renderColumn (c : ModelColumn) : Except String String := do
  let (_, name) ← markerParts c.marker
  let ty := if c.nullable then "Nullable<" ++ name ++ ">" else name
  pure ("        " ++ c.name ++ " -> " ++ ty ++ ",\n")

def renderTableMacro (t : ModelTable) : Except String String := do
  let u ← t.columns.foldlM UseNames.pushColumn ⟨[], []⟩
  let dieselNames :=
    if t.columns.any (·.nullable) && !u.diesel.contains "Nullable" then
      u.diesel ++ ["Nullable"]
    else u.diesel
  let dieselUse :=
    renderUse "diesel::sql_types" (dieselNames.insertionSort (· ≤ ·))
  let dualdbUse :=
    renderUse "diesel_dualdb::sql_types" (u.dualdb.insertionSort (· ≤ ·))
  let columns ← t.columns.mapM renderColumn
  pure ("diesel::table! \x7b\n" ++ dieselUse.getD "" ++ dualdbUse.getD ""
    ++ "\n    " ++ t.name ++ " (" ++ join ", " t.primaryKeyCols ++ ") \x7b\n"
    ++ join "" columns ++ "    \x7d\n\x7d")

/-- One line for each recorded foreign key column. -/
def joinables (t : ModelTable) : List String :=
  t.foreignKeys.map fun (col, parent) =>
    "diesel::joinable!(" ++ t.name ++ " -> " ++ parent ++ " (" ++ col ++ "));"

def renderSchemaRs (m : Model) : Except String String := do
  let blocks ← m.tables.mapM renderTableMacro
  let lines := m.tables.flatMap joinables
  let tail :=
    if lines.isEmpty then ""
    else "\n\n" ++ join "\n" lines
      ++ "\n\ndiesel::allow_tables_to_appear_in_same_query!(\n    "
      ++ join ",\n    " (m.tables.map ModelTable.name) ++ ",\n);"
  pure ("// @generated by diesel-dualdb-schema — do not edit by hand.\n\n"
    ++ join "\n\n" blocks ++ tail ++ "\n")

/-! ## The file in closed form -/

/-- What a block imports from diesel, `Nullable` included. -/
def UseNames.dieselNames (u : UseNames) (t : ModelTable) : List String :=
  (if t.columns.any (·.nullable) && !u.diesel.contains "Nullable" then
    u.diesel ++ ["Nullable"]
  else u.diesel).insertionSort (· ≤ ·)

def UseNames.dualdbNames (u : UseNames) : List String :=
  u.dualdb.insertionSort (· ≤ ·)

/-- A block around its imports, its key and its column lines. -/
def blockText (dieselNames dualdbNames : List String) (name : String)
    (key columns : List String) : String :=
  "diesel::table! \x7b\n"
    ++ (renderUse "diesel::sql_types" dieselNames).getD ""
    ++ (renderUse "diesel_dualdb::sql_types" dualdbNames).getD ""
    ++ "\n    " ++ name ++ " (" ++ join ", " key ++ ") \x7b\n"
    ++ join "" columns ++ "    \x7d\n\x7d"

theorem renderTableMacro_ok {t : ModelTable} {text : String} :
    renderTableMacro t = .ok text ↔
      ∃ u columns, t.columns.foldlM UseNames.pushColumn ⟨[], []⟩ = .ok u ∧
        t.columns.mapM renderColumn = .ok columns ∧
        text = blockText (u.dieselNames t) u.dualdbNames t.name
          t.primaryKeyCols columns := by
  constructor
  · intro h
    obtain ⟨u, hu, hrest⟩ := bind_ok.mp h
    obtain ⟨columns, hcolumns, htext⟩ := bind_ok.mp hrest
    exact ⟨u, columns, hu, hcolumns, (pure_ok.mp htext).symm⟩
  · rintro ⟨u, columns, hu, hcolumns, htext⟩
    exact bind_ok.mpr ⟨u, hu, bind_ok.mpr
      ⟨columns, hcolumns, pure_ok.mpr htext.symm⟩⟩

/-- A file of blocks and `joinable!` lines, the tables listed behind them. -/
def fileText (blocks lines names : List String) : String :=
  let tail :=
    if lines.isEmpty then ""
    else "\n\n" ++ join "\n" lines
      ++ "\n\ndiesel::allow_tables_to_appear_in_same_query!(\n    "
      ++ join ",\n    " names ++ ",\n);"
  "// @generated by diesel-dualdb-schema — do not edit by hand.\n\n"
    ++ join "\n\n" blocks ++ tail ++ "\n"

theorem renderSchemaRs_ok {m : Model} {text : String} :
    renderSchemaRs m = .ok text ↔
      ∃ blocks, m.tables.mapM renderTableMacro = .ok blocks ∧
        text = fileText blocks (m.tables.flatMap joinables)
          (m.tables.map ModelTable.name) := by
  constructor
  · intro h
    obtain ⟨blocks, hblocks, htext⟩ := bind_ok.mp h
    exact ⟨blocks, hblocks, (pure_ok.mp htext).symm⟩
  · rintro ⟨blocks, hblocks, htext⟩
    exact bind_ok.mpr ⟨blocks, hblocks, pure_ok.mpr htext.symm⟩

/-! ## No panic on a model built by `apply` -/

/-- A marker the mapping table hands out. -/
def IsMarker (marker : String) : Prop :=
  ∃ dt row, mapType dt = some row ∧ row.marker = marker

def Marked (t : ModelTable) : Prop := ∀ c ∈ t.columns, IsMarker c.marker

/-- Every marker of the table splits into a module path and a name. -/
theorem markerParts_of_isMarker {marker : String} (h : IsMarker marker) :
    ∃ path name, markerParts marker = .ok (path, name) := by
  obtain ⟨dt, row, hrow, rfl⟩ := h
  cases dt <;> cases hrow <;> exact ⟨_, _, rfl⟩

theorem columnsOf_marked {cs : List ColumnDef} {rows : List Mapped}
    (h : RowsOf cs rows) : ∀ c ∈ columnsOf cs rows, IsMarker c.marker := by
  induction h with
  | nil => intro c hc; cases hc
  | @cons cd row cs rows hrow _ ih =>
      intro c hc
      rcases List.mem_cons.mp hc with rfl | hc
      · exact ⟨cd.dataType, row, hrow, rfl⟩
      · exact ih c hc

theorem operationUpdate_marked {op : AlterTableOperation} {t : ModelTable}
    (h : Marked t) : Marked (operationUpdate op t) := by
  cases op with
  | addColumn kw ine c pos =>
      cases hrow : mapType c.dataType with
      | none => simp only [operationUpdate, hrow]; exact h
      | some row =>
          simp only [operationUpdate, hrow]
          intro x hx
          rcases List.mem_append.mp hx with hx | hx
          · exact h x hx
          · rw [List.mem_singleton.mp hx]
            exact ⟨c.dataType, row, hrow, rfl⟩
  | dropColumn c ie cascade =>
      intro x hx
      exact h x (List.mem_filter.mp hx).1
  | addConstraint _ | dropConstraint _ _ _ | dropPrimaryKey | renameColumn _ _
  | renameTable _ | changeColumn _ _ _ _ _ | modifyColumn _ _ _ _
  | alterColumn _ _ | other _ => exact h

theorem applyOperation_marked {p : Sqlparser} {tname : String}
    {m m' : Model} {op : AlterTableOperation}
    (h : ∀ t ∈ m.tables, Marked t)
    (hop : m.applyOperation p tname op = .ok m') :
    ∀ t ∈ m'.tables, Marked t := by
  rcases applyOperation_cases hop with ⟨rfl, -⟩ | hupd
  · exact h
  · intro t ht
    rcases mem_updateFirst hupd ht with ht | ⟨t₀, ht₀, -, rfl⟩
    · exact h t ht
    · exact operationUpdate_marked (h t₀ ht₀)

theorem apply_marked {p : Sqlparser} {m m' : Model} {s : Statement}
    (h : ∀ t ∈ m.tables, Marked t) (hs : m.apply p s = .ok m') :
    ∀ t ∈ m'.tables, Marked t := by
  cases s with
  | createTable ct =>
      obtain ⟨rows, hrows, rfl⟩ := apply_createTable_ok.mp hs
      intro t ht
      rcases List.mem_append.mp ht with ht | ht
      · exact h t ht
      · rw [List.mem_singleton.mp ht]
        exact columnsOf_marked hrows
  | alterTable name ie only ops cl =>
      exact run_invariant (I := fun m : Model => ∀ t ∈ m.tables, Marked t)
        (fun _ _ _ hm hop => applyOperation_marked hm hop) ops m m' h hs
  | drop _ _ _ _ _ | createIndex _ | other _ =>
      rw [← Except.ok.inj hs]; exact h

/-- A model built by `apply` has mapped markers only. -/
theorem fold_marked {p : Sqlparser} {stmts : List Statement} {m : Model}
    (h : stmts.foldlM (Model.apply p) Model.empty = .ok m) :
    ∀ t ∈ m.tables, Marked t := by
  have hempty : ∀ t ∈ Model.empty.tables, Marked t := by
    intro t ht
    cases ht
  exact run_invariant (I := fun m : Model => ∀ t ∈ m.tables, Marked t)
    (fun _ _ _ hm hs => apply_marked hm hs) stmts _ _ hempty h

theorem renderColumn_total {c : ModelColumn} (h : IsMarker c.marker) :
    ∃ line, renderColumn c = .ok line := by
  obtain ⟨path, name, hp⟩ := markerParts_of_isMarker h
  exact ⟨_, by rw [renderColumn, hp]; rfl⟩

theorem pushColumn_total {u : UseNames} {c : ModelColumn}
    (h : IsMarker c.marker) : ∃ u', u.pushColumn c = .ok u' := by
  obtain ⟨path, name, hp⟩ := markerParts_of_isMarker h
  rw [UseNames.pushColumn, hp]
  by_cases hd : (stripPrefix path "diesel_dualdb").isSome
  · exact ⟨_, if_pos hd⟩
  · exact ⟨_, if_neg hd⟩

/-- A table with mapped markers prints. -/
theorem renderTableMacro_total {t : ModelTable} (h : Marked t) :
    ∃ block, renderTableMacro t = .ok block := by
  have huse : ∃ u, t.columns.foldlM UseNames.pushColumn ⟨[], []⟩ = .ok u :=
    foldlM_total (fun _ c hc => pushColumn_total (h c hc)) _
  obtain ⟨u, hu⟩ := huse
  obtain ⟨columns, hcolumns⟩ :=
    mapM_total fun c hc => renderColumn_total (h c hc)
  exact ⟨_, bind_ok.mpr ⟨u, hu, bind_ok.mpr ⟨columns, hcolumns, rfl⟩⟩⟩

/-- **`schema.rs` ALWAYS PRINTS**: the `expect` in `marker_parts` is never
    reached on a model whose markers come from the mapping table. -/
theorem renderSchemaRs_total {m : Model} (h : ∀ t ∈ m.tables, Marked t) :
    ∃ text, renderSchemaRs m = .ok text := by
  obtain ⟨blocks, hblocks⟩ :=
    mapM_total fun t ht => renderTableMacro_total (h t ht)
  exact ⟨_, bind_ok.mpr ⟨blocks, hblocks, rfl⟩⟩

/-! ## What a block imports -/

theorem mem_pushName {names : List String} {name n : String} :
    n ∈ pushName names name ↔ n ∈ names ∨ n = name := by
  rw [pushName]
  split
  · next hthere =>
      refine (or_iff_left_of_imp ?_).symm
      rintro rfl
      exact List.contains_iff_mem.mp hthere
  · rw [List.mem_append, List.mem_singleton]

theorem nodup_pushName {names : List String} (h : names.Nodup) (name : String) :
    (pushName names name).Nodup := by
  rw [pushName]
  split
  · exact h
  · next hnot =>
      refine List.nodup_append.mpr ⟨h, List.nodup_singleton name, ?_⟩
      rintro n hn m hm rfl
      rw [List.mem_singleton.mp hm] at hn
      exact hnot (List.contains_iff_mem.mpr hn)

/-- A marker names a type of diesel or of this crate; the prefix test of the
    loop tells which. -/
theorem markerParts_module {marker : String} (h : IsMarker marker) :
    ∃ path name, markerParts marker = .ok (path, name) ∧
      (path = "diesel::sql_types" ∧
          (stripPrefix path "diesel_dualdb").isSome = false ∨
        path = "diesel_dualdb::sql_types" ∧
          (stripPrefix path "diesel_dualdb").isSome = true) := by
  obtain ⟨dt, row, hrow, rfl⟩ := h
  cases dt <;> cases hrow <;> exact ⟨_, _, rfl, by decide⟩

/-- The columns whose markers the module `path` has under the name `n`. -/
def Named (path n : String) (cs : List ModelColumn) : Prop :=
  ∃ c ∈ cs, markerParts c.marker = .ok (path, n)

/-- **THE LOOP OVER THE COLUMNS**: the two lists have the names of the columns
    so far, each name once and under its own module. -/
structure Collected (cs : List ModelColumn) (u : UseNames) : Prop where
  diesel : ∀ n, n ∈ u.diesel ↔ Named "diesel::sql_types" n cs
  dualdb : ∀ n, n ∈ u.dualdb ↔ Named "diesel_dualdb::sql_types" n cs
  diesel_nodup : u.diesel.Nodup
  dualdb_nodup : u.dualdb.Nodup

theorem named_concat {path n : String} {cs : List ModelColumn}
    {c : ModelColumn} : Named path n (cs ++ [c]) ↔
      Named path n cs ∨ markerParts c.marker = .ok (path, n) := by
  constructor
  · rintro ⟨d, hd, hn⟩
    rcases List.mem_append.mp hd with hd | hd
    · exact Or.inl ⟨d, hd, hn⟩
    · rw [List.mem_singleton.mp hd] at hn
      exact Or.inr hn
  · rintro (⟨d, hd, hn⟩ | hn)
    · exact ⟨d, List.mem_append_left _ hd, hn⟩
    · exact ⟨c, List.mem_append_right _ List.mem_cons_self, hn⟩

/-- A column goes to the list of its module, and to no other. -/
theorem pushName_named {names : List String} {cs : List ModelColumn}
    {c : ModelColumn} {path path' name : String}
    (hc : markerParts c.marker = .ok (path, name))
    (h : ∀ n, n ∈ names ↔ Named path' n cs) :
    (path = path' →
      ∀ n, n ∈ pushName names name ↔ Named path' n (cs ++ [c])) ∧
    (path ≠ path' → ∀ n, n ∈ names ↔ Named path' n (cs ++ [c])) := by
  constructor
  · rintro rfl n
    rw [mem_pushName, named_concat, h, hc, Except.ok.injEq, Prod.mk.injEq]
    exact or_congr_right ⟨fun hn => ⟨rfl, hn.symm⟩, fun hn => hn.2.symm⟩
  · intro hne n
    rw [named_concat, h, hc, Except.ok.injEq, Prod.mk.injEq]
    exact (or_iff_left fun hn => hne hn.1).symm

theorem pushColumn_collected {cs : List ModelColumn} {u u' : UseNames}
    {c : ModelColumn} (h : Collected cs u) (hc : IsMarker c.marker)
    (hstep : u.pushColumn c = .ok u') : Collected (cs ++ [c]) u' := by
  obtain ⟨path, name, hparts, hmodule⟩ := markerParts_module hc
  rw [UseNames.pushColumn, hparts] at hstep
  obtain ⟨hown, hother⟩ := pushName_named hparts h.diesel
  obtain ⟨hown', hother'⟩ := pushName_named hparts h.dualdb
  rcases hmodule with ⟨hpath, hpre⟩ | ⟨hpath, hpre⟩
  · have hnot : ¬ (stripPrefix path "diesel_dualdb").isSome = true :=
      Bool.eq_false_iff.mp hpre
    rw [← pure_ok.mp ((if_neg hnot).symm.trans hstep)]
    refine ⟨hown hpath, hother' ?_, nodup_pushName h.diesel_nodup name,
      h.dualdb_nodup⟩
    rw [hpath]
    decide
  · rw [← pure_ok.mp ((if_pos hpre).symm.trans hstep)]
    refine ⟨hother ?_, hown' hpath, h.diesel_nodup,
      nodup_pushName h.dualdb_nodup name⟩
    rw [hpath]
    decide

theorem pushColumns_collected {cs done : List ModelColumn} {u u' : UseNames}
    (h : Collected done u) (hcs : ∀ c ∈ cs, IsMarker c.marker)
    (hrun : cs.foldlM UseNames.pushColumn u = .ok u') :
    Collected (done ++ cs) u' := by
  induction cs generalizing done u with
  | nil =>
      rw [← foldlM_nil_ok.mp hrun, List.append_nil]
      exact h
  | cons c cs ih =>
      rw [List.forall_mem_cons] at hcs
      obtain ⟨u₁, hu₁, hrest⟩ := foldlM_cons_ok.mp hrun
      have hone := pushColumn_collected h hcs.1 hu₁
      rw [List.append_cons]
      exact ih hone hcs.2 hrest

/-- What is collected from a table with mapped markers. -/
theorem collected_of_marked {t : ModelTable} {u : UseNames} (h : Marked t)
    (hu : t.columns.foldlM UseNames.pushColumn ⟨[], []⟩ = .ok u) :
    Collected t.columns u := by
  have hnone : Collected [] ⟨[], []⟩ := by
    refine ⟨fun n => ?_, fun n => ?_, List.nodup_nil, List.nodup_nil⟩
    · exact ⟨fun hn => absurd hn List.not_mem_nil,
        fun ⟨c, hc, _⟩ => absurd hc List.not_mem_nil⟩
    · exact ⟨fun hn => absurd hn List.not_mem_nil,
        fun ⟨c, hc, _⟩ => absurd hc List.not_mem_nil⟩
  exact pushColumns_collected hnone h hu

end DualdbRender
