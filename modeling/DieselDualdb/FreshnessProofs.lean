import DieselDualdb.SchemaFileProofs
import DieselDualdb.Lib.UniqueReading

/-!
# Equal files, equal schemas

Whether `schema.rs` is fresh is checked by printing it again and comparing the
texts.  The format can be read in one way: a name ends where a character comes
that no name has, the imports where an empty line comes, the lists where what
comes next does not start an entry.  So the text determines the tables
(`schema_rs_eq_iff`), and a change of the model changes the file.
-/

namespace DualdbFresh

open DualdbAst DualdbTypeMap DualdbModel DualdbRender DualdbMigration
open DualdbLinks DualdbJoin DualdbCoherence DualdbSchemaFile FallibleRun
open Pointwise RustStr RustIdents UniqueReading

/-! ## Names and types -/

/-- What an unquoted SQL identifier is made of; of letters beyond ASCII, any. -/
def IsSqlPart (c : Char) : Prop :=
  128 ≤ c.toNat ∨ c.isAlphanum = true ∨ c ∈ ['_', '#', '@', '$']

instance : DecidablePred IsSqlPart :=
  fun _ => inferInstanceAs (Decidable (_ ∨ _))

def IsSqlName (s : String) : Prop := s ≠ "" ∧ ∀ c ∈ s.toList, IsSqlPart c

-- letter by letter, not over all of Unicode
instance : DecidablePred IsSqlName := fun s =>
  haveI : Decidable (∀ c ∈ s.toList, IsSqlPart c) :=
    List.decidableBAll _ s.toList
  inferInstanceAs (Decidable (_ ∧ _))

/-- The markers of the mapping table. -/
def markers : List String :=
  ["diesel_dualdb::sql_types::Uuid", "diesel_dualdb::sql_types::Timestamp",
    "diesel_dualdb::sql_types::Json", "diesel_dualdb::sql_types::Bytes",
    "diesel_dualdb::sql_types::Decimal", "diesel::sql_types::Text",
    "diesel::sql_types::SmallInt", "diesel::sql_types::Integer",
    "diesel::sql_types::BigInt", "diesel::sql_types::Float",
    "diesel::sql_types::Bool"]

theorem mem_markers {marker : String} (h : IsMarker marker) :
    marker ∈ markers := by
  obtain ⟨dt, row, hrow, rfl⟩ := h
  cases dt <;> cases hrow <;> decide

/-- The type of a column line. -/
def typeText (marker : String) (nullable : Bool) : String :=
  match markerParts marker with
  | .ok (_, name) => if nullable then "Nullable<" ++ name ++ ">" else name
  | .error e => e

def IsTypePart (c : Char) : Prop := c.isAlphanum = true ∨ c ∈ ['<', '>']

instance : DecidablePred IsTypePart :=
  fun _ => inferInstanceAs (Decidable (_ ∨ _))

theorem typeText_parts {marker : String} (h : marker ∈ markers)
    (nullable : Bool) : ∀ c ∈ (typeText marker nullable).toList, IsTypePart c := by
  have hall : ∀ m ∈ markers, ∀ n,
      (typeText m n).toList.all (fun c => decide (IsTypePart c)) = true := by
    decide +kernel
  intro c hc
  exact of_decide_eq_true (List.all_eq_true.mp (hall marker h nullable) c hc)

/-- **SHORT NAMES SUFFICE**: the type tells the marker and the nullability. -/
theorem typeText_inj {marker marker' : String} (h : marker ∈ markers)
    (h' : marker' ∈ markers) {nullable nullable' : Bool}
    (heq : typeText marker nullable = typeText marker' nullable') :
    marker = marker' ∧ nullable = nullable' := by
  have hall : ∀ m ∈ markers, ∀ m' ∈ markers, ∀ n n',
      typeText m n = typeText m' n' → m = m' ∧ n = n' := by
    decide +kernel
  exact hall marker h marker' h' nullable nullable' heq

/-! ## Column lines -/

/-- A name ends where a character comes that no name has. -/
def EndsName (r : List Char) : Prop := ∀ c ∈ r.head?, ¬ IsSqlPart c

theorem readable_name : Readable IsSqlName String.toList EndsName :=
  (readable_word IsSqlPart).comap String.toList (fun _ h => h.2)
    fun _ _ _ _ h => String.toList_inj.mp h

theorem head?_lit {lit : List Char} {c : Char} (h : lit.head? = some c)
    (r : List Char) : (lit ++ r).head? = some c := by
  cases lit with
  | nil => cases h
  | cons d lit => exact h

/-- The first letter of a literal ends the name in front of it. -/
theorem endsName_lit {lit : List Char} {c : Char} (h : lit.head? = some c)
    (hc : ¬ IsSqlPart c) (r : List Char) : EndsName (lit ++ r) := by
  intro d hd
  rw [head?_lit h] at hd
  rwa [← Option.some.inj hd]

def columnText (c : ModelColumn) : List Char :=
  "        ".toList ++ (c.name.toList
    ++ (" -> ".toList ++ ((typeText c.marker c.nullable).toList
      ++ ",\n".toList)))

/-- A column line is indented by eight blanks. -/
theorem columnText_append (c : ModelColumn) (t : List Char) :
    ∃ u, columnText c ++ t = "        ".toList ++ u :=
  ⟨_, List.append_assoc _ _ _⟩

theorem typeText_eq {marker path name : String} {nullable : Bool}
    (h : markerParts marker = .ok (path, name)) :
    typeText marker nullable
      = if nullable then "Nullable<" ++ name ++ ">" else name := by
  rw [typeText, h]

theorem renderColumn_text {c : ModelColumn} {text : String}
    (hc : IsMarker c.marker) (h : renderColumn c = .ok text) :
    text.toList = columnText c := by
  obtain ⟨path, name, hparts⟩ := markerParts_of_isMarker hc
  rw [renderColumn, hparts] at h
  have htext := pure_ok.mp h
  rw [← typeText_eq hparts] at htext
  rw [← htext]
  exact toList_line _ _ _ _ _

structure PlainColumn (c : ModelColumn) : Prop where
  name : IsSqlName c.name
  marker : IsMarker c.marker

theorem readable_column :
    Readable PlainColumn columnText fun _ => True := by
  have htype := ((readable_word IsTypePart).closed (M := fun _ => True)
    ",\n".toList fun r _ c hc => by
      rw [head?_lit (c := ',') (by decide)] at hc
      rw [← Option.some.inj hc]
      decide).opened " -> ".toList
  have hline := (readable_name.seq htype fun ty r _ _ => by
    rw [List.append_assoc]
    exact endsName_lit (c := ' ') (by decide) (by decide) _).opened
      "        ".toList
  refine hline.comap (fun c : ModelColumn =>
    (c.name, (typeText c.marker c.nullable).toList)) ?_ ?_
  · intro c hc
    exact ⟨hc.name, typeText_parts (mem_markers hc.marker) c.nullable⟩
  · rintro ⟨name, marker, nullable⟩ ⟨name', marker', nullable'⟩ hc hd heq
    obtain ⟨rfl, htype⟩ := Prod.mk.inj heq
    obtain ⟨rfl, rfl⟩ := typeText_inj (mem_markers hc.marker)
      (mem_markers hd.marker) (String.toList_inj.mp htype)
    rfl

/-! ## Blocks -/

/-- What a block prints: its imports, its name, its key and its columns. -/
abbrev BlockView := List Char × String × List String × List ModelColumn

structure PlainView (v : BlockView) : Prop where
  imports : IsLines '\n' v.1
  name : IsSqlName v.2.1
  key : ∀ k ∈ v.2.2.1, IsSqlName k
  columns : ∀ c ∈ v.2.2.2, PlainColumn c

def viewText (v : BlockView) : List Char :=
  "diesel::table! \x7b\n".toList
    ++ (v.1 ++ (("\n    ".toList ++ (v.2.1.toList ++ " (".toList))
      ++ ((sepBy ", ".toList String.toList v.2.2.1 ++ ") \x7b\n".toList)
        ++ (v.2.2.2.flatMap columnText ++ "    \x7d\n\x7d".toList))))

theorem readable_key :
    Readable (fun ks => ∀ k ∈ ks, IsSqlName k)
      (fun ks => sepBy ", ".toList String.toList ks ++ ") \x7b\n".toList)
      fun _ => True := by
  have hkey := readable_name.sepBy ", ".toList
    (M := fun r => r.head? = some ')') ?_ ?_ ?_ ?_
  · exact hkey.closed _ fun r _ => head?_lit (by decide) r
  · intro k t _
    rw [List.append_assoc]
    exact endsName_lit (c := ',') (by decide) (by decide) _
  · intro r hr c hc
    rw [Option.some.inj (hc.symm.trans hr)]
    decide
  · intro k t hk hhead
    cases hcs : k.toList with
    | nil => exact hk.1 (String.toList_eq_nil_iff.mp hcs)
    | cons c cs =>
        rw [hcs] at hhead
        have hc := hk.2 c (hcs ▸ List.mem_cons_self)
        rw [Option.some.inj hhead] at hc
        revert hc
        decide
  · intro k t _ hhead
    rw [List.append_assoc, head?_lit (c := ',') (by decide)] at hhead
    exact absurd hhead (by decide)

theorem readable_columns :
    Readable (fun cs => ∀ c ∈ cs, PlainColumn c)
      (fun cs : List ModelColumn =>
        cs.flatMap columnText ++ "    \x7d\n\x7d".toList)
      fun _ => True := by
  have hmany := readable_column.many
    (M := fun r => ∃ t, r = "    \x7d\n\x7d".toList ++ t)
    (fun _ _ _ => trivial) (fun _ _ => trivial) ?_
  · exact hmany.closed "    \x7d\n\x7d".toList fun r _ => ⟨r, rfl⟩
  · rintro c t - ⟨t', heq⟩
    obtain ⟨u, hu⟩ := columnText_append c t
    exact append_ne_append (by decide +kernel) (by decide +kernel) u t'
      (hu.symm.trans heq)

/-- **A BLOCK IS READ IN ONE WAY**. -/
theorem readable_view : Readable PlainView viewText fun _ => True := by
  have hname := (readable_name.closed (M := fun _ => True) " (".toList
    fun r _ => endsName_lit (c := ' ') (by decide) (by decide) r).opened
      "\n    ".toList
  have hbody := hname.seq (readable_key.seq readable_columns
    fun _ _ _ _ => trivial) fun _ _ _ _ => trivial
  have hblock := ((readable_lines '\n').seq hbody fun v r _ _ => by
    rw [List.append_assoc, List.append_assoc]
    exact head?_lit (by decide) _).opened "diesel::table! \x7b\n".toList
  exact hblock.mono (fun v hv => ⟨hv.imports, hv.name, hv.key, hv.columns⟩)
    fun _ h => h

/-! ## Joins -/

structure PlainJoin (j : Join) : Prop where
  child : IsSqlName j.child
  parent : IsSqlName j.parent
  col : IsSqlName j.col

def joinText (j : Join) : List Char :=
  "diesel::joinable!(".toList ++ (j.child.toList
    ++ (" -> ".toList ++ (j.parent.toList
      ++ (" (".toList ++ (j.col.toList ++ "));".toList)))))

theorem toList_join_line (a b c d e f g : String) :
    (a ++ b ++ c ++ d ++ e ++ f ++ g).toList
      = a.toList ++ (b.toList ++ (c.toList ++ (d.toList
        ++ (e.toList ++ (f.toList ++ g.toList))))) := by
  simp only [String.toList_append, List.append_assoc]

theorem joinText_eq (j : Join) : (Join.line j).toList = joinText j :=
  toList_join_line _ _ _ _ _ _ _

theorem readable_join : Readable PlainJoin joinText fun _ => True := by
  have hcol := (readable_name.closed (M := fun _ => True) "));".toList
    fun r _ => endsName_lit (c := ')') (by decide) (by decide) r).opened
      " (".toList
  have hparent := (readable_name.seq hcol fun c r _ _ => by
    rw [List.append_assoc]
    exact endsName_lit (c := ' ') (by decide) (by decide) _).opened
      " -> ".toList
  have hline := (readable_name.seq hparent fun c r _ _ => by
    rw [List.append_assoc]
    exact endsName_lit (c := ' ') (by decide) (by decide) _).opened
      "diesel::joinable!(".toList
  refine hline.comap (fun j : Join => (j.child, j.parent, j.col))
    (fun j hj => ⟨hj.child, hj.parent, hj.col⟩) ?_
  rintro ⟨child, col, parent⟩ ⟨child', col', parent'⟩ - - heq
  cases heq
  rfl

/-! ## The file -/

/-- What stands behind the blocks. -/
def tailText (joins : List Join) (more : List Char) : List Char :=
  if joins = [] then "\n".toList
  else "\n\n".toList ++ (sepBy "\n".toList joinText joins
    ++ ("\n\ndiesel::allow_tables_to_appear_in_same_query!(\n    ".toList
      ++ more))

theorem joinText_append (j : Join) (t : List Char) :
    ∃ u, joinText j ++ t = "diesel::joinable!(".toList ++ u :=
  ⟨_, List.append_assoc _ _ _⟩

theorem viewText_append (v : BlockView) (t : List Char) :
    ∃ u, viewText v ++ t = "diesel::table! \x7b\n".toList ++ u :=
  ⟨_, List.append_assoc _ _ _⟩

theorem readable_joins :
    Readable (fun js => ∀ j ∈ js, PlainJoin j)
      (sepBy "\n".toList joinText) fun r => ∃ t, r
        = "\n\ndiesel::allow_tables_to_appear_in_same_query!(\n    ".toList
          ++ t := by
  refine readable_join.sepBy "\n".toList (fun _ _ _ => trivial)
    (fun _ _ => trivial) ?_ ?_
  · rintro j t - ⟨t', heq⟩
    obtain ⟨u, hu⟩ := joinText_append j t
    exact append_ne_append (by decide +kernel) (by decide +kernel) u t'
      (hu.symm.trans heq)
  · rintro j t - ⟨t', heq⟩
    obtain ⟨u, hu⟩ := joinText_append j t
    rw [List.append_assoc, hu, ← List.append_assoc] at heq
    exact append_ne_append (by decide +kernel) (by decide +kernel) u t' heq

/-- A blank line is not the end of the file. -/
theorem blank_line_ne (t : List Char) : "\n\n".toList ++ t ≠ "\n".toList := by
  intro heq
  have hlength := congrArg List.length heq
  have htwo : "\n\n".toList.length = 2 := by decide
  have hone : "\n".toList.length = 1 := by decide
  rw [List.length_append, htwo, hone] at hlength
  omega

/-- What may follow the blocks. -/
def Tail (r : List Char) : Prop :=
  r = "\n".toList ∨
    ∃ t, r = "\n\n".toList ++ ("diesel::joinable!(".toList ++ t)

theorem tail_tailText (joins : List Join) (more : List Char) :
    Tail (tailText joins more) := by
  cases joins with
  | nil => exact Or.inl (if_pos rfl)
  | cons j js =>
      refine Or.inr ?_
      rw [tailText, if_neg (List.cons_ne_nil j js), sepBy, List.append_assoc]
      obtain ⟨u, hu⟩ := joinText_append j _
      exact ⟨u, congrArg _ hu⟩

theorem readable_blocks :
    Readable (fun vs => ∀ v ∈ vs, PlainView v) (sepBy "\n\n".toList viewText)
      Tail := by
  refine readable_view.sepBy "\n\n".toList (fun _ _ _ => trivial)
    (fun _ _ => trivial) ?_ ?_
  · intro v t _ h
    obtain ⟨u, hu⟩ := viewText_append v t
    rw [hu] at h
    rcases h with heq | ⟨t', heq⟩
    · rw [← List.append_nil "\n".toList] at heq
      exact append_ne_append (by decide +kernel) (by decide +kernel) u [] heq
    · exact append_ne_append (by decide +kernel) (by decide +kernel) u _ heq
  · intro v t _ h
    obtain ⟨u, hu⟩ := viewText_append v t
    rw [List.append_assoc, hu] at h
    rcases h with heq | ⟨t', heq⟩
    · exact blank_line_ne _ heq
    · exact append_ne_append (by decide +kernel) (by decide +kernel) u t'
        (List.append_cancel_left heq)

/-- The joins are read off what stands behind the blocks. -/
theorem tailText_inj {joins joins' : List Join} {more more' : List Char}
    (h : ∀ j ∈ joins, PlainJoin j) (h' : ∀ j ∈ joins', PlainJoin j)
    (heq : tailText joins more = tailText joins' more') : joins = joins' := by
  rw [tailText, tailText] at heq
  by_cases hnil : joins = []
  · by_cases hnil' : joins' = []
    · rw [hnil, hnil']
    · rw [if_pos hnil, if_neg hnil'] at heq
      exact absurd heq.symm (blank_line_ne _)
  · by_cases hnil' : joins' = []
    · rw [if_neg hnil, if_pos hnil'] at heq
      exact absurd heq (blank_line_ne _)
    · rw [if_neg hnil, if_neg hnil'] at heq
      exact (readable_joins joins joins' h h' _ _ ⟨more, rfl⟩ ⟨more', rfl⟩
        (List.append_cancel_left heq)).1

/-! ## The text of a model -/

theorem toList_join (sep : String) (ss : List String) :
    (join sep ss).toList = sepBy sep.toList String.toList ss := by
  induction ss with
  | nil => rfl
  | cons s ss ih =>
      cases ss with
      | nil => exact (List.append_nil _).symm
      | cons s' ss =>
          rw [join_cons_cons, String.toList_append, String.toList_append, ih,
            sepBy, sepBy, List.flatMap_cons, List.append_assoc,
            List.append_assoc]

theorem newline_not_mem_ident {s : String} (h : IsIdent asciiTables s) :
    '\n' ∉ s.toList := by
  have hchars := h.1
  cases hs : s.toList with
  | nil => exact List.not_mem_nil
  | cons c cs =>
      rw [hs] at hchars
      obtain ⟨hhead, htail⟩ := hchars
      intro hmem
      rcases List.mem_cons.mp hmem with rfl | hmem
      · rcases hhead with hhead | ⟨hhead, -⟩
        · exact absurd hhead (by decide)
        · exact absurd hhead (by decide)
      · exact absurd (htail _ hmem) (by decide)

/-- The imports are lines. -/
theorem renderUse_lines (path : String) {names : List String}
    (hpath : '\n' ∉ path.toList) (h : ∀ n ∈ names, '\n' ∉ n.toList) :
    IsLines '\n' ((renderUse path names).getD "").toList := by
  have hline : ∀ a b c d e : String, a.toList ≠ [] → '\n' ∉ a.toList →
      '\n' ∉ b.toList → '\n' ∉ c.toList → '\n' ∉ d.toList →
      (∃ cs, e.toList = cs ++ ['\n'] ∧ '\n' ∉ cs) →
      IsLines '\n' (a ++ b ++ c ++ d ++ e).toList := by
    rintro a b c d e hne ha hb hc hd ⟨cs, he, hcs⟩
    rw [toList_line, he, ← List.append_assoc d.toList,
      ← List.append_assoc c.toList, ← List.append_assoc b.toList,
      ← List.append_assoc a.toList]
    refine IsLines.line (fun hnil => hne (List.append_eq_nil_iff.mp hnil).1) ?_
    simp only [List.mem_append, ha, hb, hc, hd, hcs, or_self,
      not_false_eq_true]
  cases names with
  | nil => exact IsLines.nil '\n'
  | cons one names =>
      cases names with
      | nil =>
          exact hline "    use " path "::" one ";\n" (by decide) (by decide)
            hpath (by decide) (h one List.mem_cons_self)
            ⟨[';'], by decide, by decide⟩
      | cons two names =>
          exact hline "    use " path "::\x7b" (join ", " (one :: two :: names))
            "\x7d;\n" (by decide) (by decide) hpath (by decide)
            (not_mem_join (by decide) h)
            ⟨['\x7d', ';'], by decide, by decide⟩

/-- Unquoted names throughout, and markers that the mapping table hands out, as
    in every model that is folded (`finalModel_marked`). -/
structure PlainTable (t : ModelTable) : Prop where
  name : IsSqlName t.name
  columns : ∀ c ∈ t.columns, IsSqlName c.name
  key : ∀ k ∈ t.primaryKey, IsSqlName k
  foreignKeys : ∀ fk ∈ t.foreignKeys, IsSqlName fk.1 ∧ IsSqlName fk.2
  marked : Marked t

theorem PlainTable.keyCols {t : ModelTable} (h : PlainTable t) :
    ∀ k ∈ t.primaryKeyCols, IsSqlName k := by
  by_cases hkey : t.primaryKey = []
  · rw [primaryKeyCols_of_nil hkey]
    intro k hk
    obtain ⟨c, hc, rfl⟩ := Option.map_eq_some_iff.mp (Option.mem_toList.mp hk)
    exact h.columns c (List.mem_of_mem_head? hc)
  · rw [primaryKeyCols_of_ne_nil hkey]
    exact h.key

theorem renderColumns_text {cs : List ModelColumn} {lines : List String}
    (hcs : ∀ c ∈ cs, IsMarker c.marker) (h : cs.mapM renderColumn = .ok lines) :
    (join "" lines).toList = cs.flatMap columnText := by
  have hlines := mapM_ok.mp h
  clear h
  rw [toList_join, String.toList_empty, sepBy_nil]
  induction hlines with
  | nil => rfl
  | cons hc _ ih =>
      rw [List.forall_mem_cons] at hcs
      rw [List.flatMap_cons, List.flatMap_cons, ih hcs.2,
        renderColumn_text hcs.1 hc]

theorem toList_block (a b c d e f g h i j : String) :
    (a ++ b ++ c ++ d ++ e ++ f ++ g ++ h ++ i ++ j).toList
      = a.toList ++ ((b ++ c).toList ++ ((d.toList ++ (e.toList ++ f.toList))
        ++ ((g.toList ++ h.toList) ++ (i.toList ++ j.toList)))) := by
  simp only [String.toList_append, List.append_assoc]

theorem blockText_view {dieselNames dualdbNames key lines : List String}
    {name : String} {cs : List ModelColumn}
    (h : (join "" lines).toList = cs.flatMap columnText) :
    (blockText dieselNames dualdbNames name key lines).toList
      = viewText (((renderUse "diesel::sql_types" dieselNames).getD ""
        ++ (renderUse "diesel_dualdb::sql_types" dualdbNames).getD "").toList,
        name, key, cs) := by
  refine (toList_block _ _ _ _ _ _ _ _ _ _).trans ?_
  rw [h, toList_join ", " key]
  exact rfl

/-- A table prints the view with its name, its key and its columns. -/
theorem renderTableMacro_view {t : ModelTable} {text : String}
    (ht : PlainTable t) (h : renderTableMacro t = .ok text) :
    ∃ v : BlockView, PlainView v ∧
      v.2 = (t.name, t.primaryKeyCols, t.columns) ∧
      text.toList = viewText v := by
  obtain ⟨u, lines, hu, hlines, rfl⟩ := renderTableMacro_ok.mp h
  obtain ⟨hdiesel, hdualdb⟩ := imports_legal (x := asciiTables) ht.marked hu
  have himports := (renderUse_lines "diesel::sql_types" (by decide)
      fun n hn => newline_not_mem_ident (hdiesel n hn)).append
    (renderUse_lines "diesel_dualdb::sql_types" (by decide)
      fun n hn => newline_not_mem_ident (hdualdb n hn))
  rw [← String.toList_append] at himports
  refine ⟨(_, t.name, t.primaryKeyCols, t.columns), ⟨himports, ht.name,
    ht.keyCols, fun c hc => ⟨ht.columns c hc, ht.marked c hc⟩⟩, rfl, ?_⟩
  exact blockText_view (renderColumns_text ht.marked hlines)

/-- The part of the model that a block shows. -/
def shown (t : ModelTable) : String × List String × List ModelColumn :=
  (t.name, t.primaryKeyCols, t.columns)

theorem renderTables_views {ts : List ModelTable} {blocks : List String}
    (hts : ∀ t ∈ ts, PlainTable t)
    (h : ts.mapM renderTableMacro = .ok blocks) :
    ∃ vs : List BlockView, (∀ v ∈ vs, PlainView v) ∧
      vs.map Prod.snd = ts.map shown ∧
      blocks.map String.toList = vs.map viewText := by
  have hblocks : List.Forall₂ (fun t cs => ∃ text, cs = String.toList text ∧
      renderTableMacro t = .ok text) ts (blocks.map String.toList) :=
    List.forall₂_map_right_iff.mpr
      ((mapM_ok.mp h).imp fun _ text htext => ⟨text, rfl, htext⟩)
  have hall : ∃ vs : List BlockView,
      List.Forall₂ (fun v t => PlainView v ∧ v.2 = shown t) vs ts ∧
        vs.map viewText = blocks.map String.toList := by
    refine exists_printed hblocks ?_
    rintro t ht _ ⟨text, rfl, htext⟩
    obtain ⟨v, hv, hshown, hview⟩ := renderTableMacro_view (hts t ht) htext
    exact ⟨v, ⟨hv, hshown⟩, hview.symm⟩
  obtain ⟨vs, hvs, htexts⟩ := hall
  refine ⟨vs, fun v hv => ?_, ?_, htexts.symm⟩
  · obtain ⟨t, -, hvt⟩ := forall₂_of_mem_left hvs hv
    exact hvt.1
  · exact map_eq_of_forall₂ hvs fun _ _ hvt => hvt.2

theorem toList_file (a b c d : String) :
    (a ++ b ++ c ++ d).toList
      = a.toList ++ (b.toList ++ (c.toList ++ d.toList)) := by
  simp only [String.toList_append, List.append_assoc]

theorem toList_tail (a b c d e : String) (f : List Char) :
    (a ++ b ++ c ++ d ++ e).toList ++ f
      = a.toList ++ (b.toList
        ++ (c.toList ++ (d.toList ++ (e.toList ++ f)))) := by
  simp only [String.toList_append, List.append_assoc]

theorem toList_lines (joins : List Join) :
    (join "\n" (joins.map Join.line)).toList
      = sepBy "\n".toList joinText joins := by
  refine (toList_join _ _).trans ((sepBy_map _ _ _ _).trans ?_)
  exact congrArg (fun f => sepBy "\n".toList f joins) (funext joinText_eq)

theorem fileText_eq (blocks names : List String) (joins : List Join) :
    ∃ more, (fileText blocks (joins.map Join.line) names).toList
      = "// @generated by diesel-dualdb-schema — do not edit by hand.\n\n".toList
        ++ (sepBy "\n\n".toList String.toList blocks
          ++ tailText joins more) := by
  refine ⟨(join ",\n    " names).toList ++ (",\n);".toList ++ "\n".toList), ?_⟩
  refine (toList_file _ _ _ _).trans (congrArg _ ?_)
  refine congrArg₂ (· ++ ·) (toList_join _ _) ?_
  cases joins with
  | nil => exact rfl
  | cons j js =>
      refine (toList_tail _ _ _ _ _ _).trans (congrArg _ ?_)
      exact congrArg₂ (· ++ ·) (toList_lines (j :: js)) rfl

/-! ## Equal files -/

structure PlainModel (m : Model) : Prop where
  tables : ∀ t ∈ m.tables, PlainTable t
  distinct : (m.tables.map ModelTable.name).Nodup

structure SameTable (t t' : ModelTable) : Prop where
  name : t.name = t'.name
  columns : t.columns = t'.columns
  key : t.primaryKeyCols = t'.primaryKeyCols
  foreignKeys : t.foreignKeys = t'.foreignKeys

/-- The same tables in the same order. -/
def SameSchema (m m' : Model) : Prop :=
  List.Forall₂ SameTable m.tables m'.tables

theorem PlainModel.joins {m : Model} (h : PlainModel m) :
    ∀ j ∈ printedJoins m, PlainJoin j := by
  intro j hj
  obtain ⟨t, ht, hj⟩ := List.mem_flatMap.mp hj
  obtain ⟨fk, hfk, rfl⟩ := List.mem_map.mp hj
  obtain ⟨hcol, hparent⟩ := (h.tables t ht).foreignKeys fk hfk
  exact ⟨(h.tables t ht).name, hparent, hcol⟩

/-- The joins of the first table are those of its name. -/
theorem joins_filter {t : ModelTable} {ts : List ModelTable}
    (h : t.name ∉ ts.map ModelTable.name) :
    (printedJoins ⟨t :: ts⟩).filter (fun j => j.child = t.name)
      = joinsOf t.name t.foreignKeys := by
  have hown : (joinsOf t.name t.foreignKeys).filter
      (fun j => j.child = t.name) = joinsOf t.name t.foreignKeys := by
    refine List.filter_eq_self.mpr fun j hj => ?_
    obtain ⟨fk, -, rfl⟩ := List.mem_map.mp hj
    exact decide_eq_true rfl
  have hothers : (printedJoins ⟨ts⟩).filter (fun j => j.child = t.name)
      = [] := by
    refine List.filter_eq_nil_iff.mpr fun j hj hchild => ?_
    obtain ⟨u, hu, hj⟩ := List.mem_flatMap.mp hj
    obtain ⟨fk, -, rfl⟩ := List.mem_map.mp hj
    exact h (List.mem_map.mpr ⟨u, hu, of_decide_eq_true hchild⟩)
  rw [printedJoins_cons, List.filter_append, hown, hothers, List.append_nil]

theorem joinsOf_inj {child : String} {fks fks' : List (String × String)}
    (h : joinsOf child fks = joinsOf child fks') : fks = fks' := by
  refine List.map_injective_iff.mpr ?_ h
  rintro ⟨col, parent⟩ ⟨col', parent'⟩ heq
  cases heq
  rfl

/-- **THE FOREIGN KEYS** of tables with distinct names are told apart in the
    list of all joins. -/
theorem sameTables {ts ts' : List ModelTable}
    (hshown : ts.map shown = ts'.map shown)
    (hdistinct : (ts.map ModelTable.name).Nodup)
    (hjoins : printedJoins ⟨ts⟩ = printedJoins ⟨ts'⟩) :
    List.Forall₂ SameTable ts ts' := by
  induction ts generalizing ts' with
  | nil =>
      rw [List.map_nil, eq_comm, List.map_eq_nil_iff] at hshown
      rw [hshown]
      exact .nil
  | cons t ts ih =>
      cases ts' with
      | nil => cases hshown
      | cons t' ts' =>
          obtain ⟨hhead, htail⟩ := List.cons.inj hshown
          obtain ⟨hname, hrest⟩ := Prod.mk.inj hhead
          obtain ⟨hkey, hcolumns⟩ := Prod.mk.inj hrest
          rw [List.map_cons, List.nodup_cons] at hdistinct
          have hnames : ts'.map ModelTable.name = ts.map ModelTable.name := by
            have hfst := congrArg (List.map Prod.fst) htail
            rw [List.map_map, List.map_map] at hfst
            exact hfst.symm
          have hnot : t'.name ∉ ts'.map ModelTable.name := by
            rw [hnames, ← hname]
            exact hdistinct.1
          -- the joins that start at this table, on both sides
          have hown : joinsOf t.name t.foreignKeys
              = joinsOf t.name t'.foreignKeys := by
            rw [← joins_filter hdistinct.1, hjoins, hname, joins_filter hnot]
          have hfks := joinsOf_inj hown
          rw [printedJoins_cons, printedJoins_cons, hname, hfks,
            List.append_cancel_left_eq] at hjoins
          exact .cons ⟨hname, hcolumns, hkey, hfks⟩
            (ih htail hdistinct.2 hjoins)

theorem SameTable.macro {t t' : ModelTable} (h : SameTable t t') :
    renderTableMacro t = renderTableMacro t' ∧ joinables t = joinables t' := by
  obtain ⟨hname, hcolumns, hkey, hfks⟩ := h
  constructor
  · simp only [renderTableMacro, hname, hcolumns, hkey]
  · rw [joinables, joinables, hname, hfks]

theorem SameSchema.text {m m' : Model} (h : SameSchema m m') :
    renderSchemaRs m = renderSchemaRs m' := by
  have hblocks : m.tables.mapM renderTableMacro
      = m'.tables.mapM renderTableMacro :=
    mapM_eq_of_forall₂ h fun _ _ ht => ht.macro.1
  have hlines : m.tables.flatMap joinables = m'.tables.flatMap joinables := by
    rw [List.flatMap_def, List.flatMap_def,
      map_eq_of_forall₂ h fun _ _ ht => ht.macro.2]
  have hnames : m.tables.map ModelTable.name = m'.tables.map ModelTable.name :=
    map_eq_of_forall₂ h fun _ _ ht => ht.name
  rw [renderSchemaRs, renderSchemaRs, hblocks, hlines, hnames]

/-- What a model prints, read back: the views of its tables and its joins. -/
theorem renderSchemaRs_text {m : Model} {text : String} (hm : PlainModel m)
    (h : renderSchemaRs m = .ok text) :
    ∃ vs more, (∀ v ∈ vs, PlainView v) ∧
      vs.map Prod.snd = m.tables.map shown ∧
      text.toList
        = "// @generated by diesel-dualdb-schema — do not edit by hand.\n\n".toList
          ++ (sepBy "\n\n".toList viewText vs
            ++ tailText (printedJoins m) more) := by
  obtain ⟨blocks, hblocks, rfl⟩ := renderSchemaRs_ok.mp h
  obtain ⟨vs, hvs, hshown, htexts⟩ := renderTables_views hm.tables hblocks
  obtain ⟨more, hmore⟩ := fileText_eq blocks (m.tables.map ModelTable.name)
    (printedJoins m)
  have hviews : sepBy "\n\n".toList String.toList blocks
      = sepBy "\n\n".toList viewText vs := by
    have hboth := congrArg (sepBy "\n\n".toList id) htexts
    exact (sepBy_map _ id String.toList blocks).symm.trans
      (hboth.trans (sepBy_map _ id viewText vs))
  refine ⟨vs, more, hvs, hshown, ?_⟩
  rw [joinables_eq, hmore, hviews]

/-- One text, one schema. -/
theorem sameSchema_of_text {m m' : Model} {text : String} (hm : PlainModel m)
    (hm' : PlainModel m') (h : renderSchemaRs m = .ok text)
    (h' : renderSchemaRs m' = .ok text) : SameSchema m m' := by
  obtain ⟨vs, more, hvs, hshown, htext⟩ := renderSchemaRs_text hm h
  obtain ⟨vs', more', hvs', hshown', htext'⟩ := renderSchemaRs_text hm' h'
  obtain ⟨hviews, htail⟩ := readable_blocks vs vs' hvs hvs' _ _
    (tail_tailText _ _) (tail_tailText _ _)
    (List.append_cancel_left (htext.symm.trans htext'))
  have hjoins := tailText_inj hm.joins hm'.joins htail
  refine sameTables ?_ hm.distinct hjoins
  rw [← hshown, ← hshown', hviews]

/-- **EQUAL `schema.rs`, EQUAL SCHEMA**: two models print the same text exactly
    if they have the same tables in the same order, each with the same columns,
    key columns and foreign keys. -/
theorem schema_rs_eq_iff {m m' : Model} (hm : PlainModel m)
    (hm' : PlainModel m') :
    renderSchemaRs m = renderSchemaRs m' ↔ SameSchema m m' := by
  constructor
  · intro h
    obtain ⟨text, htext⟩ :=
      renderSchemaRs_total fun t ht => (hm.tables t ht).marked
    exact sameSchema_of_text hm hm' htext (h.symm.trans htext)
  · exact SameSchema.text

/-- **THE FRESHNESS CHECK**: a later history prints the committed file exactly
    if it folds to the same schema. -/
theorem fresh_iff {p : Sqlparser} {ms ms' : List Migration}
    {g g' : Generated} {m m' : Model} (hg : generate p ms = .ok g)
    (hg' : generate p ms' = .ok g') (hfold : finalModel p ms = .ok m)
    (hfold' : finalModel p ms' = .ok m') (hm : PlainModel m)
    (hm' : PlainModel m') : g.schemaRs = g'.schemaRs ↔ SameSchema m m' := by
  obtain ⟨n, hn, htext, -, -⟩ := generate_ok.mp hg
  obtain ⟨n', hn', htext', -, -⟩ := generate_ok.mp hg'
  rw [Except.ok.inj (hn.symm.trans hfold)] at htext
  rw [Except.ok.inj (hn'.symm.trans hfold')] at htext'
  constructor
  · intro h
    rw [← h] at htext'
    exact sameSchema_of_text hm hm' htext htext'
  · intro h
    exact Except.ok.inj (htext.symm.trans (h.text.trans htext'))

/-! ## A change that shows -/

def nameTable (nullable : Bool) : ModelTable :=
  ⟨"users", [⟨"id", "diesel_dualdb::sql_types::Uuid", false⟩,
    ⟨"name", "diesel::sql_types::Text", nullable⟩], ["id"], []⟩

theorem nameTable_plain (nullable : Bool) : PlainModel ⟨[nameTable nullable]⟩ := by
  refine ⟨fun t ht => ?_, List.nodup_singleton _⟩
  rw [List.mem_singleton.mp ht]
  refine ⟨?_, ?_, ?_, ?_, fun c hc => ?_⟩
  · exact (by decide +kernel : IsSqlName "users")
  · cases nullable <;> decide +kernel
  · exact (by decide +kernel : ∀ k ∈ ["id"], IsSqlName k)
  · exact fun fk hfk => absurd hfk List.not_mem_nil
  · rcases List.mem_cons.mp hc with rfl | hc
    · exact ⟨.uuid, _, rfl, rfl⟩
    · rw [List.mem_singleton.mp hc]
      exact ⟨.text, _, rfl, rfl⟩

/-- `NOT NULL` on one column shows. -/
theorem schema_rs_eq_iff_of_not_null :
    PlainModel ⟨[nameTable true]⟩ ∧ PlainModel ⟨[nameTable false]⟩ ∧
      renderSchemaRs ⟨[nameTable true]⟩ ≠ renderSchemaRs ⟨[nameTable false]⟩ := by
  refine ⟨nameTable_plain true, nameTable_plain false, fun h => ?_⟩
  have hsame := (schema_rs_eq_iff (nameTable_plain true)
    (nameTable_plain false)).mp h
  exact absurd (List.forall₂_cons.mp hsame).1.columns (by decide)

end DualdbFresh
