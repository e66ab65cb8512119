import DieselDualdb.Catalog
import DieselDualdb.Lib.FirstUpdate

/-!
# Single-column foreign keys to a primary key

A `Link` is a foreign key of one column together with everything that makes it
a join on the parent's key: the two tables, the column, the parent's primary
key of one column, and that column.  `Live` says that the catalog has all of
it, and under which names it prints.

An operation keeps a live link unless it takes away or renames one of its parts
(`Spares`); this is put together from what the operation keeps of a column, of
a key and of a foreign key.
-/

namespace DualdbLinks

open DualdbAst DualdbTypeMap DualdbModel DualdbCatalog FallibleRun FirstUpdate

/-- The three names of a `joinable!(child -> parent (col))`. -/
structure Join where
  child : String
  col : String
  parent : String
deriving DecidableEq

structure Link (κ : Type) where
  child : Table κ
  column : Column
  foreignKey : ForeignKey κ
  parent : Table κ
  key : PrimaryKey
  target : Column

variable {κ : Type} [DecidableEq κ] {d : Dialect κ}

/-- The catalog has the link, and it prints under these names. -/
structure Link.Live (d : Dialect κ) (c : Catalog κ) (j : Join)
    (l : Link κ) : Prop where
  child_mem : l.child ∈ c.tables
  column_mem : l.column ∈ l.child.columns
  foreignKey_mem : l.foreignKey ∈ l.child.foreignKeys
  parent_mem : l.parent ∈ c.tables
  key_mem : l.key ∈ l.parent.primaryKey
  target_mem : l.target ∈ l.parent.columns
  child_name : lastIdent l.child.name = j.child
  column_name : l.column.name.value = j.col
  parent_name : lastIdent l.parent.name = j.parent
  single : l.foreignKey.columns = [l.column.key d]
  refers : l.foreignKey.parent = l.parent.key d
  referred : l.foreignKey.referred = l.key.columns
  whole : l.key.columns = [l.target.key d]

omit [DecidableEq κ] in
/-- A link is live wherever its tables are. -/
theorem Link.Live.mono {c c' : Catalog κ} {j : Join} {l : Link κ}
    (h : l.Live d c j) (hsub : c.tables ⊆ c'.tables) : l.Live d c' j :=
  { h with
    child_mem := hsub h.child_mem
    parent_mem := hsub h.parent_mem }

/-! ## What an operation keeps -/

/-- `op`, on a table with the shape `old`, keeps the foreign key `f` of the
    table `owner` as it is. -/
def KeepsForeignKey (d : Dialect κ) (old : Shape) (owner : κ)
    (f : ForeignKey κ) : AlterTableOperation → Prop
  | .dropColumn name _ _ =>
      (owner = old.key d → d.ident name ∉ f.columns) ∧
        (f.parent = old.key d → d.ident name ∉ f.referred)
  | .dropConstraint _ name _ =>
      (owner = old.key d → f.name ≠ d.ident name) ∧
        (f.parent = old.key d → ∀ pk ∈ old.primaryKey,
          pk.name = d.ident name → f.referred ≠ pk.columns)
  | .renameColumn name _ =>
      (owner = old.key d → d.ident name ∉ f.columns) ∧
        (f.parent = old.key d → d.ident name ∉ f.referred)
  | .renameTable _ => f.parent ≠ old.key d
  | _ => True

/-- `op` keeps a column of this key under its name. -/
def KeepsColumn (d : Dialect κ) (key : String) : AlterTableOperation → Prop
  | .dropColumn name _ _ | .renameColumn name _ => key ≠ d.ident name
  | _ => True

/-- `op` keeps this primary key. -/
def KeepsKey (d : Dialect κ) (pk : PrimaryKey) : AlterTableOperation → Prop
  | .dropColumn name _ _ | .renameColumn name _ => d.ident name ∉ pk.columns
  | .dropConstraint _ name _ => pk.name ≠ d.ident name
  | _ => True

theorem renameKey_eq_self {old new : String} {keys : List String}
    (h : old ∉ keys) : renameKey old new keys = keys := by
  refine (List.map_congr_left fun k hk => ?_).trans (List.map_id _)
  exact if_neg (ne_of_mem_of_not_mem hk h)

omit [DecidableEq κ] in
/-- Declaring constraints keeps names, and a key that is there. -/
theorem declared_keeps {taken : List String} {cons : List TableConstraint}
    {s s' : Shape} (h : cons.foldlM (Shape.declare d taken) s = .ok s') :
    s'.name = s.name ∧ (∀ pk ∈ s.primaryKey, pk ∈ s'.primaryKey) ∧
      ∀ col ∈ s.columns, ∃ col' ∈ s'.columns, col'.name = col.name := by
  rcases declares_ok h with ⟨-, rfl⟩ | ⟨cols, n, -, hnone, rfl⟩
  · exact ⟨rfl, fun _ hpk => hpk, fun col hcol => ⟨col, hcol, rfl⟩⟩
  · refine ⟨rfl, fun pk hpk => ?_, fun col hcol => ?_⟩
    · rw [hnone] at hpk
      cases hpk
    · exact ⟨_, List.mem_map.mpr ⟨col, hcol, rfl⟩, mark_name _ col⟩

omit [DecidableEq κ] in
/-- A column update that keeps names, and the columns afterwards. -/
theorem mapColumn_keeps {s : Shape} {key : String} {f : Column → Column}
    (hf : ∀ col, (f col).name = col.name) {col : Column}
    (hcol : col ∈ s.columns) :
    ∃ col' ∈ (s.mapColumn d key f).columns, col'.name = col.name := by
  refine ⟨_, List.mem_map.mpr ⟨col, hcol, rfl⟩, ?_⟩
  split
  · exact hf col
  · rfl

omit [DecidableEq κ] in
/-- **WHAT AN OPERATION KEEPS OF A SHAPE**. -/
theorem shapeOperation_keeps {taken : List String} {s s' : Shape}
    {op : AlterTableOperation}
    (h : shapeOperation d taken s op = .ok s') :
    (∀ pk ∈ s.primaryKey, KeepsKey d pk op → pk ∈ s'.primaryKey) ∧
      ∀ col ∈ s.columns, KeepsColumn d (col.key d) op →
        ∃ col' ∈ s'.columns, col'.name = col.name := by
  have hsame : s' = s → (∀ pk ∈ s.primaryKey, KeepsKey d pk op →
      pk ∈ s'.primaryKey) ∧ ∀ col ∈ s.columns, KeepsColumn d (col.key d) op →
        ∃ col' ∈ s'.columns, col'.name = col.name := by
    rintro rfl
    exact ⟨fun _ hpk _ => hpk, fun col hcol _ => ⟨col, hcol, rfl⟩⟩
  cases shapeOperation_ok h with
  | addConstraint h =>
      have hrun : [_].foldlM (Shape.declare d taken) s = .ok s' :=
        foldlM_cons_ok.mpr ⟨s', h, rfl⟩
      obtain ⟨-, hkey, hcols⟩ := declared_keeps hrun
      exact ⟨fun pk hpk _ => hkey pk hpk, fun col hcol _ => hcols col hcol⟩
  | addColumn _ h =>
      obtain ⟨-, hkey, hcols⟩ := declared_keeps h
      exact ⟨fun pk hpk _ => hkey pk hpk,
        fun col hcol _ => hcols col (List.mem_append_left _ hcol)⟩
  | dropColumn _ =>
      -- the key goes with its columns, and `op` spares those it keeps
      refine ⟨fun pk hpk hkeep => ?_, fun col hcol hkeep => ⟨col, ?_, rfl⟩⟩
      · refine Option.mem_filter_iff.mpr ⟨hpk, ?_⟩
        rw [List.contains_eq_mem, decide_eq_false hkeep]
        rfl
      · exact List.mem_filter.mpr ⟨hcol, bne_iff_ne.mpr hkeep⟩
  | dropConstraint =>
      refine ⟨fun pk hpk hkeep => ?_, fun col hcol _ => ⟨col, hcol, rfl⟩⟩
      exact Option.mem_filter_iff.mpr ⟨hpk, bne_iff_ne.mpr hkeep⟩
  | renameColumn _ _ =>
      refine ⟨fun pk hpk hkeep => ?_, fun col hcol hkeep => ?_⟩
      · have hpk' : s.primaryKey = some pk := hpk
        show Option.map _ s.primaryKey = some pk
        rw [hpk', Option.map_some, renameKey_eq_self hkeep]
      · exact ⟨col, List.mem_map.mpr ⟨col, hcol, if_neg hkeep⟩, rfl⟩
  | renameTable =>
      exact ⟨fun _ hpk _ => hpk, fun col hcol _ => ⟨col, hcol, rfl⟩⟩
  | setNotNull _ | dropNotNull _ _ | setDataType _ =>
      refine ⟨fun _ hpk _ => hpk, fun col hcol _ => ?_⟩
      refine mapColumn_keeps ?_ hcol
      exact fun _ => rfl
  | columnThere _ | columnMissing _ | setDefault _ | dropDefault _
  | addGenerated _ | inert _ => exact hsame rfl

/-! ### Foreign keys -/

omit [DecidableEq κ] in
/-- A table whose foreign keys grow, in its place. -/
theorem setTable_keeps {c : Catalog κ} {i k : Nat} {t t' u : Table κ}
    (ht : c.tables[i]? = some t) (hsub : t.foreignKeys ⊆ t'.foreignKeys)
    (hu : c.tables[k]? = some u) {f : ForeignKey κ}
    (hf : f ∈ u.foreignKeys) :
    ∃ u', (c.setTable i t').tables[k]? = some u' ∧ f ∈ u'.foreignKeys := by
  by_cases hki : i = k
  · subst hki
    cases Option.some.inj (ht.symm.trans hu)
    obtain ⟨hlt, -⟩ := List.getElem?_eq_some_iff.mp ht
    exact ⟨t', List.getElem?_set_self hlt, hsub hf⟩
  · exact ⟨u, (List.getElem?_set_ne hki).trans hu, hf⟩

omit [DecidableEq κ] in
/-- Tables changed one by one. -/
theorem mapTables_keeps {c : Catalog κ} {g : Table κ → Table κ} {k : Nat}
    {u : Table κ} (hu : c.tables[k]? = some u) {f : ForeignKey κ}
    (hf : f ∈ (g u).foreignKeys) :
    ∃ u', (c.mapTables g).tables[k]? = some u' ∧ f ∈ u'.foreignKeys :=
  ⟨g u, by rw [Catalog.mapTables, List.getElem?_map, hu]; rfl, hf⟩

omit [DecidableEq κ] in
theorem dropDependents_keeps {c c' : Catalog κ} {cascade : Bool}
    {blocks drops : κ → ForeignKey κ → Bool} {k : Nat} {u : Table κ}
    {f : ForeignKey κ}
    (h : c.dropDependents d cascade blocks drops = .ok c')
    (hu : c.tables[k]? = some u) (hf : f ∈ u.foreignKeys)
    (hkeep : drops (u.key d) f = false) :
    ∃ u', c'.tables[k]? = some u' ∧ f ∈ u'.foreignKeys := by
  rw [Catalog.dropDependents] at h
  split at h
  · cases h
  · rw [← Except.ok.inj h]
    refine mapTables_keeps hu (List.mem_filter.mpr ⟨hf, ?_⟩)
    show (!drops (u.key d) f) = true
    rw [hkeep]
    rfl

/-! ### Tables and links -/

/-- `op`, on the table `x`, takes no part of the link away and renames none. -/
def Spares (d : Dialect κ) (x : Shape) (l : Link κ) :
    AlterTableOperation → Prop
  | .dropColumn name _ _ | .renameColumn name _ =>
      (l.child.key d = x.key d → l.column.key d ≠ d.ident name) ∧
        (l.parent.key d = x.key d → l.target.key d ≠ d.ident name)
  | .dropConstraint _ name _ =>
      (l.child.key d = x.key d → l.foreignKey.name ≠ d.ident name) ∧
        (l.parent.key d = x.key d →
          ∀ pk ∈ x.primaryKey, pk.name ≠ d.ident name)
  | .renameTable _ => l.child.key d ≠ x.key d ∧ l.parent.key d ≠ x.key d
  | _ => True

/-- `op` leaves the table's name alone. -/
def KeepsName (d : Dialect κ) (x : Shape) (u : κ) :
    AlterTableOperation → Prop
  | .renameTable _ => u ≠ x.key d
  | _ => True

omit [DecidableEq κ] in
/-- The table at a place has the shape that stands there. -/
theorem getElem?_of_shapes {c : Catalog κ} {k : Nat} {s : Shape}
    (h : c.shapes[k]? = some s) :
    ∃ u, c.tables[k]? = some u ∧ u.toShape = s := by
  rw [Catalog.shapes, List.getElem?_map, Option.map_eq_some_iff] at h
  exact h

omit [DecidableEq κ] in
/-- To spare a link is to keep its parts. -/
theorem keeps_of_spares {c : Catalog κ} {x : Table κ} {j : Join}
    {l : Link κ} {op : AlterTableOperation} (hl : l.Live d c j)
    (h : Spares d x.toShape l op) :
    KeepsName d x.toShape (l.child.key d) op ∧
      KeepsName d x.toShape (l.parent.key d) op ∧
      (l.parent = x → KeepsKey d l.key op) ∧
      (l.child = x → KeepsColumn d (l.column.key d) op) ∧
      (l.parent = x → KeepsColumn d (l.target.key d) op) ∧
      KeepsForeignKey d x.toShape (l.child.key d) l.foreignKey op := by
  -- a link is over single columns, so a list membership is an equality
  have hsingle : ∀ {k n : String}, k ≠ n → n ∉ [k] :=
    fun hne hmem => hne (List.mem_singleton.mp hmem).symm
  cases op with
  | dropColumn name _ _ | renameColumn name _ =>
      refine ⟨trivial, trivial, ?_, ?_, ?_, ?_, ?_⟩
      · rintro rfl
        show _ ∉ l.key.columns
        rw [hl.whole]
        exact hsingle (h.2 rfl)
      · rintro rfl
        exact h.1 rfl
      · rintro rfl
        exact h.2 rfl
      · intro howner
        rw [hl.single]
        exact hsingle (h.1 howner)
      · intro hparent
        rw [hl.referred, hl.whole]
        exact hsingle (h.2 (hl.refers.symm.trans hparent))
  | dropConstraint _ name _ =>
      refine ⟨trivial, trivial, ?_, fun _ => trivial, fun _ => trivial, h.1,
        ?_⟩
      · rintro rfl
        exact h.2 rfl l.key hl.key_mem
      · intro hparent pk hpk hname
        exact absurd hname (h.2 (hl.refers.symm.trans hparent) pk hpk)
  | renameTable _ =>
      refine ⟨h.1, h.2, fun _ => trivial, fun _ => trivial, fun _ => trivial,
        ?_⟩
      show l.foreignKey.parent ≠ _
      rw [hl.refers]
      exact h.2
  | addConstraint _ | addColumn _ _ _ _ | dropPrimaryKey
  | changeColumn _ _ _ _ _ | modifyColumn _ _ _ _ | alterColumn _ _
  | other _ =>
      exact ⟨trivial, trivial, fun _ => trivial, fun _ => trivial,
        fun _ => trivial, trivial⟩

/-! ## `DROP TABLE` -/

/-! ## A declared foreign key -/

/-- A foreign key of `child` on the column `i`, to the whole primary key of its
    parent, which prints as `tuple`. -/
def DeclaresJoin (d : Dialect κ) (child : Shape) (parent : Option Shape)
    (tuple : Option (List String)) (childName : String) (i : Ident)
    (cols : List Ident) (foreignTable : ObjectName) (refs : List Ident) :
    Prop :=
  cols = [i] ∧ lastIdent child.name = childName ∧
    (∃ column ∈ child.columns,
      column.key d = d.ident i ∧ column.name.value = i.value) ∧
    ∃ u ∈ parent, lastIdent u.name = lastIdent foreignTable ∧
      ∃ pk ∈ u.primaryKey, referredColumns d u refs = some pk.columns ∧
        ∃ target ∈ u.columns, pk.columns = [target.key d] ∧
          tuple = some [target.name.value]

omit [DecidableEq κ] in
/-- A table replaced by one of the same shape leaves all shapes there. -/
theorem shapes_there_setTable {c : Catalog κ} {i : Nat} {x t' : Table κ}
    (hx : c.tables[i]? = some x) (hshape : t'.toShape = x.toShape) :
    ∀ u ∈ c.tables, ∃ u' ∈ (c.setTable i t').tables,
      u'.toShape = u.toShape := by
  have hshapes : (c.setTable i t').shapes = c.shapes := by
    rw [shapes_setTable, hshape]
    refine set_self ?_
    rw [Catalog.shapes, List.getElem?_map, hx]
    rfl
  intro u hu
  have hmem : u.toShape ∈ (c.setTable i t').shapes := by
    rw [hshapes]
    exact List.mem_map.mpr ⟨u, hu, rfl⟩
  exact List.mem_map.mp hmem

end DualdbLinks
