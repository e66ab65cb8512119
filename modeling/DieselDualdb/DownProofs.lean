import DieselDualdb.EmittedRun
import DieselDualdb.SqlText
import DieselDualdb.Lib.RestrictDrop

/-!
# The derived `down.sql`

`derive_down` prints `DROP TABLE IF EXISTS t;` for every `CREATE TABLE`, last
one first, where `t` is the last part of the name without its quotes.  What such
a line asks a database to drop is a parameter (`reads`); the catalog then
executes the lines one after the other.

On a catalog whose references are all to tables of its own (`Closed`), running
the lines is a sequence of drops in the sense of `RestrictDrop`, and a
`CREATE`-only script appends tables and indexes (`Extends`), those of the
statements that find their name free (`Made`).  So whether the derived script
undoes the up script can be told from the created names, as they read without
quotes and schema, from their `REFERENCES` and from the starting catalog
(`Undoable`).
-/

namespace DualdbDown

open DualdbAst DualdbTypeMap DualdbModel DualdbRender DualdbMigration
open DualdbRewrite DualdbCatalog DualdbEmitted
open FallibleRun Pointwise RestrictDrop RustStr

variable {κ : Type} [DecidableEq κ] {d : Dialect κ}

/-! ## Closed catalogs -/

def tableKey (d : Dialect κ) (t : Table κ) : κ := t.key d

def Table.parents (t : Table κ) : List κ :=
  t.foreignKeys.map ForeignKey.parent

/-- Foreign keys and indexes are on tables of the catalog. -/
structure Closed (d : Dialect κ) (c : Catalog κ) : Prop where
  parents : ∀ t ∈ c.tables, ∀ k ∈ Table.parents t, (c.lookup d k).isSome
  indexed : ∀ ix ∈ c.indexes, (c.lookup d ix.table).isSome

/-- The catalog without the tables of these keys, and without their indexes. -/
def Catalog.without (d : Dialect κ) (c : Catalog κ) (ks : List κ) :
    Catalog κ :=
  ⟨survivors (tableKey d) c.tables ks, survivors Index.table c.indexes ks⟩

theorem without_nil (c : Catalog κ) : Catalog.without d c [] = c := by
  rw [Catalog.without, survivors_nil, survivors_nil]

theorem without_without (c : Catalog κ) (ks ks' : List κ) :
    Catalog.without d (Catalog.without d c ks) ks'
      = Catalog.without d c (ks ++ ks') := by
  simp only [Catalog.without, survivors_survivors]

theorem lookup_without {c : Catalog κ} {ks : List κ} {k : κ}
    (h : (c.lookup d k).isSome) (hk : k ∉ ks) :
    ((Catalog.without d c ks).lookup d k).isSome := by
  obtain ⟨t, ht, rfl⟩ := lookup_isSome.mp h
  exact lookup_isSome.mpr ⟨t, mem_survivors.mpr ⟨ht, hk⟩, rfl⟩

/-- A drop that is not refused leaves a closed catalog. -/
theorem closed_without {c : Catalog κ} {ks : List κ} (h : Closed d c)
    (hfree : ¬ Blocked (tableKey d) Table.parents c.tables ks) :
    Closed d (Catalog.without d c ks) where
  parents := by
    intro t ht k hk
    obtain ⟨ht, hkey⟩ := mem_survivors.mp ht
    refine lookup_without (h.parents t ht k hk) fun hmem => ?_
    exact hfree ⟨t, ht, hkey, k, hk, hmem⟩
  indexed := by
    intro ix hix
    obtain ⟨hix, hkey⟩ := mem_survivors.mp hix
    exact lookup_without (h.indexed ix hix) hkey

omit [DecidableEq κ] in
theorem filterForeignKeys_eq_self {c : Catalog κ}
    {p : κ → ForeignKey κ → Bool} (h : c.anyForeignKey d p = false) :
    (c.filterForeignKeys d fun owner fk => !p owner fk) = c := by
  have htables : c.tables.map (fun t =>
      { t with
        foreignKeys := t.foreignKeys.filter fun fk =>
          !p (t.key d) fk }) = c.tables := by
    refine (List.map_congr_left fun t ht => ?_).trans (List.map_id _)
    have hnone := List.any_eq_false.mp h t ht
    rw [Bool.not_eq_true, List.any_eq_false] at hnone
    have hkept : (t.foreignKeys.filter fun fk => !p (t.key d) fk)
        = t.foreignKeys := by
      refine List.filter_eq_self.mpr fun fk hfk => ?_
      rw [Bool.not_eq_true']
      exact Bool.not_eq_true _ ▸ hnone fk hfk
    rw [hkept]
    rfl
  rw [Catalog.filterForeignKeys, Catalog.mapTables, htables]

/-- **WHAT `DROP TABLE IF EXISTS` DOES** to a closed catalog. -/
theorem dropTables_ok {c c' : Catalog κ} {names : List ObjectName}
    (h : Closed d c) :
    c.dropTables d true names false = .ok c' ↔
      ¬ Blocked (tableKey d) Table.parents c.tables (names.map d.table) ∧
        c' = Catalog.without d c (names.map d.table) := by
  generalize hks : names.map d.table = ks
  -- `IF EXISTS` filters out only keys that are not found, and a closed
  -- catalog mentions none of those
  have hdropped : ∀ k, (c.lookup d k).isSome →
      ((ks.filter fun k => (c.lookup d k).isSome).contains k = true
        ↔ k ∈ ks) := by
    intro k hk
    rw [List.contains_iff_mem, List.mem_filter]
    exact and_iff_left hk
  have htables : (c.tables.filter fun t => !(ks.filter fun k =>
      (c.lookup d k).isSome).contains (t.key d))
      = survivors (tableKey d) c.tables ks := by
    refine List.filter_congr fun t ht => ?_
    rw [Bool.eq_iff_iff, Bool.not_eq_true', ← Bool.not_eq_true,
      hdropped _ (lookup_isSome.mpr ⟨t, ht, rfl⟩), decide_eq_true_iff]
    rfl
  have hindexes : (c.indexes.filter fun ix => !(ks.filter fun k =>
      (c.lookup d k).isSome).contains ix.table)
      = survivors Index.table c.indexes ks := by
    refine List.filter_congr fun ix hix => ?_
    rw [Bool.eq_iff_iff, Bool.not_eq_true', ← Bool.not_eq_true,
      hdropped _ (h.indexed ix hix), decide_eq_true_iff]
  -- the refusal is about a foreign key that stays and refers to a key that
  -- goes
  have hblocked : ((Catalog.without d c ks).anyForeignKey d fun _ fk =>
      (ks.filter fun k => (c.lookup d k).isSome).contains fk.parent) = true ↔
      Blocked (tableKey d) Table.parents c.tables ks := by
    rw [Catalog.anyForeignKey, Blocked]
    simp only [List.any_eq_true]
    constructor
    · rintro ⟨t, ht, fk, hfk, hmem⟩
      obtain ⟨ht, hkey⟩ := mem_survivors.mp ht
      have hparent : fk.parent ∈ Table.parents t :=
        List.mem_map.mpr ⟨fk, hfk, rfl⟩
      exact ⟨t, ht, hkey, fk.parent, hparent,
        (hdropped _ (h.parents t ht _ hparent)).mp hmem⟩
    · rintro ⟨t, ht, hkey, r, hr, hmem⟩
      obtain ⟨fk, hfk, rfl⟩ := List.mem_map.mp hr
      exact ⟨t, mem_survivors.mpr ⟨ht, hkey⟩, fk, hfk,
        (hdropped _ (h.parents t ht _ hr)).mpr hmem⟩
  simp only [Catalog.dropTables, Bool.not_true, Bool.false_and,
    Bool.false_eq_true, if_false, Bool.not_false, Bool.true_and, hks,
    htables, hindexes]
  change (if (Catalog.without d c ks).anyForeignKey d _ = true then _ else
    Except.ok ((Catalog.without d c ks).filterForeignKeys d _)) = _ ↔ _
  split
  · next hany =>
      exact ⟨fun heq => absurd heq error_ne_ok,
        fun hright => absurd (hblocked.mp hany) hright.1⟩
  · next hnone =>
      rw [filterForeignKeys_eq_self (Bool.not_eq_true _ ▸ hnone)]
      refine ⟨fun heq => ?_, fun hright => congrArg Except.ok hright.2.symm⟩
      exact ⟨fun hb => hnone (hblocked.mpr hb), (Except.ok.inj heq).symm⟩

/-! ## Running the lines -/

/-- Execute one line of a script: `reads` says which tables the line asks to
    drop, `none` being a line the database does not accept. -/
def execLine (d : Dialect κ) (reads : String → Option (List ObjectName))
    (c : Catalog κ) (line : String) : Except Refusal (Catalog κ) :=
  match reads line with
  | some names => exec d c (.drop .table true names false false)
  | none => .error .unsupported

/-- The tables a line asks to drop. -/
def denoted (d : Dialect κ) (reads : String → Option (List ObjectName))
    (line : String) : List κ :=
  ((reads line).getD []).map d.table

variable {reads : String → Option (List ObjectName)}

theorem execLine_ok {c c' : Catalog κ} {line : String} (h : Closed d c) :
    execLine d reads c line = .ok c' ↔
      (reads line).isSome ∧
        ¬ Blocked (tableKey d) Table.parents c.tables (denoted d reads line) ∧
        c' = Catalog.without d c (denoted d reads line) := by
  rw [execLine, denoted]
  cases hread : reads line with
  | none =>
      exact ⟨fun heq => absurd heq error_ne_ok,
        fun ⟨hsome, _⟩ => absurd hsome Bool.false_ne_true⟩
  | some names =>
      refine (dropTables_ok h).trans ⟨fun hdrop => ⟨rfl, hdrop⟩, And.right⟩

/-- **WHAT THE SCRIPT DOES** to a closed catalog. -/
theorem execLines_ok {c c' : Catalog κ} {script : List String}
    (h : Closed d c) :
    script.foldlM (execLine d reads) c = .ok c' ↔
      (∀ line ∈ script, (reads line).isSome) ∧
        Ordered (tableKey d) Table.parents c.tables
          (script.map (denoted d reads)) ∧
        c' = Catalog.without d c (script.flatMap (denoted d reads)) := by
  induction script generalizing c with
  | nil =>
      rw [foldlM_nil_ok, List.flatMap_nil, without_nil, List.map_nil,
        ← accepted_iff_ordered]
      refine ⟨fun heq => ⟨fun _ hl => absurd hl List.not_mem_nil, trivial, heq.symm⟩, ?_⟩
      rintro ⟨-, -, rfl⟩
      rfl
  | cons line script ih =>
      rw [foldlM_cons_ok, List.map_cons, ordered_cons, List.flatMap_cons]
      constructor
      · rintro ⟨c₁, h₁, hrest⟩
        -- the catalog after one line is closed again
        obtain ⟨hread, hfree, rfl⟩ := (execLine_ok h).mp h₁
        obtain ⟨hreads, hordered, rfl⟩ :=
          (ih (closed_without h hfree)).mp hrest
        exact ⟨List.forall_mem_cons.mpr ⟨hread, hreads⟩, ⟨hfree, hordered⟩,
          without_without ..⟩
      · rintro ⟨hreads, ⟨hfree, hordered⟩, rfl⟩
        obtain ⟨hread, hreads⟩ := List.forall_mem_cons.mp hreads
        refine ⟨_, (execLine_ok h).mpr ⟨hread, hfree, rfl⟩,
          (ih (closed_without h hfree)).mpr ⟨hreads, hordered, ?_⟩⟩
        exact (without_without ..).symm

/-! ## What an up script of `CREATE`s does -/

/-- The statements a derived script is written for. -/
def IsCreate : Statement → Prop
  | .createTable _ | .createIndex _ => True
  | _ => False

/-- The names of the tables that a list of statements creates. -/
def createNames (stmts : List Statement) : List ObjectName :=
  stmts.filterMap fun
    | .createTable ct => some ct.name
    | _ => none

/-- Tables under free names and indexes were added to a closed catalog. -/
structure Extends (d : Dialect κ) (c c' : Catalog κ) (ts : List (Table κ))
    (ixs : List (Index κ)) : Prop where
  closed : Closed d c'
  added : c' = ⟨c.tables ++ ts, c.indexes ++ ixs⟩
  fresh : ∀ t ∈ ts, c.lookup d (t.key d) = none

theorem lookup_append {c : Catalog κ} {ts : List (Table κ)}
    {ixs : List (Index κ)} {k : κ} :
    (Catalog.lookup d ⟨c.tables ++ ts, ixs⟩ k).isSome ↔
      (c.lookup d k).isSome ∨ ∃ t ∈ ts, t.key d = k := by
  simp only [lookup_isSome, List.mem_append]
  constructor
  · rintro ⟨t, ht | ht, rfl⟩
    · exact Or.inl ⟨t, ht, rfl⟩
    · exact Or.inr ⟨t, ht, rfl⟩
  · rintro (⟨t, ht, rfl⟩ | ⟨t, ht, rfl⟩)
    · exact ⟨t, Or.inl ht, rfl⟩
    · exact ⟨t, Or.inr ht, rfl⟩

/-- A foreign key is on the table itself or on one that is there. -/
theorem addForeignKey_parents {c : Catalog κ} {t t' : Table κ}
    {con : TableConstraint} (h : c.addForeignKey d t con = .ok t') :
    ∀ k ∈ Table.parents t', k ∈ Table.parents t ∨ k = t.key d
      ∨ (c.lookup d k).isSome := by
  cases con with
  | foreignKey name cols ft refs actions =>
      obtain ⟨-, parent, referred, hparent, -, -, rfl⟩ := addForeignKey_ok.mp h
      intro k hk
      -- one parent is added: the table itself, or one that was found
      rw [Table.parents, List.map_append, List.mem_append] at hk
      refine hk.imp id fun hk => ?_
      rw [List.mem_singleton.mp hk]
      rw [Catalog.parentOf] at hparent
      split at hparent
      · next heq => exact Or.inl heq.symm
      · obtain ⟨u, hu, -⟩ := Option.map_eq_some_iff.mp hparent
        exact Or.inr (Option.isSome_iff_exists.mpr ⟨u, hu⟩)
  | primaryKey _ _ _ | unique _ _ _ | check _ _ | other _ =>
      rw [← Except.ok.inj h]
      exact fun k hk => Or.inl hk

theorem addForeignKeys_parents {c : Catalog κ} {s : Shape} {t : Table κ}
    {cons : List TableConstraint}
    (h : cons.foldlM (c.addForeignKey d) ⟨s, []⟩ = .ok t) :
    ∀ k ∈ Table.parents t, k = t.key d ∨ (c.lookup d k).isSome := by
  have hinv := run_invariant (I := fun u : Table κ => u.toShape = s ∧
    ∀ k ∈ Table.parents u, k = s.key d ∨ (c.lookup d k).isSome) ?_ cons _ t
    ⟨rfl, fun k hk => absurd hk List.not_mem_nil⟩ h
  · rw [Shape.key, hinv.1]
    exact hinv.2
  · rintro u con u' ⟨hu, hparents⟩ hcon
    refine ⟨(addForeignKey_shape hcon).trans hu, fun k hk => ?_⟩
    rcases addForeignKey_parents hcon k hk with hk | hk | hk
    · exact hparents k hk
    · rw [hk, hu]
      exact Or.inl rfl
    · exact Or.inr hk

/-- The tables that a `CREATE TABLE` refers to. -/
def foreignTables (ct : CreateTable) : List ObjectName :=
  (declaredConstraints ct).filterMap fun
    | .foreignKey _ _ ft _ _ => some ft
    | _ => none

/-- The `CREATE TABLE`s whose name is free, the names `taken` being in use. -/
def newTables (d : Dialect κ) : List κ → List Statement → List CreateTable
  | _, [] => []
  | taken, .createTable ct :: stmts =>
      if d.table ct.name ∈ taken then newTables d taken stmts
      else ct :: newTables d (taken ++ [d.table ct.name]) stmts
  | taken, _ :: stmts => newTables d taken stmts

/-- The `CREATE INDEX`es whose name is free or that have none. -/
def newIndexes (d : Dialect κ) :
    List (Option κ) → List Statement → List CreateIndex
  | _, [] => []
  | taken, .createIndex ci :: stmts =>
      if ci.name.isSome = true ∧ ci.name.map d.table ∈ taken then
        newIndexes d taken stmts
      else ci :: newIndexes d (taken ++ [ci.name.map d.table]) stmts
  | taken, _ :: stmts => newIndexes d taken stmts

/-- The table was created by this statement. -/
def MadeBy (d : Dialect κ) (t : Table κ) (ct : CreateTable) : Prop :=
  tableKey d t = d.table ct.name ∧
    Table.parents t = (foreignTables ct).map d.table

def madeIndex (d : Dialect κ) (ci : CreateIndex) : Index κ :=
  ⟨ci.name.map d.table, d.table ci.tableName⟩

omit [DecidableEq κ] in
theorem madeBy_withNative {b : Backend} {t : Table κ} {ct : CreateTable} :
    MadeBy d t { ct with columns := ct.columns.map (ColumnDef.withNative b) } ↔
      MadeBy d t ct := by
  rw [MadeBy, MadeBy, foreignTables, declaredConstraints, List.flatMap_map]
  rfl

/-- A foreign key added is one to the table that is named. -/
theorem addForeignKeys_made {c : Catalog κ} {t t' : Table κ}
    {cons : List TableConstraint}
    (h : cons.foldlM (c.addForeignKey d) t = .ok t') :
    Table.parents t' = Table.parents t ++ (cons.filterMap fun
      | .foreignKey _ _ ft _ _ => some ft
      | _ => none).map d.table := by
  induction cons generalizing t with
  | nil => rw [← foldlM_nil_ok.mp h]; exact (List.append_nil _).symm
  | cons con cons ih =>
      obtain ⟨t₁, h₁, hrest⟩ := foldlM_cons_ok.mp h
      rw [ih hrest]
      cases con with
      | foreignKey name cols ft refs actions =>
          obtain ⟨-, parent, referred, -, -, -, rfl⟩ := addForeignKey_ok.mp h₁
          simp only [Table.parents, List.map_append, List.append_assoc]
          rfl
      | primaryKey _ _ _ | unique _ _ _ | check _ _ | other _ =>
          rw [← Except.ok.inj h₁]
          rfl

/-- What a `CREATE TABLE` does to a closed catalog: nothing under a taken name,
    and one table more under a free one. -/
theorem createTable_extends {c c' : Catalog κ} {ct : CreateTable}
    (hc : Closed d c) (h : exec d c (.createTable ct) = .ok c') :
    (c' = c ∧ d.table ct.name ∈ c.tables.map (tableKey d)) ∨
      ∃ t, Extends d c c' [t] [] ∧ MadeBy d t ct ∧
        d.table ct.name ∉ c.tables.map (tableKey d) := by
  have htaken : (c.lookup d (d.table ct.name)).isSome ↔
      d.table ct.name ∈ c.tables.map (tableKey d) := by
    rw [lookup_isSome, List.mem_map]
    rfl
  cases hlookup : c.lookup d (d.table ct.name) with
  | some u =>
      -- `IF NOT EXISTS` on a taken name
      have hsome : (c.lookup d (d.table ct.name)).isSome := by
        rw [hlookup]; rfl
      exact Or.inl ⟨exec_createTable_there h hsome, htaken.mp hsome⟩
  | none =>
      refine Or.inr ?_
      obtain ⟨s, t, hs, ht, hts, rfl⟩ :=
        exec_createTable_ok h (by rw [hlookup]; rfl)
      have hkey : t.key d = d.table ct.name := by
        rw [Shape.key, hts, createShape_name hs]
      -- every key that was found is found in the longer list
      have hmono : ∀ k, (c.lookup d k).isSome ∨ k = t.key d →
          (Catalog.lookup d { c with tables := c.tables ++ [t] } k).isSome :=
        fun k hk => lookup_append.mpr
          (hk.imp id fun hk => ⟨t, List.mem_singleton.mpr rfl, hk.symm⟩)
      refine ⟨t, ⟨⟨?_, ?_⟩, ?_, ?_⟩, ⟨hkey, addForeignKeys_made ht⟩, ?_⟩
      · intro u hu k hk
        rcases List.mem_append.mp hu with hu | hu
        · exact hmono k (Or.inl (hc.parents u hu k hk))
        · rw [List.mem_singleton.mp hu] at hk
          exact hmono k (addForeignKeys_parents ht k hk).symm
      · intro ix hix
        exact hmono _ (Or.inl (hc.indexed ix hix))
      · rw [List.append_nil]
      · intro u hu
        rw [List.mem_singleton.mp hu, hkey, hlookup]
      · rw [← htaken, hlookup]
        exact Bool.false_ne_true

/-- What a `CREATE INDEX` does to a closed catalog. -/
theorem createIndex_extends {c c' : Catalog κ} {ci : CreateIndex}
    (hc : Closed d c) (h : exec d c (.createIndex ci) = .ok c') :
    (c' = c ∧ ci.name.isSome = true ∧
        ci.name.map d.table ∈ c.indexes.map Index.name) ∨
      Extends d c c' [] [madeIndex d ci] ∧
        ¬ (ci.name.isSome = true ∧
          ci.name.map d.table ∈ c.indexes.map Index.name) := by
  have htaken : ((ci.name.map d.table).isSome &&
        c.indexes.any fun ix => decide (ix.name = ci.name.map d.table)) = true ↔
      ci.name.isSome = true ∧
        ci.name.map d.table ∈ c.indexes.map Index.name := by
    simp only [Bool.and_eq_true, Option.isSome_map, List.any_eq_true,
      decide_eq_true_iff, List.mem_map]
  simp only [exec, Catalog.createIndex] at h
  split at h
  · cases h
  · next hsome =>
      have hthere : (c.lookup d (d.table ci.tableName)).isSome :=
        Option.isSome_iff_ne_none.mpr (by simpa using hsome)
      split at h
      · next hname =>
          split at h
          · exact Or.inl ⟨(Except.ok.inj h).symm, htaken.mp hname⟩
          · cases h
      · next hname =>
          refine Or.inr ⟨?_, fun hmem => hname (htaken.mpr hmem)⟩
          rw [← Except.ok.inj h]
          refine ⟨⟨hc.parents, ?_⟩, by rw [List.append_nil]; rfl,
            fun _ ht => absurd ht List.not_mem_nil⟩
          intro ix hix
          rcases List.mem_append.mp hix with hix | hix
          · exact hc.indexed ix hix
          · rw [List.mem_singleton.mp hix]
            exact hthere

/-- One more step of an up script. -/
theorem Extends.trans {c c₁ c₂ : Catalog κ} {ts ts' : List (Table κ)}
    {ixs ixs' : List (Index κ)} (h : Extends d c c₁ ts ixs)
    (h' : Extends d c₁ c₂ ts' ixs') :
    Extends d c c₂ (ts ++ ts') (ixs ++ ixs') where
  closed := h'.closed
  added := by
    rw [h'.added, h.added, List.append_assoc, List.append_assoc]
  fresh := by
    intro t ht
    rcases List.mem_append.mp ht with ht | ht
    · exact h.fresh t ht
    · have hfree := h'.fresh t ht
      rw [lookup_eq_none] at hfree ⊢
      rw [h.added] at hfree
      exact fun u hu => hfree u (List.mem_append_left _ hu)

/-- The tables and the indexes are those of the statements that find their name
    free. -/
structure Made (d : Dialect κ) (c : Catalog κ) (stmts : List Statement)
    (ts : List (Table κ)) (ixs : List (Index κ)) : Prop where
  tables : List.Forall₂ (MadeBy d) ts
    (newTables d (c.tables.map (tableKey d)) stmts)
  indexes : ixs
    = (newIndexes d (c.indexes.map Index.name) stmts).map (madeIndex d)

/-- **WHAT AN UP SCRIPT OF `CREATE`S DOES**: it adds tables and indexes, and
    afterwards there is a table for every name it creates. -/
theorem creates_extend {b : Backend} {stmts : List Statement}
    {c c' : Catalog κ} (hc : Closed d c) (hcreate : ∀ s ∈ stmts, IsCreate s)
    (h : stmts.foldlM (fun c s => exec d c (withNative b s)) c = .ok c') :
    ∃ ts ixs, Extends d c c' ts ixs ∧ Made d c stmts ts ixs ∧
      ∀ n ∈ createNames stmts, (c'.lookup d (d.table n)).isSome := by
  induction stmts generalizing c with
  | nil =>
      rw [← foldlM_nil_ok.mp h]
      refine ⟨[], [], ⟨hc, ?_, fun _ ht => absurd ht List.not_mem_nil⟩,
        ⟨.nil, rfl⟩, fun _ hn => absurd hn List.not_mem_nil⟩
      rw [List.append_nil, List.append_nil]
  | cons s stmts ih =>
      obtain ⟨c₁, h₁, hrest⟩ := foldlM_cons_ok.mp h
      obtain ⟨hs, hrestCreate⟩ := List.forall_mem_cons.mp hcreate
      cases s with
      | createTable ct =>
          rcases createTable_extends hc h₁ with
            ⟨rfl, htaken⟩ | ⟨t, hext₁, hmade₁, hfree⟩
          · -- skipped, since the name is taken
            have htaken : d.table ct.name ∈ c₁.tables.map (tableKey d) := htaken
            obtain ⟨ts, ixs, hext, hmade, hnames⟩ := ih hc hrestCreate hrest
            refine ⟨ts, ixs, hext, ⟨?_, hmade.indexes⟩,
              List.forall_mem_cons.mpr ⟨?_, hnames⟩⟩
            · rw [newTables, if_pos htaken]
              exact hmade.tables
            · rw [hext.added]
              refine lookup_append.mpr (Or.inl (lookup_isSome.mpr ?_))
              exact List.mem_map.mp htaken
          · have hfree : d.table ct.name ∉ c.tables.map (tableKey d) := hfree
            have hkey : tableKey d t = d.table ct.name := hmade₁.1
            obtain ⟨ts, ixs, hext, hmade, hnames⟩ :=
              ih hext₁.closed hrestCreate hrest
            have hall := hext₁.trans hext
            refine ⟨[t] ++ ts, [] ++ ixs, hall, ⟨?_, ?_⟩,
              List.forall_mem_cons.mpr ⟨?_, hnames⟩⟩
            · rw [newTables, if_neg hfree]
              refine .cons (madeBy_withNative.mp hmade₁) ?_
              have hrestMade := hmade.tables
              rw [hext₁.added, List.map_append, List.map_singleton, hkey]
                at hrestMade
              exact hrestMade
            · have hrestMade := hmade.indexes
              rw [hext₁.added, List.append_nil] at hrestMade
              exact hrestMade
            · rw [hall.added]
              exact lookup_append.mpr (Or.inr ⟨t, List.mem_cons_self, hkey⟩)
      | createIndex ci =>
          rcases createIndex_extends hc h₁ with
            ⟨rfl, htaken⟩ | ⟨hext₁, hfree⟩
          · obtain ⟨ts, ixs, hext, hmade, hnames⟩ := ih hc hrestCreate hrest
            refine ⟨ts, ixs, hext, ⟨hmade.tables, ?_⟩, hnames⟩
            rw [newIndexes, if_pos htaken]
            exact hmade.indexes
          · obtain ⟨ts, ixs, hext, hmade, hnames⟩ :=
              ih hext₁.closed hrestCreate hrest
            refine ⟨[] ++ ts, [madeIndex d ci] ++ ixs, hext₁.trans hext,
              ⟨?_, ?_⟩, hnames⟩
            · have hrestMade := hmade.tables
              rw [hext₁.added, List.append_nil] at hrestMade
              exact hrestMade
            · have hrestMade := hmade.indexes
              rw [hext₁.added, List.map_append, List.map_singleton] at hrestMade
              rw [newIndexes, if_neg hfree, List.map_cons, hrestMade]
              rfl
      | alterTable _ _ _ _ _ | drop _ _ _ _ _ | other _ => cases hs

/-! ## The emitted script -/

/-- The lines of the derived script. -/
def downLines (stmts : List Statement) : List String :=
  (createNames stmts).reverse.map fun n => dropLine (lastIdent n)

theorem createdTable_names (stmts : List Statement) :
    stmts.filterMap createdTable = (createNames stmts).map lastIdent := by
  rw [createNames, List.map_filterMap]
  refine List.filterMap_congr fun s _ => ?_
  cases s <;> rfl

/-- The derived script is its lines. -/
theorem deriveDown_chunks {p : Sqlparser} {segs : List Segment}
    {chunks : List (List Statement)} (h : Chunks p segs chunks) :
    deriveDown p segs = .ok (join "\n" (downLines chunks.flatten)) := by
  rw [deriveDown_ok h, dropLines, createdTable_names, ← List.map_reverse, List.map_map]
  rfl

theorem renders_down {p : Sqlparser} {b : Backend} {m : Migration}
    {r : RenderedMigration} {stmts : List Statement}
    (h : Renders p b m r) (hdown : m.downSql = none)
    (hstmts : migrationStatements p m = .ok stmts) :
    r.downSql = join "\n" (downLines stmts) := by
  obtain ⟨segs, chunks, down, -, hchunks, hstmts', -, hdownSql, rfl⟩ :=
    renders_chunks h
  cases Except.ok.inj (hstmts.symm.trans hstmts')
  rw [migrationDown, hdown] at hdownSql
  exact Except.ok.inj (hdownSql.symm.trans (deriveDown_chunks hchunks))

/-! ## When the derived script undoes the up script -/

/-- The tables that a database takes a created name for when its last part is
    printed as it is. -/
def readAs (d : Dialect κ) (reads : String → Option (List ObjectName))
    (n : ObjectName) : List κ :=
  denoted d reads (dropLine (lastIdent n))

/-- The statements can be taken back from the catalog they ran on.  The last
    part of every created name can be read without its quotes, and is none of a
    table that was there.  A name that was free is one that some created name
    reads as.  When a created table refers to another, no name read as the
    parent comes after the last one read as the child.  And indexes are on
    tables that were not there. -/
structure Undoable (d : Dialect κ)
    (reads : String → Option (List ObjectName)) (stmts : List Statement)
    (before : Catalog κ) : Prop where
  readable : ∀ n ∈ createNames stmts, (reads (dropLine (lastIdent n))).isSome
  spares : ∀ n ∈ createNames stmts, ∀ k ∈ readAs d reads n,
    before.lookup d k = none
  reaches : ∀ n ∈ createNames stmts, before.lookup d (d.table n) = none →
    ∃ n' ∈ createNames stmts, d.table n ∈ readAs d reads n'
  children : ∀ ct ∈ newTables d (before.tables.map (tableKey d)) stmts,
    ∀ ft ∈ foreignTables ct, ∀ l n r, createNames stmts = l ++ n :: r →
      d.table ft ∈ readAs d reads n →
        ∃ n' ∈ n :: r, d.table ct.name ∈ readAs d reads n'
  indexes : ∀ ci ∈ newIndexes d (before.indexes.map Index.name) stmts,
    before.lookup d (d.table ci.tableName) = none

/-- Keys that are free spare a closed catalog. -/
theorem Closed.spared {c : Catalog κ} (hc : Closed d c) {ks : List κ}
    (hfree : ∀ k ∈ ks, c.lookup d k = none) :
    (∀ t ∈ c.tables, tableKey d t ∉ ks) ∧ ∀ ix ∈ c.indexes, ix.table ∉ ks := by
  constructor
  · intro t ht hk
    exact lookup_eq_none.mp (hfree _ hk) t ht rfl
  · intro ix hix hk
    have hthere := hc.indexed ix hix
    rw [hfree _ hk] at hthere
    cases hthere

/-- **TAKING BACK AN EXTENSION**: the drops restore the catalog exactly if they
    are about free keys and reach every table added, and no index was added to
    a table that was there. -/
theorem without_extended_iff {c c' : Catalog κ} {ts : List (Table κ)}
    {ixs : List (Index κ)} {ks : List κ} (hc : Closed d c)
    (hext : Extends d c c' ts ixs) :
    Catalog.without d c' ks = c ↔
      (∀ k ∈ ks, c.lookup d k = none) ∧ (∀ t ∈ ts, tableKey d t ∈ ks) ∧
        ∀ ix ∈ ixs, c.lookup d ix.table = none := by
  have hfresh : ∀ t ∈ ts, ∀ u ∈ c.tables, tableKey d t ≠ tableKey d u :=
    fun t ht u hu => (lookup_eq_none.mp (hext.fresh t ht) u hu).symm
  rw [hext.added]
  constructor
  · intro hleft
    have htables := congrArg Catalog.tables hleft
    have hindexes := congrArg Catalog.indexes hleft
    have hspared := spared_of_restored hfresh htables
    have hfree : ∀ k ∈ ks, c.lookup d k = none := by
      intro k hk
      rw [lookup_eq_none]
      rintro u hu rfl
      exact hspared u hu hk
    refine ⟨hfree, (survivors_append_iff hspared).mp htables, ?_⟩
    intro ix hix
    exact hfree _ ((survivors_append_iff (hc.spared hfree).2).mp hindexes
      ix hix)
  · rintro ⟨hfree, hreached, hindexes⟩
    obtain ⟨htables, hspared⟩ := hc.spared hfree
    -- an added index is on an added table, since the catalog stays closed
    have hdropped : ∀ ix ∈ ixs, ix.table ∈ ks := by
      intro ix hix
      have hthere := hext.closed.indexed ix
      rw [hext.added] at hthere
      rcases lookup_append.mp (hthere (List.mem_append_right _ hix)) with
        hold | ⟨t, ht, hkey⟩
      · rw [hindexes ix hix] at hold
        cases hold
      · exact hkey ▸ hreached t ht
    rw [Catalog.without, (survivors_append_iff htables).mpr hreached,
      (survivors_append_iff hspared).mpr hdropped]

theorem newTables_name {taken : List κ} {stmts : List Statement}
    {ct : CreateTable} (h : ct ∈ newTables d taken stmts) :
    ct.name ∈ createNames stmts := by
  induction stmts generalizing taken with
  | nil => cases h
  | cons s stmts ih =>
      cases s with
      | createTable ct' =>
          rw [newTables] at h
          split at h
          · exact List.mem_cons_of_mem _ (ih h)
          · rcases List.mem_cons.mp h with rfl | h
            · exact List.mem_cons_self
            · exact List.mem_cons_of_mem _ (ih h)
      | alterTable _ _ _ _ _ | drop _ _ _ _ _ | createIndex _ | other _ =>
          exact ih h

theorem newIndexes_mem {taken : List (Option κ)} {stmts : List Statement}
    {ci : CreateIndex} (h : ci ∈ newIndexes d taken stmts) :
    Statement.createIndex ci ∈ stmts := by
  induction stmts generalizing taken with
  | nil => cases h
  | cons s stmts ih =>
      cases s with
      | createIndex ci' =>
          rw [newIndexes] at h
          split at h
          · exact List.mem_cons_of_mem _ (ih h)
          · rcases List.mem_cons.mp h with rfl | h
            · exact List.mem_cons_self
            · exact List.mem_cons_of_mem _ (ih h)
      | createTable _ | alterTable _ _ _ _ _ | drop _ _ _ _ _ | other _ =>
          exact List.mem_cons_of_mem _ (ih h)

/-- A table that was added has one of the created names. -/
theorem made_name {c : Catalog κ} {stmts : List Statement}
    {ts : List (Table κ)} {ixs : List (Index κ)} (h : Made d c stmts ts ixs)
    {t : Table κ} (ht : t ∈ ts) :
    ∃ n ∈ createNames stmts, tableKey d t = d.table n := by
  obtain ⟨ct, hct, hkey, -⟩ := forall₂_of_mem_left h.tables ht
  exact ⟨ct.name, newTables_name hct, hkey⟩

omit [DecidableEq κ] in
theorem denoted_downLines (stmts : List Statement) :
    (downLines stmts).map (denoted d reads)
      = (createNames stmts).reverse.map (readAs d reads) := by
  rw [downLines, List.map_map]
  rfl

/-- The lines come in an order that keeps references intact exactly if no name
    read as a parent comes after the last one read as its child. -/
theorem ordered_lines_iff {stmts : List Statement} {c c' : Catalog κ}
    {ts : List (Table κ)} {ixs : List (Index κ)} (hc : Closed d c)
    (hext : Extends d c c' ts ixs) (hmade : Made d c stmts ts ixs)
    (hspares : ∀ n ∈ createNames stmts, ∀ k ∈ readAs d reads n,
      c.lookup d k = none) :
    Ordered (tableKey d) Table.parents c'.tables
        ((downLines stmts).map (denoted d reads)) ↔
      ∀ ct ∈ newTables d (c.tables.map (tableKey d)) stmts,
        ∀ ft ∈ foreignTables ct, ∀ l n r, createNames stmts = l ++ n :: r →
          d.table ft ∈ readAs d reads n →
            ∃ n' ∈ n :: r, d.table ct.name ∈ readAs d reads n' := by
  rw [denoted_downLines, ordered_reverse_map_iff, hext.added]
  constructor
  · intro h ct hct ft hft l n r hsplit hread
    obtain ⟨t, ht, hkey, hparents⟩ :=
      forall₂_of_mem_left hmade.tables.flip hct
    have hparent : d.table ft ∈ Table.parents t := by
      rw [hparents]
      exact List.mem_map_of_mem hft
    rw [← hkey]
    exact h t (List.mem_append_right _ ht) _ hparent l n r hsplit hread
  · intro h t ht k hk l n r hsplit hread
    rcases List.mem_append.mp ht with ht | ht
    · -- a table that was there refers to tables that are spared
      have hn : n ∈ createNames stmts := by
        rw [hsplit]
        exact List.mem_append_right _ List.mem_cons_self
      have hthere := hc.parents t ht k hk
      rw [hspares n hn k hread] at hthere
      cases hthere
    · obtain ⟨ct, hct, hkey, hparents⟩ := forall₂_of_mem_left hmade.tables ht
      rw [hparents] at hk
      obtain ⟨ft, hft, rfl⟩ := List.mem_map.mp hk
      rw [hkey]
      exact h ct hct ft hft l n r hsplit hread

/-- Running the lines restores the catalog exactly if the statements can be
    taken back. -/
theorem downLines_iff {stmts : List Statement} {c c' : Catalog κ}
    {ts : List (Table κ)} {ixs : List (Index κ)} (hc : Closed d c)
    (hext : Extends d c c' ts ixs) (hmade : Made d c stmts ts ixs)
    (hnames : ∀ n ∈ createNames stmts, (c'.lookup d (d.table n)).isSome) :
    (downLines stmts).foldlM (execLine d reads) c' = .ok c ↔
      Undoable d reads stmts c := by
  have hlines : ∀ line, line ∈ downLines stmts ↔
      ∃ n ∈ createNames stmts, dropLine (lastIdent n) = line := by
    intro line
    rw [downLines, List.mem_map]
    simp only [List.mem_reverse]
  have hindexed : (∀ ix ∈ ixs, c.lookup d ix.table = none) ↔
      ∀ ci ∈ newIndexes d (c.indexes.map Index.name) stmts,
        c.lookup d (d.table ci.tableName) = none := by
    rw [hmade.indexes, List.forall_mem_map]
    rfl
  have hmem : ∀ k, k ∈ (downLines stmts).flatMap (denoted d reads) ↔
      ∃ n ∈ createNames stmts, k ∈ readAs d reads n := by
    intro k
    rw [List.mem_flatMap]
    constructor
    · rintro ⟨line, hline, hk⟩
      obtain ⟨n, hn, rfl⟩ := (hlines line).mp hline
      exact ⟨n, hn, hk⟩
    · rintro ⟨n, hn, hk⟩
      exact ⟨_, (hlines _).mpr ⟨n, hn, rfl⟩, hk⟩
  -- what the lines leave is compared with `c`, table by table
  rw [execLines_ok hext.closed]
  constructor
  · rintro ⟨hread, hordered, hleft⟩
    obtain ⟨hfree, hreached, hindexes⟩ :=
      (without_extended_iff hc hext).mp hleft.symm
    have hspares : ∀ n ∈ createNames stmts, ∀ k ∈ readAs d reads n,
        c.lookup d k = none :=
      fun n hn k hk => hfree k ((hmem k).mpr ⟨n, hn, hk⟩)
    refine ⟨fun n hn => hread _ ((hlines _).mpr ⟨n, hn, rfl⟩), hspares, ?_,
      (ordered_lines_iff hc hext hmade hspares).mp hordered,
      hindexed.mp hindexes⟩
    -- the name was free and is taken now, so its table is an added one
    intro n hn hnone
    have hthere := hnames n hn
    rw [hext.added] at hthere
    rcases lookup_append.mp hthere with hold | ⟨t, ht, hkey⟩
    · rw [hnone] at hold
      cases hold
    · exact (hmem _).mp (hkey ▸ hreached t ht)
  · intro h
    refine ⟨fun line hline => ?_,
      (ordered_lines_iff hc hext hmade h.spares).mpr h.children,
      ((without_extended_iff hc hext).mpr
        ⟨fun k hk => ?_, fun t ht => ?_, hindexed.mpr h.indexes⟩).symm⟩
    · obtain ⟨n, hn, rfl⟩ := (hlines line).mp hline
      exact h.readable n hn
    · obtain ⟨n, hn, hk⟩ := (hmem k).mp hk
      exact h.spares n hn k hk
    · obtain ⟨n, hn, hkey⟩ := made_name hmade ht
      rw [hkey]
      exact (hmem _).mpr (h.reaches n hn (hkey ▸ hext.fresh t ht))

/-- **THE DERIVED DOWN SCRIPT**: for a migration of `CREATE`s without a
    `down.sql` and without tagged blocks, the emitted script is the derived
    lines, and running them after the emitted up script gives back the catalog
    before it exactly if the statements can be taken back from it. -/
theorem derived_down_undoes_iff {p : Sqlparser}
    (reads : String → Option (List ObjectName)) {ms : List Migration}
    {g : Generated} {b : Backend} {m : Migration} {r : RenderedMigration}
    {ps : List Piece} {stmts : List Statement} {raw : Raw κ}
    {c c' : Catalog κ} (h : generate p ms = .ok g)
    (hmr : (m, r) ∈ ms.zip (g.tree b)) (hdown : m.downSql = none)
    (hps : migrationPieces p b m = .ok ps)
    (huntagged : ∀ text, Piece.block text ∉ ps)
    (hstmts : migrationStatements p m = .ok stmts)
    (hcreate : ∀ s ∈ stmts, IsCreate s) (hclosed : Closed d c)
    (hup : ps.foldlM (execPiece d raw) c = .ok c') :
    r.upSql = join "\n\n" (ps.map (Piece.text p)) ∧
      r.downSql = join "\n" (downLines stmts) ∧
      ((downLines stmts).foldlM (execLine d reads) c' = .ok c ↔
        Undoable d reads stmts c) := by
  have hrenders : Renders p b m r :=
    (List.forall₂_iff_zip.mp (generate_tree h b)).2 hmr
  obtain ⟨ps', hps', hupSql⟩ := renders_pieces hrenders
  cases Except.ok.inj (hps.symm.trans hps')
  refine ⟨hupSql, renders_down hrenders hdown hstmts, ?_⟩
  obtain ⟨stmts', hstmts', hpieces⟩ := migrationPieces_statements hps
  cases Except.ok.inj (hstmts.symm.trans hstmts')
  -- no block has run, so the run is that of the statements
  have hrun := execPieces_untagged huntagged hup
  rw [hpieces, List.foldlM_map] at hrun
  obtain ⟨ts, ixs, hext, hmade, hnames⟩ :=
    creates_extend hclosed hcreate hrun
  exact downLines_iff hclosed hext hmade hnames

/-! ## Runs on fixed histories -/

section Runs

open DualdbSqlText

/-- Reads the line of a plain unquoted name, and refuses every other one. -/
def plainLine (line : String) : Option (List ObjectName) :=
  match stripPrefix line "DROP TABLE IF EXISTS " with
  | none => none
  | some rest =>
      let word := rest.toList.dropLast
      if rest.toList.getLast? = some ';' ∧ word ≠ [] ∧
        word.all fun c => c.isAlphanum || c == '_'
      then some [bare (String.ofList word)]
      else none

def downParser : Sqlparser := parserOf
  [("CREATE TABLE a (x INT PRIMARY KEY);\nCREATE TABLE b (y INT REFERENCES a)\n",
      [createTable (bare "a") [col "x" (.int none) [pk]] [],
        createTable (bare "b")
          [col "y" (.int none) [.foreignKey (bare "a") [] ""]] []]),
    ("CREATE TABLE app.t (a INT)\n",
      [createTable ⟨[Ident.new "app", Ident.new "t"]⟩
        [col "a" (.int none) []] []])]

/-- A database with a table `t` of its own. -/
def startCatalog : Catalog (List String) :=
  ⟨[⟨⟨bare "t", [⟨Ident.new "a", .int none, false, false⟩], none⟩, []⟩], []⟩

theorem startCatalog_closed : Closed folding startCatalog where
  parents := by
    intro t ht k hk
    rw [List.mem_singleton.mp ht] at hk
    exact absurd hk List.not_mem_nil
  indexed := fun ix hix => absurd hix List.not_mem_nil

def parentAndChild : Migration :=
  ⟨"1", "CREATE TABLE a (x INT PRIMARY KEY);\nCREATE TABLE b (y INT REFERENCES a)",
    none⟩

def parentAndChildStatements : List Statement :=
  [createTable (bare "a") [col "x" (.int none) [pk]] [],
    createTable (bare "b")
      [col "y" (.int none) [.foreignKey (bare "a") [] ""]] []]

/-- The pieces of a migration that is one shared chunk. -/
theorem migrationPieces_of_shared {p : Sqlparser} {b : Backend}
    {m : Migration} {sql : String} {stmts : List Statement}
    (hsegs : segment m.upSql = .ok [.shared sql])
    (hstmts : parse p sql = .ok stmts) :
    migrationPieces p b m
      = .ok (stmts.map fun s => .statement (withNative b s)) := by
  refine migrationPieces_ok.mpr ⟨_, [stmts], hsegs, .cons hstmts .nil, ?_⟩
  exact (List.append_nil _).symm

theorem migrationStatements_of_shared {p : Sqlparser} {m : Migration}
    {sql : String} {stmts : List Statement}
    (hsegs : segment m.upSql = .ok [.shared sql])
    (hstmts : parse p sql = .ok stmts) :
    migrationStatements p m = .ok stmts :=
  bind_ok.mpr ⟨_, hsegs, sharedStatements_ok.mpr
    ⟨[stmts], .cons hstmts .nil, List.append_nil _⟩⟩

/-- The migration of a one-migration tree, zipped with what it renders to. -/
theorem exists_rendered {p : Sqlparser} {m : Migration} {g : Generated}
    (b : Backend) (h : generate p [m] = .ok g) :
    ∃ r, g.tree b = [r] ∧ (m, r) ∈ [m].zip (g.tree b) := by
  have htree := generate_tree h b
  generalize g.tree b = rs at htree
  cases htree with
  | cons _ hnil =>
      cases hnil
      exact ⟨_, rfl, List.mem_singleton.mpr rfl⟩

theorem derived_down_undoes_iff_of_parent_and_child :
    ∃ g r c', generate downParser [parentAndChild] = .ok g ∧
      g.tree .postgres = [r] ∧
      r.downSql = "DROP TABLE IF EXISTS b;\nDROP TABLE IF EXISTS a;" ∧
      (downLines parentAndChildStatements).foldlM
        (execLine folding plainLine) c' = .ok startCatalog ∧
      Undoable folding plainLine parentAndChildStatements startCatalog := by
  obtain ⟨g, hg⟩ := exists_ok_of_isOk
    (x := generate downParser [parentAndChild]) (by decide +kernel)
  obtain ⟨r, hr, hmr⟩ := exists_rendered .postgres hg
  have hsegs : segment parentAndChild.upSql
      = .ok [.shared (parentAndChild.upSql ++ "\n")] := by
    decide +kernel
  have hparse : parse downParser (parentAndChild.upSql ++ "\n")
      = .ok parentAndChildStatements := by
    decide +kernel
  have hruns : ((parentAndChildStatements.map fun s =>
        Piece.statement (withNative .postgres s)).foldlM
          (execPiece folding noRaw) startCatalog >>= fun c' =>
      (downLines parentAndChildStatements).foldlM
        (execLine folding plainLine) c') = .ok startCatalog := by
    decide +kernel
  obtain ⟨c', hup, hdown⟩ := bind_ok.mp hruns
  have hcreate : ∀ s ∈ parentAndChildStatements, IsCreate s :=
    List.forall_mem_cons.mpr ⟨trivial, List.forall_mem_cons.mpr
      ⟨trivial, fun _ hs => absurd hs List.not_mem_nil⟩⟩
  obtain ⟨-, hlines, hiff⟩ := derived_down_undoes_iff plainLine hg hmr
    rfl (migrationPieces_of_shared hsegs hparse) (by simp)
    (migrationStatements_of_shared hsegs hparse) hcreate startCatalog_closed
    hup
  refine ⟨g, r, c', hg, hr, hlines.trans ?_, hdown, hiff.mp hdown⟩
  decide +kernel

def qualified : Migration := ⟨"1", "CREATE TABLE app.t (a INT)", none⟩

def qualifiedStatements : List Statement :=
  [createTable ⟨[Ident.new "app", Ident.new "t"]⟩ [col "a" (.int none) []] []]

/-- The line drops the table `t` that was there before, and `app.t` stays. -/
theorem qualified_name_drops_another :
    ∃ g r up down, generate downParser [qualified] = .ok g ∧
      g.tree .postgres = [r] ∧ r.downSql = "DROP TABLE IF EXISTS t;" ∧
      qualifiedStatements.foldlM
        (fun c s => exec folding c (withNative .postgres s)) startCatalog
        = .ok up ∧
      (downLines qualifiedStatements).foldlM (execLine folding plainLine) up
        = .ok down ∧
      startCatalog.shapes.map Shape.name = [bare "t"] ∧
      down.shapes.map Shape.name = [⟨[Ident.new "app", Ident.new "t"]⟩] := by
  obtain ⟨g, hg⟩ := exists_ok_of_isOk
    (x := generate downParser [qualified]) (by decide +kernel)
  obtain ⟨r, hr, hmr⟩ := exists_rendered .postgres hg
  have hsegs : segment qualified.upSql
      = .ok [.shared (qualified.upSql ++ "\n")] := by
    decide +kernel
  have hparse : parse downParser (qualified.upSql ++ "\n")
      = .ok qualifiedStatements := by
    decide +kernel
  have hlines := renders_down
    ((List.forall₂_iff_zip.mp (generate_tree hg .postgres)).2 hmr) rfl
    (migrationStatements_of_shared hsegs hparse)
  refine ⟨g, r, ⟨[⟨⟨bare "t", [⟨Ident.new "a", .int none, false, false⟩],
        none⟩, []⟩,
      ⟨⟨⟨[Ident.new "app", Ident.new "t"]⟩, [⟨Ident.new "a",
        DataType.ofNative "INTEGER", false, false⟩], none⟩, []⟩], []⟩,
    ⟨[⟨⟨⟨[Ident.new "app", Ident.new "t"]⟩, [⟨Ident.new "a",
        DataType.ofNative "INTEGER", false, false⟩], none⟩, []⟩], []⟩,
    hg, hr, hlines.trans ?_, ?_, ?_, rfl, rfl⟩
  · decide +kernel
  · decide +kernel
  · decide +kernel

end Runs

end DualdbDown
