import DieselDualdb.Catalog
import DieselDualdb.Lib.Positions
import DieselDualdb.Lib.TwoViews

/-!
# What a statement sees of a catalog

Two groups of tables are `Apart` in a catalog when no foreign key leads from
outside a group into it; foreign keys from either group to the remaining tables are
allowed.  A statement that only creates, alters and drops tables of the group `A`
and refers to no table of the group `B` (`Within`) does not notice `B`: it does to
the catalog without `B` what it does to the whole one (`exec_restrict`), and it
leaves the catalog without `A` as it is (`exec_kept`).

So the statements on `A` and those on `B` are inputs of two parties, in the sense
of `Lib.TwoViews` (`exec_private`).
-/

namespace DualdbFrame

open DualdbAst DualdbCatalog FallibleRun Positions TwoViews

variable {κ : Type}

/-- The part of a catalog that is about these tables. -/
def restrict (d : Dialect κ) (keep : κ → Bool) (c : Catalog κ) : Catalog κ :=
  ⟨c.tables.filter fun t => keep (t.key d),
    c.indexes.filter fun ix => keep ix.table⟩

/-- The tables outside of the group. -/
def without (group : κ → Bool) (k : κ) : Bool := !group k

/-- No foreign key from outside leads into the group, and the names of the group
    are not taken by indexes on other tables. -/
structure Secluded (d : Dialect κ) (group : κ → Bool) (c : Catalog κ) : Prop where
  parents : ∀ t ∈ c.tables, group (t.key d) = false →
    ∀ fk ∈ t.foreignKeys, group fk.parent = false
  names : ∀ ix ∈ c.indexes, ∀ n, ix.name = some n → group n = true →
    group ix.table = true

/-- Both groups are secluded. -/
structure Apart (d : Dialect κ) (A B : κ → Bool) (c : Catalog κ) : Prop where
  mine : Secluded d A c
  theirs : Secluded d B c

theorem Apart.symm {d : Dialect κ} {A B : κ → Bool} {c : Catalog κ}
    (h : Apart d A B c) : Apart d B A c :=
  ⟨h.theirs, h.mine⟩

/-! ## Statements of a group -/

/-- The constraint refers to no table of the group. -/
def RefersOutside (d : Dialect κ) (B : κ → Bool) : TableConstraint → Prop
  | .foreignKey _ _ foreignTable _ _ => B (d.table foreignTable) = false
  | _ => True

def OperationWithin (d : Dialect κ) (A B : κ → Bool) :
    AlterTableOperation → Prop
  | .addConstraint con => RefersOutside d B con
  | .addColumn _ _ c _ => ∀ con ∈ inlineConstraints c, RefersOutside d B con
  | .renameTable new => ∀ old, A (d.table old) = true →
      A (d.table (renamed old new)) = true
  | _ => True

/-- The statement changes tables of `A` only, refers to none of `B` and copies no
    table. -/
def Within (d : Dialect κ) (A B : κ → Bool) : Statement → Prop
  | .createTable ct => A (d.table ct.name) = true ∧ copies ct = false ∧
      ∀ con ∈ declaredConstraints ct, RefersOutside d B con
  | .alterTable name _ _ operations _ => A (d.table name) = true ∧
      ∀ op ∈ operations, OperationWithin d A B op
  | .drop .table _ names _ _ => ∀ name ∈ names, A (d.table name) = true
  | .createIndex ci => A (d.table ci.tableName) = true ∧
      ∀ name ∈ ci.name, A (d.table name) = true
  | _ => True

variable [DecidableEq κ] {d : Dialect κ} {A B keep : κ → Bool} {c : Catalog κ}

/-! ## Looking tables up -/

theorem lookup_restrict {k : κ} (hk : keep k = true) :
    (restrict d keep c).lookup d k = c.lookup d k := by
  refine find?_filter (fun t ht => ?_) c.tables
  rw [of_decide_eq_true ht]
  exact hk

theorem find_restrict {k : κ} (hk : keep k = true) :
    (restrict d keep c).find d k
      = (c.find d k).map (position (fun t => keep (t.key d)) c.tables) := by
  refine findIdx?_filter (fun t ht => ?_) c.tables
  rw [of_decide_eq_true ht]
  exact hk

theorem parentOf_restrict {t : Table κ} {k : κ} (hk : keep k = true) :
    (restrict d keep c).parentOf d t k = c.parentOf d t k := by
  rw [Catalog.parentOf, Catalog.parentOf, lookup_restrict hk]

omit [DecidableEq κ] in
theorem without_eq_true {k : κ} : without B k = true ↔ B k = false := by
  rw [without, Bool.not_eq_true']

/-! ## Adding foreign keys -/

theorem addForeignKey_restrict {t : Table κ} {con : TableConstraint}
    (h : RefersOutside d B con) :
    (restrict d (without B) c).addForeignKey d t con
      = c.addForeignKey d t con := by
  cases con with
  | foreignKey name cols foreignTable refs actions =>
      rw [Catalog.addForeignKey, Catalog.addForeignKey,
        parentOf_restrict (without_eq_true.mpr h)]
  | primaryKey _ _ _ | unique _ _ _ | check _ _ | other _ => rfl

theorem addForeignKeys_restrict {t : Table κ} {cons : List TableConstraint}
    (h : ∀ con ∈ cons, RefersOutside d B con) :
    cons.foldlM ((restrict d (without B) c).addForeignKey d) t
      = cons.foldlM (c.addForeignKey d) t := by
  induction cons generalizing t with
  | nil => rfl
  | cons con cons ih =>
      obtain ⟨hcon, hcons⟩ := List.forall_mem_cons.mp h
      rw [List.foldlM_cons, List.foldlM_cons, addForeignKey_restrict hcon]
      exact congrArg _ (funext fun t' => ih hcons)

/-- The foreign keys of a table that refer to no table of the group. -/
def Refers (B : κ → Bool) (t : Table κ) : Prop :=
  ∀ fk ∈ t.foreignKeys, B fk.parent = false

theorem addForeignKey_refers {t t' : Table κ} {con : TableConstraint}
    (h : RefersOutside d B con) (ht : Refers B t)
    (hadd : c.addForeignKey d t con = .ok t') : Refers B t' := by
  cases con with
  | foreignKey name cols foreignTable refs actions =>
      obtain ⟨-, parent, referred, -, -, -, rfl⟩ := addForeignKey_ok.mp hadd
      refine List.forall_mem_append.mpr ⟨ht, ?_⟩
      exact List.forall_mem_singleton.mpr h
  | primaryKey _ _ _ | unique _ _ _ | check _ _ | other _ =>
      rw [← Except.ok.inj hadd]
      exact ht

theorem addForeignKeys_refers {cons : List TableConstraint} {t t' : Table κ}
    (h : ∀ con ∈ cons, RefersOutside d B con) (ht : Refers B t)
    (hadd : cons.foldlM (c.addForeignKey d) t = .ok t') : Refers B t' := by
  induction cons generalizing t with
  | nil =>
      rw [← foldlM_nil_ok.mp hadd]
      exact ht
  | cons con cons ih =>
      obtain ⟨hcon, hcons⟩ := List.forall_mem_cons.mp h
      obtain ⟨t₁, h₁, hrest⟩ := foldlM_cons_ok.mp hadd
      exact ih hcons (addForeignKey_refers hcon ht h₁) hrest

/-! ## Changing foreign keys -/

/-- Every table's foreign keys changed, as a function of its key. -/
def mapForeignKeys (d : Dialect κ)
    (f : κ → List (ForeignKey κ) → List (ForeignKey κ)) (c : Catalog κ) :
    Catalog κ :=
  c.mapTables fun t => { t with foreignKeys := f (t.key d) t.foreignKeys }

omit [DecidableEq κ] in
theorem mapForeignKeys_restrict
    (f : κ → List (ForeignKey κ) → List (ForeignKey κ)) :
    restrict d keep (mapForeignKeys d f c)
      = mapForeignKeys d f (restrict d keep c) := by
  simp only [restrict, mapForeignKeys, Catalog.mapTables, List.filter_map]
  rfl

/-- The change is one of tables in `A`. -/
structure Owned (A B : κ → Bool)
    (f : κ → List (ForeignKey κ) → List (ForeignKey κ)) : Prop where
  outside : ∀ k fks, A k = false → (∀ fk ∈ fks, A fk.parent = false) →
    f k fks = fks
  refers : ∀ k fks, A k = true → (∀ fk ∈ fks, B fk.parent = false) →
    ∀ fk ∈ f k fks, B fk.parent = false

/-- Foreign keys are dropped for being on, or referring to, a table of `A`. -/
def Concerns (A : κ → Bool) (p : κ → ForeignKey κ → Bool) : Prop :=
  ∀ k fk, p k fk = true → A k = true ∨ A fk.parent = true

omit [DecidableEq κ] in
theorem Concerns.not {p : κ → ForeignKey κ → Bool} (h : Concerns A p) {k : κ}
    {fk : ForeignKey κ} (hk : A k = false) (hfk : A fk.parent = false) :
    p k fk = false := by
  cases hp : p k fk with
  | false => rfl
  | true =>
      rcases h k fk hp with hA | hA
      · exact absurd (hk.symm.trans hA) Bool.false_ne_true
      · exact absurd (hfk.symm.trans hA) Bool.false_ne_true

omit [DecidableEq κ] in
theorem Concerns.owned {drops : κ → ForeignKey κ → Bool}
    (h : Concerns A drops) :
    Owned A B fun k fks => fks.filter fun fk => !drops k fk where
  outside := by
    intro k fks hk hfks
    refine List.filter_eq_self.mpr fun fk hfk => ?_
    rw [h.not hk (hfks fk hfk)]
    rfl
  refers := by
    intro k fks _ hfks fk hfk
    exact hfks fk (List.mem_of_mem_filter hfk)

/-! ## The forms of a change -/

/-- The groups are still apart, and what is not in `A` is as it was. -/
structure Kept (d : Dialect κ) (A B : κ → Bool) (c c' : Catalog κ) : Prop where
  apart : Apart d A B c'
  unseen : restrict d (without A) c' = restrict d (without A) c

omit [DecidableEq κ] in
theorem Kept.refl (hc : Apart d A B c) : Kept d A B c c := ⟨hc, rfl⟩

omit [DecidableEq κ] in
theorem Kept.trans {c' c'' : Catalog κ} (h : Kept d A B c c')
    (h' : Kept d A B c' c'') : Kept d A B c c'' :=
  ⟨h'.apart, h'.unseen.trans h.unseen⟩

omit [DecidableEq κ] in
theorem mapForeignKeys_kept
    {f : κ → List (ForeignKey κ) → List (ForeignKey κ)} (hf : Owned A B f)
    (hc : Apart d A B c) : Kept d A B c (mapForeignKeys d f c) := by
  have hmem : ∀ u ∈ (mapForeignKeys d f c).tables, ∃ v ∈ c.tables,
      { v with foreignKeys := f (v.key d) v.foreignKeys } = u :=
    fun u hu => List.mem_map.mp hu
  refine ⟨⟨⟨fun u hu hkey => ?_, hc.mine.names⟩,
    ⟨fun u hu hkey => ?_, hc.theirs.names⟩⟩, ?_⟩
  · obtain ⟨v, hv, rfl⟩ := hmem u hu
    have hparents := hc.mine.parents v hv hkey
    show ∀ fk ∈ f (v.key d) v.foreignKeys, _
    rw [hf.outside _ _ hkey hparents]
    exact hparents
  · obtain ⟨v, hv, rfl⟩ := hmem u hu
    have hparents := hc.theirs.parents v hv hkey
    show ∀ fk ∈ f (v.key d) v.foreignKeys, _
    cases hvA : A (v.key d) with
    | true => exact hf.refers _ _ hvA hparents
    | false =>
        rw [hf.outside _ _ hvA (hc.mine.parents v hv hvA)]
        exact hparents
  · rw [mapForeignKeys_restrict]
    refine congrArg (fun ts => (⟨ts, _⟩ : Catalog κ)) ?_
    refine (List.map_congr_left fun v hv => ?_).trans (List.map_id _)
    obtain ⟨hv, hkey⟩ := List.mem_filter.mp hv
    have hvA := without_eq_true.mp hkey
    rw [hf.outside _ _ hvA (hc.mine.parents v hv hvA)]
    rfl

section Changes

variable {i : Nat}

/-- Where the table at `i` stands when `B` is not seen. -/
def seenAt (d : Dialect κ) (B : κ → Bool) (c : Catalog κ) (i : Nat) : Nat :=
  position (fun t => without B (t.key d)) c.tables i

/-- A change of tables in `A`, with the table at `i` still there. -/
structure Framed (d : Dialect κ) (A B : κ → Bool) (i : Nat) (c c' : Catalog κ) :
    Prop extends Kept d A B c c' where
  there : ∃ t, c'.tables[i]? = some t ∧ A (t.key d) = true
  seenAt : seenAt d B c' i = seenAt d B c i

omit [DecidableEq κ] in
theorem Framed.refl {t : Table κ} (hc : Apart d A B c)
    (ht : c.tables[i]? = some t) (hA : A (t.key d) = true) :
    Framed d A B i c c :=
  ⟨.refl hc, ⟨t, ht, hA⟩, rfl⟩

omit [DecidableEq κ] in
theorem Framed.trans {c' c'' : Catalog κ} (h : Framed d A B i c c')
    (h' : Framed d A B i c' c'') : Framed d A B i c c'' :=
  ⟨h.toKept.trans h'.toKept, h'.there, h'.seenAt.trans h.seenAt⟩

omit [DecidableEq κ] in
theorem setTable_restrict {t t' : Table κ} (ht : c.tables[i]? = some t)
    (hkeep : without B (t.key d) = true)
    (hkeep' : without B (t'.key d) = true) :
    restrict d (without B) (c.setTable i t')
      = (restrict d (without B) c).setTable (seenAt d B c i) t' := by
  have htables := filter_set (p := fun t => without B (t.key d)) ht hkeep hkeep'
  exact congrArg (fun ts => (⟨ts, _⟩ : Catalog κ)) htables

omit [DecidableEq κ] in
theorem setTable_framed {t t' : Table κ} (hc : Apart d A B c)
    (ht : c.tables[i]? = some t) (hA : A (t.key d) = true)
    (hA' : A (t'.key d) = true) (hrefers : Refers B t') :
    Framed d A B i c (c.setTable i t') := by
  have hmem : ∀ u ∈ (c.setTable i t').tables, u ∈ c.tables ∨ u = t' :=
    fun u hu => List.mem_or_eq_of_mem_set hu
  refine ⟨⟨⟨⟨fun u hu hkey => ?_, hc.mine.names⟩,
    ⟨fun u hu hkey => ?_, hc.theirs.names⟩⟩, ?_⟩, ⟨t', ?_, hA'⟩, ?_⟩
  · rcases hmem u hu with hu | rfl
    · exact hc.mine.parents u hu hkey
    · exact absurd (hkey.symm.trans hA') Bool.false_ne_true
  · rcases hmem u hu with hu | rfl
    · exact hc.theirs.parents u hu hkey
    · exact hrefers
  · have hnot : ∀ {u : Table κ}, A (u.key d) = true →
        without A (u.key d) = false := by
      intro u hu
      rw [without, hu]
      rfl
    have htables := filter_set_of_not (p := fun t => without A (t.key d)) ht
      (hnot hA) (hnot hA')
    exact congrArg (fun ts => (⟨ts, _⟩ : Catalog κ)) htables
  · exact List.getElem?_set_self (List.getElem?_eq_some_iff.mp ht).1
  · exact position_set _ _ _

omit [DecidableEq κ] in
theorem mapForeignKeys_framed {t : Table κ}
    {f : κ → List (ForeignKey κ) → List (ForeignKey κ)} (hf : Owned A B f)
    (hc : Apart d A B c) (ht : c.tables[i]? = some t)
    (hA : A (t.key d) = true) : Framed d A B i c (mapForeignKeys d f c) := by
  refine ⟨mapForeignKeys_kept hf hc,
    ⟨{ t with foreignKeys := f (t.key d) t.foreignKeys }, ?_, hA⟩, ?_⟩
  · rw [mapForeignKeys, Catalog.mapTables, List.getElem?_map, ht]
    rfl
  · exact position_map (f := fun u : Table κ =>
      { u with foreignKeys := f (u.key d) u.foreignKeys }) (fun _ => rfl) _ _

omit [DecidableEq κ] in
theorem anyForeignKey_restrict {p : κ → ForeignKey κ → Bool}
    (hAB : ∀ k, A k = true → B k = false) (hc : Apart d A B c)
    (hp : Concerns A p) :
    (restrict d (without B) c).anyForeignKey d p = c.anyForeignKey d p := by
  refine any_filter fun t ht hkey => ?_
  have hA : A (t.key d) = false := by
    cases hA : A (t.key d) with
    | false => rfl
    | true =>
        rw [without, hAB _ hA] at hkey
        cases hkey
  rw [List.any_eq_false]
  intro fk hfk
  rw [hp.not hA (hc.mine.parents t ht hA fk hfk)]
  exact Bool.false_ne_true

omit [DecidableEq κ] in
theorem dropDependents_restrict {cascade : Bool}
    {blocks drops : κ → ForeignKey κ → Bool}
    (hAB : ∀ k, A k = true → B k = false) (hc : Apart d A B c)
    (hblocks : Concerns A blocks) :
    (c.dropDependents d cascade blocks drops).map (restrict d (without B))
      = (restrict d (without B) c).dropDependents d cascade blocks drops := by
  rw [Catalog.dropDependents, Catalog.dropDependents,
    anyForeignKey_restrict hAB hc hblocks]
  split
  · rfl
  · exact congrArg Except.ok (mapForeignKeys_restrict
      fun k fks => fks.filter fun fk => !drops k fk)

omit [DecidableEq κ] in
theorem dropDependents_ok {c' : Catalog κ} {cascade : Bool}
    {blocks drops : κ → ForeignKey κ → Bool}
    (h : c.dropDependents d cascade blocks drops = .ok c') :
    c' = mapForeignKeys d (fun k fks => fks.filter fun fk => !drops k fk) c := by
  rw [Catalog.dropDependents] at h
  split at h
  · cases h
  · exact (Except.ok.inj h).symm

omit [DecidableEq κ] in
theorem dropDependents_framed {t : Table κ} {c' : Catalog κ} {cascade : Bool}
    {blocks drops : κ → ForeignKey κ → Bool} (hdrops : Concerns A drops)
    (hc : Apart d A B c) (ht : c.tables[i]? = some t)
    (hA : A (t.key d) = true)
    (h : c.dropDependents d cascade blocks drops = .ok c') :
    Framed d A B i c c' := by
  rw [dropDependents_ok h]
  exact mapForeignKeys_framed hdrops.owned hc ht hA

/-! ## Renaming a table -/

/-- The name `k` of a table after `old` has become `new`. -/
def redirect (old new k : κ) : κ := if k = old then new else k

/-- Every reference to `old` is one to `new`. -/
def redirected (d : Dialect κ) (old new : κ) (c : Catalog κ) : Catalog κ :=
  ⟨(mapForeignKeys d (fun _ fks => fks.map fun fk =>
      { fk with parent := redirect old new fk.parent }) c).tables,
    c.indexes.map fun ix => { ix with table := redirect old new ix.table }⟩

theorem redirect_of_not {old new k : κ} (hold : A old = true)
    (hk : A k = false) : redirect old new k = k := by
  refine if_neg ?_
  rintro rfl
  exact Bool.false_ne_true (hk.symm.trans hold)

/-- Seen from anywhere else, the group is what it was. -/
theorem redirect_group {old new k : κ} (hsame : keep old = keep new) :
    keep (redirect old new k) = keep k := by
  rw [redirect]
  split
  · next h => rw [h, hsame]
  · rfl

theorem redirect_owned {old new : κ} (hAB : ∀ k, A k = true → B k = false)
    (hold : A old = true) (hnew : A new = true) :
    Owned A B fun _ fks => fks.map fun fk : ForeignKey κ =>
      { fk with parent := redirect old new fk.parent } where
  outside := by
    intro k fks _ hfks
    refine (List.map_congr_left fun fk hfk => ?_).trans (List.map_id fks)
    rw [redirect_of_not hold (hfks fk hfk)]
    rfl
  refers := by
    intro k fks _ hfks
    rw [List.forall_mem_map]
    intro fk hfk
    rw [redirect_group ((hAB _ hold).trans (hAB _ hnew).symm)]
    exact hfks fk hfk

theorem redirected_restrict {old new : κ} (hsame : keep old = keep new) :
    restrict d keep (redirected d old new c)
      = redirected d old new (restrict d keep c) := by
  have hkeys : ∀ f, restrict d keep (mapForeignKeys d f c)
      = mapForeignKeys d f (restrict d keep c) := mapForeignKeys_restrict
  have htables := congrArg Catalog.tables (hkeys fun _ fks => fks.map fun fk =>
    { fk with parent := redirect old new fk.parent })
  have hindexes : (c.indexes.map fun ix =>
      { ix with table := redirect old new ix.table }).filter
        (fun ix => keep ix.table)
      = (c.indexes.filter fun ix => keep ix.table).map fun ix =>
        { ix with table := redirect old new ix.table } := by
    rw [List.filter_map]
    refine congrArg (fun p => (c.indexes.filter p).map _) (funext fun ix => ?_)
    exact redirect_group hsame
  rw [restrict, redirected, redirected]
  exact congrArg₂ Catalog.mk htables hindexes

theorem redirected_framed {t : Table κ} {old new : κ}
    (hAB : ∀ k, A k = true → B k = false) (hold : A old = true)
    (hnew : A new = true) (hc : Apart d A B c) (ht : c.tables[i]? = some t)
    (hA : A (t.key d) = true) : Framed d A B i c (redirected d old new c) := by
  have hf := mapForeignKeys_framed (redirect_owned hAB hold hnew) hc ht hA
  have hgroup : ∀ k, A (redirect old new k) = A k :=
    fun k => redirect_group (hold.trans hnew.symm)
  have htheirs : ∀ k, B (redirect old new k) = B k :=
    fun k => redirect_group ((hAB _ hold).trans (hAB _ hnew).symm)
  refine ⟨⟨⟨⟨hf.apart.mine.parents, ?_⟩, ⟨hf.apart.theirs.parents, ?_⟩⟩, ?_⟩,
    hf.there, hf.seenAt⟩
  · show ∀ ix ∈ c.indexes.map _, _
    rw [List.forall_mem_map]
    intro ix hix n hn hgrp
    rw [hgroup]
    exact hc.mine.names ix hix n hn hgrp
  · show ∀ ix ∈ c.indexes.map _, _
    rw [List.forall_mem_map]
    intro ix hix n hn hgrp
    rw [htheirs]
    exact hc.theirs.names ix hix n hn hgrp
  · have hsame : without A old = without A new := by
      rw [without, without, hold, hnew]
    have htables := congrArg Catalog.tables hf.unseen
    rw [redirected_restrict hsame]
    rw [mapForeignKeys_restrict] at htables
    refine congrArg₂ Catalog.mk htables ?_
    refine (List.map_congr_left fun ix hix => ?_).trans (List.map_id _)
    obtain ⟨-, hkey⟩ := List.mem_filter.mp hix
    rw [redirect_of_not hold (without_eq_true.mp hkey)]
    rfl

theorem renameInForeignKey_owned {table : κ} {old new : String}
    (hold : A table = true) :
    Owned A B fun k fks => fks.map (renameInForeignKey table old new k) where
  outside := by
    intro k fks hk hfks
    refine (List.map_congr_left fun fk hfk => ?_).trans (List.map_id fks)
    have hne : ∀ {k' : κ}, A k' = false → k' ≠ table := by
      rintro k' hk' rfl
      exact Bool.false_ne_true (hk'.symm.trans hold)
    rw [renameInForeignKey, if_neg (hne hk), if_neg (hne (hfks fk hfk))]
    rfl
  refers := by
    intro k fks _ hfks
    rw [List.forall_mem_map]
    exact hfks

end Changes

/-! ## One operation -/

section Operations

variable {i : Nat} {t : Table κ} {old : Shape} {op : AlterTableOperation}

omit [DecidableEq κ] in
theorem unseen_of_mine (hAB : ∀ k, A k = true → B k = false) {k : κ}
    (hk : A k = true) : without B k = true :=
  without_eq_true.mpr (hAB k hk)

omit [DecidableEq κ] in
/-- A table put back, whatever was refused on the way. -/
theorem map_setTable_restrict (hAB : ∀ k, A k = true → B k = false)
    (ht : c.tables[i]? = some t) (hA : A (t.key d) = true)
    {x : Except Refusal (Table κ)}
    (hx : ∀ t', x = .ok t' → t'.toShape = t.toShape) :
    (c.setTable i <$> x).map (restrict d (without B))
      = (restrict d (without B) c).setTable (seenAt d B c i) <$> x := by
  cases hxt : x with
  | error e => rfl
  | ok t' =>
      have hkey : A (t'.key d) = true := by
        rw [Shape.key, hx t' hxt]
        exact hA
      exact congrArg Except.ok (setTable_restrict ht (unseen_of_mine hAB hA)
        (unseen_of_mine hAB hkey))

omit [DecidableEq κ] in
theorem setTable_ok_framed (hc : Apart d A B c) (ht : c.tables[i]? = some t)
    (hA : A (t.key d) = true) {x : Except Refusal (Table κ)} {c' : Catalog κ}
    (hx : ∀ t', x = .ok t' → t'.toShape = t.toShape ∧ Refers B t')
    (h : c.setTable i <$> x = .ok c') : Framed d A B i c c' := by
  obtain ⟨t', ht', rfl⟩ := map_ok.mp h
  obtain ⟨hshape, hrefers⟩ := hx t' ht'
  refine setTable_framed hc ht hA ?_ hrefers
  rw [Shape.key, hshape]
  exact hA

/-- The foreign keys that a dropped column or key takes with it. -/
theorem refers_concerns {k : κ} (hk : A k = true) (p : ForeignKey κ → Bool) :
    Concerns A fun _ fk => decide (fk.parent = k) && p fk := by
  intro owner fk h
  rw [Bool.and_eq_true, decide_eq_true_iff] at h
  exact Or.inr (h.1 ▸ hk)

theorem owner_concerns {k : κ} (hk : A k = true) (p : ForeignKey κ → Bool) :
    Concerns A fun owner fk => decide (owner = k) && p fk := by
  intro owner fk h
  rw [Bool.and_eq_true, decide_eq_true_iff] at h
  exact Or.inl (h.1 ▸ hk)

omit [DecidableEq κ] in
theorem Concerns.or {p q : κ → ForeignKey κ → Bool} (hp : Concerns A p)
    (hq : Concerns A q) : Concerns A fun owner fk => p owner fk || q owner fk := by
  intro owner fk h
  rw [Bool.or_eq_true] at h
  exact h.elim (hp owner fk) (hq owner fk)

omit [DecidableEq κ] in
theorem Concerns.and {p q : κ → ForeignKey κ → Bool} (hq : Concerns A q) :
    Concerns A fun owner fk => p owner fk && q owner fk := by
  intro owner fk h
  rw [Bool.and_eq_true] at h
  exact hq owner fk h.2

theorem foreignKeyEffect_restrict (hAB : ∀ k, A k = true → B k = false)
    (hc : Apart d A B c) (ht : c.tables[i]? = some t)
    (hold : A (old.key d) = true) (hA : A (t.key d) = true)
    (hop : OperationWithin d A B op) :
    (foreignKeyEffect d old i c t op).map (restrict d (without B))
      = foreignKeyEffect d old (seenAt d B c i) (restrict d (without B) c) t op
    := by
  cases op with
  | addConstraint con =>
      rw [foreignKeyEffect, foreignKeyEffect, addForeignKey_restrict hop]
      exact map_setTable_restrict hAB ht hA fun _ h => addForeignKey_shape h
  | addColumn kw ine column pos =>
      simp only [foreignKeyEffect]
      split
      · rfl
      · rw [addForeignKeys_restrict hop]
        exact map_setTable_restrict hAB ht hA fun _ h => addForeignKeys_shape h
  | dropColumn name ie cascade =>
      simp only [foreignKeyEffect]
      split
      · rfl
      · exact dropDependents_restrict hAB hc
          (Concerns.and (refers_concerns hold _))
  | dropConstraint ie name cascade =>
      simp only [foreignKeyEffect]
      split
      · exact dropDependents_restrict hAB hc fun _ _ h =>
          absurd h Bool.false_ne_true
      · exact dropDependents_restrict hAB hc (refers_concerns hold _)
  | renameColumn oldName newName =>
      exact congrArg Except.ok (mapForeignKeys_restrict fun k fks =>
        fks.map (renameInForeignKey (old.key d) (d.ident oldName)
          (d.ident newName) k))
  | renameTable name =>
      -- no table of the other group has the new name
      have hothers : ((restrict d (without B) c).tables.eraseIdx
          (seenAt d B c i)).any (fun u => decide (u.key d = t.key d))
          = (c.tables.eraseIdx i).any fun u => decide (u.key d = t.key d) := by
        have herase := filter_eraseIdx (p := fun u => without B (u.key d)) ht
          (unseen_of_mine hAB hA)
        rw [restrict, seenAt, ← herase]
        refine any_filter fun u _ hu => decide_eq_false ?_
        intro hkey
        rw [hkey, unseen_of_mine hAB hA] at hu
        cases hu
      simp only [foreignKeyEffect, hothers]
      split
      · rfl
      · refine congrArg Except.ok (redirected_restrict ?_)
        rw [unseen_of_mine hAB hold, unseen_of_mine hAB hA]
  | dropPrimaryKey | changeColumn _ _ _ _ _ | modifyColumn _ _ _ _
  | alterColumn _ _ | other _ => rfl

theorem foreignKeyEffect_framed (hAB : ∀ k, A k = true → B k = false)
    (hc : Apart d A B c) (ht : c.tables[i]? = some t)
    (hold : A (old.key d) = true) (hA : A (t.key d) = true)
    (hop : OperationWithin d A B op) {c' : Catalog κ}
    (h : foreignKeyEffect d old i c t op = .ok c') : Framed d A B i c c' := by
  have hrefers : Refers B t :=
    hc.theirs.parents t (List.mem_of_getElem? ht) (hAB _ hA)
  have hsame : Framed d A B i c c := Framed.refl hc ht hA
  cases op with
  | addConstraint con =>
      refine setTable_ok_framed hc ht hA (fun t' ht' => ?_) h
      exact ⟨addForeignKey_shape ht', addForeignKey_refers hop hrefers ht'⟩
  | addColumn kw ine column pos =>
      simp only [foreignKeyEffect] at h
      split at h
      · exact Except.ok.inj h ▸ hsame
      · refine setTable_ok_framed hc ht hA (fun t' ht' => ?_) h
        exact ⟨addForeignKeys_shape ht', addForeignKeys_refers hop hrefers ht'⟩
  | dropColumn name ie cascade =>
      simp only [foreignKeyEffect] at h
      split at h
      · exact Except.ok.inj h ▸ hsame
      · exact dropDependents_framed ((refers_concerns hold _).or
          (owner_concerns hold _)) hc ht hA h
  | dropConstraint ie name cascade =>
      simp only [foreignKeyEffect] at h
      split at h
      · exact dropDependents_framed (owner_concerns hold _) hc ht hA h
      · exact dropDependents_framed ((refers_concerns hold _).or
          (owner_concerns hold _)) hc ht hA h
  | renameColumn oldName newName =>
      rw [← Except.ok.inj h]
      exact mapForeignKeys_framed (renameInForeignKey_owned hold) hc ht hA
  | renameTable name =>
      simp only [foreignKeyEffect] at h
      split at h
      · cases h
      · rw [← Except.ok.inj h]
        exact redirected_framed hAB hold hA hc ht hA
  | dropPrimaryKey | changeColumn _ _ _ _ _ | modifyColumn _ _ _ _
  | alterColumn _ _ | other _ => exact Except.ok.inj h ▸ hsame

omit [DecidableEq κ] in
/-- An operation leaves the table it is on in the group. -/
theorem shapeOperation_group {taken : List String} {s s' : Shape}
    (hop : OperationWithin d A B op) (hs : A (s.key d) = true)
    (h : shapeOperation d taken s op = .ok s') : A (s'.key d) = true := by
  rw [Shape.key, shapeOperation_name h]
  cases op with
  | renameTable new => exact hop s.name hs
  | addConstraint _ | addColumn _ _ _ _ | dropColumn _ _ _
  | dropConstraint _ _ _ | dropPrimaryKey | renameColumn _ _
  | changeColumn _ _ _ _ _ | modifyColumn _ _ _ _ | alterColumn _ _
  | other _ => exact hs

theorem execOperation_restrict (hAB : ∀ k, A k = true → B k = false)
    (hc : Apart d A B c) (ht : c.tables[i]? = some t)
    (hA : A (t.key d) = true) (hop : OperationWithin d A B op) :
    (execOperation d i c op).map (restrict d (without B))
      = execOperation d (seenAt d B c i) (restrict d (without B) c) op := by
  have hthere := getElem?_filter (p := fun u => without B (u.key d)) ht
    (unseen_of_mine hAB hA)
  have hview : (restrict d (without B) c).tables[seenAt d B c i]? = some t :=
    hthere
  simp only [execOperation, ht, hview]
  cases hs : shapeOperation d t.constraintNames t.toShape op with
  | error e => rfl
  | ok s =>
      have hA' : A (s.key d) = true := shapeOperation_group hop hA hs
      have hframed : Framed d A B i c (c.setTable i { t with toShape := s }) :=
        setTable_framed hc ht hA hA'
          (hc.theirs.parents t (List.mem_of_getElem? ht) (hAB _ hA))
      have hset : restrict d (without B) (c.setTable i { t with toShape := s })
          = (restrict d (without B) c).setTable (seenAt d B c i)
            { t with toShape := s } :=
        setTable_restrict ht (unseen_of_mine hAB hA) (unseen_of_mine hAB hA')
      have hthere' : (c.setTable i { t with toShape := s }).tables[i]?
          = some { t with toShape := s } :=
        List.getElem?_set_self (List.getElem?_eq_some_iff.mp ht).1
      have heffect := foreignKeyEffect_restrict hAB
        hframed.apart hthere' hA hA' hop
      rw [hset, hframed.seenAt] at heffect
      exact heffect

theorem execOperation_framed (hAB : ∀ k, A k = true → B k = false)
    (hc : Apart d A B c) (ht : c.tables[i]? = some t)
    (hA : A (t.key d) = true) (hop : OperationWithin d A B op) {c' : Catalog κ}
    (h : execOperation d i c op = .ok c') : Framed d A B i c c' := by
  simp only [execOperation, ht] at h
  obtain ⟨s, hs, h⟩ := bind_ok.mp h
  have hA' : A (s.key d) = true := shapeOperation_group hop hA hs
  have hframed : Framed d A B i c (c.setTable i { t with toShape := s }) :=
    setTable_framed hc ht hA hA'
      (hc.theirs.parents t (List.mem_of_getElem? ht) (hAB _ hA))
  have hthere' : (c.setTable i { t with toShape := s }).tables[i]?
      = some { t with toShape := s } :=
    List.getElem?_set_self (List.getElem?_eq_some_iff.mp ht).1
  exact hframed.trans
    (foreignKeyEffect_framed hAB hframed.apart hthere' hA hA' hop h)

/-- All operations of an `ALTER TABLE`: the table is there before each. -/
theorem operations_framed (hAB : ∀ k, A k = true → B k = false)
    {ops : List AlterTableOperation}
    (hops : ∀ op ∈ ops, OperationWithin d A B op) (hc : Apart d A B c)
    (ht : c.tables[i]? = some t) (hA : A (t.key d) = true) :
    (ops.foldlM (execOperation d i) c).map (restrict d (without B))
        = ops.foldlM (execOperation d (seenAt d B c i))
          (restrict d (without B) c) ∧
      ∀ c', ops.foldlM (execOperation d i) c = .ok c' →
        Framed d A B i c c' := by
  induction ops generalizing c t with
  | nil =>
      refine ⟨rfl, fun c' h => ?_⟩
      rw [← foldlM_nil_ok.mp h]
      exact Framed.refl hc ht hA
  | cons op ops ih =>
      obtain ⟨hop, hops⟩ := List.forall_mem_cons.mp hops
      have hone := execOperation_restrict hAB hc ht hA hop
      rw [List.foldlM_cons, List.foldlM_cons, ← hone]
      cases h₁ : execOperation d i c op with
      | error e => exact ⟨rfl, fun c' h => absurd h error_ne_ok⟩
      | ok c₁ =>
          have hframed := execOperation_framed hAB hc ht hA hop h₁
          obtain ⟨t₁, ht₁, hA₁⟩ := hframed.there
          obtain ⟨hrest, hframed'⟩ := ih hops hframed.apart ht₁ hA₁
          rw [hframed.seenAt] at hrest
          exact ⟨hrest, fun c' h => hframed.trans (hframed' c' h)⟩

end Operations

/-! ## Statements -/

section Statements

/-- A table of its own at the end of the list. -/
def added (c : Catalog κ) (t : Table κ) : Catalog κ :=
  { c with tables := c.tables ++ [t] }

omit [DecidableEq κ] in
theorem added_restrict {t : Table κ} (ht : keep (t.key d) = true) :
    restrict d keep (added c t) = added (restrict d keep c) t := by
  have hone : [t].filter (fun u => keep (u.key d)) = [t] :=
    List.filter_cons_of_pos ht
  refine congrArg (fun ts => (⟨ts, _⟩ : Catalog κ)) ?_
  rw [added, List.filter_append, hone]
  rfl

omit [DecidableEq κ] in
theorem added_kept {t : Table κ} (hc : Apart d A B c)
    (hA : A (t.key d) = true) (hrefers : Refers B t) :
    Kept d A B c (added c t) := by
  refine ⟨⟨⟨?_, hc.mine.names⟩, ⟨?_, hc.theirs.names⟩⟩, ?_⟩
  · refine List.forall_mem_append.mpr ⟨hc.mine.parents, ?_⟩
    refine List.forall_mem_singleton.mpr fun hkey => ?_
    exact absurd (hkey.symm.trans hA) Bool.false_ne_true
  · refine List.forall_mem_append.mpr ⟨hc.theirs.parents, ?_⟩
    exact List.forall_mem_singleton.mpr fun _ => hrefers
  · have hnone : [t].filter (fun u => without A (u.key d)) = [] := by
      refine List.filter_cons_of_neg ?_
      rw [without, hA]
      exact Bool.false_ne_true
    refine congrArg (fun ts => (⟨ts, _⟩ : Catalog κ)) ?_
    rw [added, List.filter_append, hnone, List.append_nil]

/-- The created table is one of the group, and refers to none of the other. -/
theorem created_group {ct : CreateTable}
    (hs : Within d A B (.createTable ct)) {shapes : List Shape} {s : Shape}
    {t : Table κ} (hshape : createShape d shapes ct = .ok s)
    (hadd : (declaredConstraints ct).foldlM (c.addForeignKey d) ⟨s, []⟩
      = .ok t) : A (t.key d) = true ∧ Refers B t := by
  refine ⟨?_, addForeignKeys_refers hs.2.2
    (fun _ h => absurd h List.not_mem_nil) hadd⟩
  rw [Shape.key, addForeignKeys_shape hadd, createShape_name hshape]
  exact hs.1

theorem createTable_restrict (hAB : ∀ k, A k = true → B k = false)
    {ct : CreateTable} (hs : Within d A B (.createTable ct)) :
    (exec d c (.createTable ct)).map (restrict d (without B))
      = exec d (restrict d (without B) c) (.createTable ct) := by
  obtain ⟨hA, hown, hrefs⟩ := hs
  simp only [exec, lookup_restrict (unseen_of_mine hAB hA),
    addForeignKeys_restrict hrefs, createShape_own hown]
  split
  · rfl
  · split
    · split <;> rfl
    · cases hshape : shapeWith d ct (ct.columns.map Column.ofDef) with
      | error e => rfl
      | ok s =>
          change Except.map _ (List.foldlM _ _ _ >>= _)
            = List.foldlM _ _ _ >>= _
          cases hadd : (declaredConstraints ct).foldlM (c.addForeignKey d)
              ⟨s, []⟩ with
          | error e => rfl
          | ok t =>
              have hshape := (createShape_own hown c.shapes).trans hshape
              have hA := (created_group ⟨hA, hown, hrefs⟩ hshape hadd).1
              exact congrArg Except.ok
                (added_restrict (unseen_of_mine hAB hA))

theorem createTable_kept {ct : CreateTable}
    (hs : Within d A B (.createTable ct)) (hc : Apart d A B c)
    {c' : Catalog κ} (h : exec d c (.createTable ct) = .ok c') :
    Kept d A B c c' := by
  cases hthere : (c.lookup d (d.table ct.name)).isSome with
  | true =>
      rw [exec_createTable_there h hthere]
      exact .refl hc
  | false =>
      obtain ⟨s, t, hshape, hadd, -, rfl⟩ :=
        exec_createTable_ok h (Option.isSome_eq_false_iff.mp hthere)
      obtain ⟨hA, hrefers⟩ := created_group hs hshape hadd
      exact added_kept hc hA hrefers

theorem alterTable_framed (hAB : ∀ k, A k = true → B k = false)
    {name : ObjectName} {ie only : Bool} {ops : List AlterTableOperation}
    {cl : Clause} (hs : Within d A B (.alterTable name ie only ops cl))
    (hc : Apart d A B c) :
    (exec d c (.alterTable name ie only ops cl)).map (restrict d (without B))
        = exec d (restrict d (without B) c) (.alterTable name ie only ops cl) ∧
      ∀ c', exec d c (.alterTable name ie only ops cl) = .ok c' →
        Kept d A B c c' := by
  obtain ⟨hA, hops⟩ := hs
  simp only [exec, find_restrict (unseen_of_mine hAB hA)]
  cases hfind : c.find d (d.table name) with
  | none =>
      refine ⟨by cases ie <;> rfl, fun c' h => ?_⟩
      cases ie with
      | true => exact Except.ok.inj h ▸ .refl hc
      | false => cases h
  | some i =>
      obtain ⟨hi, hkey, -⟩ := List.findIdx?_eq_some_iff_getElem.mp hfind
      have ht : c.tables[i]? = some c.tables[i] := List.getElem?_eq_getElem hi
      have hAt : A (c.tables[i].key d) = true := by
        rw [of_decide_eq_true hkey]
        exact hA
      obtain ⟨hrestrict, hframed⟩ := operations_framed hAB hops hc ht hAt
      exact ⟨hrestrict, fun c' h => (hframed c' h).toKept⟩

/-! ### Dropping tables -/

/-- The catalog without the tables of a list of keys, and their indexes. -/
def dropped (d : Dialect κ) (keys : List κ) (c : Catalog κ) : Catalog κ :=
  restrict d (fun k => !keys.contains k) c

theorem dropTables_eq (ie cascade : Bool) (names : List ObjectName) :
    c.dropTables d ie names cascade
      = if !ie && (names.map d.table).any fun k => (c.lookup d k).isNone then
          .error .noTable
        else
          let gone := (names.map d.table).filter fun k =>
            (c.lookup d k).isSome
          (dropped d gone c).dropDependents d cascade
            (fun _ fk => gone.contains fk.parent)
            (fun _ fk => gone.contains fk.parent) := rfl

omit [DecidableEq κ] in
theorem restrict_restrict (p q : κ → Bool) :
    restrict d p (restrict d q c) = restrict d q (restrict d p c) := by
  rw [restrict, restrict, restrict, restrict]
  simp only [List.filter_filter, Bool.and_comm]

omit [DecidableEq κ] in
theorem Secluded.restrict {group : κ → Bool} (h : Secluded d group c)
    (keep : κ → Bool) : Secluded d group (restrict d keep c) :=
  ⟨fun t ht => h.parents t (List.mem_of_mem_filter ht),
    fun ix hix => h.names ix (List.mem_of_mem_filter hix)⟩

omit [DecidableEq κ] in
theorem restrict_kept (hc : Apart d A B c)
    (hkeep : ∀ k, A k = false → keep k = true) :
    Kept d A B c (restrict d keep c) := by
  refine ⟨⟨hc.mine.restrict keep, hc.theirs.restrict keep⟩, ?_⟩
  have hall : ∀ k, (without A k && keep k) = without A k := by
    intro k
    cases hk : A k with
    | true => rw [without, hk]; rfl
    | false => rw [hkeep k hk, Bool.and_true]
  rw [restrict, restrict]
  simp only [restrict, List.filter_filter, hall]

theorem gone_concerns {gone : List κ} (hgone : ∀ k ∈ gone, A k = true) :
    Concerns A fun _ fk => gone.contains fk.parent := by
  intro owner fk h
  exact Or.inr (hgone _ (List.contains_iff_mem.mp h))

theorem dropTables_restrict (hAB : ∀ k, A k = true → B k = false)
    {names : List ObjectName} (hs : ∀ name ∈ names, A (d.table name) = true)
    (hc : Apart d A B c) (ie cascade : Bool) :
    (c.dropTables d ie names cascade).map (restrict d (without B))
      = (restrict d (without B) c).dropTables d ie names cascade := by
  have hkeys : ∀ k ∈ names.map d.table, A k = true := List.forall_mem_map.mpr hs
  have hlookup : ∀ k ∈ names.map d.table,
      (restrict d (without B) c).lookup d k = c.lookup d k :=
    fun k hk => lookup_restrict (unseen_of_mine hAB (hkeys k hk))
  have hmissing : ((names.map d.table).any fun k =>
      ((restrict d (without B) c).lookup d k).isNone)
      = (names.map d.table).any fun k => (c.lookup d k).isNone := by
    rw [Bool.eq_iff_iff, List.any_eq_true, List.any_eq_true]
    refine exists_congr fun k => and_congr_right fun hk => ?_
    rw [hlookup k hk]
  have hgone : (names.map d.table).filter (fun k =>
      ((restrict d (without B) c).lookup d k).isSome)
      = (names.map d.table).filter fun k => (c.lookup d k).isSome := by
    refine List.filter_congr fun k hk => ?_
    rw [hlookup k hk]
  rw [dropTables_eq, dropTables_eq, hmissing, hgone]
  split
  · rfl
  · have hmine : ∀ k ∈ (names.map d.table).filter
        (fun k => (c.lookup d k).isSome), A k = true :=
      fun k hk => hkeys k (List.mem_of_mem_filter hk)
    simp only [dropped]
    rw [restrict_restrict]
    exact dropDependents_restrict hAB
      ⟨hc.mine.restrict _, hc.theirs.restrict _⟩ (gone_concerns hmine)

theorem dropTables_kept {names : List ObjectName}
    (hs : ∀ name ∈ names, A (d.table name) = true) (hc : Apart d A B c)
    {ie cascade : Bool} {c' : Catalog κ}
    (h : c.dropTables d ie names cascade = .ok c') : Kept d A B c c' := by
  have hkeys : ∀ k ∈ names.map d.table, A k = true := List.forall_mem_map.mpr hs
  rw [dropTables_eq] at h
  split at h
  · cases h
  · have hmine : ∀ k ∈ (names.map d.table).filter
        (fun k => (c.lookup d k).isSome), A k = true :=
      fun k hk => hkeys k (List.mem_of_mem_filter hk)
    have hdropped : Kept d A B c (restrict d (fun k => !((names.map
        d.table).filter fun k => (c.lookup d k).isSome).contains k) c) :=
      restrict_kept hc ?_
    · rw [dropDependents_ok h]
      exact hdropped.trans
        (mapForeignKeys_kept (gone_concerns hmine).owned hdropped.apart)
    · intro k hk
      rw [Bool.not_eq_true', ← Bool.not_eq_true, List.contains_iff_mem]
      intro hmem
      exact Bool.false_ne_true (hk.symm.trans (hmine k hmem))

/-! ### Creating indexes -/

theorem createIndex_restrict (hAB : ∀ k, A k = true → B k = false)
    {ci : CreateIndex} (hs : Within d A B (.createIndex ci))
    (hc : Apart d A B c) :
    (c.createIndex d ci).map (restrict d (without B))
      = (restrict d (without B) c).createIndex d ci := by
  obtain ⟨hA, hname⟩ := hs
  -- an index that is not seen does not have the name
  have htaken : ∀ n ∈ ci.name,
      (restrict d (without B) c).indexes.any (fun ix =>
        decide (ix.name = some (d.table n)))
        = c.indexes.any fun ix => decide (ix.name = some (d.table n)) := by
    intro n hn
    refine any_filter fun ix hix hseen => decide_eq_false fun hsame => ?_
    have htable := hc.mine.names ix hix _ hsame (hname n hn)
    rw [unseen_of_mine hAB htable] at hseen
    cases hseen
  have hindex : restrict d (without B)
      { c with indexes := c.indexes ++ [⟨ci.name.map d.table,
        d.table ci.tableName⟩] }
      = { restrict d (without B) c with
          indexes := (restrict d (without B) c).indexes
            ++ [⟨ci.name.map d.table, d.table ci.tableName⟩] } := by
    have hone : [(⟨ci.name.map d.table, d.table ci.tableName⟩ : Index κ)].filter
        (fun ix => without B ix.table) = [⟨_, _⟩] :=
      List.filter_cons_of_pos (unseen_of_mine hAB hA)
    refine congrArg (fun ixs => (⟨_, ixs⟩ : Catalog κ)) ?_
    rw [List.filter_append, hone]
    rfl
  simp only [Catalog.createIndex, lookup_restrict (unseen_of_mine hAB hA)]
  split
  · rfl
  · cases hn : ci.name with
    | none =>
        rw [hn] at hindex
        exact congrArg Except.ok hindex
    | some n =>
        rw [hn] at hindex
        simp only [Option.map_some, htaken n (Option.mem_def.mpr hn)]
        split
        · split <;> rfl
        · exact congrArg Except.ok hindex

theorem createIndex_kept (hAB : ∀ k, A k = true → B k = false)
    {ci : CreateIndex} (hs : Within d A B (.createIndex ci))
    (hc : Apart d A B c) {c' : Catalog κ} (h : c.createIndex d ci = .ok c') :
    Kept d A B c c' := by
  obtain ⟨hA, hname⟩ := hs
  have hadded : Kept d A B c { c with indexes := c.indexes
      ++ [⟨ci.name.map d.table, d.table ci.tableName⟩] } := by
    refine ⟨⟨⟨hc.mine.parents, ?_⟩, ⟨hc.theirs.parents, ?_⟩⟩, ?_⟩
    · refine List.forall_mem_append.mpr ⟨hc.mine.names, ?_⟩
      exact List.forall_mem_singleton.mpr fun _ _ _ => hA
    · refine List.forall_mem_append.mpr ⟨hc.theirs.names, ?_⟩
      refine List.forall_mem_singleton.mpr fun k hk hB => ?_
      obtain ⟨n, hn, rfl⟩ := Option.map_eq_some_iff.mp hk
      rw [hAB _ (hname n hn)] at hB
      cases hB
    · have hnone : [(⟨ci.name.map d.table, d.table ci.tableName⟩
          : Index κ)].filter (fun ix => without A ix.table) = [] := by
        refine List.filter_cons_of_neg ?_
        rw [without, hA]
        exact Bool.false_ne_true
      refine congrArg (fun ixs => (⟨_, ixs⟩ : Catalog κ)) ?_
      rw [List.filter_append, hnone, List.append_nil]
  simp only [Catalog.createIndex] at h
  split at h
  · cases h
  · split at h
    · split at h
      · exact Except.ok.inj h ▸ .refl hc
      · cases h
    · exact Except.ok.inj h ▸ hadded

/-! ### All statements -/

/-- A statement that touches no table, if it is executed at all. -/
theorem inert_restrict {s : Statement} {inert : Bool}
    (hexec : ∀ c : Catalog κ, exec d c s
      = if inert then .ok c else .error .unsupported) :
    (exec d c s).map (restrict d keep) = exec d (restrict d keep c) s := by
  rw [hexec, hexec]
  cases inert <;> rfl

theorem inert_kept {s : Statement} {inert : Bool}
    (hexec : ∀ c : Catalog κ, exec d c s
      = if inert then .ok c else .error .unsupported) (hc : Apart d A B c)
    {c' : Catalog κ} (h : exec d c s = .ok c') : Kept d A B c c' := by
  rw [hexec] at h
  cases inert with
  | true => exact Except.ok.inj h ▸ .refl hc
  | false => cases h

/-- **A STATEMENT DOES NOT NOTICE THE OTHER GROUP**: executing it and leaving the
    group out is leaving the group out and executing it. -/
theorem exec_restrict (hAB : ∀ k, A k = true → B k = false) {s : Statement}
    (hs : Within d A B s) (hc : Apart d A B c) :
    (exec d c s).map (restrict d (without B))
      = exec d (restrict d (without B) c) s := by
  cases s with
  | createTable ct => exact createTable_restrict hAB hs
  | alterTable name ie only ops cl => exact (alterTable_framed hAB hs hc).1
  | drop kind ie names cascade rest =>
      cases kind with
      | table => exact dropTables_restrict hAB hs hc ie cascade
      | other text => exact inert_restrict fun _ => rfl
  | createIndex ci => exact createIndex_restrict hAB hs hc
  | other sql => exact inert_restrict fun _ => rfl

/-- **NOR DOES THE OTHER GROUP NOTICE IT**: what is not in its own group is left
    as it is. -/
theorem exec_kept (hAB : ∀ k, A k = true → B k = false) {s : Statement}
    (hs : Within d A B s) (hc : Apart d A B c) {c' : Catalog κ}
    (h : exec d c s = .ok c') : Kept d A B c c' := by
  cases s with
  | createTable ct => exact createTable_kept hs hc h
  | alterTable name ie only ops cl => exact (alterTable_framed hAB hs hc).2 c' h
  | drop kind ie names cascade rest =>
      cases kind with
      | table => exact dropTables_kept hs hc h
      | other text => exact inert_kept (fun _ => rfl) hc h
  | createIndex ci => exact createIndex_kept hAB hs hc h
  | other sql => exact inert_kept (fun _ => rfl) hc h

/-- Statements on the two groups are inputs of two parties. -/
theorem exec_private (hAB : ∀ k, A k = true → B k = false) {s : Statement}
    (hs : Within d A B s) :
    Private (exec d) (Apart d A B) (restrict d (without B))
      (restrict d (without A)) (exec d) s where
  own _ hc := exec_restrict hAB hs hc
  unseen _ _ hc h := (exec_kept hAB hs hc h).unseen
  keeps _ _ hc h := (exec_kept hAB hs hc h).apart

end Statements

end DualdbFrame
