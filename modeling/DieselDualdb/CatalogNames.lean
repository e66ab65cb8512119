import DieselDualdb.Catalog
import Mathlib.Data.List.InsertIdx
import Mathlib.Data.List.Nodup

/-!
# Which names a history leaves

Whether a database finds a table, or a column of a table, under some name can be
read off the statements it executed: one of them gives the name, and no later
one takes it (`named_iff_given`).  `CREATE TABLE`, `ADD COLUMN` and the two
renames give names, `DROP TABLE`, `DROP COLUMN` and the renames take them.

The step lemma is `statement_named_iff`.  Inside an `ALTER TABLE` it is the same
argument once more, over the operations.  Both use that no two tables go by the
same name (`Distinct`).
-/

namespace DualdbCatalogNames

open DualdbAst DualdbModel DualdbCatalog FallibleRun

variable {κ : Type} [DecidableEq κ] (d : Dialect κ)

/-- What is asked of a table: `none` that it is there, `some` that it has the
    column. -/
def shows (s : Shape) : Option String → Bool
  | none => true
  | some column => s.has d column

/-- One of the tables goes by the name `k` and shows `x`. -/
def Named (shapes : List Shape) (k : κ) (x : Option String) : Prop :=
  ∃ s ∈ shapes, s.key d = k ∧ shows d s x = true

instance (shapes : List Shape) (k : κ) (x : Option String) :
    Decidable (Named d shapes k x) :=
  inferInstanceAs (Decidable (∃ s ∈ shapes, _))

def Distinct (shapes : List Shape) : Prop :=
  (shapes.map (Shape.key d)).Nodup

/-! ## What gives and takes a name -/

/-- An operation on a table of this shape gives the name. -/
def operationGives (k : κ) (x : Option String) (s : Shape) :
    AlterTableOperation → Prop
  | .addColumn _ _ c _ => s.key d = k ∧ x = some (d.ident c.name)
  | .renameColumn _ new => s.key d = k ∧ x = some (d.ident new)
  | .renameTable new => d.table (renamed s.name new) = k ∧ shows d s x = true
  | _ => False

/-- An operation on a table of this shape takes the name. -/
def operationTakes (k : κ) (x : Option String) (s : Shape) :
    AlterTableOperation → Prop
  | .dropColumn c _ _ => s.key d = k ∧ x = some (d.ident c)
  | .renameColumn old _ => s.key d = k ∧ x = some (d.ident old)
  | .renameTable _ => s.key d = k
  | _ => False

instance (k : κ) (x : Option String) (s : Shape) :
    ∀ op, Decidable (operationGives d k x s op)
  | .addColumn _ _ _ _ | .renameColumn _ _ | .renameTable _ =>
      inferInstanceAs (Decidable (_ ∧ _))
  | .addConstraint _ | .dropColumn _ _ _ | .dropConstraint _ _ _
  | .dropPrimaryKey | .changeColumn _ _ _ _ _ | .modifyColumn _ _ _ _
  | .alterColumn _ _ | .other _ => isFalse id

instance (k : κ) (x : Option String) (s : Shape) :
    ∀ op, Decidable (operationTakes d k x s op)
  | .dropColumn _ _ _ | .renameColumn _ _ => inferInstanceAs (Decidable (_ ∧ _))
  | .renameTable _ => inferInstanceAs (Decidable (_ = _))
  | .addConstraint _ | .addColumn _ _ _ _ | .dropConstraint _ _ _
  | .dropPrimaryKey | .changeColumn _ _ _ _ _ | .modifyColumn _ _ _ _
  | .alterColumn _ _ | .other _ => isFalse id

/-- The same, for an operation on table `i`. -/
def GivesAt (i : Nat) (k : κ) (x : Option String) (c : Catalog κ)
    (op : AlterTableOperation) : Prop :=
  ∃ s ∈ c.shapes[i]?, operationGives d k x s op

def TakesAt (i : Nat) (k : κ) (x : Option String) (c : Catalog κ)
    (op : AlterTableOperation) : Prop :=
  ∃ s ∈ c.shapes[i]?, operationTakes d k x s op

instance (i : Nat) (k : κ) (x : Option String) (c : Catalog κ)
    (op : AlterTableOperation) : Decidable (GivesAt d i k x c op) :=
  inferInstanceAs (Decidable (∃ s ∈ c.shapes[i]?, _))

instance (i : Nat) (k : κ) (x : Option String) (c : Catalog κ)
    (op : AlterTableOperation) : Decidable (TakesAt d i k x c op) :=
  inferInstanceAs (Decidable (∃ s ∈ c.shapes[i]?, _))

/-- A statement gives the name: it creates the table, or one of its operations
    gives the name and none after it takes it. -/
def Gives (k : κ) (x : Option String) (c : Catalog κ) : Statement → Prop
  | .createTable ct => c.lookup d (d.table ct.name) = none ∧
      ∃ s ∈ (createShape d c.shapes ct).toOption,
        s.key d = k ∧ shows d s x = true
  | .alterTable name _ _ ops _ => ∃ i ∈ c.find d (d.table name),
      GivenLast (execOperation d i) (GivesAt d i k x) (TakesAt d i k x) c ops
  | _ => False

/-- A statement takes the name: it drops the table, or one of its operations
    takes the name. -/
def Takes (k : κ) (x : Option String) (c : Catalog κ) : Statement → Prop
  | .drop .table _ names _ _ => k ∈ names.map d.table
  | .alterTable name _ _ ops _ => ∃ i ∈ c.find d (d.table name),
      ¬ Along (execOperation d i) (fun c op => ¬ TakesAt d i k x c op) c ops
  | _ => False

instance (k : κ) (x : Option String) (c : Catalog κ) :
    ∀ s, Decidable (Gives d k x c s)
  | .createTable _ => inferInstanceAs (Decidable (_ ∧ _))
  | .alterTable name _ _ _ _ =>
      inferInstanceAs (Decidable (∃ i ∈ c.find d (d.table name), _))
  | .drop _ _ _ _ _ | .createIndex _ | .other _ => isFalse id

instance (k : κ) (x : Option String) (c : Catalog κ) :
    ∀ s, Decidable (Takes d k x c s)
  | .alterTable name _ _ _ _ =>
      inferInstanceAs (Decidable (∃ i ∈ c.find d (d.table name), _))
  | .drop .table _ names _ _ =>
      inferInstanceAs (Decidable (k ∈ names.map d.table))
  | .drop (.other _) _ _ _ _ | .createTable _ | .createIndex _ | .other _ =>
      isFalse id

/-! ## One operation -/

variable {d}

omit [DecidableEq κ] in
theorem named_split {l r : List Shape} {s : Shape} {k : κ}
    {x : Option String} :
    Named d (l ++ s :: r) k x ↔
      (s.key d = k ∧ shows d s x = true) ∨ Named d (l ++ r) k x := by
  simp only [Named, List.mem_append, List.mem_cons]
  constructor
  · rintro ⟨u, hu | rfl | hu, hnamed⟩
    · exact Or.inr ⟨u, Or.inl hu, hnamed⟩
    · exact Or.inl hnamed
    · exact Or.inr ⟨u, Or.inr hu, hnamed⟩
  · rintro (hnamed | ⟨u, hu | hu, hnamed⟩)
    · exact ⟨s, Or.inr (Or.inl rfl), hnamed⟩
    · exact ⟨u, Or.inl hu, hnamed⟩
    · exact ⟨u, Or.inr (Or.inr hu), hnamed⟩

omit [DecidableEq κ] in
theorem distinct_split {l r : List Shape} {s : Shape} :
    Distinct d (l ++ s :: r) ↔
      (∀ u ∈ l ++ r, u.key d ≠ s.key d) ∧ Distinct d (l ++ r) := by
  rw [Distinct, List.map_append, List.map_cons, List.nodup_middle,
    List.nodup_cons, ← List.map_append, Distinct, List.mem_map]
  refine and_congr_left fun _ => ?_
  constructor
  · intro h u hu hkey
    exact h ⟨u, hu, hkey⟩
  · rintro h ⟨u, hu, hkey⟩
    exact h u hu hkey

/-- The column name an operation gives. -/
def givenColumn (d : Dialect κ) : AlterTableOperation → Option String
  | .addColumn _ _ c _ => some (d.ident c.name)
  | .renameColumn _ new => some (d.ident new)
  | _ => none

/-- The column name an operation takes. -/
def takenColumn (d : Dialect κ) : AlterTableOperation → Option String
  | .dropColumn c _ _ => some (d.ident c)
  | .renameColumn old _ => some (d.ident old)
  | _ => none

omit [DecidableEq κ] in
theorem has_iff {s : Shape} {j : String} :
    s.has d j = true ↔ ∃ col ∈ s.columns, col.key d = j := by
  simp only [Shape.has, List.any_eq_true, beq_iff_eq]

omit [DecidableEq κ] in
/-- Declared keys mark columns and rename none. -/
theorem declares_has {taken : List String} {s s' : Shape}
    {cons : List TableConstraint}
    (h : cons.foldlM (Shape.declare d taken) s = .ok s') (j : String) :
    s'.has d j = s.has d j := by
  rcases declares_ok h with ⟨-, rfl⟩ | ⟨cols, n, -, -, rfl⟩
  · rfl
  · rw [Shape.has, Shape.withKey, List.any_map]
    refine congrArg (fun f => s.columns.any f) (funext fun col => ?_)
    show (Column.key d (col.mark (d := d) _) == j) = (col.key d == j)
    rw [Column.mark]
    split <;> rfl

omit [DecidableEq κ] in
theorem mapColumn_has {s : Shape} {key : String} {f : Column → Column}
    (hf : ∀ col : Column, (f col).key d = col.key d) (j : String) :
    (s.mapColumn d key f).has d j = s.has d j := by
  rw [Shape.mapColumn, Shape.has, List.any_map]
  refine congrArg (fun f => s.columns.any f) (funext fun col => ?_)
  show (Column.key d (if col.key d = key then f col else col) == j) = _
  split
  · rw [hf]
  · rfl

omit [DecidableEq κ] in
/-- **THE COLUMN NAMES AFTER AN OPERATION**. -/
theorem shapeOperation_has {taken : List String} {s s' : Shape}
    {op : AlterTableOperation} (h : shapeOperation d taken s op = .ok s')
    (j : String) : s'.has d j = true ↔ givenColumn d op = some j ∨
      (s.has d j = true ∧ takenColumn d op ≠ some j) := by
  have hsame : ∀ {t : Shape}, t.has d j = s.has d j →
      (t.has d j = true ↔ (none : Option String) = some j ∨
        (s.has d j = true ∧ (none : Option String) ≠ some j)) := by
    intro t ht
    rw [ht]
    simp
  cases shapeOperation_ok h with
  | @addConstraint con _ h =>
      have hone : [con].foldlM (Shape.declare d taken) s = .ok s' :=
        foldlM_cons_ok.mpr ⟨s', h, rfl⟩
      exact hsame (declares_has hone j)
  | @columnThere _ c _ hthere =>
      simp only [givenColumn, takenColumn, Option.some.injEq]
      constructor
      · intro hj
        exact Or.inr ⟨hj, Option.some_ne_none j ∘ Eq.symm⟩
      · rintro (rfl | ⟨hj, -⟩)
        · exact hthere
        · exact hj
  | @addColumn _ _ c _ hnew h =>
      rw [declares_has h]
      simp only [Shape.has, List.any_append, List.any_cons, List.any_nil,
        Bool.or_false, Bool.or_eq_true, givenColumn, takenColumn,
        Option.some.injEq, ne_eq, reduceCtorEq, not_false_eq_true, and_true]
      rw [or_comm]
      exact or_congr beq_iff_eq Iff.rfl
  | @dropColumn name _ _ _ =>
      simp only [has_iff, Shape.dropColumn, List.mem_filter, givenColumn,
        takenColumn, reduceCtorEq, false_or, ne_eq, Option.some.injEq,
        bne_iff_ne]
      constructor
      · rintro ⟨col, ⟨hcol, hkey⟩, rfl⟩
        exact ⟨⟨col, hcol, rfl⟩, Ne.symm hkey⟩
      · rintro ⟨⟨col, hcol, rfl⟩, hkey⟩
        exact ⟨col, ⟨hcol, Ne.symm hkey⟩, rfl⟩
  | @columnMissing name _ hmissing =>
      simp only [givenColumn, takenColumn, reduceCtorEq, false_or, ne_eq,
        Option.some.injEq]
      constructor
      · intro hj
        refine ⟨hj, ?_⟩
        rintro rfl
        rw [hj] at hmissing
        cases hmissing
      · exact And.left
  | @renameColumn old new hold hnew =>
      simp only [has_iff, Shape.renameColumn, Shape.mapColumn, List.mem_map,
        givenColumn, takenColumn, ne_eq, Option.some.injEq]
      constructor
      · rintro ⟨col, ⟨col', hcol', rfl⟩, hkey⟩
        split at hkey
        · exact Or.inl hkey
        · next hother =>
            exact Or.inr ⟨⟨col', hcol', hkey⟩, fun h => hother (hkey.trans h.symm)⟩
      · rintro (rfl | ⟨⟨col, hcol, rfl⟩, hother⟩)
        · obtain ⟨col, hcol, hkey⟩ := has_iff.mp hold
          exact ⟨_, ⟨col, hcol, rfl⟩, by rw [if_pos hkey]; rfl⟩
        · exact ⟨_, ⟨col, hcol, rfl⟩, by rw [if_neg (Ne.symm hother)]⟩
  | setNotNull _ | dropNotNull _ _ | setDataType _ =>
      refine hsame (mapColumn_has ?_ j)
      intro col
      rfl
  | dropConstraint | renameTable | setDefault _ | dropDefault _
  | addGenerated _ | inert _ => exact hsame rfl

omit [DecidableEq κ] in
/-- The same, and the table itself stays. -/
theorem shapeOperation_shows {taken : List String} {s s' : Shape}
    {op : AlterTableOperation} (h : shapeOperation d taken s op = .ok s')
    (x : Option String) : shows d s' x = true ↔
      (x.isSome = true ∧ givenColumn d op = x) ∨
        (shows d s x = true ∧ ¬ (x.isSome = true ∧ takenColumn d op = x)) := by
  cases x with
  | none => simp [shows]
  | some j =>
      have hj := shapeOperation_has h j
      simpa [shows] using hj

/-! ## Statements -/

/-- The tables that `DROP TABLE` keeps. -/
theorem dropTables_kept {c c' : Catalog κ} {ie cascade : Bool}
    {names : List ObjectName} (h : c.dropTables d ie names cascade = .ok c') :
    c'.shapes = c.shapes.filter fun s =>
      !((names.map d.table).filter fun k => (c.lookup d k).isSome).contains
        (s.key d) := by
  simp only [Catalog.dropTables] at h
  split at h
  · cases h
  · split at h
    · cases h
    · rw [← Except.ok.inj h, filterForeignKeys_shapes]
      simp only [Catalog.shapes, List.filter_map]
      rfl

omit [DecidableEq κ] in
theorem named_snoc {shapes : List Shape} {s : Shape} {k : κ}
    {x : Option String} : Named d (shapes ++ [s]) k x ↔
      (s.key d = k ∧ shows d s x = true) ∨ Named d shapes k x := by
  rw [named_split, List.append_nil]

end DualdbCatalogNames
