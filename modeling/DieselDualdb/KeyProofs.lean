import DieselDualdb.Migration
import DieselDualdb.SqlText

/-!
# The primary key a history declares, and the one that is printed

`ledger` reads the declared keys off the statements alone: one entry for each
`CREATE TABLE`, updated by the `ALTER TABLE`s that refer to that table.  Which
table a name refers to is the database's business, so it is a parameter: any
function of the statements that came before.

The model's side is one invariant (`ledger_keys`): no `ALTER TABLE` operation
touches the recorded key, so every table carries the key of its own
`CREATE TABLE`, whatever was declared later.
-/

namespace DualdbKey

open DualdbAst DualdbTypeMap DualdbModel DualdbRender DualdbMigration
open FallibleRun

/-! ## Declared keys -/

def keyConstraints (ct : CreateTable) : List (List Ident) :=
  ct.constraints.filterMap primaryKeyOf

/-- The columns declared `PRIMARY KEY` in their own definition. -/
def keyColumns (ct : CreateTable) : List String :=
  (ct.columns.filter fun c => c.options.any isPrimary).map fun c => c.name.value

/-- The key a `CREATE TABLE` declares: every declared key column, in order. -/
def createKey (ct : CreateTable) : Option (List String) :=
  if ct.columns.any (fun c => c.options.any isPrimary)
      || !(keyConstraints ct).isEmpty then
    some (keyColumns ct ++ (keyConstraints ct).flatten.map Ident.value)
  else none

/-- `ADD [CONSTRAINT n] PRIMARY KEY (…)` and `ADD COLUMN … PRIMARY KEY`. -/
def operationKey : AlterTableOperation → Option (List String)
  | .addConstraint con =>
      (primaryKeyOf con).map (·.map Ident.value)
  | .addColumn _ _ c _ =>
      if c.options.any isPrimary then some [c.name.value] else none
  | _ => none

/-- What the history says about one table. -/
structure Declared where
  created : CreateTable
  /-- The key an `ALTER TABLE` declared last. -/
  altered : Option (List String)

/-- The declared key; a later declaration replaces an earlier one. -/
def Declared.key (e : Declared) : Option (List String) :=
  e.altered <|> createKey e.created

def Declared.alter (e : Declared) (op : AlterTableOperation) : Declared :=
  { e with altered := operationKey op <|> e.altered }

/-- The entry a name refers to, after these statements. -/
abbrev Resolver := List Statement → ObjectName → Option Nat

def ledgerStep (refers : Resolver) (before : List Statement)
    (entries : List Declared) : Statement → List Declared
  | .createTable ct => entries ++ [⟨ct, none⟩]
  | .alterTable name _ _ ops _ =>
      match refers before name with
      | some i => entries.modify i fun e => ops.foldl Declared.alter e
      | none => entries
  | _ => entries

def ledgerFrom (refers : Resolver) :
    List Statement → List Declared → List Statement → List Declared
  | _, entries, [] => entries
  | before, entries, s :: stmts =>
      ledgerFrom refers (before ++ [s]) (ledgerStep refers before entries s)
        stmts

/-- One entry for each `CREATE TABLE` of the history. -/
def ledger (refers : Resolver) (stmts : List Statement) : List Declared :=
  ledgerFrom refers [] [] stmts

/-! ## The invariant: a table keeps the key of its `CREATE TABLE` -/

/-- The key entries of the column definitions, one for each key option. -/
def keyOptions (ct : CreateTable) : List String :=
  ct.columns.flatMap fun c =>
    (c.options.filter isPrimary).map fun _ => c.name.value

/-- The key declared last in the `CREATE TABLE`. -/
def lastKey (ct : CreateTable) : List String :=
  match (keyConstraints ct).getLast? with
  | some cols => cols.map Ident.value
  | none => keyOptions ct

/-- The table and the entry are of one `CREATE TABLE`. -/
structure KeepsKey (t : ModelTable) (e : Declared) : Prop where
  name : t.name = lastIdent e.created.name
  key : t.primaryKey = lastKey e.created

theorem keepsKey_created (ct : CreateTable) (rows : List Mapped) :
    KeepsKey (ModelTable.created ct rows) ⟨ct, none⟩ :=
  ⟨rfl, constraintKey_eq _ _⟩

theorem foldl_alter_created (ops : List AlterTableOperation) (e : Declared) :
    (ops.foldl Declared.alter e).created = e.created := by
  induction ops generalizing e with
  | nil => rfl
  | cons op ops ih => rw [List.foldl_cons, ih]; rfl

/-- Only the names and keys of the tables matter, and only the `CREATE TABLE`
    of the entries. -/
theorem forall₂_keepsKey_iff {ts : List ModelTable} {es : List Declared} :
    List.Forall₂ KeepsKey ts es ↔
      ts.map (fun t => (t.name, t.primaryKey))
        = es.map fun e => (lastIdent e.created.name, lastKey e.created) := by
  induction ts generalizing es with
  | nil =>
      cases es with
      | nil => exact iff_of_true .nil rfl
      | cons e es => exact iff_of_false (fun h => by cases h) (by simp)
  | cons t ts ih =>
      cases es with
      | nil => exact iff_of_false (fun h => by cases h) (by simp)
      | cons e es =>
          rw [List.forall₂_cons, ih, List.map_cons, List.map_cons,
            List.cons.injEq, Prod.mk.injEq]
          exact and_congr_left' ⟨fun h => ⟨h.name, h.key⟩,
            fun h => ⟨h.1, h.2⟩⟩

theorem map_modify_alter (es : List Declared) (i : Nat)
    (ops : List AlterTableOperation) :
    (es.modify i fun e => ops.foldl Declared.alter e).map Declared.created
      = es.map Declared.created := by
  induction es generalizing i with
  | nil => cases i <;> rfl
  | cons e es ih =>
      cases i with
      | zero =>
          rw [List.modify_zero_cons, List.map_cons, foldl_alter_created]
          rfl
      | succ i => rw [List.modify_succ_cons, List.map_cons, ih]; rfl

/-- **STEP LEMMA**: whatever the statement declares, the tables keep the keys
    of their `CREATE TABLE`s. -/
theorem apply_keepsKey {p : Sqlparser} {refers : Resolver}
    {before : List Statement} {m m' : Model} {es : List Declared}
    {s : Statement} (hm : List.Forall₂ KeepsKey m.tables es)
    (h : m.apply p s = .ok m') :
    List.Forall₂ KeepsKey m'.tables (ledgerStep refers before es s) := by
  cases s with
  | createTable ct =>
      obtain ⟨rows, -, rfl⟩ := apply_createTable_ok.mp h
      exact List.rel_append hm (.cons (keepsKey_created ct rows) .nil)
  | alterTable name ie only ops cl =>
      rw [forall₂_keepsKey_iff] at hm ⊢
      -- altering notes a key beside the created table
      have hentries : (ledgerStep refers before es
          (.alterTable name ie only ops cl)).map Declared.created
          = es.map Declared.created := by
        simp only [ledgerStep]
        cases refers before name with
        | none => rfl
        | some i => exact map_modify_alter es i ops
      -- and no operation touches a block's name or key
      have htables : m'.tables.map (fun t => (t.name, t.primaryKey))
          = m.tables.map fun t => (t.name, t.primaryKey) := by
        refine run_invariant (I := fun m₁ : Model =>
          m₁.tables.map (fun t => (t.name, t.primaryKey)) = _) ?_ ops m m' rfl h
        intro m₁ op m₂ hm₁ hop
        rw [← hm₁]
        refine applyOperation_map (fun t => ?_) hop
        rw [operationUpdate_name, operationUpdate_primaryKey]
      have hview : ∀ es' : List Declared,
          es'.map (fun e => (lastIdent e.created.name, lastKey e.created))
            = (es'.map Declared.created).map
                fun ct => (lastIdent ct.name, lastKey ct) := by
        intro es'
        rw [List.map_map]; rfl
      rw [htables, hm, hview, hview, hentries]
  | drop _ _ _ _ _ | createIndex _ | other _ =>
      rw [← Except.ok.inj h]; exact hm

/-- The run lemma. -/
theorem ledger_keys {p : Sqlparser} {refers : Resolver}
    {stmts before : List Statement} {m m' : Model} {es : List Declared}
    (hm : List.Forall₂ KeepsKey m.tables es)
    (h : stmts.foldlM (Model.apply p) m = .ok m') :
    List.Forall₂ KeepsKey m'.tables (ledgerFrom refers before es stmts) := by
  induction stmts generalizing before m es with
  | nil => rw [← foldlM_nil_ok.mp h]; exact hm
  | cons s stmts ih =>
      obtain ⟨m₁, hs, hrest⟩ := foldlM_cons_ok.mp h
      exact ih (apply_keepsKey hm hs) hrest

/-! ## When the printed key is the declared one -/

/-- The printed key is the declared one, and the first-column fallback is for
    tables that declare none. -/
def KeyAgrees (t : ModelTable) (e : Declared) : Prop :=
  (∀ key, e.key = some key → t.primaryKeyCols = key)
    ∧ (t.primaryKey = [] → e.key = none)

/-- The `CREATE TABLE` declares its key at most once: on column definitions
    without repetition, or in one table constraint. -/
def SingleForm (ct : CreateTable) : Prop :=
  (∀ c ∈ ct.columns, (c.options.filter isPrimary).length ≤ 1)
    ∧ (keyConstraints ct = []
      ∨ keyColumns ct = [] ∧ (keyConstraints ct).length = 1)

/-- The declared key is the one declared in the `CREATE TABLE`. -/
def KeyInCreate (e : Declared) : Prop :=
  match e.altered with
  | none => SingleForm e.created
  | some key => lastKey e.created = key

/-- A statement's key constraints list at least one column. -/
def KeyLists : Statement → Prop
  | .createTable ct => ∀ cols ∈ keyConstraints ct, cols ≠ []
  | .alterTable _ _ _ ops _ =>
      ∀ op ∈ ops, ∀ key, operationKey op = some key → key ≠ []
  | _ => True

/-- The entry's keys list at least one column. -/
structure Declared.Listed (e : Declared) : Prop where
  created : ∀ cols ∈ keyConstraints e.created, cols ≠ []
  altered : ∀ key, e.altered = some key → key ≠ []

theorem listed_alter {ops : List AlterTableOperation} {e : Declared}
    (he : e.Listed)
    (hops : ∀ op ∈ ops, ∀ key, operationKey op = some key → key ≠ []) :
    (ops.foldl Declared.alter e).Listed := by
  induction ops generalizing e with
  | nil => exact he
  | cons op ops ih =>
      refine ih ⟨he.created, ?_⟩ fun o ho => hops o (List.mem_cons_of_mem _ ho)
      intro key hkey
      cases hop : operationKey op with
      | some k =>
          simp only [Declared.alter, hop] at hkey
          exact hops op List.mem_cons_self key (hop.trans hkey)
      | none =>
          simp only [Declared.alter, hop] at hkey
          exact he.altered key hkey

theorem listed_ledgerStep {refers : Resolver} {before : List Statement}
    {es : List Declared} {s : Statement} (hes : ∀ e ∈ es, e.Listed)
    (hs : KeyLists s) : ∀ e ∈ ledgerStep refers before es s, e.Listed := by
  cases s with
  | createTable ct =>
      intro e he
      rcases List.mem_append.mp he with he | he
      · exact hes e he
      · rw [List.mem_singleton.mp he]
        exact ⟨hs, fun _ h => by cases h⟩
  | alterTable name ie only ops cl =>
      simp only [ledgerStep]
      cases refers before name with
      | none => exact hes
      | some i =>
          intro e he
          obtain ⟨j, hj, rfl⟩ := List.mem_iff_getElem.mp he
          rw [List.getElem_modify]
          split
          · exact listed_alter (hes _ (List.getElem_mem _)) hs
          · exact hes _ (List.getElem_mem _)
  | drop _ _ _ _ _ | createIndex _ | other _ => exact hes

theorem listed_ledger {refers : Resolver} {stmts before : List Statement}
    {es : List Declared} (hes : ∀ e ∈ es, e.Listed)
    (hs : ∀ s ∈ stmts, KeyLists s) :
    ∀ e ∈ ledgerFrom refers before es stmts, e.Listed := by
  induction stmts generalizing before es with
  | nil => exact hes
  | cons s stmts ih =>
      exact ih (listed_ledgerStep hes (hs s List.mem_cons_self))
        fun s' hs' => hs s' (List.mem_cons_of_mem _ hs')

/-- Two lists that flatten to lists of one length, part by part no longer. -/
theorem flatMap_const_eq_iff {α β : Type} (f : α → β) (n : α → Nat)
    (as : List α) :
    as.flatMap (fun a => List.replicate (n a) (f a))
        = (as.filter fun a => n a != 0).map f ↔ ∀ a ∈ as, n a ≤ 1 := by
  -- the left side is never shorter, so one repetition is too many
  have hle : ∀ bs : List α, ((bs.filter fun a => n a != 0).map f).length
      ≤ (bs.flatMap fun a => List.replicate (n a) (f a)).length := by
    intro bs
    induction bs with
    | nil => exact Nat.le_refl 0
    | cons b bs ih =>
        by_cases hb : n b = 0
        · simpa [List.filter_cons, hb] using ih
        · simp only [List.filter_cons, bne_iff_ne, ne_eq, hb,
            not_false_eq_true, if_true, List.map_cons, List.length_cons,
            List.flatMap_cons, List.length_append, List.length_replicate]
          omega
  induction as with
  | nil => simp
  | cons a as ih =>
      rw [List.forall_mem_cons, List.flatMap_cons]
      refine Iff.trans ?_ (and_congr_right' ih)
      match ha : n a with
      | 0 => simp [ha]
      | 1 => simp [ha]
      | k + 2 =>
          refine iff_of_false ?_ (fun h => absurd h.1 (by omega))
          intro h
          have hlen := congrArg List.length h
          have := hle as
          simp [ha] at hlen this
          omega

/-- The key options name each key column once exactly when no definition
    repeats the option. -/
theorem keyOptions_eq_iff (ct : CreateTable) :
    keyOptions ct = keyColumns ct ↔
      ∀ c ∈ ct.columns, (c.options.filter isPrimary).length ≤ 1 := by
  have hany : ∀ c : ColumnDef, c.options.any isPrimary
      = ((c.options.filter isPrimary).length != 0) := by
    intro c
    rw [Bool.eq_iff_iff, List.any_eq_true, bne_iff_ne, ne_eq,
      List.length_eq_zero_iff, List.filter_eq_nil_iff, not_forall]
    constructor
    · rintro ⟨o, ho, hp⟩
      exact ⟨o, fun h => h ho hp⟩
    · rintro ⟨o, ho⟩
      obtain ⟨ho, hp⟩ := Classical.not_imp.mp ho
      exact ⟨o, ho, not_not.mp hp⟩
  rw [keyOptions, keyColumns]
  simp only [List.map_const', hany]
  exact flatMap_const_eq_iff (fun c : ColumnDef => c.name.value)
    (fun c => (c.options.filter isPrimary).length) ct.columns

theorem keyColumns_eq_nil {ct : CreateTable} :
    keyColumns ct = [] ↔
      ct.columns.any (fun c => c.options.any isPrimary) = false := by
  rw [keyColumns, List.map_eq_nil_iff, List.filter_eq_nil_iff,
    List.any_eq_false]

/-- The key declared last is the whole declared key exactly when it is the
    only one. -/
theorem lastKey_eq_iff {ct : CreateTable}
    (hne : ∀ cols ∈ keyConstraints ct, cols ≠ []) :
    lastKey ct = keyColumns ct ++ (keyConstraints ct).flatten.map Ident.value
      ↔ SingleForm ct := by
  rw [lastKey, SingleForm]
  rcases List.eq_nil_or_concat (keyConstraints ct) with hnil | ⟨init, last, hcat⟩
  · rw [hnil]
    simp only [List.getLast?_nil, List.flatten_nil, List.map_nil,
      List.append_nil, true_or, and_true]
    exact keyOptions_eq_iff ct
  · rw [hcat] at hne ⊢
    rw [List.concat_eq_append] at *
    -- every constraint but the last has to be absent
    have hflat : init.flatten = [] ↔ init = [] := by
      rw [List.flatten_eq_nil_iff]
      constructor
      · intro h
        cases init with
        | nil => rfl
        | cons cols init =>
            exact absurd (h cols List.mem_cons_self) (hne cols (by simp))
      · rintro rfl
        exact fun _ h => absurd h List.not_mem_nil
    -- no key column, so no repeated option
    have honce : keyColumns ct = [] →
        ∀ c ∈ ct.columns, (c.options.filter isPrimary).length ≤ 1 := by
      intro h c hc
      have hc' := List.any_eq_false.mp (keyColumns_eq_nil.mp h) c hc
      have hnone : c.options.filter isPrimary = [] := by
        rw [List.filter_eq_nil_iff]
        intro o ho hp
        exact hc' (List.any_eq_true.mpr ⟨o, ho, hp⟩)
      rw [hnone]
      exact Nat.zero_le 1
    simp only [List.getLast?_append, List.getLast?_singleton, Option.some_or,
      List.flatten_append, List.flatten_singleton, List.map_append,
      ← List.append_assoc, List.length_append, List.length_singleton]
    rw [List.self_eq_append_left, List.append_eq_nil_iff, List.map_eq_nil_iff,
      hflat]
    constructor
    · rintro ⟨hcols, rfl⟩
      exact ⟨honce hcols, Or.inr ⟨hcols, rfl⟩⟩
    · rintro ⟨-, h | ⟨hcols, hlen⟩⟩
      · exact absurd h (by simp)
      · exact ⟨hcols, List.length_eq_zero_iff.mp (by omega)⟩

/-- A table that declares a key prints it exactly when it recorded it. -/
theorem keyAgrees_iff_of_key {t : ModelTable} {e : Declared}
    {key : List String} (hkey : e.key = some key) (hne : key ≠ []) :
    KeyAgrees t e ↔ t.primaryKey = key := by
  rw [KeyAgrees, hkey]
  constructor
  · rintro ⟨hcols, hfallback⟩
    have hrec : t.primaryKey ≠ [] := fun h => by cases hfallback h
    rw [← primaryKeyCols_of_ne_nil hrec]
    exact hcols key rfl
  · rintro rfl
    refine ⟨fun k hk => ?_, fun h => absurd h hne⟩
    rw [primaryKeyCols_of_ne_nil hne]
    exact Option.some.inj hk

/-- **ONE TABLE**: the printed key is right exactly when the key is declared
    in the `CREATE TABLE`, in one form. -/
theorem keyAgrees_iff {t : ModelTable} {e : Declared} (hte : KeepsKey t e)
    (he : e.Listed) : KeyAgrees t e ↔ KeyInCreate e := by
  rw [KeyInCreate]
  cases halt : e.altered with
  | some key =>
      have hkey : e.key = some key := by rw [Declared.key, halt]; rfl
      rw [keyAgrees_iff_of_key hkey (he.altered key halt), hte.key]
  | none =>
      have hkey : e.key = createKey e.created := by rw [Declared.key, halt]; rfl
      -- without an altered key the declared forms decide
      by_cases hdecl : (e.created.columns.any fun c => c.options.any isPrimary)
          || !(keyConstraints e.created).isEmpty
      · rw [createKey, if_pos hdecl] at hkey
        refine Iff.trans ?_ (lastKey_eq_iff he.created)
        rw [← hte.key]
        refine keyAgrees_iff_of_key hkey fun hnil => ?_
        obtain ⟨hcols, hcons⟩ := List.append_eq_nil_iff.mp hnil
        rw [keyColumns_eq_nil.mp hcols, Bool.false_or, Bool.not_eq_true',
          List.isEmpty_eq_false_iff_exists_mem] at hdecl
        obtain ⟨cols, hmem⟩ := hdecl
        rw [List.map_eq_nil_iff, List.flatten_eq_nil_iff] at hcons
        exact he.created cols hmem (hcons cols hmem)
      · rw [createKey, if_neg hdecl] at hkey
        rw [Bool.not_eq_true, Bool.or_eq_false_iff, Bool.not_eq_false',
          List.isEmpty_iff] at hdecl
        -- nothing is declared, and nothing is printed
        refine iff_of_true ⟨fun k hk => ?_, fun _ => hkey⟩ ?_
        · rw [hkey] at hk
          cases hk
        · refine (lastKey_eq_iff he.created).mp ?_
          rw [lastKey, hdecl.2]
          have hopts : keyOptions e.created = [] := by
            rw [keyOptions, List.flatMap_eq_nil_iff]
            intro c hc
            rw [List.map_eq_nil_iff, List.filter_eq_nil_iff]
            intro o ho hp
            exact List.any_eq_false.mp hdecl.1 c hc
              (List.any_eq_true.mpr ⟨o, ho, hp⟩)
          rw [keyColumns_eq_nil.mpr hdecl.1]
          exact hopts

theorem forall₂_iff_of_pairs {α β : Type} {R S : α → β → Prop} {Q : β → Prop}
    {as : List α} {bs : List β} (h : List.Forall₂ R as bs)
    (hS : ∀ a b, R a b → b ∈ bs → (S a b ↔ Q b)) :
    List.Forall₂ S as bs ↔ ∀ b ∈ bs, Q b := by
  induction h with
  | nil => exact iff_of_true .nil fun _ hb => absurd hb List.not_mem_nil
  | cons hab _ ih =>
      rw [List.forall₂_cons, List.forall_mem_cons,
        hS _ _ hab List.mem_cons_self,
        ih fun a b hr hb => hS a b hr (List.mem_cons_of_mem _ hb)]

/-- **PRIMARY KEY AGREEMENT, EXACTLY**: the key printed for every table is the
    declared one if and only if every table's key is declared in its
    `CREATE TABLE`, in one form.  `hp`: the parser never returns a key
    constraint without columns. -/
theorem primary_keys_agree_iff {p : Sqlparser}
    (hp : ∀ sql stmts, p.parseSql sql = .ok stmts → ∀ s ∈ stmts, KeyLists s)
    (refers : Resolver) {ms : List Migration} {g : Generated}
    (h : generate p ms = .ok g) {stmts : List Statement}
    (hstmts : allStatements p ms = .ok stmts) :
    ∃ m, finalModel p ms = .ok m ∧ renderSchemaRs m = .ok g.schemaRs ∧
      m.tables.map ModelTable.name
        = (ledger refers stmts).map (fun e => lastIdent e.created.name) ∧
      (List.Forall₂ KeyAgrees m.tables (ledger refers stmts) ↔
        ∀ e ∈ ledger refers stmts, KeyInCreate e) := by
  obtain ⟨m, hm, hrs, hfold⟩ := generate_run h hstmts
  have hkeeps : List.Forall₂ KeepsKey m.tables (ledger refers stmts) :=
    ledger_keys .nil hfold
  have hlisted : ∀ e ∈ ledger refers stmts, e.Listed :=
    listed_ledger (fun _ h => absurd h List.not_mem_nil) (forall_statements_parsed hp hstmts)
  refine ⟨m, hm, hrs, ?_, forall₂_iff_of_pairs hkeeps fun t e hte he =>
    keyAgrees_iff hte (hlisted e he)⟩
  have hview := congrArg (List.map Prod.fst) (forall₂_keepsKey_iff.mp hkeeps)
  rwa [List.map_map, List.map_map] at hview

section Runs

open DualdbSqlText

/-- An unqualified name refers to the last table created under it. -/
def lastCreated : Resolver := fun before name =>
  let created := before.filterMap createdTable
  (created.reverse.findIdx? (· == lastIdent name)).map
    fun i => created.length - 1 - i

def keyParser : Sqlparser := parserOf
  [("CREATE TABLE t (a INT, b INT)\n",
      [createTable (bare "t")
        [col "a" (.int none) [], col "b" (.int none) []] []]),
    ("CREATE TABLE u (a INT, b INT, PRIMARY KEY (b, a))\n",
      [createTable (bare "u")
        [col "a" (.int none) [], col "b" (.int none) []]
        [.primaryKey none [Ident.new "b", Ident.new "a"] ""]]),
    ("ALTER TABLE t ADD PRIMARY KEY (b)\n",
      [alterTable (bare "t")
        [.addConstraint (.primaryKey none [Ident.new "b"] "")]])]

theorem keyParser_lists : ∀ sql stmts, keyParser.parseSql sql = .ok stmts →
    ∀ s ∈ stmts, KeyLists s := by
  intro sql stmts h
  simp only [keyParser, parserOf] at h
  split at h
  · next x stmts' hfind =>
      rw [← Except.ok.inj h]
      have hmem := List.mem_of_find?_eq_some hfind
      simp only [List.mem_cons, Prod.mk.injEq, List.not_mem_nil,
        or_false] at hmem
      rcases hmem with ⟨-, rfl⟩ | ⟨-, rfl⟩ | ⟨-, rfl⟩
      · simp [createTable, KeyLists, keyConstraints]
      · simp [createTable, KeyLists, keyConstraints, primaryKeyOf]
      · simp [alterTable, KeyLists, operationKey, primaryKeyOf]
  · cases h

def compositeKey : List Migration :=
  [⟨"1", "CREATE TABLE u (a INT, b INT, PRIMARY KEY (b, a))", none⟩]

theorem primary_keys_agree_iff_of_composite :
    ∃ g stmts m, generate keyParser compositeKey = .ok g ∧
      allStatements keyParser compositeKey = .ok stmts ∧
      renderSchemaRs m = .ok g.schemaRs ∧
      (List.Forall₂ KeyAgrees m.tables (ledger lastCreated stmts) ↔
        ∀ e ∈ ledger lastCreated stmts, KeyInCreate e) := by
  obtain ⟨g, hg⟩ := exists_ok_of_isOk (x := generate keyParser compositeKey)
    (by decide +kernel)
  obtain ⟨stmts, hstmts⟩ := exists_ok_of_isOk
    (x := allStatements keyParser compositeKey) (by decide +kernel)
  obtain ⟨m, -, hrs, -, hiff⟩ :=
    primary_keys_agree_iff keyParser_lists lastCreated hg hstmts
  exact ⟨g, stmts, m, hg, hstmts, hrs, hiff⟩

def alteredKey : List Migration :=
  [⟨"1", "CREATE TABLE t (a INT, b INT)", none⟩,
    ⟨"2", "ALTER TABLE t ADD PRIMARY KEY (b)", none⟩]

/-- The key declared by `ALTER TABLE` is `b`; the block prints `t (a)`. -/
theorem altered_key_is_lost :
    ∃ g stmts m t e, generate keyParser alteredKey = .ok g ∧
      allStatements keyParser alteredKey = .ok stmts ∧
      renderSchemaRs m = .ok g.schemaRs ∧ m.tables = [t] ∧
      ledger lastCreated stmts = [e] ∧ e.key = some ["b"] ∧
      t.primaryKeyCols = ["a"] ∧ ¬ KeyAgrees t e := by
  obtain ⟨g, hg⟩ := exists_ok_of_isOk (x := generate keyParser alteredKey)
    (by decide +kernel)
  obtain ⟨m, hm, hrs, -, -⟩ := generate_ok.mp hg
  have hfinal : finalModel keyParser alteredKey = .ok ⟨[⟨"t",
      [⟨"a", "diesel::sql_types::Integer", true⟩,
        ⟨"b", "diesel::sql_types::Integer", true⟩], [], []⟩]⟩ := by
    decide +kernel
  have hstmts : allStatements keyParser alteredKey = .ok
      [createTable (bare "t")
          [col "a" (.int none) [], col "b" (.int none) []] [],
        alterTable (bare "t")
          [.addConstraint (.primaryKey none [Ident.new "b"] "")]] := by
    decide +kernel
  rw [Except.ok.inj (hm.symm.trans hfinal)] at hrs
  refine ⟨g, _, _, _, _, hg, hstmts, hrs, rfl, rfl, rfl, rfl, ?_⟩
  intro h
  exact absurd (h.1 ["b"] rfl) (by decide)

end Runs

end DualdbKey
