import DieselDualdb.DualEnum
import Mathlib.Data.List.Nodup

/-!
# When a derived enum round-trips

Both arms of the generated code store a label and read it back through one
match, whose arms are tried in order.  So an arm is reached exactly when no
earlier arm has its label, and the conversions are faithful exactly when the
labels are distinct (`faithful_iff`).  The macro does not look at that: it
refuses fields, unknown options and an empty enum, and accepts a `rename` to a
label that another variant has already.  On the definitions it accepts, the
round trip therefore holds exactly when no two variants clash
(`enum_round_trips_iff`).
-/

namespace DualdbEnum

open FallibleRun Pointwise

/-! ## First-match recursions -/

theorem matchValue_mem {arms : List Arm} {ident : String}
    (h : ident ∈ arms.map Arm.ident) :
    ⟨ident, matchValue arms ident h⟩ ∈ arms := by
  induction arms with
  | nil => exact absurd h List.not_mem_nil
  | cons a arms ih =>
      rw [matchValue]
      split
      · next hid => rw [hid]; exact List.mem_cons_self
      · exact List.mem_cons_of_mem _ (ih _)

/-- With distinct variants, each arm gives its own variant's label. -/
theorem matchValue_eq {arms : List Arm} (hids : (arms.map Arm.ident).Nodup)
    {a : Arm} (ha : a ∈ arms) (h : a.ident ∈ arms.map Arm.ident) :
    matchValue arms a.ident h = a.label := by
  have hmem := matchValue_mem h
  have hsame := List.inj_on_of_nodup_map hids hmem ha rfl
  exact congrArg Arm.label hsame

/-- The arm that is taken is an arm of the list. -/
theorem matchLabel_ok {msg s ident : String} {arms : List Arm}
    (h : matchLabel msg arms s = .ok ident) : ⟨ident, s⟩ ∈ arms := by
  induction arms with
  | nil => cases h
  | cons a arms ih =>
      rw [matchLabel] at h
      split at h
      · next hs =>
          rw [← Except.ok.inj h, hs]
          exact List.mem_cons_self
      · exact List.mem_cons_of_mem _ (ih h)

/-- A label of some arm is recognised. -/
theorem matchLabel_total (msg : String) {s : String} {arms : List Arm}
    (h : s ∈ arms.map Arm.label) :
    ∃ ident, matchLabel msg arms s = .ok ident := by
  induction arms with
  | nil => exact absurd h List.not_mem_nil
  | cons a arms ih =>
      rw [matchLabel]
      by_cases hs : s = a.label
      · exact ⟨a.ident, if_pos hs⟩
      · rw [if_neg hs]
        exact ih (List.mem_of_ne_of_mem hs h)

/-- Any other text is refused. -/
theorem matchLabel_error {msg s : String} {arms : List Arm}
    (h : s ∉ arms.map Arm.label) : matchLabel msg arms s = .error msg := by
  induction arms with
  | nil => rfl
  | cons a arms ih =>
      obtain ⟨hs, harms⟩ := List.ne_and_not_mem_of_not_mem_cons h
      rw [matchLabel, if_neg hs, ih harms]

/-! ## One arm of the generated code -/

/-- The conversions of one backend: a variant is written as its label, read
    back as itself, two variants are written apart, and a stored text that is
    no variant's label is refused. -/
structure Faithful {β : Type} (e : Derived) (stored : String → β)
    (toSql : e.Value → β) (fromSql : β → Except String String) : Prop where
  written : ∀ v, toSql v = stored (e.label v)
  round_trip : ∀ v, fromSql (toSql v) = .ok v.1
  apart : ∀ v w, toSql v = toSql w → v = w
  rejects : ∀ s, (∀ v, e.label v ≠ s) →
    ∃ msg, fromSql (stored s) = .error msg

/-- The variant of an arm. -/
def Derived.valueOf (e : Derived) {a : Arm} (ha : a ∈ e.arms) : e.Value :=
  ⟨a.ident, List.mem_map.mpr ⟨a, ha, rfl⟩⟩

theorem label_valueOf {e : Derived} (hids : (e.arms.map Arm.ident).Nodup)
    {a : Arm} (ha : a ∈ e.arms) : e.label (e.valueOf ha) = a.label :=
  matchValue_eq hids ha _

/-- **A FIRST-MATCH DECODER IS FAITHFUL EXACTLY ON DISTINCT LABELS**, whatever
    the texts are stored as. -/
theorem faithful_iff {β : Type} {rust : RustText} {e : Derived}
    (hids : (e.arms.map Arm.ident).Nodup) {stored : String → β}
    {fromSql : β → Except String String}
    (hread : ∀ s, fromSql (stored s) = e.fromLabel rust s) :
    Faithful e stored (fun v => stored (e.label v)) fromSql ↔
      (e.arms.map Arm.label).Nodup := by
  constructor
  · intro h
    refine List.Nodup.map_on ?_ (List.Nodup.of_map _ hids)
    -- two arms of one label are read back as one variant
    intro a ha b hb hlabel
    have hread_a := h.round_trip (e.valueOf ha)
    have hread_b := h.round_trip (e.valueOf hb)
    simp only [label_valueOf hids] at hread_a hread_b
    rw [hlabel, hread_b] at hread_a
    exact (List.inj_on_of_nodup_map hids hb ha (Except.ok.inj hread_a)).symm
  · intro hlabels
    -- with distinct labels the arm that is found is the arm of the value
    have hround : ∀ v, fromSql (stored (e.label v)) = .ok v.1 := by
      intro v
      have hmem := matchValue_mem v.2
      obtain ⟨ident, hident⟩ := matchLabel_total
        ("unrecognized `" ++ e.pgType ++ "` enum label: "
          ++ rust.debug (e.label v)) (List.mem_map.mpr ⟨_, hmem, rfl⟩)
      have hsame := List.inj_on_of_nodup_map hlabels (matchLabel_ok hident)
        hmem rfl
      rw [hread, Derived.fromLabel]
      exact hident.trans (congrArg Except.ok (congrArg Arm.ident hsame))
    refine ⟨fun _ => rfl, hround, ?_, ?_⟩
    · intro v w hvw
      have hv := hround v
      rw [hvw, hround w] at hv
      exact Subtype.ext (Except.ok.inj hv).symm
    · intro s hs
      refine ⟨_, (hread s).trans (matchLabel_error ?_)⟩
      intro hmem
      obtain ⟨a, ha, rfl⟩ := List.mem_map.mp hmem
      exact hs (e.valueOf ha) (label_valueOf hids ha)

/-! ## Both arms -/

/-- Bytes that spell a text are read as that text. -/
theorem fromSqlPg_toUTF8 (rust : RustText) (e : Derived) (s : String) :
    e.fromSqlPg rust s.toUTF8 = e.fromLabel rust s := by
  have hutf8 : String.fromUTF8? s.toUTF8 = some s := dif_pos s.isValidUTF8
  rw [Derived.fromSqlPg, hutf8]

theorem fromSqlSqlite_setValue (rust : RustText) (c : SqliteText)
    (e : Derived) (s : String) :
    e.fromSqlSqlite rust c (c.setValue s) = e.fromLabel rust s := by
  rw [Derived.fromSqlSqlite, c.read_setValue]
  rfl

/-- The derived enum round-trips, on the Postgres arm and on the SQLite arm. -/
structure RoundTrips (rust : RustText) (c : SqliteText) (e : Derived) :
    Prop where
  postgres : Faithful e String.toUTF8 e.toSqlPg (e.fromSqlPg rust)
  sqlite : Faithful e c.setValue (e.toSqlSqlite c) (e.fromSqlSqlite rust c)

theorem roundTrips_iff {rust : RustText} {c : SqliteText} {e : Derived}
    (hids : (e.arms.map Arm.ident).Nodup) :
    RoundTrips rust c e ↔ (e.arms.map Arm.label).Nodup := by
  constructor
  · intro h
    exact (faithful_iff hids (fromSqlPg_toUTF8 rust e)).mp h.postgres
  · intro h
    exact ⟨(faithful_iff hids (fromSqlPg_toUTF8 rust e)).mpr h,
      (faithful_iff hids (fromSqlSqlite_setValue rust c e)).mpr h⟩

/-! ## The definitions that round-trip -/

/-- No `rename` of either variant gives it the other's label. -/
def Apart (v w : Variant) : Prop :=
  (∀ l ∈ v.renamed, l ≠ w.storedLabel) ∧ ∀ l ∈ w.renamed, l ≠ v.storedLabel

instance (v w : Variant) : Decidable (Apart v w) :=
  decidable_of_iff ((∀ l ∈ v.renamed, l ≠ w.storedLabel) ∧
    ∀ l ∈ w.renamed, l ≠ v.storedLabel) Iff.rfl

/-- Without a `rename`, two variants are stored under their own names. -/
theorem apart_iff {v w : Variant} (hid : v.ident ≠ w.ident) :
    Apart v w ↔ v.storedLabel ≠ w.storedLabel := by
  constructor
  · rintro ⟨hv, hw⟩
    -- without an option on either side the labels are the identifiers
    cases hv' : v.renamed with
    | some l =>
        have hlabel : v.storedLabel = l := by
          rw [Variant.storedLabel, hv', Option.getD_some]
        rw [hlabel]
        exact hv l (Option.mem_def.mpr hv')
    | none =>
        cases hw' : w.renamed with
        | some l =>
            have hlabel : w.storedLabel = l := by
              rw [Variant.storedLabel, hw', Option.getD_some]
            rw [hlabel]
            exact (hw l (Option.mem_def.mpr hw')).symm
        | none =>
            rw [Variant.storedLabel, Variant.storedLabel, hv', hw',
              Option.getD_none, Option.getD_none]
            exact hid
  · intro h
    refine ⟨fun l hl => ?_, fun l hl => ?_⟩
    · have hlabel : v.storedLabel = l := by
        rw [Variant.storedLabel, Option.mem_def.mp hl, Option.getD_some]
      rwa [hlabel] at h
    · have hlabel : w.storedLabel = l := by
        rw [Variant.storedLabel, Option.mem_def.mp hl, Option.getD_some]
      rw [hlabel] at h
      exact h.symm

theorem pairwise_apart_iff {vs : List Variant}
    (hids : (vs.map Variant.ident).Nodup) :
    vs.Pairwise Apart ↔ (vs.map Variant.storedLabel).Nodup := by
  have hne : vs.Pairwise fun v w => v.ident ≠ w.ident :=
    List.pairwise_map.mp hids
  rw [List.Nodup, List.pairwise_map]
  constructor
  · intro h
    exact (hne.and h).imp fun hvw => (apart_iff hvw.1).mp hvw.2
  · intro h
    exact (hne.and h).imp fun hvw => (apart_iff hvw.1).mpr hvw.2

/-- **WHEN A DERIVED ENUM ROUND-TRIPS**: on a definition the macro accepts,
    exactly when no `rename` gives a variant the label of another. -/
theorem enum_round_trips_iff {rust : RustText} (c : SqliteText)
    {input : DeriveInput} {e : Derived} {variants : List Variant}
    {distinct : (variants.map Variant.ident).Nodup}
    (hdata : input.data = .enum variants distinct)
    (h : dualEnumImpl rust input = .ok e) :
    RoundTrips rust c e ↔ variants.Pairwise Apart := by
  obtain ⟨vs, hvs, hdata', harms⟩ := dualEnumImpl_ok h
  rw [hdata] at hdata'
  cases hdata'
  have hids : (e.arms.map Arm.ident).Nodup := by
    rw [harms, List.map_map]
    exact distinct
  have hlabels : e.arms.map Arm.label = variants.map Variant.storedLabel := by
    rw [harms, List.map_map]
    rfl
  rw [roundTrips_iff hids, pairwise_apart_iff distinct, hlabels]

/-! ## Runs -/

/-- Lower-casing and `{:?}` of a text in plain letters. -/
def plainText : RustText where
  toLowercase s := String.ofList (s.toList.map Char.toLower)
  debug s := "\"" ++ s ++ "\""

def plainColumn : SqliteText := ⟨String, id, .ok, fun _ => rfl⟩

def unit (ident : String) : Variant := ⟨ident, [], true⟩

def renamedTo (ident label : String) : Variant :=
  ⟨ident, [⟨"dualdb", [⟨"rename", .ok label⟩], none⟩], true⟩

def mood : DeriveInput where
  ident := "Mood"
  attrs := [⟨"dualdb", [⟨"pg_type", .ok "mood"⟩], none⟩]
  data := .enum [unit "Happy", unit "Sad", renamedTo "Neutral" "meh"]
    (by decide)

theorem enum_round_trips_iff_of_mood :
    ∃ e, dualEnumImpl plainText mood = .ok e ∧
      RoundTrips plainText plainColumn e := by
  have hmood : dualEnumImpl plainText mood = .ok ⟨"Mood", "MoodSqlType",
      "mood", [⟨"Happy", "Happy"⟩, ⟨"Sad", "Sad"⟩, ⟨"Neutral", "meh"⟩]⟩ := by
    decide
  exact ⟨_, hmood,
    (enum_round_trips_iff plainColumn rfl hmood).mpr (by decide)⟩

/-- `Blue` is renamed to the label of `Sad`. -/
def clashing : DeriveInput where
  ident := "Mood"
  attrs := []
  data := .enum [unit "Sad", renamedTo "Blue" "Sad"] (by decide)

/-- **A RENAME ONTO ANOTHER VARIANT IS ACCEPTED**, and `Blue` comes back as
    `Sad` on both arms. -/
theorem rename_clash_is_accepted :
    ∃ e, ∃ blue : e.Value, dualEnumImpl plainText clashing = .ok e ∧
      blue.1 = "Blue" ∧
      e.fromSqlPg plainText (e.toSqlPg blue) = .ok "Sad" ∧
      e.fromSqlSqlite plainText plainColumn (e.toSqlSqlite plainColumn blue)
        = .ok "Sad" ∧
      ¬ RoundTrips plainText plainColumn e := by
  have hclash : dualEnumImpl plainText clashing = .ok ⟨"Mood", "MoodSqlType",
      "mood", [⟨"Sad", "Sad"⟩, ⟨"Blue", "Sad"⟩]⟩ := by
    decide
  refine ⟨_, ⟨"Blue", by decide⟩, hclash, rfl, ?_, rfl, ?_⟩
  · exact fromSqlPg_toUTF8 plainText _ "Sad"
  · intro h
    have hround := h.sqlite.round_trip ⟨"Blue", by decide⟩
    exact absurd (Except.ok.inj hround) (by decide)

end DualdbEnum
