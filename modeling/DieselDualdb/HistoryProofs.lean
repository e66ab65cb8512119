import DieselDualdb.EscapeHatchProofs
import DieselDualdb.Lib.Pointwise

/-!
# History is append-only

`generate` threads one model through all migrations while it renders them, and
a refusal can come from what an earlier migration left in the model.  The model
decides acceptance and `schema.rs`, and nothing else: `renderMigration` is what
one migration renders to with no model in sight, and every rendered migration
of an accepted list is that (`history_append_only`).  Conversely a longer
history that is accepted has accepted beginnings: the model fold stops at the
shorter list with a model whose markers come from the mapping table, and such a
model always prints.
-/

namespace DualdbHistory

open DualdbAst DualdbTypeMap DualdbModel DualdbRender DualdbMigration
open DualdbEscapeHatch FallibleRun Pointwise

/-- One migration's entry in `b`'s tree, from the migration alone. -/
def renderMigration (p : Sqlparser) (b : Backend) (m : Migration) :
    Except String RenderedMigration := do
  let segments ← segment m.upSql
  let up ← renderUp p segments b
  let down ← migrationDown p m segments
  pure ⟨m.dirName, up, down⟩

theorem renderMigration_ok {p : Sqlparser} {b : Backend} {m : Migration}
    {r : RenderedMigration} :
    renderMigration p b m = .ok r ↔ Renders p b m r := by
  rw [renderMigration, bind_ok]
  constructor
  · rintro ⟨segs, hsegs, h⟩
    obtain ⟨up, hup, h⟩ := bind_ok.mp h
    obtain ⟨down, hdown, h⟩ := bind_ok.mp h
    exact ⟨segs, up, down, hsegs, hup, hdown, (pure_ok.mp h).symm⟩
  · rintro ⟨segs, up, down, hsegs, hup, hdown, rfl⟩
    exact ⟨segs, hsegs, bind_ok.mpr ⟨up, hup, bind_ok.mpr ⟨down, hdown, rfl⟩⟩⟩

/-! ## The beginning of an accepted history -/

/-- Every model the migrations fold to prints. -/
theorem finalModel_prints {p : Sqlparser} {ms : List Migration} {m : Model}
    (h : finalModel p ms = .ok m) : ∃ text, renderSchemaRs m = .ok text :=
  renderSchemaRs_total (finalModel_marked h)

/-- The list at the front of an accepted one is accepted, and its trees are the
    fronts of the longer list's. -/
theorem generate_prefix {p : Sqlparser} {ms ns : List Migration}
    {g : Generated} (hg : generate p (ms ++ ns) = .ok g) :
    ∃ g₀, generate p ms = .ok g₀ ∧ ∀ b, g₀.tree b <+: g.tree b := by
  obtain ⟨m, hm, -, hpg, hsq⟩ := generate_ok.mp hg
  obtain ⟨m₀, -, hm₀, -, -⟩ := finalModel_append_ok.mp hm
  obtain ⟨schemaRs, hschema⟩ := finalModel_prints hm₀
  refine ⟨⟨g.postgres.take ms.length, g.sqlite.take ms.length, schemaRs⟩,
    generate_ok.mpr ⟨m₀, hm₀, hschema, ?_, ?_⟩, ?_⟩
  · have := List.forall₂_take ms.length hpg
    rwa [List.take_left] at this
  · have := List.forall₂_take ms.length hsq
    rwa [List.take_left] at this
  · intro b
    cases b with
    | postgres => exact List.take_prefix _ _
    | sqlite => exact List.take_prefix _ _

/-! ## One migration, one entry -/

theorem generate_entries {p : Sqlparser} {ms : List Migration} {g : Generated}
    (hg : generate p ms = .ok g) (b : Backend) :
    List.Forall₂ (fun m r => r.dirName = m.dirName ∧
      renderMigration p b m = .ok r) ms (g.tree b) := by
  refine (generate_tree hg b).imp ?_
  intro m r hr
  refine ⟨?_, renderMigration_ok.mpr hr⟩
  obtain ⟨_, _, _, -, -, -, rfl⟩ := hr
  rfl

/-- Lists that agree at `i` have trees that agree at `i`, whatever the other
    migrations are. -/
theorem generate_entry_local {p : Sqlparser} {ms ms' : List Migration}
    {g g' : Generated} (hg : generate p ms = .ok g)
    (hg' : generate p ms' = .ok g') (b : Backend) {i : Nat}
    (hi : ms[i]? = ms'[i]?) : (g.tree b)[i]? = (g'.tree b)[i]? := by
  have hms := forall₂_place (generate_tree hg b) i
  have hms' := forall₂_place (generate_tree hg' b) i
  rw [← hi] at hms'
  rcases hms with ⟨hm, hr⟩ | ⟨m, r, hm, hr, hrenders⟩
  · rcases hms' with ⟨-, hr'⟩ | ⟨m', r', hm', -, -⟩
    · rw [hr, hr']
    · rw [hm] at hm'
      cases hm'
  · rcases hms' with ⟨hm', -⟩ | ⟨m', r', hm', hr', hrenders'⟩
    · rw [hm] at hm'
      cases hm'
    · rw [hm] at hm'
      cases hm'
      rw [hr, hr', renders_unique hrenders hrenders']

/-- **HISTORY IS APPEND-ONLY**: the front of an accepted list is accepted and
    renders to the fronts of both trees; each entry of a tree has its own
    migration's name and is what that migration renders to alone; so lists that
    agree at a place have trees that agree there. -/
theorem history_append_only (p : Sqlparser) (ms ns : List Migration) :
    (∀ g, generate p (ms ++ ns) = .ok g →
      ∃ g₀, generate p ms = .ok g₀ ∧ ∀ b, g₀.tree b <+: g.tree b) ∧
    (∀ g b, generate p ms = .ok g →
      List.Forall₂ (fun m r => r.dirName = m.dirName ∧
        renderMigration p b m = .ok r) ms (g.tree b)) ∧
    ∀ ms' g g' b (i : Nat), generate p ms = .ok g →
      generate p ms' = .ok g' → ms[i]? = ms'[i]? →
      (g.tree b)[i]? = (g'.tree b)[i]? :=
  ⟨fun _ hg => generate_prefix hg, fun _ b hg => generate_entries hg b,
    fun _ _ _ b _ hg hg' hi => generate_entry_local hg hg' b hi⟩

theorem history_append_only_of_two :
    ∃ g g₀, generate hatchParser
        ([hatchMigration "X\n"] ++ [hatchMigration "Y\n"]) = .ok g ∧
      generate hatchParser [hatchMigration "X\n"] = .ok g₀ ∧
      ∀ b, g₀.tree b <+: g.tree b := by
  obtain ⟨g, hg⟩ := exists_ok_of_isOk
    (x := generate hatchParser
      ([hatchMigration "X\n"] ++ [hatchMigration "Y\n"])) (by decide +kernel)
  obtain ⟨g₀, hg₀, hprefix⟩ := (history_append_only hatchParser
    [hatchMigration "X\n"] [hatchMigration "Y\n"]).1 g hg
  exact ⟨g, g₀, hg, hg₀, hprefix⟩

end DualdbHistory
