import DieselDualdb.Lib.KeyedRuns

/-!
# Two parties on one state

Two parties change one state, and each sees a part of it; the parts may overlap.
A party's input does to its own view what it would do if there were nothing else,
and the other party sees nothing of it (`Private`).

Then two runs do not notice each other: each party's view of an interleaved run is
its own run, and the interleaved run is accepted as soon as both runs are
(`run_interleaved`), whatever the order.
-/

namespace TwoViews

open FallibleRun KeyedRuns

variable {ε σ τ τ' α : Type}

/-- The input acts on the view `mine`, and `other` does not change. -/
structure Private (step : σ → α → Except ε σ) (I : σ → Prop) (mine : σ → τ)
    (other : σ → τ') (stepOn : τ → α → Except ε τ) (a : α) : Prop where
  own : ∀ s, I s → (step s a).map mine = stepOn (mine s) a
  unseen : ∀ s s', I s → step s a = .ok s' → other s' = other s
  keeps : ∀ s s', I s → step s a = .ok s' → I s'

section Runs

variable {step : σ → α → Except ε σ} {I : σ → Prop}
variable {left : σ → τ} {right : σ → τ'}
variable {onLeft : τ → α → Except ε τ} {onRight : τ' → α → Except ε τ'}
variable {as bs cs : List α}

theorem Private.on_view {a : α} (h : Private step I left right onLeft a) {s s' : σ}
    (hs : I s) (hstep : step s a = .ok s') :
    onLeft (left s) a = .ok (left s') := by
  rw [← h.own s hs, hstep]
  rfl

theorem Private.accepted {a : α} (h : Private step I left right onLeft a) {s : σ}
    {t : τ} (hs : I s) (hstep : onLeft (left s) a = .ok t) :
    ∃ s', step s a = .ok s' ∧ left s' = t := by
  rw [← h.own s hs] at hstep
  exact map_eq_ok hstep

/-- **EACH VIEW OF AN INTERLEAVED RUN IS A RUN OF ITS OWN.** -/
theorem views_of_run (h : Interleaving as bs cs)
    (has : ∀ a ∈ as, Private step I left right onLeft a)
    (hbs : ∀ b ∈ bs, Private step I right left onRight b) {s s' : σ} (hs : I s)
    (hrun : cs.foldlM step s = .ok s') :
    I s' ∧ as.foldlM onLeft (left s) = .ok (left s') ∧
      bs.foldlM onRight (right s) = .ok (right s') := by
  induction h generalizing s with
  | nil =>
      rw [← foldlM_nil_ok.mp hrun]
      exact ⟨hs, rfl, rfl⟩
  | left _ ih =>
      obtain ⟨ha, has⟩ := List.forall_mem_cons.mp has
      obtain ⟨s₁, hstep, hrest⟩ := foldlM_cons_ok.mp hrun
      obtain ⟨hI, hleft, hright⟩ := ih has hbs (ha.keeps s s₁ hs hstep) hrest
      rw [ha.unseen s s₁ hs hstep] at hright
      exact ⟨hI, foldlM_cons_ok.mpr ⟨_, ha.on_view hs hstep, hleft⟩, hright⟩
  | right _ ih =>
      obtain ⟨hb, hbs⟩ := List.forall_mem_cons.mp hbs
      obtain ⟨s₁, hstep, hrest⟩ := foldlM_cons_ok.mp hrun
      obtain ⟨hI, hleft, hright⟩ := ih has hbs (hb.keeps s s₁ hs hstep) hrest
      rw [hb.unseen s s₁ hs hstep] at hleft
      exact ⟨hI, hleft, foldlM_cons_ok.mpr ⟨_, hb.on_view hs hstep, hright⟩⟩

/-- **AN INTERLEAVED RUN IS ACCEPTED** when the runs on the views are. -/
theorem run_of_views (h : Interleaving as bs cs)
    (has : ∀ a ∈ as, Private step I left right onLeft a)
    (hbs : ∀ b ∈ bs, Private step I right left onRight b) {s : σ} (hs : I s)
    {t : τ} {t' : τ'} (hleft : as.foldlM onLeft (left s) = .ok t)
    (hright : bs.foldlM onRight (right s) = .ok t') :
    ∃ s', cs.foldlM step s = .ok s' := by
  induction h generalizing s with
  | nil => exact ⟨s, rfl⟩
  | left _ ih =>
      obtain ⟨ha, has⟩ := List.forall_mem_cons.mp has
      obtain ⟨t₁, hstep, hrest⟩ := foldlM_cons_ok.mp hleft
      obtain ⟨s₁, hs₁, rfl⟩ := ha.accepted hs hstep
      rw [← ha.unseen s s₁ hs hs₁] at hright
      obtain ⟨s', hs'⟩ := ih has hbs (ha.keeps s s₁ hs hs₁) hrest hright
      exact ⟨s', foldlM_cons_ok.mpr ⟨s₁, hs₁, hs'⟩⟩
  | right _ ih =>
      obtain ⟨hb, hbs⟩ := List.forall_mem_cons.mp hbs
      obtain ⟨t₁, hstep, hrest⟩ := foldlM_cons_ok.mp hright
      obtain ⟨s₁, hs₁, rfl⟩ := hb.accepted hs hstep
      rw [← hb.unseen s s₁ hs hs₁] at hleft
      obtain ⟨s', hs'⟩ := ih has hbs (hb.keeps s s₁ hs hs₁) hleft hrest
      exact ⟨s', foldlM_cons_ok.mpr ⟨s₁, hs₁, hs'⟩⟩

/-- **TWO RUNS DO NOT NOTICE EACH OTHER**: an interleaved run is accepted exactly
    if each of the two is on its own, and each party sees what its own run
    leaves. -/
theorem run_interleaved (h : Interleaving as bs cs)
    (has : ∀ a ∈ as, Private step I left right onLeft a)
    (hbs : ∀ b ∈ bs, Private step I right left onRight b) {s : σ} (hs : I s) :
    ((∃ s', cs.foldlM step s = .ok s') ↔
      (∃ s₁, as.foldlM step s = .ok s₁) ∧ ∃ s₂, bs.foldlM step s = .ok s₂) ∧
    ∀ s', cs.foldlM step s = .ok s' →
      (∀ s₁, as.foldlM step s = .ok s₁ → left s' = left s₁) ∧
      ∀ s₂, bs.foldlM step s = .ok s₂ → right s' = right s₂ := by
  have hnone : ∀ a ∈ ([] : List α), Private step I left right onLeft a :=
    fun a ha => absurd ha List.not_mem_nil
  have hnone' : ∀ b ∈ ([] : List α), Private step I right left onRight b :=
    fun b hb => absurd hb List.not_mem_nil
  -- one party alone is an interleaving as well
  have halone : Interleaving as [] as := by
    have h := Interleaving.append as ([] : List α)
    rwa [List.append_nil] at h
  have halone' : Interleaving [] bs bs := Interleaving.append [] bs
  refine ⟨⟨?_, ?_⟩, fun s' hrun => ⟨fun s₁ h₁ => ?_, fun s₂ h₂ => ?_⟩⟩
  · rintro ⟨s', hrun⟩
    obtain ⟨-, hleft, hright⟩ := views_of_run h has hbs hs hrun
    exact ⟨run_of_views halone has hnone' hs hleft rfl,
      run_of_views halone' hnone hbs hs rfl hright⟩
  · rintro ⟨⟨s₁, h₁⟩, s₂, h₂⟩
    obtain ⟨-, hleft, -⟩ := views_of_run halone has hnone' hs h₁
    obtain ⟨-, -, hright⟩ := views_of_run halone' hnone hbs hs h₂
    exact run_of_views h has hbs hs hleft hright
  · obtain ⟨-, hleft, -⟩ := views_of_run h has hbs hs hrun
    obtain ⟨-, hleft', -⟩ := views_of_run halone has hnone' hs h₁
    exact Except.ok.inj (hleft.symm.trans hleft')
  · obtain ⟨-, -, hright⟩ := views_of_run h has hbs hs hrun
    obtain ⟨-, -, hright'⟩ := views_of_run halone' hnone hbs hs h₂
    exact Except.ok.inj (hright.symm.trans hright')

end Runs

end TwoViews
