import DieselDualdb.Lib.FallibleRun
import Mathlib.Data.List.Perm.Lattice

/-!
# Runs whose inputs are addressed

A system is `Keyed` when every input is addressed to one key, or to none, and a
step changes, and looks at, no more of the state than that key's view of it.
What a run makes of one view is then a run of its own, over the inputs addressed
to it (`run_view`), and the run is accepted as soon as all of these are
(`run_accepted_iff`).

So the order of inputs with different addresses does not matter
(`runs_alike`), and two runs on disjoint keys can be interleaved at will
(`Interleaving`).  The last section puts the views together again.
-/

namespace KeyedRuns

open FallibleRun

variable {ε σ τ κ α β : Type} [DecidableEq κ]

/-- The inputs addressed to `k`, in order. -/
def addressed (key : α → Option κ) (k : κ) (as : List α) : List α :=
  as.filter fun a => key a = some k

section Addressed

variable {key : α → Option κ} {k : κ}

theorem addressed_cons_pos {a : α} (h : key a = some k) (as : List α) :
    addressed key k (a :: as) = a :: addressed key k as :=
  List.filter_cons_of_pos (decide_eq_true h)

theorem addressed_cons_neg {a : α} (h : key a ≠ some k) (as : List α) :
    addressed key k (a :: as) = addressed key k as :=
  List.filter_cons_of_neg (by rwa [decide_eq_true_iff])

theorem addressed_append (as bs : List α) :
    addressed key k (as ++ bs) = addressed key k as ++ addressed key k bs :=
  List.filter_append as bs

theorem addressed_eq_nil {as : List α} :
    addressed key k as = [] ↔ ∀ a ∈ as, key a ≠ some k := by
  simp only [addressed, List.filter_eq_nil_iff, decide_eq_true_iff, ne_eq]

/-- Neighbours with different addresses change places unnoticed. -/
theorem addressed_swap {a b : α} (h : key a ≠ key b) (as : List α) :
    addressed key k (a :: b :: as) = addressed key k (b :: a :: as) := by
  by_cases ha : key a = some k
  · have hb : key b ≠ some k := fun hb => h (ha.trans hb.symm)
    rw [addressed_cons_pos ha, addressed_cons_neg hb, addressed_cons_neg hb,
      addressed_cons_pos ha]
  · rw [addressed_cons_neg ha]
    by_cases hb : key b = some k
    · rw [addressed_cons_pos hb, addressed_cons_pos hb, addressed_cons_neg ha]
    · rw [addressed_cons_neg hb, addressed_cons_neg hb, addressed_cons_neg ha]

end Addressed

/-- A step on an input addressed to `k` is a step of `k`'s view; the other views
    stay; an input without an address is accepted. -/
structure Keyed (step : σ → α → Except ε σ) (key : α → Option κ)
    (view : κ → σ → τ) (stepAt : τ → α → Except ε τ) : Prop where
  here : ∀ s a k, key a = some k →
    (step s a).map (view k) = stepAt (view k s) a
  elsewhere : ∀ s s' a k, key a ≠ some k → step s a = .ok s' →
    view k s' = view k s
  free : ∀ s a, key a = none → ∃ s', step s a = .ok s'

section Runs

variable {step : σ → α → Except ε σ} {key : α → Option κ} {view : κ → σ → τ}
variable {stepAt : τ → α → Except ε τ}

theorem map_eq_ok {f : σ → τ} {x : Except ε σ} {t : τ}
    (h : x.map f = .ok t) : ∃ s, x = .ok s ∧ f s = t := by
  cases x with
  | error e => cases h
  | ok s => exact ⟨s, rfl, Except.ok.inj h⟩

omit [DecidableEq κ] in
theorem Keyed.step_here (hK : Keyed step key view stepAt) {s s' : σ} {a : α}
    {k : κ} (hk : key a = some k) (h : step s a = .ok s') :
    stepAt (view k s) a = .ok (view k s') := by
  rw [← hK.here s a k hk, h]
  rfl

/-- **A VIEW OF A RUN IS A RUN**, of the inputs addressed to it. -/
theorem Keyed.run_view (hK : Keyed step key view stepAt) (k : κ)
    {as : List α} {s t : σ} (h : as.foldlM step s = .ok t) :
    (addressed key k as).foldlM stepAt (view k s) = .ok (view k t) := by
  induction as generalizing s with
  | nil =>
      rw [foldlM_nil_ok.mp h]
      rfl
  | cons a as ih =>
      obtain ⟨s', hs', hrest⟩ := foldlM_cons_ok.mp h
      have htail := ih hrest
      by_cases hk : key a = some k
      · rw [addressed_cons_pos hk]
        exact foldlM_cons_ok.mpr ⟨_, hK.step_here hk hs', htail⟩
      · rw [addressed_cons_neg hk, ← hK.elsewhere s s' a k hk hs']
        exact htail

/-- **A RUN IS ACCEPTED KEY BY KEY.** -/
theorem Keyed.run_accepted_iff (hK : Keyed step key view stepAt)
    {as : List α} {s : σ} :
    (∃ t, as.foldlM step s = .ok t) ↔
      ∀ k, ∃ u, (addressed key k as).foldlM stepAt (view k s) = .ok u := by
  constructor
  · rintro ⟨t, h⟩ k
    exact ⟨view k t, hK.run_view k h⟩
  · intro h
    induction as generalizing s with
    | nil => exact ⟨s, rfl⟩
    | cons a as ih =>
        -- the first step is accepted, and no view is behind afterwards
        obtain ⟨s', hs'⟩ : ∃ s', step s a = .ok s' := by
          cases hkey : key a with
          | none => exact hK.free s a hkey
          | some k =>
              obtain ⟨u, hu⟩ := h k
              rw [addressed_cons_pos hkey] at hu
              obtain ⟨u', hu', -⟩ := foldlM_cons_ok.mp hu
              obtain ⟨s', hs', -⟩ :=
                map_eq_ok ((hK.here s a k hkey).trans hu')
              exact ⟨s', hs'⟩
        have hrest : ∀ k, ∃ u,
            (addressed key k as).foldlM stepAt (view k s') = .ok u := by
          intro k
          obtain ⟨u, hu⟩ := h k
          by_cases hk : key a = some k
          · rw [addressed_cons_pos hk] at hu
            obtain ⟨u', hu', hu⟩ := foldlM_cons_ok.mp hu
            rw [← Except.ok.inj ((hK.step_here hk hs').symm.trans hu')] at hu
            exact ⟨u, hu⟩
          · rw [addressed_cons_neg hk] at hu
            rw [hK.elsewhere s s' a k hk hs']
            exact ⟨u, hu⟩
        obtain ⟨t, ht⟩ := ih hrest
        exact ⟨t, foldlM_cons_ok.mpr ⟨s', hs', ht⟩⟩

/-- **ONLY THE ORDER AT EACH KEY MATTERS**: runs that agree on it are accepted
    alike and end with the same views. -/
theorem Keyed.runs_alike (hK : Keyed step key view stepAt) {as bs : List α}
    (h : ∀ k, addressed key k as = addressed key k bs) (s : σ) :
    RelOk (fun t u => ∀ k, view k t = view k u)
      (as.foldlM step s) (bs.foldlM step s) := by
  have hiff : (∃ t, as.foldlM step s = .ok t) ↔
      ∃ u, bs.foldlM step s = .ok u := by
    rw [hK.run_accepted_iff, hK.run_accepted_iff]
    simp only [h]
  cases ha : as.foldlM step s with
  | error e =>
      cases hb : bs.foldlM step s with
      | error e' => exact .error
      | ok u =>
          obtain ⟨t, ht⟩ := hiff.mpr ⟨u, hb⟩
          exact absurd (ha.symm.trans ht) error_ne_ok
  | ok t =>
      obtain ⟨u, hu⟩ := hiff.mp ⟨t, ha⟩
      rw [hu]
      refine .ok fun k => ?_
      have hview := hK.run_view k ha
      rw [h k, hK.run_view k hu] at hview
      exact (Except.ok.inj hview).symm

end Runs

/-! ## Interleavings -/

/-- `cs` has the elements of `as` and of `bs`, each list in its order. -/
inductive Interleaving : List α → List α → List α → Prop where
  | nil : Interleaving [] [] []
  | left {a : α} {as bs cs : List α} (h : Interleaving as bs cs) :
      Interleaving (a :: as) bs (a :: cs)
  | right {b : α} {as bs cs : List α} (h : Interleaving as bs cs) :
      Interleaving as (b :: bs) (b :: cs)

theorem Interleaving.append (as bs : List α) :
    Interleaving as bs (as ++ bs) := by
  induction as with
  | nil =>
      induction bs with
      | nil => exact .nil
      | cons b bs ih => exact .right ih
  | cons a as ih => exact .left ih

theorem Interleaving.symm {as bs cs : List α} (h : Interleaving as bs cs) :
    Interleaving bs as cs := by
  induction h with
  | nil => exact .nil
  | left _ ih => exact .right ih
  | right _ ih => exact .left ih

theorem Interleaving.map (f : α → β) {as bs cs : List α}
    (h : Interleaving as bs cs) :
    Interleaving (as.map f) (bs.map f) (cs.map f) := by
  induction h with
  | nil => exact .nil
  | left _ ih => exact .left ih
  | right _ ih => exact .right ih

theorem Interleaving.flatten {as bs cs : List (List α)}
    (h : Interleaving as bs cs) :
    Interleaving as.flatten bs.flatten cs.flatten := by
  induction h with
  | nil => exact .nil
  | @left a as bs cs _ ih =>
      induction a with
      | nil => exact ih
      | cons x a iha => exact .left iha
  | @right b as bs cs _ ih =>
      induction b with
      | nil => exact ih
      | cons x b ihb => exact .right ihb

section Pairs

variable {R : α → β → Prop} {as bs cs : List α}

/-- The partners of interleaved elements are interleaved partners. -/
theorem Interleaving.partners (h : Interleaving as bs cs) {zs : List β}
    (hz : List.Forall₂ R cs zs) :
    ∃ xs ys, List.Forall₂ R as xs ∧ List.Forall₂ R bs ys ∧
      Interleaving xs ys zs := by
  induction h generalizing zs with
  | nil => cases hz; exact ⟨[], [], .nil, .nil, .nil⟩
  | left _ ih =>
      cases hz with
      | cons hab hrest =>
          obtain ⟨xs, ys, hxs, hys, hi⟩ := ih hrest
          exact ⟨_ :: xs, ys, .cons hab hxs, hys, .left hi⟩
  | right _ ih =>
      cases hz with
      | cons hab hrest =>
          obtain ⟨xs, ys, hxs, hys, hi⟩ := ih hrest
          exact ⟨xs, _ :: ys, hxs, .cons hab hys, .right hi⟩

theorem Interleaving.of_partners (h : Interleaving as bs cs) {xs ys : List β}
    (hx : List.Forall₂ R as xs) (hy : List.Forall₂ R bs ys) :
    ∃ zs, List.Forall₂ R cs zs ∧ Interleaving xs ys zs := by
  induction h generalizing xs ys with
  | nil =>
      cases hx
      cases hy
      exact ⟨[], .nil, .nil⟩
  | left _ ih =>
      cases hx with
      | cons hab hrest =>
          obtain ⟨zs, hzs, hi⟩ := ih hrest hy
          exact ⟨_ :: zs, .cons hab hzs, .left hi⟩
  | right _ ih =>
      cases hy with
      | cons hab hrest =>
          obtain ⟨zs, hzs, hi⟩ := ih hx hrest
          exact ⟨_ :: zs, .cons hab hzs, .right hi⟩

end Pairs

/-- What one of the two lists has all the say in. -/
theorem Interleaving.filter_left {p : α → Bool} {as bs cs : List α}
    (h : Interleaving as bs cs) (hbs : ∀ b ∈ bs, p b = false) :
    cs.filter p = as.filter p := by
  induction h with
  | nil => rfl
  | left _ ih => rw [List.filter_cons, List.filter_cons, ih hbs]
  | right _ ih =>
      obtain ⟨hb, hbs⟩ := List.forall_mem_cons.mp hbs
      rw [List.filter_cons_of_neg (by rw [hb]; exact Bool.false_ne_true),
        ih hbs]

theorem Interleaving.addressed_left {key : α → Option κ} {k : κ}
    {as bs cs : List α} (h : Interleaving as bs cs)
    (hbs : ∀ b ∈ bs, key b ≠ some k) :
    addressed key k cs = addressed key k as :=
  h.filter_left fun b hb => decide_eq_false (hbs b hb)

/-! ## A list from its shards -/

section Shards

variable {f : α → κ} {as bs : List α}

/-- A list with its elements sorted by key can be put together again. -/
theorem eq_of_shards (hkeys : as.map f = bs.map f)
    (h : ∀ k, as.filter (fun a => f a = k) = bs.filter (fun b => f b = k)) :
    as = bs := by
  induction as generalizing bs with
  | nil =>
      rw [List.map_nil] at hkeys
      exact (List.map_eq_nil_iff.mp hkeys.symm).symm
  | cons a as ih =>
      cases bs with
      | nil => cases hkeys
      | cons b bs =>
          rw [List.map_cons, List.map_cons, List.cons.injEq] at hkeys
          obtain ⟨hhead, htail⟩ := hkeys
          -- the two heads are first in the shard of their key
          have hab : a = b := by
            have hk := h (f a)
            rw [List.filter_cons_of_pos (p := fun x => decide (f x = f a))
                (decide_eq_true rfl),
              List.filter_cons_of_pos (p := fun x => decide (f x = f a))
                (decide_eq_true hhead.symm)] at hk
            exact (List.cons.inj hk).1
          rw [hab]
          congr 1
          refine ih htail fun k => ?_
          have hk := h k
          rw [hab, List.filter_cons, List.filter_cons] at hk
          split at hk
          · exact (List.cons.inj hk).2
          · exact hk

theorem perm_of_shards [DecidableEq α]
    (h : ∀ k, as.filter (fun a => f a = k) = bs.filter (fun b => f b = k)) :
    as.Perm bs := by
  rw [List.perm_iff_count]
  intro a
  have hcount : ∀ l : List α,
      (l.filter fun b => f b = f a).count a = l.count a := fun l =>
    List.count_filter (decide_eq_true rfl)
  rw [← hcount as, h (f a), hcount bs]

end Shards

end KeyedRuns
