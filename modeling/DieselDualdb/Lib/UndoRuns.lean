import Mathlib.Data.List.Basic
import Mathlib.Tactic.Common

/-!
# Steps that are taken back

A list of steps is applied in order, and the last step applied can be taken back
at any time.  The two directions are programs of their own, and either may be
refused.  A state reached by going up and down at will depends on the way there,
unless every step, taken back where it was taken, gives the state before it; then
going up and down visits the states of the straight run and no others, and nothing
is ever refused on the way down (`faithful_iff`).
-/

namespace UndoRuns

variable {σ ε : Type}

/-- A step and the program that is to take it back. -/
structure Reversible (σ ε : Type) where
  up : σ → Except ε σ
  down : σ → Except ε σ

/-- The states of the run that only goes up, the first and the last included. -/
inductive Straight : List (Reversible σ ε) → σ → List σ → Prop where
  | nil (s : σ) : Straight [] s [s]
  | cons {u : Reversible σ ε} {us : List (Reversible σ ε)} {s t : σ}
      {ts : List σ} (hup : u.up s = .ok t) (hrest : Straight us t ts) :
      Straight (u :: us) s (s :: ts)

/-- The states that going up and down reaches, with the number of steps that
    are applied. -/
inductive Visits (us : List (Reversible σ ε)) (s : σ) : Nat → σ → Prop where
  | start : Visits us s 0 s
  | up {i : Nat} {t t' : σ} {u : Reversible σ ε} (h : Visits us s i t)
      (hu : us[i]? = some u) (hup : u.up t = .ok t') : Visits us s (i + 1) t'
  | down {i : Nat} {t t' : σ} {u : Reversible σ ε} (h : Visits us s (i + 1) t)
      (hu : us[i]? = some u) (hdown : u.down t = .ok t') : Visits us s i t'

/-- Going up and down visits the states of the straight run only, and no step
    down is refused. -/
structure Faithful (us : List (Reversible σ ε)) (s : σ) (ts : List σ) :
    Prop where
  visits : ∀ i t, Visits us s i t → ts[i]? = some t
  accepted : ∀ i t u, Visits us s (i + 1) t → us[i]? = some u →
    ∃ t', u.down t = .ok t'

section Runs

variable {us : List (Reversible σ ε)} {s : σ} {ts : List σ}

theorem Straight.head (h : Straight us s ts) : ts[0]? = some s := by
  cases h <;> rfl

theorem Straight.length (h : Straight us s ts) : ts.length = us.length + 1 := by
  induction h with
  | nil s => rfl
  | cons _ _ ih => rw [List.length_cons, ih, List.length_cons]

/-- Between two neighbours of the straight run there is a step. -/
theorem Straight.step (h : Straight us s ts) {i : Nat} {u : Reversible σ ε}
    (hu : us[i]? = some u) :
    ∃ t t', ts[i]? = some t ∧ ts[i + 1]? = some t' ∧ u.up t = .ok t' := by
  induction h generalizing i with
  | nil s => cases hu
  | @cons v us s t ts hup hrest ih =>
      cases i with
      | zero =>
          cases hu
          exact ⟨s, t, rfl, hrest.head, hup⟩
      | succ i => exact ih hu

/-- The straight run is one of the ways to go. -/
theorem Straight.visited (h : Straight us s ts) {i : Nat} {t : σ}
    (ht : ts[i]? = some t) : Visits us s i t := by
  induction i generalizing t with
  | zero =>
      rw [h.head] at ht
      cases ht
      exact .start
  | succ i ih =>
      have hi : i < us.length := by
        have hbound := (List.getElem?_eq_some_iff.mp ht).1
        rw [h.length] at hbound
        exact Nat.lt_of_succ_lt_succ hbound
      obtain ⟨t₀, t₁, hbefore, hafter, hup⟩ :=
        h.step (List.getElem?_eq_getElem hi)
      cases Option.some.inj (ht.symm.trans hafter)
      exact .up (ih hbefore) (List.getElem?_eq_getElem hi) hup

/-- **WHAT MAKES GOING UP AND DOWN FAITHFUL**: each step, taken back where the
    straight run took it, gives the state before. -/
theorem faithful_iff (h : Straight us s ts) :
    Faithful us s ts ↔ ∀ i u t t', us[i]? = some u → ts[i]? = some t →
      ts[i + 1]? = some t' → u.down t' = .ok t := by
  constructor
  · intro hfaithful i u t t' hu ht ht'
    have hvisited := h.visited ht'
    obtain ⟨back, hback⟩ := hfaithful.accepted i t' u hvisited hu
    have hthere := hfaithful.visits i back (.down hvisited hu hback)
    rw [hback, Option.some.inj (hthere.symm.trans ht)]
  · intro hundone
    -- the invariant: what is visited is the straight run's state
    have hvisits : ∀ i t, Visits us s i t → ts[i]? = some t := by
      intro i t hvisit
      induction hvisit with
      | start => exact h.head
      | up _ hu hup ih =>
          obtain ⟨t₀, t₁, hbefore, hafter, hstep⟩ := h.step hu
          cases Option.some.inj (ih.symm.trans hbefore)
          rw [hafter, Except.ok.inj (hstep.symm.trans hup)]
      | down _ hu hdown ih =>
          obtain ⟨t₀, t₁, hbefore, hafter, -⟩ := h.step hu
          cases Option.some.inj (ih.symm.trans hafter)
          rw [hbefore, Except.ok.inj
            ((hundone _ _ _ _ hu hbefore hafter).symm.trans hdown)]
    refine ⟨hvisits, fun i t u hvisit hu => ?_⟩
    obtain ⟨t₀, t₁, hbefore, hafter, -⟩ := h.step hu
    cases Option.some.inj ((hvisits _ _ hvisit).symm.trans hafter)
    exact ⟨t₀, hundone i u t₀ t hu hbefore hafter⟩

end Runs

end UndoRuns
