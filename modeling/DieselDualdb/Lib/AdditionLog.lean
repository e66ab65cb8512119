import Mathlib.Data.List.Basic
import Mathlib.Tactic.Common

/-!
# A list under additions and removals by key

A log of events adds elements at the end of a list and removes all elements of
a key.  What is left at the end can be read off the log without running it: an
addition survives when no later event removes its key, and the survivors stand
in the order of their additions (`replay_eq`, `mem_survivors`).
-/

namespace AdditionLog

variable {α κ : Type}

inductive Event (α κ : Type) where
  | add (a : α)
  | drop (k : κ)
deriving DecidableEq

variable [DecidableEq κ] (key : α → κ)

/-- What one event does to the list. -/
def Event.act (l : List α) : Event α κ → List α
  | .add a => l ++ [a]
  | .drop k => l.filter fun a => key a ≠ k

def replay (log : List (Event α κ)) (l : List α) : List α :=
  log.foldl (Event.act key) l

/-- The log removes this key. -/
def Drops (log : List (Event α κ)) (k : κ) : Prop := Event.drop k ∈ log

instance [DecidableEq α] (log : List (Event α κ)) (k : κ) :
    Decidable (Drops log k) :=
  inferInstanceAs (Decidable (Event.drop k ∈ log))

/-- The additions whose key no later event removes. -/
def survivors [DecidableEq α] : List (Event α κ) → List α
  | [] => []
  | .add a :: log =>
      if Drops log (key a) then survivors log else a :: survivors log
  | .drop _ :: log => survivors log

variable {key}

omit [DecidableEq κ] in
theorem drops_cons_add {log : List (Event α κ)} {a : α} {k : κ} :
    Drops (.add a :: log) k ↔ Drops log k := by
  rw [Drops, List.mem_cons]
  constructor
  · rintro (h | h)
    · cases h
    · exact h
  · exact Or.inr

omit [DecidableEq κ] in
theorem drops_cons_drop {log : List (Event α κ)} {k k' : κ} :
    Drops (.drop k' :: log) k ↔ k = k' ∨ Drops log k := by
  rw [Drops, List.mem_cons, Event.drop.injEq]
  exact Iff.rfl

/-- **WHAT A LOG LEAVES**: of the list it starts from, what no event removes,
    and then the survivors among its own additions. -/
theorem replay_eq [DecidableEq α] (log : List (Event α κ)) (l : List α) :
    replay key log l
      = (l.filter fun a => ¬ Drops log (key a)) ++ survivors key log := by
  induction log generalizing l with
  | nil =>
      have hall : (l.filter fun a => ¬ Drops ([] : List (Event α κ)) (key a))
          = l :=
        List.filter_eq_self.mpr fun a _ => decide_eq_true List.not_mem_nil
      rw [hall, survivors, List.append_nil]
      rfl
  | cons e log ih =>
      rw [replay, List.foldl_cons, ← replay, ih]
      cases e with
      | add a =>
          simp only [Event.act, drops_cons_add, List.filter_append,
            List.append_assoc, survivors]
          by_cases hdrop : Drops log (key a)
          · simp [hdrop]
          · simp [hdrop]
      | drop k =>
          simp only [Event.act, drops_cons_drop, List.filter_filter, survivors,
            not_or, Bool.decide_and]
          congr 1
          refine List.filter_congr fun a _ => ?_
          rw [Bool.and_comm]

/-- **A LOG THAT CHANGES NOTHING** takes the end of the list and brings it back,
    or takes nothing and brings nothing that it does not take again. -/
theorem replay_eq_self_iff [DecidableEq α] {log : List (Event α κ)}
    {l : List α} :
    replay key log l = l ↔ ∃ kept, l = kept ++ survivors key log ∧
      (∀ a ∈ kept, ¬ Drops log (key a)) ∧
      ∀ a ∈ survivors key log, Drops log (key a) := by
  rw [replay_eq]
  constructor
  · intro h
    have hkept : ∀ a ∈ l.filter fun a => ¬ Drops log (key a),
        ¬ Drops log (key a) := by
      intro a ha
      exact of_decide_eq_true (List.mem_filter.mp ha).2
    refine ⟨_, h.symm, hkept, fun a ha => ?_⟩
    -- what is kept of the list is kept of its first part
    have htwice := congrArg (List.filter fun a => ¬ Drops log (key a)) h
    rw [List.filter_append, List.filter_filter] at htwice
    simp only [Bool.and_self, List.append_right_eq_self,
      List.filter_eq_nil_iff, decide_eq_true_eq, not_not] at htwice
    exact htwice a ha
  · rintro ⟨kept, rfl, hkept, hback⟩
    rw [List.filter_append, List.filter_eq_self.mpr, List.filter_eq_nil_iff.mpr,
      List.append_nil]
    · intro a ha
      simpa using hback a ha
    · intro a ha
      exact decide_eq_true (hkept a ha)

theorem survivors_adds [DecidableEq α] (l : List α)
    (log : List (Event α κ)) :
    survivors key (l.map .add ++ log)
      = (l.filter fun a => ¬ Drops log (key a)) ++ survivors key log := by
  have hdrops : ∀ (l : List α) (k : κ),
      Drops (l.map .add ++ log) k ↔ Drops log k := by
    intro l k
    simp [Drops]
  induction l with
  | nil => rfl
  | cons a l ih =>
      rw [List.map_cons, List.cons_append, survivors, ih, List.filter_cons]
      simp only [hdrops, decide_not, Bool.not_eq_true', decide_eq_false_iff_not]
      by_cases hdrop : Drops log (key a)
      · rw [if_pos hdrop, if_neg (not_not.mpr hdrop)]
      · rw [if_neg hdrop, if_pos hdrop, List.cons_append]

/-- What the list starts with counts as added first. -/
theorem replay_eq_survivors [DecidableEq α] (log : List (Event α κ))
    (l : List α) : replay key log l = survivors key (l.map .add ++ log) := by
  rw [replay_eq, survivors_adds]

/-- **WHO SURVIVES**: an addition that no later event takes back. -/
theorem mem_survivors [DecidableEq α] {log : List (Event α κ)} {a : α} :
    a ∈ survivors key log ↔
      ∃ before after, log = before ++ .add a :: after ∧
        ¬ Drops after (key a) := by
  induction log with
  | nil =>
      constructor
      · intro h
        cases h
      · rintro ⟨before, after, h, -⟩
        exact absurd h (by simp)
  | cons e log ih =>
      constructor
      · intro h
        cases e with
        | add b =>
            rw [survivors] at h
            split at h
            · obtain ⟨before, after, rfl, hdrop⟩ := ih.mp h
              exact ⟨.add b :: before, after, rfl, hdrop⟩
            · next hb =>
                rcases List.mem_cons.mp h with rfl | h
                · exact ⟨[], log, rfl, hb⟩
                · obtain ⟨before, after, rfl, hdrop⟩ := ih.mp h
                  exact ⟨.add b :: before, after, rfl, hdrop⟩
        | drop k =>
            obtain ⟨before, after, rfl, hdrop⟩ := ih.mp h
            exact ⟨.drop k :: before, after, rfl, hdrop⟩
      · rintro ⟨before, after, h, hdrop⟩
        cases before with
        | nil =>
            obtain ⟨rfl, rfl⟩ := List.cons.inj h
            rw [survivors, if_neg hdrop]
            exact List.mem_cons_self
        | cons e' before =>
            obtain ⟨rfl, rfl⟩ := List.cons.inj h
            have hmem := ih.mpr ⟨before, after, rfl, hdrop⟩
            cases e with
            | add b =>
                rw [survivors]
                split
                · exact hmem
                · exact List.mem_cons_of_mem b hmem
            | drop k => exact hmem

end AdditionLog
