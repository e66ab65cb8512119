import Mathlib.Data.List.Lex
import Mathlib.Data.List.Pairwise
import Mathlib.Data.List.Sort

/-!
# One list, two orders

A list that ascends by one key ascends by another exactly if the keys order its
entries alike (`sortBy_eq_self_iff`).  Lists of letters in lexicographic order
compare alike with and without a letter, if it stands at the same places in
both (`filter_lt_filter_iff`), and alike as a whole and up to a letter, unless
one goes on before it where the other stops (`comparesCut_iff`).
-/

namespace SortKeys

section Keys

variable {α β γ : Type} [LinearOrder β] [LinearOrder γ]

/-- The list in the order of a key. -/
def sortBy (key : α → γ) (l : List α) : List α :=
  l.insertionSort fun a b => key a ≤ key b

/-- Two keys order the entries of a list alike. -/
def Alike (f : α → β) (g : α → γ) (l : List α) : Prop :=
  ∀ a ∈ l, ∀ b ∈ l, f a < f b ↔ g a < g b

theorem pairwise_sortBy (key : α → γ) (l : List α) :
    (sortBy key l).Pairwise fun a b => key a ≤ key b :=
  haveI : Std.Total fun a b : α => key a ≤ key b :=
    ⟨fun a b => le_total (key a) (key b)⟩
  haveI : IsTrans α fun a b => key a ≤ key b := ⟨fun _ _ _ => le_trans⟩
  List.pairwise_insertionSort _ l

/-- A list that ascends is what sorting makes of it. -/
theorem sortBy_eq_self {key : α → γ} {l : List α} :
    sortBy key l = l ↔ l.Pairwise fun a b => key a ≤ key b := by
  constructor
  · intro h
    rw [← h]
    exact pairwise_sortBy key l
  · exact List.Pairwise.insertionSort_eq

/-- Of two entries that a key tells apart, one comes first in it. -/
theorem pairwise_lt_of_nodup {key : α → γ} {l : List α}
    (h : l.Pairwise fun a b => key a ≤ key b) (hnodup : (l.map key).Nodup) :
    l.Pairwise fun a b => key a < key b :=
  h.imp₂ (fun _ _ => lt_of_le_of_ne) (List.pairwise_map.mp hnodup)

/-- **SORTED BY ONE KEY, SORTED BY ANOTHER**: exactly if they order alike. -/
theorem sortBy_eq_self_iff {f : α → β} {g : α → γ} {l : List α}
    (hf : l.Pairwise fun a b => f a < f b) (hg : (l.map g).Nodup) :
    sortBy g l = l ↔ Alike f g l := by
  rw [sortBy_eq_self]
  constructor
  · intro h
    have hstrict := pairwise_lt_of_nodup h hg
    have hboth : l.Pairwise fun a b => f a < f b ∧ g a < g b := hf.and hstrict
    -- two entries stand in the list one way round or the other, or are one
    intro a ha b hb
    refine List.Pairwise.forall_of_forall_of_flip
      (R := fun a b => f a < f b ↔ g a < g b) (fun c _ => ?_) ?_ ?_ ha hb
    · rw [lt_self_iff_false, lt_self_iff_false]
    · exact hboth.imp fun hab => iff_of_true hab.1 hab.2
    · exact hboth.imp fun hab => iff_of_false hab.1.not_gt hab.2.not_gt
  · intro h
    refine hf.imp_of_mem fun ha hb hab => ?_
    exact ((h _ ha _ hb).mp hab).le

end Keys

/-! ## Lists of letters -/

section Letters

variable {α : Type} [LinearOrder α]

/-- Lists of one length decide the comparison, unless they are equal. -/
theorem append_lt_append_iff {xs ys rs ss : List α}
    (h : xs.length = ys.length) :
    xs ++ rs < ys ++ ss ↔ xs < ys ∨ xs = ys ∧ rs < ss := by
  induction xs generalizing ys with
  | nil =>
      rw [List.length_nil, eq_comm, List.length_eq_zero_iff] at h
      rw [h, List.nil_append, List.nil_append]
      simp only [lt_self_iff_false, true_and, false_or]
  | cons x xs ih =>
      cases ys with
      | nil => cases h
      | cons y ys =>
          rw [List.cons_append, List.cons_append, List.cons_lt_cons_iff,
            List.cons_lt_cons_iff, ih (Nat.succ.inj h), List.cons.injEq]
          tauto

/-- **A LETTER LEFT OUT** does not matter to the comparison of two lists that
    have it at the same places. -/
theorem filter_lt_filter_iff {s : α} {xs ys : List α}
    (h : xs.map (fun x => decide (x = s)) = ys.map fun y => decide (y = s)) :
    xs.filter (· ≠ s) < ys.filter (· ≠ s) ↔ xs < ys := by
  induction xs generalizing ys with
  | nil =>
      rw [List.map_nil, eq_comm, List.map_eq_nil_iff] at h
      rw [h, List.filter_nil]
  | cons x xs ih =>
      cases ys with
      | nil => cases h
      | cons y ys =>
          obtain ⟨hhead, htail⟩ := List.cons.inj h
          rw [decide_eq_decide] at hhead
          rw [List.cons_lt_cons_iff, ← ih htail]
          by_cases hx : x = s
          · have hy : y = s := hhead.mp hx
            rw [hx, hy, List.filter_cons_of_neg (by simp),
              List.filter_cons_of_neg (by simp)]
            simp only [lt_self_iff_false, true_and, false_or]
          · have hy : ¬ y = s := fun hy => hx (hhead.mpr hy)
            rw [List.filter_cons_of_pos (by simpa using hx),
              List.filter_cons_of_pos (by simpa using hy),
              List.cons_lt_cons_iff]

theorem takeWhile_separator (s : α) (xs : List α) :
    (s :: xs).takeWhile (· ≠ s) = [] :=
  List.takeWhile_cons_of_neg (by simp)

theorem takeWhile_letter {s x : α} (hx : x ≠ s) (xs : List α) :
    (x :: xs).takeWhile (· ≠ s) = x :: xs.takeWhile (· ≠ s) :=
  List.takeWhile_cons_of_pos (by simpa using hx)

/-- Up to the first `s` the second list goes on where the first stops, with a
    letter that sorts before `s`. -/
def Overrun (s : α) (xs ys : List α) : Prop :=
  s ∈ xs ∧ ∃ c rest, ys.takeWhile (· ≠ s) = xs.takeWhile (· ≠ s) ++ c :: rest
    ∧ c < s

theorem overrun_cons {s c : α} (hc : c ≠ s) {xs ys : List α} :
    Overrun s (c :: xs) (c :: ys) ↔ Overrun s xs ys := by
  simp only [Overrun, List.mem_cons, hc.symm, false_or]
  rw [takeWhile_letter hc, takeWhile_letter hc]
  simp only [List.cons_append, List.cons.injEq, true_and]

theorem not_overrun_of_head_ne {s x y : α} (hx : x ≠ s) (hne : x ≠ y)
    {xs ys : List α} : ¬ Overrun s (x :: xs) (y :: ys) := by
  rintro ⟨-, c, rest, heq, -⟩
  rw [takeWhile_letter hx, List.cons_append] at heq
  by_cases hy : y = s
  · rw [hy, takeWhile_separator] at heq
    cases heq
  · rw [takeWhile_letter hy] at heq
    exact hne (List.cons.inj heq).1.symm

theorem not_overrun_of_takeWhile_nil {s : α} {xs ys : List α}
    (h : ys.takeWhile (· ≠ s) = []) : ¬ Overrun s xs ys := by
  rintro ⟨-, c, rest, heq, -⟩
  rw [h] at heq
  cases List.append_ne_nil_of_right_ne_nil _ (List.cons_ne_nil _ _) heq.symm

theorem not_overrun_self {s : α} {xs : List α} : ¬ Overrun s xs xs := by
  rintro ⟨-, c, rest, heq, -⟩
  have hlength := congrArg List.length heq
  rw [List.length_append, List.length_cons] at hlength
  omega

theorem overrun_separator {s y : α} (hy : y ≠ s) {xs ys : List α} :
    Overrun s (s :: xs) (y :: ys) ↔ y < s := by
  rw [Overrun, takeWhile_separator, takeWhile_letter hy]
  constructor
  · rintro ⟨-, c, rest, heq, hlt⟩
    rw [(List.cons.inj heq).1]
    exact hlt
  · intro hlt
    exact ⟨List.mem_cons_self, y, _, rfl, hlt⟩

/-- The lists compare as their parts before the first `s` do. -/
def ComparesCut (s : α) (xs ys : List α) : Prop :=
  xs < ys ↔ xs.takeWhile (· ≠ s) < ys.takeWhile (· ≠ s)

/-- One part is empty, and the other list decides against `s`. -/
theorem comparesCut_separator {s y : α} (hy : y ≠ s) (xs ys : List α) :
    (ComparesCut s (s :: xs) (y :: ys) ↔ ¬ y < s) ∧
      (ComparesCut s (y :: ys) (s :: xs) ↔ ¬ y < s) := by
  rw [ComparesCut, ComparesCut, takeWhile_separator, takeWhile_letter hy,
    List.cons_lt_cons_iff, List.cons_lt_cons_iff,
    iff_true_right (List.nil_lt_cons _ _),
    iff_false_right (List.not_lt_nil _)]
  simp only [hy, hy.symm, false_and, or_false, not_lt, and_true]
  rw [le_iff_lt_or_eq]
  simp only [hy.symm, or_false]

theorem comparesCut_letter {s x y : α} (hx : x ≠ s) (hy : y ≠ s)
    (xs ys : List α) :
    ComparesCut s (x :: xs) (y :: ys) ↔ x ≠ y ∨ ComparesCut s xs ys := by
  rw [ComparesCut, ComparesCut, takeWhile_letter hx, takeWhile_letter hy,
    List.cons_lt_cons_iff, List.cons_lt_cons_iff]
  by_cases hxy : x = y
  · simp only [hxy, lt_self_iff_false, true_and, false_or, ne_eq,
      not_true_eq_false]
  · simp only [hxy, false_and, or_false, ne_eq, not_false_eq_true, true_or]

/-- **CUT AT A LETTER**: lists that differ before it compare as these parts do,
    exactly if neither part overruns the other. -/
theorem comparesCut_iff {s : α} {xs ys : List α}
    (hne : xs.takeWhile (· ≠ s) ≠ ys.takeWhile (· ≠ s)) :
    ComparesCut s xs ys ↔ ¬ Overrun s xs ys ∧ ¬ Overrun s ys xs := by
  induction xs generalizing ys with
  | nil =>
      cases ys with
      | nil => exact absurd rfl hne
      | cons y ys =>
          have hy : y ≠ s := by
            rintro rfl
            rw [takeWhile_separator] at hne
            exact hne rfl
          rw [ComparesCut, takeWhile_letter hy]
          refine iff_of_true
            (iff_of_true (List.nil_lt_cons _ _) (List.nil_lt_cons _ _))
            ⟨fun h => absurd h.1 List.not_mem_nil, ?_⟩
          exact not_overrun_of_takeWhile_nil rfl
  | cons x xs ih =>
      cases ys with
      | nil =>
          refine iff_of_true
            (iff_of_false (List.not_lt_nil _) (List.not_lt_nil _))
            ⟨not_overrun_of_takeWhile_nil rfl, ?_⟩
          exact fun h => absurd h.1 List.not_mem_nil
      | cons y ys =>
          by_cases hx : x = s
          · -- the first part is empty, so the second is not
            subst hx
            have hy : y ≠ x := by
              rintro rfl
              rw [takeWhile_separator, takeWhile_separator] at hne
              exact hne rfl
            rw [(comparesCut_separator hy xs ys).1, overrun_separator hy,
              and_iff_left]
            exact not_overrun_of_takeWhile_nil (takeWhile_separator x xs)
          · by_cases hy : y = s
            · subst hy
              rw [(comparesCut_separator hx ys xs).2, overrun_separator hx,
                and_iff_right]
              exact not_overrun_of_takeWhile_nil (takeWhile_separator y ys)
            · -- both parts go on, and the first unequal letters decide
              rw [comparesCut_letter hx hy]
              by_cases hxy : x = y
              · subst hxy
                rw [overrun_cons hx, overrun_cons hx, ← ih]
                · exact or_iff_right fun h => h rfl
                · intro h
                  rw [takeWhile_letter hx, takeWhile_letter hx, h] at hne
                  exact hne rfl
              · exact iff_of_true (Or.inl hxy) ⟨not_overrun_of_head_ne hx hxy,
                  not_overrun_of_head_ne hy (Ne.symm hxy)⟩

end Letters

end SortKeys
