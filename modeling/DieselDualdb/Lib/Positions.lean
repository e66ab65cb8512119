import Mathlib.Data.List.Basic

/-!
# Positions in a filtered list

An element that a filter keeps has a position in the filtered list, which is the
number of kept elements before it.  Changing, removing or looking for a kept
element in the filtered list is the same as doing so in the list and filtering
afterwards.
-/

namespace Positions

variable {α β : Type} {p : α → Bool}

/-- Where the element at `i` stands among those that `p` keeps. -/
def position (p : α → Bool) (xs : List α) (i : Nat) : Nat :=
  ((xs.take i).filter p).length

theorem position_succ (x : α) (xs : List α) (i : Nat) :
    position p (x :: xs) (i + 1)
      = (if p x then 1 else 0) + position p xs i := by
  rw [position, position, List.take_succ_cons, List.filter_cons]
  split
  · rw [List.length_cons, Nat.add_comm]
  · rw [Nat.zero_add]

/-- What comes before decides. -/
theorem position_set (xs : List α) (i : Nat) (y : α) :
    position p (xs.set i y) i = position p xs i := by
  rw [position, List.take_set_of_le (Nat.le_refl i)]
  rfl

theorem position_map {f : α → α} (hf : ∀ x, p (f x) = p x) (xs : List α)
    (i : Nat) : position p (xs.map f) i = position p xs i := by
  have hcomp : p ∘ f = p := funext hf
  rw [position, position, ← List.map_take, List.filter_map, List.length_map,
    hcomp]

theorem getElem?_filter {xs : List α} {i : Nat} {x : α} (h : xs[i]? = some x)
    (hx : p x = true) : (xs.filter p)[position p xs i]? = some x := by
  induction xs generalizing i with
  | nil => cases h
  | cons y ys ih =>
      cases i with
      | zero =>
          cases h
          rw [List.filter_cons_of_pos hx]
          rfl
      | succ i =>
          have hrest := ih h
          rw [position_succ]
          by_cases hy : p y = true
          · rw [List.filter_cons_of_pos hy, if_pos hy, Nat.add_comm]
            exact hrest
          · rw [List.filter_cons_of_neg hy, if_neg hy, Nat.zero_add]
            exact hrest

theorem filter_set {xs : List α} {i : Nat} {x y : α} (h : xs[i]? = some x)
    (hx : p x = true) (hy : p y = true) :
    (xs.set i y).filter p = (xs.filter p).set (position p xs i) y := by
  induction xs generalizing i with
  | nil => cases h
  | cons z zs ih =>
      cases i with
      | zero =>
          cases h
          rw [List.set_cons_zero, List.filter_cons_of_pos hy,
            List.filter_cons_of_pos hx]
          rfl
      | succ i =>
          have hrest := ih h
          rw [position_succ, List.set_cons_succ]
          by_cases hz : p z = true
          · rw [List.filter_cons_of_pos hz, List.filter_cons_of_pos hz,
              if_pos hz, Nat.add_comm, List.set_cons_succ, hrest]
          · rw [List.filter_cons_of_neg hz, List.filter_cons_of_neg hz,
              if_neg hz, Nat.zero_add, hrest]

/-- Elements that are not kept may be changed at will. -/
theorem filter_set_of_not {xs : List α} {i : Nat} {x y : α}
    (h : xs[i]? = some x) (hx : p x = false) (hy : p y = false) :
    (xs.set i y).filter p = xs.filter p := by
  induction xs generalizing i with
  | nil => cases h
  | cons z zs ih =>
      cases i with
      | zero =>
          cases h
          rw [List.set_cons_zero, List.filter_cons, List.filter_cons, hx, hy]
          rfl
      | succ i => rw [List.set_cons_succ, List.filter_cons, List.filter_cons, ih h]

theorem filter_eraseIdx {xs : List α} {i : Nat} {x : α} (h : xs[i]? = some x)
    (hx : p x = true) :
    (xs.eraseIdx i).filter p = (xs.filter p).eraseIdx (position p xs i) := by
  induction xs generalizing i with
  | nil => cases h
  | cons z zs ih =>
      cases i with
      | zero =>
          cases h
          rw [List.filter_cons_of_pos hx]
          rfl
      | succ i =>
          have hrest := ih h
          rw [position_succ, List.eraseIdx_cons_succ]
          by_cases hz : p z = true
          · rw [List.filter_cons_of_pos hz, List.filter_cons_of_pos hz,
              if_pos hz, Nat.add_comm, List.eraseIdx_cons_succ, hrest]
          · rw [List.filter_cons_of_neg hz, List.filter_cons_of_neg hz,
              if_neg hz, Nat.zero_add, hrest]

/-- Looking for something that is kept. -/
theorem findIdx?_filter {q : α → Bool} (hq : ∀ x, q x = true → p x = true)
    (xs : List α) :
    (xs.filter p).findIdx? q = (xs.findIdx? q).map (position p xs) := by
  induction xs with
  | nil => rfl
  | cons x xs ih =>
      have hsucc : ∀ i, position p (x :: xs) (i + 1)
          = (if p x then 1 else 0) + position p xs i := position_succ x xs
      by_cases hx : q x = true
      · rw [List.filter_cons_of_pos (hq x hx), List.findIdx?_cons,
          List.findIdx?_cons, if_pos hx, if_pos hx]
        rfl
      · rw [List.findIdx?_cons, if_neg hx, Option.map_map]
        by_cases hp : p x = true
        · rw [List.filter_cons_of_pos hp, List.findIdx?_cons, if_neg hx, ih,
            Option.map_map]
          refine congrArg (fun f => (xs.findIdx? q).map f) (funext fun i => ?_)
          rw [Function.comp_apply, Function.comp_apply, hsucc, if_pos hp,
            Nat.add_comm]
        · rw [List.filter_cons_of_neg hp, ih]
          refine congrArg (fun f => (xs.findIdx? q).map f) (funext fun i => ?_)
          rw [Function.comp_apply, hsucc, if_neg hp, Nat.zero_add]

theorem find?_filter {q : α → Bool} (hq : ∀ x, q x = true → p x = true)
    (xs : List α) : (xs.filter p).find? q = xs.find? q := by
  rw [List.find?_filter]
  refine congrArg (fun r => xs.find? r) (funext fun x => ?_)
  cases hx : q x with
  | true => rw [hq x hx]; rfl
  | false => exact decide_eq_false fun h => Bool.false_ne_true h.2

/-- Looking for something that nothing filtered out is. -/
theorem any_filter {q : α → Bool} {xs : List α}
    (hq : ∀ x ∈ xs, p x = false → q x = false) :
    (xs.filter p).any q = xs.any q := by
  rw [List.any_filter, Bool.eq_iff_iff, List.any_eq_true, List.any_eq_true]
  refine exists_congr fun x => and_congr_right fun hx => ?_
  cases hp : p x with
  | true => rw [Bool.true_and]
  | false => rw [hq x hx hp, Bool.and_false]

/-- Lists are the same, up to order, when two filters that miss nothing between
    them leave the same of both. -/
theorem perm_of_parts {q : α → Bool} {xs ys : List α}
    (hall : ∀ x, p x = false → q x = true)
    (hp : xs.filter p = ys.filter p) (hq : xs.filter q = ys.filter q) :
    xs.Perm ys := by
  have hrest : ∀ zs : List α, zs.filter (fun x => !p x)
      = (zs.filter q).filter fun x => !p x := by
    intro zs
    rw [List.filter_filter]
    refine List.filter_congr fun x _ => ?_
    cases hx : p x with
    | true => rfl
    | false => rw [hall x hx]; rfl
  refine (List.filter_append_perm p xs).symm.trans ?_
  rw [hp, hrest xs, hq, ← hrest ys]
  exact List.filter_append_perm p ys

end Positions
