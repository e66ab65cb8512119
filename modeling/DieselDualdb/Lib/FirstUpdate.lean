import Mathlib.Data.List.Forall2
import Mathlib.Tactic.Common

/-!
# Updating the first element that matches

`iter_mut().find(p)` hands out the first matching element for update, or
nothing.  `updateFirst p f` is that update as a function on lists.  Its lemmas
say where the update lands, and that everything else is unchanged.
-/

namespace FirstUpdate

variable {α β : Type}

/-- Apply `f` to the first element satisfying `p`; `none` if there is none. -/
def updateFirst (p : α → Bool) (f : α → α) : List α → Option (List α)
  | [] => none
  | a :: as =>
      if p a then some (f a :: as)
      else (updateFirst p f as).map (a :: ·)

theorem updateFirst_cons_pos {p : α → Bool} {f : α → α} {a : α} {as : List α}
    (h : p a = true) : updateFirst p f (a :: as) = some (f a :: as) := by
  simp only [updateFirst, if_pos h]

theorem updateFirst_cons_neg {p : α → Bool} {f : α → α} {a : α} {as : List α}
    (h : p a = false) :
    updateFirst p f (a :: as) = (updateFirst p f as).map (a :: ·) := by
  simp only [updateFirst, h, Bool.false_eq_true, if_false]

/-- **THE UPDATE LANDS ON THE FIRST MATCH** and changes nothing else. -/
theorem updateFirst_eq_some {p : α → Bool} {f : α → α} {as bs : List α} :
    updateFirst p f as = some bs ↔
      ∃ l a r, as = l ++ a :: r ∧ bs = l ++ f a :: r
        ∧ p a = true ∧ ∀ x ∈ l, p x = false := by
  induction as generalizing bs with
  | nil =>
      constructor
      · intro h; cases h
      · rintro ⟨l, a, r, h, -⟩
        exact absurd h (by simp)
  | cons hd tl ih =>
      -- the head is the first match, or the split is in the tail
      cases hp : p hd with
      | true =>
          rw [updateFirst_cons_pos hp]
          constructor
          · intro h
            exact ⟨[], hd, tl, rfl, (Option.some.inj h).symm, hp, by simp⟩
          · rintro ⟨l, a, r, has, hbs, hpa, hl⟩
            cases l with
            | nil =>
                obtain ⟨rfl, rfl⟩ := List.cons.inj has
                rw [hbs]; rfl
            | cons x l =>
                obtain ⟨rfl, -⟩ := List.cons.inj has
                have := hl hd List.mem_cons_self
                rw [hp] at this
                cases this
      | false =>
          rw [updateFirst_cons_neg hp, Option.map_eq_some_iff]
          constructor
          · rintro ⟨bs', h, rfl⟩
            obtain ⟨l, a, r, rfl, rfl, hpa, hl⟩ := ih.mp h
            refine ⟨hd :: l, a, r, rfl, rfl, hpa, ?_⟩
            intro x hx
            rcases List.mem_cons.mp hx with rfl | hx
            · exact hp
            · exact hl x hx
          · rintro ⟨l, a, r, has, hbs, hpa, hl⟩
            cases l with
            | nil =>
                obtain ⟨rfl, rfl⟩ := List.cons.inj has
                rw [hp] at hpa
                cases hpa
            | cons x l =>
                obtain ⟨rfl, rfl⟩ := List.cons.inj has
                exact ⟨l ++ f a :: r, ih.mpr ⟨l, a, r, rfl, rfl, hpa,
                  fun y hy => hl y (List.mem_cons_of_mem _ hy)⟩, hbs.symm⟩

/-- There is nothing to update exactly when nothing matches. -/
theorem updateFirst_eq_none {p : α → Bool} {f : α → α} {as : List α} :
    updateFirst p f as = none ↔ ∀ a ∈ as, p a = false := by
  induction as with
  | nil => simp [updateFirst]
  | cons hd tl ih =>
      cases hp : p hd with
      | true => simp [updateFirst_cons_pos hp, hp]
      | false => simp [updateFirst_cons_neg hp, hp, ih]

/-- Every element of the result is an old one or the update of an old one. -/
theorem mem_updateFirst {p : α → Bool} {f : α → α} {as bs : List α}
    (h : updateFirst p f as = some bs) {b : α} (hb : b ∈ bs) :
    b ∈ as ∨ ∃ a ∈ as, p a = true ∧ b = f a := by
  obtain ⟨l, a, r, rfl, rfl, hpa, -⟩ := updateFirst_eq_some.mp h
  rcases List.mem_append.mp hb with hl | hr
  · exact Or.inl (List.mem_append_left _ hl)
  · rcases List.mem_cons.mp hr with rfl | hr
    · exact Or.inr ⟨a, by simp, hpa, rfl⟩
    · exact Or.inl (by simp [hr])

/-- The update, by the position it lands on. -/
theorem updateFirst_eq_modify {p : α → Bool} {f : α → α} {as : List α}
    {i : Nat} (h : as.findIdx? p = some i) :
    updateFirst p f as = some (as.modify i f) := by
  induction as generalizing i with
  | nil => cases h
  | cons hd tl ih =>
      rw [List.findIdx?_cons] at h
      cases hp : p hd with
      | true =>
          rw [hp, if_pos rfl] at h
          rw [updateFirst_cons_pos hp, ← Option.some.inj h]
          rfl
      | false =>
          rw [hp, if_neg Bool.false_ne_true, Option.map_eq_some_iff] at h
          obtain ⟨j, hj, rfl⟩ := h
          rw [updateFirst_cons_neg hp, ih hj]
          rfl

/-- What the update was looking for is found updated. -/
theorem find?_updateFirst_self {p : α → Bool} {f : α → α} {as bs : List α}
    (hf : ∀ a, p a = true → p (f a) = true)
    (h : updateFirst p f as = some bs) :
    bs.find? p = (as.find? p).map f := by
  induction as generalizing bs with
  | nil => cases h
  | cons hd tl ih =>
      cases hp : p hd with
      | true =>
          rw [updateFirst_cons_pos hp] at h
          rw [← Option.some.inj h, List.find?_cons_of_pos (hf hd hp),
            List.find?_cons_of_pos hp]
          rfl
      | false =>
          rw [updateFirst_cons_neg hp, Option.map_eq_some_iff] at h
          obtain ⟨tl', htl, rfl⟩ := h
          have hneg : ¬ p hd = true := by rw [hp]; exact Bool.false_ne_true
          rw [List.find?_cons_of_neg hneg, List.find?_cons_of_neg hneg]
          exact ih htl

/-- What the update does not concern is found as before. -/
theorem find?_updateFirst_of_disjoint {p q : α → Bool} {f : α → α}
    {as bs : List α}
    (hq : ∀ a, p a = true → ¬ q a = true ∧ ¬ q (f a) = true)
    (h : updateFirst p f as = some bs) : bs.find? q = as.find? q := by
  induction as generalizing bs with
  | nil => cases h
  | cons hd tl ih =>
      cases hp : p hd with
      | true =>
          rw [updateFirst_cons_pos hp] at h
          rw [← Option.some.inj h, List.find?_cons_of_neg (hq hd hp).2,
            List.find?_cons_of_neg (hq hd hp).1]
      | false =>
          rw [updateFirst_cons_neg hp, Option.map_eq_some_iff] at h
          obtain ⟨tl', htl, rfl⟩ := h
          rw [List.find?_cons, List.find?_cons, ih htl]

/-- The update commutes with keeping what it is looking for. -/
theorem filter_updateFirst_self {p : α → Bool} {f : α → α}
    (hf : ∀ a, p a = true → p (f a) = true) (as : List α) :
    (updateFirst p f as).map (List.filter p)
      = updateFirst p f (as.filter p) := by
  induction as with
  | nil => rfl
  | cons hd tl ih =>
      cases hp : p hd with
      | true =>
          rw [updateFirst_cons_pos hp, List.filter_cons_of_pos hp,
            updateFirst_cons_pos hp, Option.map_some,
            List.filter_cons_of_pos (hf hd hp)]
      | false =>
          have hneg : ¬ p hd = true := by rw [hp]; exact Bool.false_ne_true
          have hdrop : List.filter p ∘ (hd :: ·) = List.filter p :=
            funext fun bs => List.filter_cons_of_neg hneg
          rw [updateFirst_cons_neg hp, List.filter_cons_of_neg hneg, ← ih,
            Option.map_map, hdrop]

/-- What the update does not concern is kept as it was. -/
theorem filter_updateFirst_of_disjoint {p q : α → Bool} {f : α → α}
    {as bs : List α}
    (hq : ∀ a, p a = true → q a = false ∧ q (f a) = false)
    (h : updateFirst p f as = some bs) : bs.filter q = as.filter q := by
  obtain ⟨l, a, r, rfl, rfl, hpa, -⟩ := updateFirst_eq_some.mp h
  obtain ⟨hqa, hqf⟩ := hq a hpa
  simp only [List.filter_append, List.filter_cons, hqa, hqf,
    Bool.false_eq_true, if_false]

/-! ## Related lists -/

/-- An update that keeps the relation wherever it lands. -/
theorem forall₂_updateFirst {R : α → β → Prop} {p : α → Bool} {f : α → α}
    (hf : ∀ a b, R a b → R (f a) b) {as as' : List α} {bs : List β}
    (h : List.Forall₂ R as bs) (hupd : updateFirst p f as = some as') :
    List.Forall₂ R as' bs := by
  induction h generalizing as' with
  | nil => cases hupd
  | @cons a b as bs hab hrs ih =>
      cases hp : p a with
      | true =>
          rw [updateFirst_cons_pos hp] at hupd
          rw [← Option.some.inj hupd]
          exact .cons (hf a b hab) hrs
      | false =>
          rw [updateFirst_cons_neg hp, Option.map_eq_some_iff] at hupd
          obtain ⟨as₁, has₁, rfl⟩ := hupd
          exact .cons hab (ih has₁)

/-- Two updates that look for related elements and keep them related. -/
theorem forall₂_updateFirst_both {R : α → β → Prop} {p : α → Bool}
    {f : α → α} {q : β → Bool} {g : β → β} {as : List α} {bs : List β}
    (h : List.Forall₂ R as bs) (hpq : ∀ a b, R a b → p a = q b)
    (hfg : ∀ a b, R a b → q b = true → R (f a) (g b)) :
    List.Forall₂ R ((updateFirst p f as).getD as)
      ((updateFirst q g bs).getD bs) := by
  induction h with
  | nil => exact .nil
  | @cons a b as bs hab hrs ih =>
      have hpa := hpq a b hab
      cases hq : q b with
      | true =>
          rw [updateFirst_cons_pos (hpa.trans hq), updateFirst_cons_pos hq]
          exact .cons (hfg a b hab hq) hrs
      | false =>
          rw [updateFirst_cons_neg (hpa.trans hq), updateFirst_cons_neg hq]
          cases hu : updateFirst p f as with
          | none =>
              cases hv : updateFirst q g bs with
              | none => exact .cons hab hrs
              | some bs' => rw [hu, hv] at ih; exact .cons hab ih
          | some as' =>
              cases hv : updateFirst q g bs with
              | none => rw [hu, hv] at ih; exact .cons hab ih
              | some bs' => rw [hu, hv] at ih; exact .cons hab ih

/-- Two searches that see the same answers update related elements. -/
theorem rel_updateFirst {R : α → β → Prop} {p : α → Bool} {f : α → α}
    {q : β → Bool} {g : β → β} {as : List α} {bs : List β}
    (h : List.Forall₂ R as bs) (hpq : as.map p = bs.map q)
    (hfg : ∀ a b, R a b → as.find? p = some a → bs.find? q = some b →
      R (f a) (g b)) :
    Option.Rel (List.Forall₂ R) (updateFirst p f as) (updateFirst q g bs) := by
  induction h with
  | nil => exact .none
  | @cons a b as bs hab hrs ih =>
      rw [List.map_cons, List.map_cons, List.cons.injEq] at hpq
      cases hp : p a with
      | true =>
          have hq : q b = true := hpq.1 ▸ hp
          rw [updateFirst_cons_pos hp, updateFirst_cons_pos hq]
          refine .some (.cons (hfg a b hab ?_ ?_) hrs)
          · exact List.find?_cons_of_pos hp
          · exact List.find?_cons_of_pos hq
      | false =>
          have hq : q b = false := hpq.1 ▸ hp
          -- the tails are searched, and find the same elements
          have htail := ih hpq.2 fun a' b' hab' ha' hb' => by
            refine hfg a' b' hab' ?_ ?_
            · rw [List.find?_cons_of_neg (by rw [hp]; decide), ha']
            · rw [List.find?_cons_of_neg (by rw [hq]; decide), hb']
          rw [updateFirst_cons_neg hp, updateFirst_cons_neg hq]
          cases hu : updateFirst p f as with
          | none =>
              rw [hu] at htail
              cases hv : updateFirst q g bs with
              | none => exact .none
              | some bs' => rw [hv] at htail; cases htail
          | some as' =>
              rw [hu] at htail
              cases hv : updateFirst q g bs with
              | none => rw [hv] at htail; cases htail
              | some bs' =>
                  rw [hv] at htail
                  cases htail with
                  | some hrel => exact .some (.cons hab hrel)

theorem modify_eq_set {f : α → α} {as : List α} {i : Nat} {a : α}
    (h : as[i]? = some a) : as.modify i f = as.set i (f a) := by
  rw [List.modify_eq_set_getElem?, h]
  rfl

theorem set_self {as : List α} {i : Nat} {a : α} (h : as[i]? = some a) :
    as.set i a = as := by
  obtain ⟨hi, rfl⟩ := List.getElem?_eq_some_iff.mp h
  exact List.set_getElem_self hi

end FirstUpdate
