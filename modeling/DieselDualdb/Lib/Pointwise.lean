import Mathlib.Data.List.Forall2
import Mathlib.Tactic.Common

/-!
# Lists related element by element

`List.Forall₂ R` relates two lists of one length.  Its rules for a list cut in
two, a list with one more element at the end, one place of a list, and lists
filtered or mapped side by side.
-/

namespace Pointwise

variable {α β : Type} {R : α → β → Prop}

/-- A list related to two lists in a row is cut where they meet. -/
theorem forall₂_append_iff {as bs : List α} {cs : List β} :
    List.Forall₂ R (as ++ bs) cs ↔
      ∃ l r, List.Forall₂ R as l ∧ List.Forall₂ R bs r ∧ cs = l ++ r := by
  constructor
  · intro h
    refine ⟨cs.take as.length, cs.drop as.length, ?_, ?_,
      (List.take_append_drop _ _).symm⟩
    · have htake := List.forall₂_take as.length h
      rwa [List.take_left] at htake
    · have hdrop := List.forall₂_drop as.length h
      rwa [List.drop_left] at hdrop
  · rintro ⟨l, r, hl, hr, rfl⟩
    exact List.rel_append hl hr

theorem forall₂_snoc {as : List α} {bs : List β} {a : α} {b : β}
    (h : List.Forall₂ R as bs) (hab : R a b) :
    List.Forall₂ R (as ++ [a]) (bs ++ [b]) :=
  forall₂_append_iff.mpr ⟨bs, [b], h, .cons hab .nil, rfl⟩

theorem forall₂_snoc_iff {as : List α} {a : α} {cs : List β} :
    List.Forall₂ R (as ++ [a]) cs ↔
      ∃ bs b, List.Forall₂ R as bs ∧ R a b ∧ cs = bs ++ [b] := by
  rw [forall₂_append_iff]
  constructor
  · rintro ⟨bs, last, hbs, hlast, rfl⟩
    cases hlast with
    | cons hab hnil =>
        cases hnil
        exact ⟨bs, _, hbs, hab, rfl⟩
  · rintro ⟨bs, b, hbs, hab, rfl⟩
    exact ⟨bs, [b], hbs, .cons hab .nil, rfl⟩

theorem eq_map_of_forall₂ {f : α → β} {as : List α} {bs : List β}
    (h : List.Forall₂ (fun a b => b = f a) as bs) : bs = as.map f := by
  induction h with
  | nil => rfl
  | cons hb _ ih => rw [hb, ih, List.map_cons]

/-- The element at the place where the second part starts. -/
theorem forall₂_at {l : List α} {a : α} {r : List α} {bs : List β}
    (h : List.Forall₂ R (l ++ a :: r) bs) :
    ∃ b, bs[l.length]? = some b ∧ R a b := by
  obtain ⟨bs₁, bs₂, h₁, h₂, rfl⟩ := forall₂_append_iff.mp h
  cases h₂ with
  | cons hab _ =>
      refine ⟨_, ?_, hab⟩
      rw [h₁.length_eq, List.getElem?_append_right (Nat.le_refl _),
        Nat.sub_self, List.getElem?_cons_zero]

/-- Two related lists have related elements at every place both have. -/
theorem forall₂_place {as : List α} {bs : List β}
    (h : List.Forall₂ R as bs) (i : Nat) :
    (as[i]? = none ∧ bs[i]? = none) ∨
      ∃ a b, as[i]? = some a ∧ bs[i]? = some b ∧ R a b := by
  induction h generalizing i with
  | nil => exact Or.inl ⟨rfl, rfl⟩
  | cons hab _ ih =>
      cases i with
      | zero => exact Or.inr ⟨_, _, rfl, rfl, hab⟩
      | succ i => exact ih i

theorem forall₂_getElem? {as : List α} {bs : List β}
    (h : List.Forall₂ R as bs) {i : Nat} {b : β} (hb : bs[i]? = some b) :
    ∃ a, as[i]? = some a ∧ R a b := by
  rcases forall₂_place h i with ⟨-, hnone⟩ | ⟨a, b', ha, hb', hab⟩
  · rw [hnone] at hb
    cases hb
  · rw [hb] at hb'
    rw [Option.some.inj hb']
    exact ⟨a, ha, hab⟩

theorem forall₂_set {as : List α} {bs : List β}
    (h : List.Forall₂ R as bs) (i : Nat) {a : α} {b : β} (hab : R a b) :
    List.Forall₂ R (as.set i a) (bs.set i b) := by
  induction h generalizing i with
  | nil => exact .nil
  | cons hr hrs ih =>
      cases i with
      | zero => exact .cons hab hrs
      | succ i => exact .cons hr (ih i)

/-- Elements that are kept or dropped together stay matched. -/
theorem forall₂_filter {p : α → Bool} {q : β → Bool}
    {as : List α} {bs : List β} (h : List.Forall₂ R as bs)
    (hpq : ∀ a b, R a b → a ∈ as → b ∈ bs → p a = q b) :
    List.Forall₂ R (as.filter p) (bs.filter q) := by
  induction h with
  | nil => exact .nil
  | @cons a b as bs hab _ ih =>
      have hrest := ih fun a b hr ha hb =>
        hpq a b hr (List.mem_cons_of_mem _ ha) (List.mem_cons_of_mem _ hb)
      have hhead := hpq a b hab List.mem_cons_self List.mem_cons_self
      cases hq : q b with
      | true =>
          rw [List.filter_cons_of_pos (hhead.trans hq),
            List.filter_cons_of_pos hq]
          exact .cons hab hrest
      | false =>
          rw [List.filter_cons_of_neg (by rw [hhead, hq]; exact
            Bool.false_ne_true), List.filter_cons_of_neg (by rw [hq]; exact
            Bool.false_ne_true)]
          exact hrest

/-- What is picked from related elements together stays matched. -/
theorem forall₂_filterMap {γ δ : Type} {S : γ → δ → Prop} {f : α → Option γ}
    {g : β → Option δ} {as : List α} {bs : List β}
    (h : List.Forall₂ R as bs) (hfg : ∀ a b, R a b → Option.Rel S (f a) (g b)) :
    List.Forall₂ S (as.filterMap f) (bs.filterMap g) := by
  induction h with
  | nil => exact .nil
  | @cons a b as bs hab _ ih =>
      have hhead := hfg a b hab
      rw [List.filterMap_cons, List.filterMap_cons]
      cases hf : f a with
      | none =>
          rw [hf] at hhead
          cases hg : g b with
          | none => exact ih
          | some d => rw [hg] at hhead; cases hhead
      | some c =>
          rw [hf] at hhead
          cases hg : g b with
          | none => rw [hg] at hhead; cases hhead
          | some d =>
              rw [hg] at hhead
              cases hhead with
              | some hcd => exact .cons hcd ih

/-- Two partial views defined at the same elements, compared element-wise. -/
theorem forall₂_filterMap_iff {γ : Type} {S : γ → γ → Prop} {f g : α → Option γ}
    {l : List α} (hfg : ∀ a, (f a).isSome = (g a).isSome) :
    List.Forall₂ S (l.filterMap f) (l.filterMap g) ↔
      ∀ a ∈ l, ∀ x y, f a = some x → g a = some y → S x y := by
  induction l with
  | nil => exact ⟨fun _ _ ha => absurd ha List.not_mem_nil, fun _ => .nil⟩
  | cons a l ih =>
      rw [List.forall_mem_cons, ← ih]
      cases hf : f a with
      | none =>
          -- both sides skip the same elements
          have hg : g a = none := by
            rw [← Option.not_isSome_iff_eq_none, ← hfg, hf]; exact Bool.false_ne_true
          rw [List.filterMap_cons_none hf, List.filterMap_cons_none hg]
          constructor
          · intro h
            refine ⟨?_, h⟩
            intro x y hx
            cases hx
          · exact And.right
      | some x =>
          obtain ⟨y, hg⟩ : ∃ y, g a = some y := by
            rw [← Option.isSome_iff_exists, ← hfg, hf]; rfl
          rw [List.filterMap_cons_some hf, List.filterMap_cons_some hg,
            List.forall₂_cons]
          constructor
          · rintro ⟨hR, h⟩
            refine ⟨fun x' y' hx' hy' => ?_, h⟩
            rw [hg] at hy'
            cases hx'; cases hy'; exact hR
          · rintro ⟨hR, h⟩
            exact ⟨hR x y rfl hg, h⟩

/-- The second list mapped, knowing where the elements come from. -/
theorem forall₂_map_right_mem {S : α → β → Prop} {f : β → β}
    {as : List α} {bs : List β} (h : List.Forall₂ R as bs)
    (hf : ∀ a b, R a b → a ∈ as → b ∈ bs → S a (f b)) :
    List.Forall₂ S as (bs.map f) := by
  induction h with
  | nil => exact .nil
  | cons hab _ ih =>
      exact .cons (hf _ _ hab List.mem_cons_self List.mem_cons_self)
        (ih fun a b hr ha hb =>
          hf a b hr (List.mem_cons_of_mem _ ha) (List.mem_cons_of_mem _ hb))

/-- Related elements meet conditions that are the same for both. -/
theorem forall_iff_of_forall₂ {P : α → Prop} {Q : β → Prop} {as : List α}
    {bs : List β} (h : List.Forall₂ R as bs)
    (hPQ : ∀ a b, R a b → (P a ↔ Q b)) :
    (∀ a ∈ as, P a) ↔ ∀ b ∈ bs, Q b := by
  induction h with
  | nil => simp
  | cons hab _ ih =>
      rw [List.forall_mem_cons, List.forall_mem_cons, hPQ _ _ hab, ih]

/-- The partner of an element of the first list. -/
theorem forall₂_of_mem_left {as : List α} {bs : List β}
    (h : List.Forall₂ R as bs) {a : α} (ha : a ∈ as) :
    ∃ b, b ∈ bs ∧ R a b := by
  induction h with
  | nil => cases ha
  | cons hab _ ih =>
      rcases List.mem_cons.mp ha with rfl | ha
      · exact ⟨_, List.mem_cons_self, hab⟩
      · obtain ⟨b, hb, hab⟩ := ih ha
        exact ⟨b, List.mem_cons_of_mem _ hb, hab⟩

/-- A list whose every element has a partner has a list of partners. -/
theorem exists_forall₂ {bs : List β} (h : ∀ b ∈ bs, ∃ a, R a b) :
    ∃ as, List.Forall₂ R as bs := by
  induction bs with
  | nil => exact ⟨[], .nil⟩
  | cons b bs ih =>
      obtain ⟨a, hab⟩ := h b List.mem_cons_self
      obtain ⟨as, has⟩ := ih fun c hc => h c (List.mem_cons_of_mem b hc)
      exact ⟨a :: as, .cons hab has⟩

/-- What is printed of each element, read back as one list of prints. -/
theorem exists_printed {γ : Type} {S : γ → α → Prop} {print : γ → β}
    {as : List α} {bs : List β} (h : List.Forall₂ R as bs)
    (hex : ∀ a ∈ as, ∀ b, R a b → ∃ c, S c a ∧ print c = b) :
    ∃ cs, List.Forall₂ S cs as ∧ cs.map print = bs := by
  induction h with
  | nil => exact ⟨[], .nil, rfl⟩
  | @cons a b as bs hab _ ih =>
      obtain ⟨c, hc, hprint⟩ := hex a List.mem_cons_self b hab
      obtain ⟨cs, hcs, hprints⟩ := ih fun x hx => hex x (List.mem_cons_of_mem a hx)
      exact ⟨c :: cs, .cons hc hcs, by rw [List.map_cons, hprint, hprints]⟩

theorem map_eq_of_forall₂ {γ : Type} {f : α → γ} {g : β → γ} {as : List α}
    {bs : List β} (h : List.Forall₂ R as bs) (hfg : ∀ a b, R a b → f a = g b) :
    as.map f = bs.map g := by
  induction h with
  | nil => rfl
  | cons hab _ ih => rw [List.map_cons, List.map_cons, hfg _ _ hab, ih]

theorem zipWith_eq_of_forall₂ {γ δ : Type} {f : α → γ → δ} {g : β → γ → δ}
    {as : List α} {bs : List β} (h : List.Forall₂ R as bs)
    (hfg : ∀ a b c, R a b → f a c = g b c) (cs : List γ) :
    List.zipWith f as cs = List.zipWith g bs cs := by
  induction h generalizing cs with
  | nil => rfl
  | cons hab _ ih =>
      cases cs with
      | nil => rfl
      | cons c cs =>
          rw [List.zipWith_cons_cons, List.zipWith_cons_cons, hfg _ _ c hab, ih]

/-- Two lists related to one are related to each other. -/
theorem forall₂_of_common {γ : Type} {S : α → γ → Prop} {T : β → γ → Prop}
    {as : List α} {bs : List β} {cs : List γ} (h : List.Forall₂ R as bs)
    (h' : List.Forall₂ S as cs) (hrs : ∀ a b c, R a b → S a c → T b c) :
    List.Forall₂ T bs cs := by
  induction h generalizing cs with
  | nil =>
      cases h' with
      | nil => exact .nil
  | cons hab _ ih =>
      cases h' with
      | cons hac hcs => exact .cons (hrs _ _ _ hab hac) (ih hcs)

end Pointwise
