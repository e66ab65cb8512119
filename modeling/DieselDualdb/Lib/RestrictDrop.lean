import Mathlib.Data.List.Basic
import Mathlib.Data.List.Induction
import Mathlib.Tactic.Common

/-!
# Dropping by key, unless something that stays refers to it

Elements have a key and refer to others by key.  To drop keys is to take the
elements with these keys away; it is refused while an element that stays refers
to one of them (`Blocked`).  A sequence of such drops leaves `survivors`, and is
accepted in full exactly when it is `Ordered`: whoever refers to a dropped key
goes with it or before it.  `survivors_append_iff` says when the drops take back
what was appended.
-/

namespace RestrictDrop

variable {α κ : Type} [DecidableEq κ] {key : α → κ} {refs : α → List κ}

/-- The elements that are left when these keys are dropped. -/
def survivors (key : α → κ) (as : List α) (ks : List κ) : List α :=
  as.filter fun a => decide (key a ∉ ks)

/-- An element that stays refers to a key that goes. -/
def Blocked (key : α → κ) (refs : α → List κ) (as : List α) (ks : List κ) :
    Prop :=
  ∃ a ∈ as, key a ∉ ks ∧ ∃ r ∈ refs a, r ∈ ks

/-- No drop of the sequence is refused. -/
def Accepted (key : α → κ) (refs : α → List κ) :
    List α → List (List κ) → Prop
  | _, [] => True
  | as, ks :: kss =>
      ¬ Blocked key refs as ks ∧ Accepted key refs (survivors key as ks) kss

/-- Whoever refers to a dropped key is dropped with it or before it. -/
def Ordered (key : α → κ) (refs : α → List κ) (as : List α)
    (kss : List (List κ)) : Prop :=
  ∀ pre ks post, kss = pre ++ ks :: post →
    ∀ a ∈ as, ∀ r ∈ refs a, r ∈ ks → key a ∈ pre.flatten ++ ks

/-! ## What is left -/

theorem mem_survivors {as : List α} {ks : List κ} {a : α} :
    a ∈ survivors key as ks ↔ a ∈ as ∧ key a ∉ ks := by
  rw [survivors, List.mem_filter, decide_eq_true_iff]

theorem survivors_nil (as : List α) : survivors key as [] = as :=
  List.filter_eq_self.mpr fun _ _ => decide_eq_true List.not_mem_nil

theorem survivors_survivors (as : List α) (ks ks' : List κ) :
    survivors key (survivors key as ks) ks' = survivors key as (ks ++ ks') := by
  simp only [survivors]
  rw [List.filter_filter]
  refine List.filter_congr fun a _ => ?_
  rw [Bool.eq_iff_iff, Bool.and_eq_true, decide_eq_true_iff,
    decide_eq_true_iff, decide_eq_true_iff, List.mem_append, not_or,
    and_comm]

/-- Nothing with these keys, nothing gone. -/
theorem survivors_eq_self {as : List α} {ks : List κ} :
    survivors key as ks = as ↔ ∀ a ∈ as, key a ∉ ks := by
  rw [survivors, List.filter_eq_self]
  simp only [decide_eq_true_iff]

theorem survivors_eq_nil {as : List α} {ks : List κ} :
    survivors key as ks = [] ↔ ∀ a ∈ as, key a ∈ ks := by
  rw [survivors, List.filter_eq_nil_iff]
  simp only [decide_eq_true_iff, not_not]

theorem survivors_append (as bs : List α) (ks : List κ) :
    survivors key (as ++ bs) ks = survivors key as ks ++ survivors key bs ks :=
  List.filter_append ..

/-- **TAKING BACK WHAT WAS APPENDED**: where the drops spare the old elements,
    they restore the list exactly if they reach all the new ones. -/
theorem survivors_append_iff {as bs : List α} {ks : List κ}
    (has : ∀ a ∈ as, key a ∉ ks) :
    survivors key (as ++ bs) ks = as ↔ ∀ b ∈ bs, key b ∈ ks := by
  rw [survivors_append, survivors_eq_self.mpr has,
    List.append_right_eq_self, survivors_eq_nil]

/-- Drops that restore the list spare the old elements, when the new keys are
    fresh. -/
theorem spared_of_restored {as bs : List α} {ks : List κ}
    (hfresh : ∀ b ∈ bs, ∀ a ∈ as, key b ≠ key a)
    (h : survivors key (as ++ bs) ks = as) : ∀ a ∈ as, key a ∉ ks := by
  have hreached : ∀ b ∈ bs, key b ∈ ks := by
    intro b hb
    by_contra hk
    have hmem : b ∈ as := by
      rw [← h]
      exact mem_survivors.mpr ⟨List.mem_append_right _ hb, hk⟩
    exact hfresh b hb b hmem rfl
  rw [survivors_append, survivors_eq_nil.mpr hreached, List.append_nil] at h
  exact survivors_eq_self.mp h

/-! ## When all drops are accepted -/

theorem ordered_cons {as : List α} {ks : List κ} {kss : List (List κ)} :
    Ordered key refs as (ks :: kss) ↔
      ¬ Blocked key refs as ks ∧
        Ordered key refs (survivors key as ks) kss := by
  constructor
  · intro h
    refine ⟨?_, ?_⟩
    · rintro ⟨a, ha, hkey, r, hr, hrk⟩
      exact hkey (h [] ks kss rfl a ha r hr hrk)
    · rintro pre ks' post rfl a ha r hr hrk
      -- it survived the first drop, so a later one has to take it
      obtain ⟨ha, hkey⟩ := mem_survivors.mp ha
      have hmem := h (ks :: pre) ks' post rfl a ha r hr hrk
      rw [List.flatten_cons, List.append_assoc, List.mem_append] at hmem
      exact hmem.resolve_left hkey
  · rintro ⟨hfree, hrest⟩ pre ks' post hsplit a ha r hr hrk
    -- by whether the first drop takes the element
    by_cases hkey : key a ∈ ks
    · cases pre with
      | nil =>
          rw [(List.cons.inj hsplit).1] at hkey
          exact hkey
      | cons l pre =>
          rw [(List.cons.inj hsplit).1] at hkey
          exact List.mem_append_left _ (List.mem_append_left _ hkey)
    · cases pre with
      | nil =>
          rw [← (List.cons.inj hsplit).1] at hrk
          exact absurd ⟨a, ha, hkey, r, hr, hrk⟩ hfree
      | cons l pre =>
          have hmem := hrest pre ks' post (List.cons.inj hsplit).2 a
            (mem_survivors.mpr ⟨ha, hkey⟩) r hr hrk
          rw [List.flatten_cons, List.append_assoc]
          exact List.mem_append_right _ hmem

/-- **ACCEPTED IN FULL, EXACTLY WHEN ORDERED**. -/
theorem accepted_iff_ordered {as : List α} {kss : List (List κ)} :
    Accepted key refs as kss ↔ Ordered key refs as kss := by
  induction kss generalizing as with
  | nil =>
      refine ⟨fun _ pre ks post hsplit => ?_, fun _ => trivial⟩
      exact absurd hsplit (by simp)
  | cons ks kss ih =>
      rw [ordered_cons, ← ih]
      rfl

omit [DecidableEq κ] in
/-- Drops in the opposite order of `bs` are in order exactly if an element that
    refers to a key of `b` is taken by `b` or by what comes after it. -/
theorem ordered_reverse_map_iff {β : Type} {f : β → List κ} {as : List α}
    {bs : List β} :
    Ordered key refs as (bs.reverse.map f) ↔
      ∀ a ∈ as, ∀ k ∈ refs a, ∀ l b r, bs = l ++ b :: r → k ∈ f b →
        ∃ b' ∈ b :: r, key a ∈ f b' := by
  constructor
  · rintro h a ha k hk l b r rfl hkb
    have hsplit : (l ++ b :: r).reverse.map f
        = r.reverse.map f ++ f b :: l.reverse.map f := by
      rw [List.reverse_append, List.reverse_cons, List.append_assoc,
        List.map_append]
      rfl
    rcases List.mem_append.mp (h _ _ _ hsplit a ha k hk hkb) with hmem | hmem
    · obtain ⟨ks, hks, hmem⟩ := List.mem_flatten.mp hmem
      obtain ⟨b', hb', rfl⟩ := List.mem_map.mp hks
      exact ⟨b', List.mem_cons_of_mem _ (List.mem_reverse.mp hb'), hmem⟩
    · exact ⟨b, List.mem_cons_self, hmem⟩
  · intro h pre ks post hsplit a ha k hk hkks
    obtain ⟨r, rest, hbs, rfl, hrest⟩ := List.map_eq_append_iff.mp hsplit
    obtain ⟨b, l, rfl, rfl, rfl⟩ := List.map_eq_cons_iff.mp hrest
    have hbs : bs = l.reverse ++ b :: r.reverse := by
      rw [← List.reverse_reverse bs, hbs, List.reverse_append,
        List.reverse_cons, List.append_assoc]
      rfl
    obtain ⟨b', hb', hmem⟩ := h a ha k hk _ _ _ hbs hkks
    rcases List.mem_cons.mp hb' with rfl | hb'
    · exact List.mem_append_right _ hmem
    · exact List.mem_append_left _ (List.mem_flatten.mpr
        ⟨f b', List.mem_map_of_mem (List.mem_reverse.mp hb'), hmem⟩)

/-- Dropping elements last one first is in order when they have different keys,
    none refers to a later one, and nobody else refers to them. -/
theorem ordered_reverse {as bs : List α} (hkeys : (bs.map key).Nodup)
    (hothers : ∀ a ∈ as, ∀ b ∈ bs, key b ∉ refs a)
    (hlayers : bs.Pairwise fun b b' => key b' ∉ refs b) :
    Ordered key refs (as ++ bs) (bs.reverse.map fun b => [key b]) := by
  induction bs using List.reverseRecOn generalizing as with
  | nil => exact accepted_iff_ordered.mp trivial
  | append_singleton bs b ih =>
      rw [List.map_append, List.nodup_append] at hkeys
      obtain ⟨hkeys, -, hlast⟩ := hkeys
      have hne : ∀ b' ∈ bs, key b' ≠ key b := fun b' hb' =>
        hlast (key b') (List.mem_map_of_mem hb') (key b)
          (List.mem_map_of_mem List.mem_cons_self)
      rw [List.pairwise_append] at hlayers
      obtain ⟨hlayers, -, hrefs⟩ := hlayers
      rw [List.reverse_append, List.reverse_singleton, List.singleton_append,
        List.map_cons, ordered_cons]
      constructor
      · rintro ⟨a, ha, hkey, r, hr, hrb⟩
        rw [List.mem_singleton.mp hrb] at hr
        rcases List.mem_append.mp ha with ha | ha
        · exact hothers a ha b (List.mem_append_right _ List.mem_cons_self) hr
        · rcases List.mem_append.mp ha with ha | ha
          · exact hrefs a ha b List.mem_cons_self hr
          · rw [List.mem_singleton.mp ha] at hkey
            exact hkey List.mem_cons_self
      · -- the last one is gone; the others are as before
        have hleft : survivors key (as ++ (bs ++ [b])) [key b]
            = survivors key as [key b] ++ bs := by
          have hbs : survivors key bs [key b] = bs :=
            survivors_eq_self.mpr fun b' hb' hmem =>
              hne b' hb' (List.mem_singleton.mp hmem)
          have hb : survivors key [b] [key b] = [] := by
            refine survivors_eq_nil.mpr fun b' hb' => ?_
            rw [List.mem_singleton.mp hb']
            exact List.mem_cons_self
          rw [survivors_append, survivors_append, hbs, hb, List.append_nil]
        rw [hleft]
        refine ih hkeys (fun a ha b' hb' => ?_) hlayers
        exact hothers a (mem_survivors.mp ha).1 b'
          (List.mem_append_left _ hb')

end RestrictDrop
