import Mathlib.Data.List.Forall2
import Mathlib.Tactic.Common

/-!
# Runs of a step function that may refuse

A fallible system is a step function `σ → α → Except ε σ`; a run is
`List.foldlM` of it over the inputs.  This file has the rules such runs are
verified with:

* inversion of an accepted run (`foldlM_cons_ok`, `foldlM_append_ok`);
* the invariant rule, with a side condition checked at every step
  (`Along`, `run_invariant_along`);
* two systems fed the same inputs (`Along₂`, `run_simulation`): a relation kept
  by every pair of accepted steps holds between the final states;
* two computations that refuse together or return related results (`RelOk`).

Nothing here knows what the systems are.
-/

namespace FallibleRun

variable {ε ε' σ τ α β γ : Type}

/-! ## Inversion of accepted computations -/

theorem bind_ok {x : Except ε α} {f : α → Except ε β} {b : β} :
    (x >>= f) = .ok b ↔ ∃ a, x = .ok a ∧ f a = .ok b := by
  cases x with
  | error e =>
      constructor
      · intro h; cases h
      · rintro ⟨a, ha, -⟩; cases ha
  | ok a =>
      constructor
      · intro h; exact ⟨a, rfl, h⟩
      · rintro ⟨a', ha, h⟩
        rw [Except.ok.inj ha]; exact h

theorem pure_ok {a b : α} : (pure a : Except ε α) = .ok b ↔ a = b :=
  ⟨fun h => Except.ok.inj h, fun h => congrArg Except.ok h⟩

theorem map_ok {x : Except ε α} {f : α → β} {b : β} :
    (f <$> x) = .ok b ↔ ∃ a, x = .ok a ∧ f a = b := by
  cases x with
  | error e =>
      constructor
      · intro h; cases h
      · rintro ⟨a, ha, -⟩; cases ha
  | ok a =>
      constructor
      · intro h; exact ⟨a, rfl, Except.ok.inj h⟩
      · rintro ⟨a', ha, h⟩
        rw [Except.ok.inj ha, ← h]; rfl

theorem error_ne_ok {e : ε} {a : α} : (Except.error e : Except ε α) ≠ .ok a := by
  intro h; cases h

theorem exists_ok_of_isOk {x : Except ε α} (h : x.isOk = true) :
    ∃ a, x = .ok a := by
  cases x with
  | error e => cases h
  | ok a => exact ⟨a, rfl⟩

/-- Relabelling errors does not change what is accepted. -/
theorem mapError_ok {x : Except ε α} {f : ε → ε'} {a : α} :
    x.mapError f = .ok a ↔ x = .ok a := by
  cases x with
  | error e =>
      constructor
      · intro h; cases h
      · intro h; cases h
  | ok a' =>
      constructor
      · intro h; exact congrArg Except.ok (Except.ok.inj h)
      · intro h; exact congrArg Except.ok (Except.ok.inj h)

theorem foldlM_nil_ok {step : σ → α → Except ε σ} {s t : σ} :
    ([] : List α).foldlM step s = .ok t ↔ s = t := by
  rw [List.foldlM_nil, pure_ok]

theorem foldlM_cons_ok {step : σ → α → Except ε σ} {a : α} {as : List α}
    {s t : σ} :
    (a :: as).foldlM step s = .ok t ↔
      ∃ s', step s a = .ok s' ∧ as.foldlM step s' = .ok t := by
  rw [List.foldlM_cons, bind_ok]

theorem foldlM_append_ok {step : σ → α → Except ε σ} {as bs : List α}
    {s t : σ} :
    (as ++ bs).foldlM step s = .ok t ↔
      ∃ s', as.foldlM step s = .ok s' ∧ bs.foldlM step s' = .ok t := by
  rw [List.foldlM_append, bind_ok]

theorem bind_error {x : Except ε α} {f : α → Except ε β} {e : ε} :
    x >>= f = .error e ↔ x = .error e ∨ ∃ a, x = .ok a ∧ f a = .error e := by
  cases x with
  | error e' =>
      constructor
      · intro h
        exact Or.inl (congrArg Except.error (Except.error.inj h))
      · rintro (h | ⟨a, h, -⟩)
        · exact congrArg Except.error (Except.error.inj h)
        · cases h
  | ok a =>
      constructor
      · intro h
        exact Or.inr ⟨a, rfl, h⟩
      · rintro (h | ⟨a', h, hf⟩)
        · cases h
        · cases h
          exact hf

theorem mapError_error {x : Except ε α} {f : ε → ε'} {e' : ε'} :
    x.mapError f = .error e' ↔ ∃ e, x = .error e ∧ e' = f e := by
  cases x with
  | error e =>
      constructor
      · intro h
        exact ⟨e, rfl, (Except.error.inj h).symm⟩
      · rintro ⟨_, h, rfl⟩
        cases h
        rfl
  | ok a =>
      constructor
      · intro h
        cases h
      · rintro ⟨_, h, -⟩
        cases h

/-- **A RUN IS REFUSED AT ONE PLACE**: the elements before it are accepted, and
    those after it are not looked at. -/
theorem foldlM_error {step : σ → α → Except ε σ} {as : List α} {s : σ}
    {e : ε} :
    as.foldlM step s = .error e ↔
      ∃ before a after t, as = before ++ a :: after ∧
        before.foldlM step s = .ok t ∧ step t a = .error e := by
  constructor
  · induction as generalizing s with
    | nil =>
        intro h
        cases h
    | cons a as ih =>
        intro h
        rw [List.foldlM_cons] at h
        rcases bind_error.mp h with hstep | ⟨t, hstep, hrest⟩
        · exact ⟨[], a, as, s, rfl, rfl, hstep⟩
        · obtain ⟨before, b, after, u, rfl, hbefore, hb⟩ := ih hrest
          exact ⟨a :: before, b, after, u, rfl,
            foldlM_cons_ok.mpr ⟨t, hstep, hbefore⟩, hb⟩
  · rintro ⟨before, a, after, t, rfl, hbefore, ha⟩
    rw [List.foldlM_append]
    refine bind_error.mpr (Or.inr ⟨t, hbefore, ?_⟩)
    rw [List.foldlM_cons]
    exact bind_error.mpr (Or.inl ha)

/-- An accepted `mapM` is accepted element by element. -/
theorem mapM_ok {f : α → Except ε β} {as : List α} {bs : List β} :
    as.mapM f = .ok bs ↔ List.Forall₂ (fun a b => f a = .ok b) as bs := by
  induction as generalizing bs with
  | nil =>
      rw [List.mapM_nil, pure_ok]
      constructor
      · rintro rfl; exact .nil
      · intro h; cases h; rfl
  | cons a as ih =>
      rw [List.mapM_cons, bind_ok]
      constructor
      · rintro ⟨b, hb, hrest⟩
        rw [bind_ok] at hrest
        obtain ⟨bs', hbs', hp⟩ := hrest
        rw [← pure_ok.mp hp]
        exact .cons hb (ih.mp hbs')
      · intro h
        cases h with
        | cons hb hbs =>
            refine ⟨_, hb, ?_⟩
            rw [bind_ok]
            exact ⟨_, ih.mpr hbs, rfl⟩

/-- Lists that are mapped to the same results element by element. -/
theorem mapM_eq_of_forall₂ {γ : Type} {R : α → β → Prop} {f : α → Except ε γ}
    {g : β → Except ε γ} {as : List α} {bs : List β} (h : List.Forall₂ R as bs)
    (hfg : ∀ a b, R a b → f a = g b) : as.mapM f = bs.mapM g := by
  induction h with
  | nil => rfl
  | cons hab _ ih => rw [List.mapM_cons, List.mapM_cons, hfg _ _ hab, ih]

theorem mapM_append_ok {f : α → Except ε β} {as as' : List α}
    {bs : List β} :
    (as ++ as').mapM f = .ok bs ↔
      ∃ l r, as.mapM f = .ok l ∧ as'.mapM f = .ok r ∧ bs = l ++ r := by
  rw [List.mapM_append, bind_ok]
  constructor
  · rintro ⟨l, hl, h⟩
    obtain ⟨r, hr, h⟩ := bind_ok.mp h
    exact ⟨l, r, hl, hr, (pure_ok.mp h).symm⟩
  · rintro ⟨l, r, hl, hr, rfl⟩
    exact ⟨l, hl, bind_ok.mpr ⟨r, hr, rfl⟩⟩

/-- Lists collected from the elements, the first one apart. -/
theorem flatten_mapM_cons_ok {f : α → Except ε (List β)} {a : α}
    {as : List α} {bs : List β} :
    List.flatten <$> (a :: as).mapM f = .ok bs ↔
      ∃ l r, f a = .ok l ∧ List.flatten <$> as.mapM f = .ok r ∧
        bs = l ++ r := by
  simp only [map_ok, mapM_ok]
  constructor
  · rintro ⟨ls, h, rfl⟩
    cases h with
    | cons hl hls => exact ⟨_, _, hl, ⟨_, hls, rfl⟩, rfl⟩
  · rintro ⟨l, r, hl, ⟨ls, hls, rfl⟩, rfl⟩
    exact ⟨l :: ls, .cons hl hls, rfl⟩

theorem reduceOption_mapM_cons {f : α → Except ε (Option β)} {a : α}
    {b : Option β} (ha : f a = .ok b) (as : List α) :
    List.reduceOption <$> (a :: as).mapM f
      = (b.toList ++ ·) <$> List.reduceOption <$> as.mapM f := by
  rw [List.mapM_cons, ha]
  cases as.mapM f with
  | error e => rfl
  | ok bs => cases b <;> rfl

/-- Elements that give nothing can be left out beforehand. -/
theorem reduceOption_mapM_filter {f : α → Except ε (Option β)}
    (keep : α → Bool) {as : List α}
    (h : ∀ a ∈ as, keep a = false → f a = .ok none) :
    List.reduceOption <$> (as.filter keep).mapM f
      = List.reduceOption <$> as.mapM f := by
  induction as with
  | nil => rfl
  | cons a as ih =>
      obtain ⟨ha, has⟩ := List.forall_mem_cons.mp h
      cases hkeep : keep a with
      | true =>
          rw [List.filter_cons_of_pos hkeep]
          cases hfa : f a with
          | error e =>
              rw [List.mapM_cons, List.mapM_cons, hfa]
              rfl
          | ok b =>
              rw [reduceOption_mapM_cons hfa, reduceOption_mapM_cons hfa,
                ih has]
      | false =>
          have hdrop : ¬ keep a = true := by
            rw [hkeep]
            exact Bool.false_ne_true
          rw [List.filter_cons_of_neg hdrop, ih has,
            reduceOption_mapM_cons (ha hkeep)]
          exact (id_map _).symm

theorem mapM_total {f : α → Except ε β} {as : List α}
    (h : ∀ a ∈ as, ∃ b, f a = .ok b) : ∃ bs, as.mapM f = .ok bs := by
  induction as with
  | nil => exact ⟨[], rfl⟩
  | cons a as ih =>
      obtain ⟨b, hb⟩ := h a List.mem_cons_self
      obtain ⟨bs, hbs⟩ := ih fun x hx => h x (List.mem_cons_of_mem a hx)
      exact ⟨b :: bs, mapM_ok.mpr (.cons hb (mapM_ok.mp hbs))⟩

theorem foldlM_total {step : σ → α → Except ε σ} {as : List α}
    (h : ∀ s, ∀ a ∈ as, ∃ s', step s a = .ok s') (s : σ) :
    ∃ t, as.foldlM step s = .ok t := by
  induction as generalizing s with
  | nil => exact ⟨s, rfl⟩
  | cons a as ih =>
      obtain ⟨s', hs'⟩ := h s a List.mem_cons_self
      obtain ⟨t, ht⟩ := ih (fun s x hx => h s x (List.mem_cons_of_mem a hx)) s'
      exact ⟨t, foldlM_cons_ok.mpr ⟨s', hs', ht⟩⟩

/-- A projection that steps with a system runs with it, refusals included. -/
theorem map_foldlM {step : σ → α → Except ε σ} {step' : τ → α → Except ε τ}
    {f : σ → τ} (h : ∀ s a, (step s a).map f = step' (f s) a) (s : σ)
    (as : List α) : (as.foldlM step s).map f = as.foldlM step' (f s) := by
  induction as generalizing s with
  | nil => rfl
  | cons a as ih =>
      rw [List.foldlM_cons, List.foldlM_cons, ← h s a]
      cases step s a with
      | error e => rfl
      | ok s' => exact ih s'

/-- A view whose steps accept what the system's steps accept runs with it. -/
theorem foldlM_view {step : σ → α → Except ε σ} {step' : τ → α → Except ε' τ}
    (view : σ → τ)
    (h : ∀ s a s', step s a = .ok s' → step' (view s) a = .ok (view s'))
    {as : List α} {s s' : σ} (hrun : as.foldlM step s = .ok s') :
    as.foldlM step' (view s) = .ok (view s') := by
  induction as generalizing s with
  | nil => rw [foldlM_nil_ok.mp hrun]; rfl
  | cons a as ih =>
      obtain ⟨s₁, hs₁, hrest⟩ := foldlM_cons_ok.mp hrun
      exact foldlM_cons_ok.mpr ⟨view s₁, h s a s₁ hs₁, ih hrest⟩

/-! ## The invariant rule -/

/-- `P` holds of the state and the input at every step of the run. -/
def Along (step : σ → α → Except ε σ) (P : σ → α → Prop) :
    σ → List α → Prop
  | _, [] => True
  | s, a :: as => P s a ∧ ∀ s', step s a = .ok s' → Along step P s' as

instance Along.decidable {step : σ → α → Except ε σ} {P : σ → α → Prop}
    [∀ s a, Decidable (P s a)] :
    ∀ (s : σ) (as : List α), Decidable (Along step P s as)
  | _, [] => isTrue trivial
  | s, a :: as =>
      match h : step s a with
      | .error _ =>
          decidable_of_iff (P s a)
            ⟨fun hP => ⟨hP, fun _ h' => absurd (h.symm.trans h') error_ne_ok⟩,
              fun hA => hA.1⟩
      | .ok s₁ =>
          have : Decidable (Along step P s₁ as) := Along.decidable s₁ as
          decidable_of_iff (P s a ∧ Along step P s₁ as)
            ⟨fun hA => ⟨hA.1, fun _ h' =>
                Except.ok.inj (h.symm.trans h') ▸ hA.2⟩,
              fun hA => ⟨hA.1, hA.2 s₁ h⟩⟩

theorem run_invariant_along {step : σ → α → Except ε σ} {P : σ → α → Prop}
    {I : σ → Prop}
    (hstep : ∀ s a s', I s → P s a → step s a = .ok s' → I s') :
    ∀ (as : List α) (s t : σ), I s → Along step P s as →
      as.foldlM step s = .ok t → I t := by
  intro as
  induction as with
  | nil =>
      intro s t hI _ hrun
      rw [← foldlM_nil_ok.mp hrun]; exact hI
  | cons a as ih =>
      intro s t hI hP hrun
      obtain ⟨s', hs', hrest⟩ := foldlM_cons_ok.mp hrun
      exact ih s' t (hstep s a s' hI hP.1 hs') (hP.2 s' hs') hrest

/-- A condition on the inputs alone holds along every run over them. -/
theorem along_of_forall {step : σ → α → Except ε σ} {P : σ → α → Prop} :
    ∀ (as : List α) (s : σ), (∀ s, ∀ a ∈ as, P s a) → Along step P s as := by
  intro as
  induction as with
  | nil => intro s _; exact trivial
  | cons a as ih =>
      intro s h
      exact ⟨h s a List.mem_cons_self,
        fun s' _ => ih s' fun s b hb => h s b (List.mem_cons_of_mem a hb)⟩

/-- Some step of the run gives a fact, and no later one takes it. -/
def GivenLast (step : σ → α → Except ε σ) (gives takes : σ → α → Prop) :
    σ → List α → Prop
  | _, [] => False
  | s, a :: as => ∃ s', step s a = .ok s' ∧
      (gives s a ∧ Along step (fun s a => ¬ takes s a) s' as ∨
        GivenLast step gives takes s' as)

instance GivenLast.decidable {step : σ → α → Except ε σ}
    {gives takes : σ → α → Prop} [∀ s a, Decidable (gives s a)]
    [∀ s a, Decidable (takes s a)] :
    ∀ (s : σ) (as : List α), Decidable (GivenLast step gives takes s as)
  | _, [] => isFalse id
  | s, a :: as =>
      match h : step s a with
      | .error _ => isFalse fun ⟨_, h', _⟩ => error_ne_ok (h.symm.trans h')
      | .ok s₁ =>
          have : Decidable (GivenLast step gives takes s₁ as) :=
            GivenLast.decidable s₁ as
          decidable_of_iff (gives s a ∧
              Along step (fun s a => ¬ takes s a) s₁ as ∨
                GivenLast step gives takes s₁ as)
            ⟨fun hG => ⟨s₁, h, hG⟩,
              fun ⟨_, h', hG⟩ => Except.ok.inj (h.symm.trans h') ▸ hG⟩

/-- **WHAT A RUN LEAVES OF A FACT**: it holds in the end when some step gives it
    and no later one takes it, or it held from the start and no step takes it.
    `I` may hold along the run. -/
theorem holds_after_run_iff {step : σ → α → Except ε σ} {I P : σ → Prop}
    {gives takes : σ → α → Prop}
    (hI : ∀ s a s', I s → step s a = .ok s' → I s')
    (hstep : ∀ s a s', I s → step s a = .ok s' →
      (P s' ↔ gives s a ∨ (P s ∧ ¬ takes s a)))
    {as : List α} {s t : σ} (hs : I s) (hrun : as.foldlM step s = .ok t) :
    P t ↔ GivenLast step gives takes s as ∨
      (P s ∧ Along step (fun s a => ¬ takes s a) s as) := by
  induction as generalizing s with
  | nil =>
      rw [← foldlM_nil_ok.mp hrun]
      exact ⟨fun h => Or.inr ⟨h, trivial⟩, fun h => h.elim False.elim And.left⟩
  | cons a as ih =>
      obtain ⟨s', hs', hrest⟩ := foldlM_cons_ok.mp hrun
      rw [ih (hI s a s' hs hs') hrest, hstep s a s' hs hs']
      have hgiven : GivenLast step gives takes s (a :: as) ↔
          gives s a ∧ Along step (fun s a => ¬ takes s a) s' as ∨
            GivenLast step gives takes s' as :=
        ⟨fun ⟨_, h', hG⟩ => Except.ok.inj (h'.symm.trans hs') ▸ hG,
          fun hG => ⟨s', hs', hG⟩⟩
      have halong : Along step (fun s a => ¬ takes s a) s (a :: as) ↔
          ¬ takes s a ∧ Along step (fun s a => ¬ takes s a) s' as :=
        ⟨fun h => ⟨h.1, h.2 s' hs'⟩, fun h => ⟨h.1, fun _ h' =>
          Except.ok.inj (hs'.symm.trans h') ▸ h.2⟩⟩
      rw [hgiven, halong]
      constructor
      · rintro (h | ⟨h | ⟨hholds, htakes⟩, halong⟩)
        · exact Or.inl (Or.inr h)
        · exact Or.inl (Or.inl ⟨h, halong⟩)
        · exact Or.inr ⟨hholds, htakes, halong⟩
      · rintro ((⟨h, halong⟩ | h) | ⟨hholds, htakes, halong⟩)
        · exact Or.inr ⟨Or.inl h, halong⟩
        · exact Or.inl h
        · exact Or.inr ⟨Or.inr ⟨hholds, htakes⟩, halong⟩

theorem run_invariant {step : σ → α → Except ε σ} {I : σ → Prop}
    (hstep : ∀ s a s', I s → step s a = .ok s' → I s')
    (as : List α) (s t : σ) (hI : I s) (hrun : as.foldlM step s = .ok t) :
    I t :=
  run_invariant_along (P := fun _ _ => True)
    (fun s a s' h _ => hstep s a s' h) as s t hI
    (along_of_forall as s fun _ _ _ => trivial) hrun

/-! ## Two systems, one input -/

/-- `P` holds of both states and the input at every step of the two runs. -/
def Along₂ (step : σ → α → Except ε σ) (step' : τ → α → Except ε' τ)
    (P : σ → τ → α → Prop) : σ → τ → List α → Prop
  | _, _, [] => True
  | s, t, a :: as => P s t a ∧
      ∀ s' t', step s a = .ok s' → step' t a = .ok t' →
        Along₂ step step' P s' t' as

instance Along₂.decidable {step : σ → α → Except ε σ}
    {step' : τ → α → Except ε' τ} {P : σ → τ → α → Prop}
    [∀ s t a, Decidable (P s t a)] :
    ∀ (s : σ) (t : τ) (as : List α), Decidable (Along₂ step step' P s t as)
  | _, _, [] => isTrue trivial
  | s, t, a :: as =>
      match h : step s a, h' : step' t a with
      | .ok s₁, .ok t₁ =>
          have : Decidable (Along₂ step step' P s₁ t₁ as) :=
            Along₂.decidable s₁ t₁ as
          decidable_of_iff (P s t a ∧ Along₂ step step' P s₁ t₁ as)
            ⟨fun hA => ⟨hA.1, fun _ _ hs ht =>
                Except.ok.inj (h.symm.trans hs) ▸
                  Except.ok.inj (h'.symm.trans ht) ▸ hA.2⟩,
              fun hA => ⟨hA.1, hA.2 s₁ t₁ h h'⟩⟩
      | .error _, _ =>
          decidable_of_iff (P s t a)
            ⟨fun hP => ⟨hP, fun _ _ hs _ => absurd (h.symm.trans hs) error_ne_ok⟩,
              fun hA => hA.1⟩
      | _, .error _ =>
          decidable_of_iff (P s t a)
            ⟨fun hP => ⟨hP, fun _ _ _ ht => absurd (h'.symm.trans ht) error_ne_ok⟩,
              fun hA => hA.1⟩

/-- **SIMULATION RULE**: a relation that every pair of accepted steps keeps
    holds between the two final states. -/
theorem run_simulation {step : σ → α → Except ε σ}
    {step' : τ → α → Except ε' τ} {P : σ → τ → α → Prop}
    {R : σ → τ → Prop}
    (hstep : ∀ s t a s' t', R s t → P s t a →
      step s a = .ok s' → step' t a = .ok t' → R s' t') :
    ∀ (as : List α) (s : σ) (t : τ) (s' : σ) (t' : τ), R s t →
      Along₂ step step' P s t as →
      as.foldlM step s = .ok s' → as.foldlM step' t = .ok t' → R s' t' := by
  intro as
  induction as with
  | nil =>
      intro s t s' t' hR _ h h'
      rw [← foldlM_nil_ok.mp h, ← foldlM_nil_ok.mp h']; exact hR
  | cons a as ih =>
      intro s t s' t' hR hP h h'
      obtain ⟨s₁, hs₁, hs⟩ := foldlM_cons_ok.mp h
      obtain ⟨t₁, ht₁, ht⟩ := foldlM_cons_ok.mp h'
      exact ih s₁ t₁ s' t' (hstep s t a s₁ t₁ hR hP.1 hs₁ ht₁)
        (hP.2 s₁ t₁ hs₁ ht₁) hs ht

/-! ## Two computations, related results -/

/-- Both computations are accepted with related results, or neither is. -/
inductive RelOk (R : α → β → Prop) : Except ε α → Except ε' β → Prop where
  | ok {a : α} {b : β} (h : R a b) : RelOk R (.ok a) (.ok b)
  | error {e : ε} {e' : ε'} : RelOk R (.error e) (.error e')

theorem RelOk.accepts_iff {R : α → β → Prop} {x : Except ε α}
    {y : Except ε' β} (h : RelOk R x y) :
    (∃ a, x = .ok a) ↔ ∃ b, y = .ok b := by
  cases h with
  | ok h => exact ⟨fun _ => ⟨_, rfl⟩, fun _ => ⟨_, rfl⟩⟩
  | error =>
      constructor
      · rintro ⟨_, h⟩; cases h
      · rintro ⟨_, h⟩; cases h

theorem RelOk.results {R : α → β → Prop} {x : Except ε α} {y : Except ε' β}
    (h : RelOk R x y) {a : α} {b : β} (hx : x = .ok a) (hy : y = .ok b) :
    R a b := by
  cases h with
  | ok h => rw [← Except.ok.inj hx, ← Except.ok.inj hy]; exact h
  | error => cases hx

theorem RelOk.bind {R : α → β → Prop} {S : γ → σ → Prop} {x : Except ε α}
    {y : Except ε' β} {f : α → Except ε γ} {g : β → Except ε' σ}
    (h : RelOk R x y) (hfg : ∀ a b, R a b → RelOk S (f a) (g b)) :
    RelOk S (x >>= f) (y >>= g) := by
  cases h with
  | ok h => exact hfg _ _ h
  | error => exact .error

/-- **TWO RUNS, INPUTS IN PAIRS**: if at every step the two systems refuse
    together or stay related, so do the runs. -/
theorem run_relOk {step : σ → α → Except ε σ} {step' : τ → β → Except ε' τ}
    {Q : α → β → Prop} {P : σ → τ → α × β → Prop} {R : σ → τ → Prop}
    {as : List α} {bs : List β} (hinputs : List.Forall₂ Q as bs) {s : σ} {t : τ}
    (hR : R s t)
    (hP : Along₂ (fun s q => step s q.1) (fun t q => step' t q.2) P s t
      (as.zip bs))
    (hstep : ∀ s t a b, R s t → Q a b → P s t (a, b) →
      RelOk R (step s a) (step' t b)) :
    RelOk R (as.foldlM step s) (bs.foldlM step' t) := by
  induction hinputs generalizing s t with
  | nil => exact .ok hR
  | @cons a b as bs hab _ ih =>
      obtain ⟨hhead, hrest⟩ := hP
      rw [List.foldlM_cons, List.foldlM_cons]
      cases hs : step s a with
      | error e =>
          have hone := hstep s t a b hR hab hhead
          rw [hs] at hone
          cases ht : step' t b with
          | error e' => exact .error
          | ok t' => rw [ht] at hone; cases hone
      | ok s' =>
          have hone := hstep s t a b hR hab hhead
          rw [hs] at hone
          cases ht : step' t b with
          | error e' => rw [ht] at hone; cases hone
          | ok t' =>
              rw [ht] at hone
              cases hone with
              | ok hR' => exact ih hR' (hrest s' t' hs ht)

theorem along₂_of_forall {step : σ → α → Except ε σ}
    {step' : τ → α → Except ε' τ} {P : σ → τ → α → Prop} (as : List α) (s : σ)
    (t : τ) (h : ∀ s t, ∀ a ∈ as, P s t a) : Along₂ step step' P s t as := by
  induction as generalizing s t with
  | nil => exact trivial
  | cons a as ih =>
      exact ⟨h s t a List.mem_cons_self, fun s' t' _ _ =>
        ih s' t' fun s t b hb => h s t b (List.mem_cons_of_mem a hb)⟩

end FallibleRun
