import Mathlib.Data.List.Infix

/-!
# Formats that are read in one way

A printer is `Readable` if what it prints can be told from what follows it, and
the printed entry from the print.  Readable printers compose: one after another
(`Readable.seq`), behind and before a literal (`Readable.opened`,
`Readable.closed`), and as lists with a separator (`Readable.sepBy`); words and
lines are where a format starts.

What may follow a print is a predicate on the rest of the text.
-/

namespace UniqueReading

variable {α β γ : Type} {D : α → Prop} {E : β → Prop}
  {N M : List γ → Prop}

/-- Printed in front of a text in `N`, an entry in `D` can be read off. -/
def Readable (D : α → Prop) (print : α → List γ) (N : List γ → Prop) :
    Prop :=
  ∀ a b, D a → D b → ∀ r s, N r → N s →
    print a ++ r = print b ++ s → a = b ∧ r = s

/-- Prints in one order, with a separator between them. -/
def sepBy (sep : List γ) (print : α → List γ) : List α → List γ
  | [] => []
  | a :: as => print a ++ as.flatMap fun b => sep ++ print b

/-! ## Composition -/

theorem Readable.mono {print : α → List γ} (h : Readable D print N)
    {D' : α → Prop} (hD : ∀ a, D' a → D a) (hnext : ∀ r, M r → N r) :
    Readable D' print M :=
  fun a b ha hb r s hr hs => h a b (hD a ha) (hD b hb) r s (hnext r hr)
    (hnext s hs)

/-- The entries are read from what they are printed as. -/
theorem Readable.comap {print : α → List γ} (h : Readable D print N)
    (f : β → α) (hD : ∀ b, E b → D (f b))
    (hf : ∀ b c, E b → E c → f b = f c → b = c) :
    Readable E (fun b => print (f b)) N := by
  intro b c hb hc r s hr hs heq
  obtain ⟨hentry, hrest⟩ := h _ _ (hD b hb) (hD c hc) r s hr hs heq
  exact ⟨hf b c hb hc hentry, hrest⟩

theorem Readable.opened {print : α → List γ} (h : Readable D print N)
    (l : List γ) : Readable D (fun a => l ++ print a) N := by
  intro a b ha hb r s hr hs heq
  rw [List.append_assoc, List.append_assoc] at heq
  exact h a b ha hb r s hr hs (List.append_cancel_left heq)

theorem Readable.closed {print : α → List γ} (h : Readable D print N)
    (l : List γ) (hnext : ∀ r, M r → N (l ++ r)) :
    Readable D (fun a => print a ++ l) M := by
  intro a b ha hb r s hr hs heq
  rw [List.append_assoc, List.append_assoc] at heq
  obtain ⟨hentry, hrest⟩ := h a b ha hb _ _ (hnext r hr) (hnext s hs) heq
  exact ⟨hentry, List.append_cancel_left hrest⟩

theorem Readable.seq {f : α → List γ} {g : β → List γ}
    (hf : Readable D f N) (hg : Readable E g M)
    (hfg : ∀ b r, E b → M r → N (g b ++ r)) :
    Readable (fun ab : α × β => D ab.1 ∧ E ab.2) (fun ab => f ab.1 ++ g ab.2)
      M := by
  intro ab cd hab hcd r s hr hs heq
  rw [List.append_assoc, List.append_assoc] at heq
  obtain ⟨hfirst, hrest⟩ := hf ab.1 cd.1 hab.1 hcd.1 _ _
    (hfg ab.2 r hab.2 hr) (hfg cd.2 s hcd.2 hs) heq
  obtain ⟨hsecond, hrest⟩ := hg ab.2 cd.2 hab.2 hcd.2 r s hr hs hrest
  exact ⟨Prod.ext hfirst hsecond, hrest⟩

/-- What follows a print, in a list of prints in front of `r`. -/
theorem next_flatMap {f : α → List γ}
    (hstart : ∀ a t, D a → N (f a ++ t)) (hnext : ∀ r, M r → N r)
    {as : List α} (has : ∀ a ∈ as, D a) {r : List γ} (hr : M r) :
    N (as.flatMap f ++ r) := by
  cases as with
  | nil => exact hnext r hr
  | cons a as =>
      rw [List.flatMap_cons, List.append_assoc]
      exact hstart a _ (has a List.mem_cons_self)

/-- **A LIST OF PRINTS** ends where none of them starts. -/
theorem Readable.many {f : α → List γ} (hf : Readable D f N)
    (hstart : ∀ a t, D a → N (f a ++ t)) (hnext : ∀ r, M r → N r)
    (hapart : ∀ a t, D a → ¬ M (f a ++ t)) :
    Readable (fun as => ∀ a ∈ as, D a) (List.flatMap f) M := by
  intro as bs has hbs r s hr hs heq
  induction as generalizing bs with
  | nil =>
      cases bs with
      | nil => exact ⟨rfl, heq⟩
      | cons b bs =>
          rw [List.flatMap_nil, List.nil_append, List.flatMap_cons,
            List.append_assoc] at heq
          rw [heq] at hr
          exact absurd hr (hapart b _ (hbs b List.mem_cons_self))
  | cons a as ih =>
      cases bs with
      | nil =>
          rw [List.flatMap_nil, List.nil_append, List.flatMap_cons,
            List.append_assoc] at heq
          rw [← heq] at hs
          exact absurd hs (hapart a _ (has a List.mem_cons_self))
      | cons b bs =>
          rw [List.flatMap_cons, List.flatMap_cons, List.append_assoc,
            List.append_assoc] at heq
          rw [List.forall_mem_cons] at has hbs
          obtain ⟨hhead, htail⟩ := hf a b has.1 hbs.1 _ _
            (next_flatMap hstart hnext has.2 hr)
            (next_flatMap hstart hnext hbs.2 hs) heq
          obtain ⟨hall, hend⟩ := ih bs has.2 hbs.2 htail
          exact ⟨by rw [hhead, hall], hend⟩

/-- The same with a separator, which may stand where a print ends. -/
theorem Readable.sepBy {f : α → List γ} (hf : Readable D f N)
    (sep : List γ) (hsep : ∀ a t, D a → N (sep ++ f a ++ t))
    (hnext : ∀ r, M r → N r)
    (hfirst : ∀ a t, D a → ¬ M (f a ++ t))
    (hapart : ∀ a t, D a → ¬ M (sep ++ f a ++ t)) :
    Readable (fun as => ∀ a ∈ as, D a) (UniqueReading.sepBy sep f) M := by
  -- a list that is not empty is its first print and the others
  have hcons := hf.seq ((hf.opened sep).many hsep hnext hapart)
    fun _ _ has hr => next_flatMap hsep hnext has hr
  intro as bs has hbs r s hr hs heq
  cases as with
  | nil =>
      cases bs with
      | nil => exact ⟨rfl, heq⟩
      | cons b bs =>
          rw [UniqueReading.sepBy, UniqueReading.sepBy, List.nil_append,
            List.append_assoc] at heq
          rw [heq] at hr
          exact absurd hr (hfirst b _ (hbs b List.mem_cons_self))
  | cons a as =>
      cases bs with
      | nil =>
          rw [UniqueReading.sepBy, UniqueReading.sepBy, List.nil_append,
            List.append_assoc] at heq
          rw [← heq] at hs
          exact absurd hs (hfirst a _ (has a List.mem_cons_self))
      | cons b bs =>
          rw [List.forall_mem_cons] at has hbs
          obtain ⟨hboth, hend⟩ := hcons (a, as) (b, bs) has hbs r s hr hs heq
          obtain ⟨hhead, htail⟩ := Prod.mk.inj hboth
          exact ⟨by rw [hhead, htail], hend⟩

theorem sepBy_nil (f : α → List γ) (as : List α) :
    sepBy [] f as = as.flatMap f := by
  cases as with
  | nil => rfl
  | cons a as => rfl

theorem sepBy_map (sep : List γ) (f : α → List γ) (g : β → α) (bs : List β) :
    sepBy sep f (bs.map g) = sepBy sep (fun b => f (g b)) bs := by
  cases bs with
  | nil => rfl
  | cons b bs => rw [List.map_cons, sepBy, sepBy, List.flatMap_map]

/-! ## Words and lines -/

/-- A word ends where a letter comes that it has not. -/
theorem readable_word (P : γ → Prop) :
    Readable (fun w : List γ => ∀ c ∈ w, P c) id
      (fun r => ∀ c ∈ r.head?, ¬ P c) := by
  intro w v hw hv r s hr hs heq
  rw [id_eq, id_eq] at heq
  induction w generalizing v with
  | nil =>
      cases v with
      | nil => exact ⟨rfl, heq⟩
      | cons c v =>
          rw [List.nil_append, List.cons_append] at heq
          rw [heq] at hr
          exact absurd (hv c List.mem_cons_self) (hr c rfl)
  | cons c w ih =>
      cases v with
      | nil =>
          rw [List.nil_append, List.cons_append] at heq
          rw [← heq] at hs
          exact absurd (hw c List.mem_cons_self) (hs c rfl)
      | cons d v =>
          rw [List.forall_mem_cons] at hw hv
          rw [List.cons_append, List.cons_append] at heq
          obtain ⟨hhead, htail⟩ := List.cons.inj heq
          obtain ⟨hword, hrest⟩ := ih v hw.2 hv.2 htail
          exact ⟨by rw [hhead, hword], hrest⟩

/-- Lines that are not empty, each closed by `nl`. -/
def IsLines (nl : γ) (text : List γ) : Prop :=
  ∃ ls : List (List γ), (∀ l ∈ ls, l ≠ [] ∧ nl ∉ l) ∧
    text = ls.flatMap fun l => l ++ [nl]

theorem IsLines.nil (nl : γ) : IsLines nl [] :=
  ⟨[], fun _ h => absurd h List.not_mem_nil, rfl⟩

theorem IsLines.line {nl : γ} {l : List γ} (hne : l ≠ []) (hl : nl ∉ l) :
    IsLines nl (l ++ [nl]) := by
  refine ⟨[l], fun l' hl' => ?_, ?_⟩
  · rw [List.mem_singleton.mp hl']
    exact ⟨hne, hl⟩
  · rw [List.flatMap_singleton]

theorem IsLines.append {nl : γ} {t u : List γ} (ht : IsLines nl t)
    (hu : IsLines nl u) : IsLines nl (t ++ u) := by
  obtain ⟨ls, hls, rfl⟩ := ht
  obtain ⟨ks, hks, rfl⟩ := hu
  refine ⟨ls ++ ks, fun l hl => ?_, List.flatMap_append.symm⟩
  exact (List.mem_append.mp hl).elim (hls l) (hks l)

/-- Lines end where an empty one comes. -/
theorem readable_lines (nl : γ) :
    Readable (IsLines nl) id (fun r => r.head? = some nl) := by
  have hword := readable_word fun c : γ => c ≠ nl
  have hclosed : Readable (fun l : List γ => ∀ c ∈ l, c ≠ nl)
      (fun l => l ++ [nl]) fun _ => True :=
    hword.closed [nl] fun r _ c hc => by
      rw [← Option.some.inj hc]
      exact fun h => h rfl
  have hline : Readable (fun l : List γ => l ≠ [] ∧ nl ∉ l)
      (fun l => l ++ [nl]) fun _ => True :=
    hclosed.mono (fun l hl c hc heq => hl.2 (heq ▸ hc)) fun _ h => h
  have hmany := hline.many (M := fun r => r.head? = some nl)
    (fun _ _ _ => trivial) (fun _ _ => trivial) (by
      rintro l t ⟨hne, hl⟩ hhead
      obtain ⟨c, l, rfl⟩ := List.exists_cons_of_ne_nil hne
      exact hl (Option.some.inj hhead ▸ List.mem_cons_self))
  rintro _ _ ⟨ls, hls, rfl⟩ ⟨ks, hks, rfl⟩ r s hr hs heq
  obtain ⟨hlines, hrest⟩ := hmany ls ks hls hks r s hr hs heq
  exact ⟨by rw [hlines], hrest⟩

/-- Texts that start differently differ. -/
theorem append_ne_append {l u : List γ} (h : ¬ l <+: u) (h' : ¬ u <+: l)
    (r s : List γ) : l ++ r ≠ u ++ s := by
  intro heq
  have hl : l <+: u ++ s := heq ▸ List.prefix_append l r
  rcases List.prefix_or_prefix_of_prefix hl (List.prefix_append u s) with
    hlu | hul
  · exact h hlu
  · exact h' hul

end UniqueReading
