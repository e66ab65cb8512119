import DieselDualdb.Lib.RustStr
import Mathlib.Data.List.Forall2
import Mathlib.Data.List.Induction
import Mathlib.Tactic.Common

/-!
# Scripts whose statements end at a terminator

A script is a sequence of tokens; a statement is a non-empty run of tokens up
to the next terminator, and the end of the script ends the last one.  A list
of tokens is `open` if its last statement has not been terminated.

A `Reader` turns texts into tokens and refuses a text that stops in the middle
of one.  For a reader that reads on from left to right (`Lawful`), texts joined
by a separator read as the texts one by one exactly if none of them runs into
the next: what follows an open text starts with a terminator, or is nothing
(`statements_join_iff`).
-/

namespace Terminators

open RustStr

variable {α : Type}

/-! ## Lists of tokens -/

section Lists

variable (isEnd : α → Bool)

/-- The statements: what stands between the terminators, if anything does. -/
def statements (ts : List α) : List (List α) :=
  (ts.splitOnP isEnd).filter (!List.isEmpty ·)

/-- The last statement is not terminated. -/
def isOpen (ts : List α) : Bool := ts.getLast?.any (!isEnd ·)

/-- No statement goes on in these tokens. -/
def startsWithEnd (ts : List α) : Bool := ts.head?.all isEnd

/-- What is open after some more tokens. -/
def openAfter (o : Bool) (ts : List α) : Bool :=
  if ts.isEmpty then o else isOpen isEnd ts

/-- No list runs into the next ones, the first into what was open before. -/
def Parted : Bool → List (List α) → Prop
  | _, [] => True
  | o, ts :: tss =>
      (o = true → startsWithEnd isEnd ts = true) ∧
        Parted (openAfter isEnd o ts) tss

end Lists

variable {isEnd : α → Bool}

theorem statements_nil : statements isEnd [] = [] := rfl

theorem statements_cut (xs : List α) {e : α} (he : isEnd e = true)
    (ys : List α) :
    statements isEnd (xs ++ e :: ys)
      = statements isEnd xs ++ statements isEnd ys := by
  rw [statements, List.splitOnP_append_cons xs ys he, List.filter_append]
  rfl

/-- A run without a terminator is one statement. -/
theorem statements_run {xs : List α} (hne : xs ≠ [])
    (hxs : ∀ x ∈ xs, isEnd x = false) : statements isEnd xs = [xs] := by
  rw [statements, List.splitOnP_eq_singleton hxs, List.filter_cons_of_pos]
  · rfl
  · rw [List.isEmpty_eq_false_iff.mpr hne]
    rfl

/-- A closed list is empty, or stops at a terminator. -/
theorem closed_cases {xs : List α} (h : isOpen isEnd xs = false) :
    xs = [] ∨ ∃ front e, xs = front ++ [e] ∧ isEnd e = true := by
  induction xs using List.reverseRecOn with
  | nil => exact Or.inl rfl
  | append_singleton front e _ =>
      refine Or.inr ⟨front, e, rfl, ?_⟩
      rw [isOpen, List.getLast?_concat] at h
      simpa using h

theorem statements_append_closed {xs : List α} (ys : List α)
    (h : isOpen isEnd xs = false) :
    statements isEnd (xs ++ ys) = statements isEnd xs ++ statements isEnd ys := by
  rcases closed_cases h with rfl | ⟨front, e, rfl, he⟩
  · rfl
  · rw [List.append_assoc, List.singleton_append, statements_cut _ he,
      statements_cut _ he, statements_nil, List.append_nil]

theorem statements_append_end (xs : List α) {ys : List α}
    (h : startsWithEnd isEnd ys = true) :
    statements isEnd (xs ++ ys) = statements isEnd xs ++ statements isEnd ys := by
  cases ys with
  | nil => rw [List.append_nil, statements_nil, List.append_nil]
  | cons e ys =>
      have hsplit := statements_cut [] (show isEnd e = true from h) ys
      rw [List.nil_append] at hsplit
      rw [statements_cut xs h, hsplit, statements_nil, List.nil_append]

/-- Two lists that do not run into each other have both lists' statements. -/
theorem statements_append {xs ys : List α}
    (h : isOpen isEnd xs = true → startsWithEnd isEnd ys = true) :
    statements isEnd (xs ++ ys) = statements isEnd xs ++ statements isEnd ys := by
  cases hopen : isOpen isEnd xs with
  | true => exact statements_append_end xs (h hopen)
  | false => exact statements_append_closed ys hopen

theorem isOpen_append (xs ys : List α) :
    isOpen isEnd (xs ++ ys) = openAfter isEnd (isOpen isEnd xs) ys := by
  cases ys with
  | nil => rw [List.append_nil]; rfl
  | cons y ys =>
      rw [isOpen, List.getLast?_append_of_ne_nil _ (List.cons_ne_nil _ _)]
      rfl

theorem openAfter_false (ts : List α) :
    openAfter isEnd false ts = isOpen isEnd ts := by
  cases ts <;> rfl

/-- An open list is a closed one and the statement it left open. -/
theorem open_cases {xs : List α} (h : isOpen isEnd xs = true) :
    ∃ front run, xs = front ++ run ∧ isOpen isEnd front = false ∧ run ≠ [] ∧
      ∀ x ∈ run, isEnd x = false := by
  induction xs using List.reverseRecOn with
  | nil => cases h
  | append_singleton xs x ih =>
      rw [isOpen, List.getLast?_concat] at h
      have hx : isEnd x = false := by simpa using h
      cases hopen : isOpen isEnd xs with
      | false =>
          refine ⟨xs, [x], rfl, hopen, List.cons_ne_nil _ _, fun y hy => ?_⟩
          rw [List.mem_singleton.mp hy]
          exact hx
      | true =>
          obtain ⟨front, run, rfl, hfront, hne, hrun⟩ := ih hopen
          refine ⟨front, run ++ [x], List.append_assoc .., hfront,
            List.append_ne_nil_of_left_ne_nil hne _, ?_⟩
          exact List.forall_mem_append.mpr ⟨hrun,
            List.forall_mem_singleton.mpr hx⟩

/-- What a run becomes when more tokens follow: it keeps all of them up to the
    next terminator. -/
theorem statements_longer {run : List α} (hrun : ∀ x ∈ run, isEnd x = false)
    {y : α} (hy : isEnd y = false) (us : List α) :
    ∃ more rest, statements isEnd (run ++ y :: us)
      = (run ++ y :: more) :: rest := by
  have hrun' : ∀ x ∈ run ++ [y], isEnd x = false :=
    List.forall_mem_append.mpr ⟨hrun, List.forall_mem_singleton.mpr hy⟩
  have hne : run ++ [y] ≠ [] :=
    List.append_ne_nil_of_right_ne_nil _ (List.cons_ne_nil _ _)
  induction us generalizing run y with
  | nil => exact ⟨[], [], statements_run hne hrun'⟩
  | cons u us ih =>
      rw [List.append_cons]
      cases hu : isEnd u with
      | true =>
          refine ⟨[], statements isEnd us, ?_⟩
          rw [statements_cut _ hu, statements_run hne hrun']
          rfl
      | false =>
          obtain ⟨more, rest, hstatements⟩ := ih hrun' hu
            (List.forall_mem_append.mpr
              ⟨hrun', List.forall_mem_singleton.mpr hu⟩)
            (List.append_ne_nil_of_right_ne_nil _ (List.cons_ne_nil _ _))
          refine ⟨u :: more, rest, ?_⟩
          rw [hstatements, List.append_assoc]
          rfl

/-- **RUNNING ON IS SEEN**: where the statement that was open goes on, there is
    another one in its place. -/
theorem statements_runOn {xs : List α} (h : isOpen isEnd xs = true) {y : α}
    (hy : isEnd y = false) (us : List α) (rest : List (List α)) :
    statements isEnd (xs ++ y :: us) ≠ statements isEnd xs ++ rest := by
  obtain ⟨front, run, rfl, hfront, hne, hrun⟩ := open_cases h
  obtain ⟨more, rest', hlonger⟩ := statements_longer hrun hy us
  rw [List.append_assoc, statements_append_closed _ hfront,
    statements_append_closed _ hfront, hlonger, statements_run hne hrun,
    List.append_assoc]
  intro heq
  have hrun := (List.cons.inj (List.append_cancel_left heq)).1
  rw [List.append_right_eq_self] at hrun
  cases hrun

/-! ## Texts -/

structure Reader (α : Type) where
  /-- `none` for a text that stops in the middle of a token. -/
  tokens : String → Option (List α)
  isEnd : α → Bool

/-- The reader goes through a text from left to right, and `sep` ends a
    token. -/
structure Reader.Lawful (r : Reader α) (sep : String) : Prop where
  empty : r.tokens "" = some []
  /-- Texts that do not run into each other are read one after the other. -/
  next : ∀ {s t xs ys}, r.tokens s = some xs → r.tokens t = some ys →
    (isOpen r.isEnd xs = true → startsWithEnd r.isEnd ys = true) →
    r.tokens (s ++ sep ++ t) = some (xs ++ ys)
  /-- The first token of a text is read where a statement is open, too. -/
  goesOn : ∀ {s t xs y ys}, r.tokens s = some xs →
    isOpen r.isEnd xs = true → r.tokens t = some (y :: ys) →
    r.isEnd y = false → ∀ {rest ts}, (rest = "" ∨ ∃ u, rest = sep ++ u) →
    r.tokens (s ++ sep ++ t ++ rest) = some ts →
    ∃ y' us, r.isEnd y' = false ∧ ts = xs ++ y' :: us

variable {r : Reader α} {sep : String}

theorem join_cons (sep s : String) (texts : List String) :
    join sep (s :: texts) = texts.foldl (· ++ sep ++ ·) s := by
  induction texts generalizing s with
  | nil => rfl
  | cons t texts ih =>
      rw [List.foldl_cons, ← ih (s ++ sep ++ t)]
      cases texts with
      | nil => rfl
      | cons u texts => simp only [join, String.append_assoc]

theorem foldl_join (sep s : String) (texts : List String) :
    ∃ rest, texts.foldl (· ++ sep ++ ·) s = s ++ rest ∧
      (rest = "" ∨ ∃ u, rest = sep ++ u) := by
  induction texts generalizing s with
  | nil => exact ⟨"", String.append_empty.symm, Or.inl rfl⟩
  | cons t texts ih =>
      obtain ⟨rest, hrest, -⟩ := ih (s ++ sep ++ t)
      refine ⟨sep ++ t ++ rest, ?_, Or.inr ⟨t ++ rest, String.append_assoc ..⟩⟩
      rw [List.foldl_cons, hrest]
      simp only [String.append_assoc]

/-- The texts `texts` after the text `s`, which has the tokens `xs`. -/
theorem statements_foldl_iff (hr : r.Lawful sep) {texts : List String}
    {tss : List (List α)}
    (htexts : List.Forall₂ (fun t ts => r.tokens t = some ts) texts tss)
    {s : String} {xs : List α} (hs : r.tokens s = some xs) :
    (∃ ts, r.tokens (texts.foldl (· ++ sep ++ ·) s) = some ts ∧
      statements r.isEnd ts
        = statements r.isEnd xs ++ tss.flatMap (statements r.isEnd)) ↔
      Parted r.isEnd (isOpen r.isEnd xs) tss := by
  induction htexts generalizing s xs with
  | nil =>
      rw [List.flatMap_nil, List.append_nil]
      exact ⟨fun _ => trivial, fun _ => ⟨xs, hs, rfl⟩⟩
  | @cons t ys texts tss ht _ ih =>
      rw [Parted, List.foldl_cons, List.flatMap_cons, ← List.append_assoc]
      by_cases hstart :
          isOpen r.isEnd xs = true → startsWithEnd r.isEnd ys = true
      · rw [← statements_append hstart, ih (hr.next hs ht hstart),
          isOpen_append]
        exact ⟨fun h => ⟨hstart, h⟩, fun h => h.2⟩
      · -- the open statement goes on in `t`, whatever follows
        refine ⟨fun h => ?_, fun h => absurd h.1 hstart⟩
        obtain ⟨ts, hts, hsame⟩ := h
        obtain ⟨hopen, hgoes⟩ := Classical.not_imp.mp hstart
        cases ys with
        | nil => exact absurd rfl hgoes
        | cons y ys =>
            have hy : r.isEnd y = false := Bool.eq_false_iff.mpr hgoes
            obtain ⟨rest, hrest, hsep⟩ := foldl_join sep (s ++ sep ++ t) texts
            rw [hrest] at hts
            obtain ⟨y', us, hy', rfl⟩ := hr.goesOn hs hopen ht hy hsep hts
            rw [List.append_assoc] at hsame
            exact absurd hsame (statements_runOn hopen hy' us _)

/-- **WHEN JOINED TEXTS KEEP THEIR STATEMENTS.** -/
theorem statements_join_iff (hr : r.Lawful sep) {texts : List String}
    {tss : List (List α)}
    (htexts : List.Forall₂ (fun t ts => r.tokens t = some ts) texts tss) :
    (∃ ts, r.tokens (join sep texts) = some ts ∧
      statements r.isEnd ts = tss.flatMap (statements r.isEnd)) ↔
      Parted r.isEnd false tss := by
  cases htexts with
  | nil => exact ⟨fun _ => trivial, fun _ => ⟨[], hr.empty, rfl⟩⟩
  | @cons s xs texts tss hs hrest =>
      rw [join_cons, List.flatMap_cons, statements_foldl_iff hr hrest hs,
        Parted, openAfter_false]
      exact ⟨fun h => ⟨fun hfalse => absurd hfalse Bool.false_ne_true, h⟩,
        fun h => h.2⟩

end Terminators
