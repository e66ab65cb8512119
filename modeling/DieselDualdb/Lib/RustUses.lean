import DieselDualdb.Lib.RustStr
import Mathlib.Data.List.Nodup

/-!
# `use` declarations of Rust

What a list of `use` declarations brings into scope.  A declaration is read word
by word: `use a::b::c;` brings in `c`, `use a::b::{c, d};` brings in `c` and `d`,
each from `a::b`.  A name is resolved by the one import that has it; a name that
two imports have is ambiguous, and resolves to nothing (`resolve_of_mem`).
-/

namespace RustUses

open RustStr

/-! ## Words -/

def isWordChar (c : Char) : Bool := c.isAlphanum || c == '_'

/-- The runs of letters, digits and `_`. -/
def words (cs : List Char) : List String :=
  ((cs.splitOnP fun c => !isWordChar c).filter fun w => !w.isEmpty).map
    String.ofList

def IsWord (s : String) : Prop := s ≠ "" ∧ s.toList.all isWordChar = true

instance : DecidablePred IsWord := fun _ => inferInstanceAs (Decidable (_ ∧ _))

theorem words_nil : words [] = [] := rfl

/-- **WORDS END AT OTHER CHARACTERS**. -/
theorem words_append_cons {c : Char} (hc : isWordChar c = false)
    (xs ys : List Char) : words (xs ++ c :: ys) = words xs ++ words ys := by
  have hsep : (!isWordChar c) = true := by rw [hc]; rfl
  rw [words, List.splitOnP_append_cons xs ys hsep, List.filter_append,
    List.map_append]
  rfl

theorem words_word {s : String} (h : IsWord s) : words s.toList = [s] := by
  have hone : (s.toList.splitOnP fun c => !isWordChar c) = [s.toList] :=
    List.splitOnP_eq_singleton fun c hc => by
      rw [List.all_eq_true.mp h.2 c hc]
      rfl
  have hkept : ([s.toList].filter fun w => !w.isEmpty) = [s.toList] := by
    refine List.filter_cons_of_pos ?_
    rw [Bool.not_eq_true', List.isEmpty_eq_false_iff]
    exact fun hnil => h.1 (String.toList_eq_nil_iff.mp hnil)
  rw [words, hone, hkept, List.map_cons, List.map_nil, String.ofList_toList]

/-- Words with commas between them. -/
theorem words_join {ss : List String} (h : ∀ s ∈ ss, IsWord s) :
    words (join ", " ss).toList = ss := by
  induction ss with
  | nil => rfl
  | cons s ss ih =>
      rw [List.forall_mem_cons] at h
      cases ss with
      | nil => exact words_word h.1
      | cons t ss =>
          have hcut : (join ", " (s :: t :: ss)).toList
              = s.toList ++ ',' :: ([] ++ ' ' :: (join ", " (t :: ss)).toList) := by
            rw [join_cons_cons, String.toList_append, String.toList_append,
              List.append_assoc]
            rfl
          rw [hcut, words_append_cons (by decide), words_append_cons (by decide),
            words_nil, List.nil_append, words_word h.1, ih h.2]
          rfl

/-! ## Imports -/

structure Import where
  path : List String
  name : String
deriving DecidableEq

/-- What is imported, with its path. -/
def Import.full (i : Import) : String := join "::" (i.path ++ [i.name])

def isUse (line : String) : Bool := (words line.toList).head? == some "use"

/-- The imports of a `use` line. -/
def readUse (line : String) : List Import :=
  let path := (words (line.toList.takeWhile (· ≠ '\x7b'))).drop 1
  match line.toList.dropWhile (· ≠ '\x7b') with
  | [] => path.getLast?.toList.map fun name => ⟨path.dropLast, name⟩
  | _ :: group => (words group).map fun name => ⟨path, name⟩

/-- The imports of the `use` lines in front. -/
def readUses (ls : List String) : List Import :=
  (ls.takeWhile isUse).flatMap readUse

/-- What a name stands for: it is the name of one import, and of no other. -/
def resolve (is : List Import) (name : String) : Option String :=
  match is.filter (·.name = name) with
  | [i] => some i.full
  | _ => none

/-- **NO NAME IS AMBIGUOUS** if no two imports have the same. -/
theorem resolve_of_mem {is : List Import} (honce : (is.map Import.name).Nodup)
    {i : Import} (hi : i ∈ is) : resolve is i.name = some i.full := by
  obtain ⟨l, r, rfl⟩ := List.append_of_mem hi
  rw [List.map_append, List.map_cons, List.nodup_middle, List.nodup_cons,
    ← List.map_append] at honce
  have hothers : ∀ j ∈ l ++ r, j.name ≠ i.name := fun j hj hname =>
    honce.1 (List.mem_map.mpr ⟨j, hj, hname⟩)
  have hfront : l.filter (·.name = i.name) = [] :=
    List.filter_eq_nil_iff.mpr fun j hj hname =>
      hothers j (List.mem_append_left r hj) (of_decide_eq_true hname)
  have hback : (i :: r).filter (·.name = i.name) = [i] := by
    refine (List.filter_cons_of_pos (p := fun j : Import => j.name = i.name)
      (decide_eq_true rfl)).trans ?_
    refine congrArg (i :: ·) (List.filter_eq_nil_iff.mpr fun j hj hname => ?_)
    exact hothers j (List.mem_append_right l hj) (of_decide_eq_true hname)
  rw [resolve, List.filter_append, hfront, hback, List.nil_append]

/-! ## Printed declarations -/

/-- Up to the path, and behind it. -/
theorem words_use {path : String} {rest : List Char} :
    words ("    use ".toList ++ (path.toList ++ ("::".toList ++ rest)))
      = "use" :: (words path.toList ++ words rest) := by
  have hpath : words (path.toList ++ ("::".toList ++ rest))
      = words path.toList ++ words rest :=
    (words_append_cons (c := ':') (by decide) path.toList (':' :: rest)).trans
      (congrArg _ (words_append_cons (c := ':') (by decide) [] rest))
  refine (words_append_cons (c := ' ') (by decide) "    use".toList _).trans ?_
  exact congrArg₂ (· ++ ·) (by decide : words "    use".toList = ["use"]) hpath

/-- A line that starts with `use` is one. -/
theorem isUse_print (a b c d : String) :
    isUse ("    use " ++ a ++ b ++ c ++ d) = true := by
  have hwords : ∀ rest, words ("    use ".toList ++ rest) = "use" :: words rest :=
    fun rest => words_append_cons (c := ' ') (by decide) "    use".toList rest
  rw [isUse, toList_line, hwords]
  rfl

theorem all_ne {xs : List Char} {x : Char} (h : x ∉ xs) :
    ∀ c ∈ xs, decide (c ≠ x) = true :=
  fun _ hc => decide_eq_true fun heq => h (heq ▸ hc)

/-- The line up to the brace, and from there. -/
theorem cut_at_brace {xs : List Char} (h : '\x7b' ∉ xs) (ys : List Char) :
    (xs ++ '\x7b' :: ys).takeWhile (· ≠ '\x7b') = xs ∧
      (xs ++ '\x7b' :: ys).dropWhile (· ≠ '\x7b') = '\x7b' :: ys := by
  constructor
  · rw [List.takeWhile_append_of_pos (all_ne h)]
    exact List.append_nil xs
  · rw [List.dropWhile_append_of_pos (all_ne h)]
    rfl

theorem no_brace {xs : List Char} (h : '\x7b' ∉ xs) :
    xs.takeWhile (· ≠ '\x7b') = xs ∧ xs.dropWhile (· ≠ '\x7b') = [] :=
  ⟨List.takeWhile_eq_self_iff.mpr (all_ne h),
    List.dropWhile_eq_nil_iff.mpr (all_ne h)⟩

theorem not_mem_word {s : String} (h : IsWord s) {c : Char}
    (hc : isWordChar c = false) : c ∉ s.toList := by
  intro hmem
  rw [List.all_eq_true.mp h.2 c hmem] at hc
  cases hc

theorem IsWord.oneLine {s : String} (h : IsWord s) : OneLine s :=
  ⟨not_mem_word h (by decide), not_mem_word h (by decide)⟩

/-- `use path::name;` -/
theorem readUse_one {path name : String} (hpath : '\x7b' ∉ path.toList)
    (hname : IsWord name) :
    readUse ("    use " ++ path ++ "::" ++ name ++ ";")
      = [⟨words path.toList, name⟩] := by
  have hbrace : '\x7b' ∉ ("    use " ++ path ++ "::" ++ name ++ ";").toList :=
    not_mem_line (by decide) hpath (by decide) (not_mem_word hname (by decide))
      (by decide)
  have hwords : words ("    use " ++ path ++ "::" ++ name ++ ";").toList
      = "use" :: (words path.toList ++ [name]) := by
    rw [toList_line, words_use]
    refine congrArg (fun ws => "use" :: (words path.toList ++ ws)) ?_
    refine (words_append_cons (c := ';') (by decide) name.toList []).trans ?_
    rw [words_word hname, words_nil, List.append_nil]
  obtain ⟨hfront, hback⟩ := no_brace hbrace
  rw [readUse, hfront, hback, hwords]
  simp only [List.drop_succ_cons, List.drop_zero, List.getLast?_concat,
    Option.toList_some, List.map_cons, List.map_nil, List.dropLast_concat]

/-- `use path::{names};` -/
theorem readUse_group {path : String} {names : List String}
    (hpath : '\x7b' ∉ path.toList) (hnames : ∀ n ∈ names, IsWord n) :
    readUse ("    use " ++ path ++ "::\x7b" ++ join ", " names ++ "\x7d;")
      = names.map fun name => ⟨words path.toList, name⟩ := by
  have hline := toList_line "    use " path "::\x7b" (join ", " names) "\x7d;"
  have hcut : ("    use " ++ path ++ "::\x7b" ++ join ", " names ++ "\x7d;").toList
      = ("    use ".toList ++ (path.toList ++ ("::".toList ++ [])))
        ++ '\x7b' :: ((join ", " names).toList ++ '\x7d' :: [';']) := by
    rw [hline, List.append_assoc, List.append_assoc]
    rfl
  have hbrace : '\x7b' ∉ "    use ".toList
      ++ (path.toList ++ ("::".toList ++ [])) := by
    intro h
    rcases List.mem_append.mp h with h | h
    · exact absurd h (by decide)
    rcases List.mem_append.mp h with h | h
    · exact hpath h
    · exact absurd h (by decide)
  have hgroup : words ((join ", " names).toList ++ '\x7d' :: [';']) = names := by
    rw [words_append_cons (by decide), words_join hnames]
    exact List.append_nil names
  obtain ⟨hfront, hback⟩ := cut_at_brace hbrace
    ((join ", " names).toList ++ '\x7d' :: [';'])
  rw [readUse, hcut, hfront, hback, words_use, words_nil, List.append_nil]
  simp only [List.drop_succ_cons, List.drop_zero, hgroup]

theorem readUses_append {ls : List String} (h : ∀ l ∈ ls, isUse l = true)
    (rest : List String) :
    readUses (ls ++ rest) = ls.flatMap readUse ++ readUses rest := by
  rw [readUses, List.takeWhile_append_of_pos h, List.flatMap_append, readUses]

example : readUse "    use diesel::sql_types::\x7bNullable, Text\x7d;"
    = [⟨["diesel", "sql_types"], "Nullable"⟩,
      ⟨["diesel", "sql_types"], "Text"⟩] := by decide

end RustUses
