import Mathlib.Data.List.TakeWhile

/-!
# The `str` methods of Rust's standard library

`trim`, `trim_end`, `to_ascii_lowercase`, `strip_prefix`, `lines` and
`[String]::join` on Lean strings, as their documentation gives them: whitespace is Unicode's
`White_Space`, a line ends at `\n` or `\r\n`, and a final line without a
terminator counts, an empty rest after the last terminator does not.
-/

namespace RustStr

/-- `char::is_whitespace`: Unicode's `White_Space` property. -/
def isWhitespace (c : Char) : Bool :=
  let n := c.toNat
  (0x9 ≤ n && n ≤ 0xD) || n == 0x20 || n == 0x85 || n == 0xA0
    || n == 0x1680 || (0x2000 ≤ n && n ≤ 0x200A) || n == 0x2028
    || n == 0x2029 || n == 0x202F || n == 0x205F || n == 0x3000

/-- `str::trim_start` -/
def trimStart (s : String) : String :=
  String.ofList (s.toList.dropWhile isWhitespace)

/-- `str::trim_end` -/
def trimEnd (s : String) : String :=
  String.ofList (s.toList.reverse.dropWhile isWhitespace).reverse

/-- `str::trim` -/
def trim (s : String) : String :=
  trimEnd (trimStart s)

/-- `str::to_ascii_lowercase` -/
def toAsciiLowercase (s : String) : String :=
  String.ofList (s.toList.map Char.toLower)

/-- `str::strip_prefix` -/
def stripPrefix (s pre : String) : Option String :=
  if pre.toList <+: s.toList then
    some (String.ofList (s.toList.drop pre.toList.length))
  else none

/-- A line ended by `\n` loses one `\r` before it; the line is held reversed. -/
def dropCr : List Char → List Char
  | '\r' :: cs => cs
  | cs => cs

/-- The lines of the characters left, `cur` being the current line reversed. -/
def linesFrom (cur : List Char) : List Char → List String
  | [] => if cur.isEmpty then [] else [String.ofList cur.reverse]
  | c :: cs =>
      if c = '\n' then String.ofList (dropCr cur).reverse :: linesFrom [] cs
      else linesFrom (c :: cur) cs

/-- `str::lines` -/
def lines (s : String) : List String :=
  linesFrom [] s.toList

/-- `[String]::join` -/
def join (sep : String) : List String → String
  | [] => ""
  | [s] => s
  | s :: t :: rest => s ++ sep ++ join sep (t :: rest)

/-! ## Trimming -/

theorem toList_trimStart (s : String) :
    (trimStart s).toList = s.toList.dropWhile isWhitespace :=
  String.toList_ofList

theorem toList_trimEnd (s : String) :
    (trimEnd s).toList = (s.toList.reverse.dropWhile isWhitespace).reverse :=
  String.toList_ofList

/-- A text trims to nothing exactly when it is whitespace throughout. -/
theorem trim_isEmpty (s : String) :
    (trim s).isEmpty = s.toList.all isWhitespace := by
  rw [Bool.eq_iff_iff, String.isEmpty_iff, ← String.toList_eq_nil_iff, trim,
    toList_trimEnd, toList_trimStart, List.reverse_eq_nil_iff,
    List.dropWhile_eq_nil_iff, List.all_eq_true]
  constructor
  · intro h
    -- what is left in front of a visible character would start with one
    have hnil : s.toList.dropWhile isWhitespace = [] := by
      by_contra hne
      have hhead := List.head_dropWhile_not isWhitespace hne
      rw [h _ (List.mem_reverse.mpr (List.head_mem hne))] at hhead
      cases hhead
    exact List.dropWhile_eq_nil_iff.mp hnil
  · intro h c hc
    exact h c (List.dropWhile_subset isWhitespace (List.mem_reverse.mp hc))

theorem trim_eq_of_trimStart {s t : String} (h : trimStart s = trimStart t) :
    trim s = trim t :=
  congrArg trimEnd h

/-- Whitespace in front does not count. -/
theorem trim_blank_append {w : String} (s : String)
    (h : w.toList.all isWhitespace = true) : trim (w ++ s) = trim s := by
  refine trim_eq_of_trimStart (String.toList_injective ?_)
  rw [toList_trimStart, toList_trimStart, String.toList_append]
  exact List.dropWhile_append_of_pos (List.all_eq_true.mp h)

/-- Whitespace at the end does not count. -/
theorem trim_append_blank (s : String) {w : String}
    (h : w.toList.all isWhitespace = true) : trim (s ++ w) = trim s := by
  have hw := List.all_eq_true.mp h
  refine String.toList_injective ?_
  rw [trim, trim, toList_trimEnd, toList_trimEnd, toList_trimStart,
    toList_trimStart, String.toList_append, List.dropWhile_append]
  split
  · next hs =>
      rw [List.isEmpty_iff.mp hs, List.dropWhile_eq_nil_iff.mpr hw]
  · rw [List.reverse_append, List.dropWhile_append_of_pos]
    intro c hc
    exact hw c (List.mem_reverse.mp hc)

/-- What `trim_end` cuts off is whitespace. -/
theorem trimEnd_append_blank (s : String) :
    ∃ w : String, w.toList.all isWhitespace = true ∧ trimEnd s ++ w = s := by
  refine ⟨String.ofList (s.toList.reverse.takeWhile isWhitespace).reverse,
    ?_, String.toList_injective ?_⟩
  · rw [String.toList_ofList, List.all_reverse]
    exact List.all_takeWhile
  · rw [String.toList_append, toList_trimEnd, String.toList_ofList,
      ← List.reverse_append, List.takeWhile_append_dropWhile,
      List.reverse_reverse]

theorem length_dropWhile_append (xs ys : List Char) :
    (xs.dropWhile isWhitespace).length
      ≤ ((xs ++ ys).dropWhile isWhitespace).length := by
  rw [List.dropWhile_append]
  split
  · next h =>
      rw [List.isEmpty_iff.mp h]
      exact Nat.zero_le _
  · rw [List.length_append]
    exact Nat.le_add_right _ _

/-- Trimming the front as well leaves no more. -/
theorem length_trim_le (s : String) :
    (trim s).length ≤ (trimEnd s).length := by
  have hcut : s.toList.reverse
      = (s.toList.dropWhile isWhitespace).reverse
        ++ (s.toList.takeWhile isWhitespace).reverse := by
    rw [← List.reverse_append, List.takeWhile_append_dropWhile]
  rw [trim, ← String.length_toList, ← String.length_toList, toList_trimEnd,
    toList_trimEnd, toList_trimStart, List.length_reverse, List.length_reverse,
    hcut]
  exact length_dropWhile_append _ _

/-- A text that starts and ends visibly is kept in front of any other. -/
theorem trim_visible_append {s : String} {x y : Char} {front back : List Char}
    (hfront : s.toList = x :: front) (hback : s.toList.reverse = y :: back)
    (hx : isWhitespace x = false) (hy : isWhitespace y = false) (t : String) :
    trim (s ++ t) = s ++ trimEnd t := by
  have hstart : trimStart (s ++ t) = s ++ t := by
    refine String.toList_injective ?_
    rw [toList_trimStart, String.toList_append, hfront, List.cons_append,
      List.dropWhile_cons_of_neg (by rw [hx]; decide)]
  refine String.toList_injective ?_
  rw [trim, hstart, toList_trimEnd, String.toList_append, String.toList_append,
    toList_trimEnd, List.reverse_append, List.dropWhile_append, hback]
  split
  · next h =>
      rw [List.isEmpty_iff.mp h,
        List.dropWhile_cons_of_neg (by rw [hy]; decide), ← hback,
        List.reverse_reverse, List.reverse_nil, List.append_nil]
  · rw [← hback, List.reverse_append, List.reverse_reverse]

/-! ## Lines -/

/-- The last line of a text, if it has no terminator; it is held reversed. -/
def openLine (last : List Char) : List String :=
  if last.isEmpty then [] else [String.ofList last.reverse]

/-- The line that a `\n` makes of it. -/
def closedLine (last : List Char) : String :=
  String.ofList (dropCr last).reverse

theorem linesFrom_append (cs : List Char) : ∀ cur, ∃ front last,
    linesFrom cur cs = front ++ openLine last ∧
      ∀ ds, linesFrom cur (cs ++ '\n' :: ds)
        = front ++ closedLine last :: linesFrom [] ds := by
  induction cs with
  | nil =>
      intro cur
      exact ⟨[], cur, rfl, fun ds => if_pos rfl⟩
  | cons c cs ih =>
      intro cur
      by_cases hc : c = '\n'
      · obtain ⟨front, last, hopen, hclosed⟩ := ih []
        refine ⟨closedLine cur :: front, last, ?_, fun ds => ?_⟩
        · rw [linesFrom, if_pos hc, hopen]
          rfl
        · rw [List.cons_append, linesFrom, if_pos hc, hclosed]
          rfl
      · obtain ⟨front, last, hopen, hclosed⟩ := ih (c :: cur)
        refine ⟨front, last, ?_, fun ds => ?_⟩
        · rw [linesFrom, if_neg hc, hopen]
        · rw [List.cons_append, linesFrom, if_neg hc, hclosed]

/-- **THE LINES OF TWO TEXTS WITH A NEWLINE BETWEEN THEM**: those of the first
    with its last line closed, then those of the second. -/
theorem lines_append_newline (s t : String) : ∃ front last,
    lines s = front ++ openLine last ∧
      lines (s ++ "\n" ++ t) = front ++ closedLine last :: lines t := by
  obtain ⟨front, last, hopen, hclosed⟩ := linesFrom_append s.toList []
  refine ⟨front, last, hopen, ?_⟩
  rw [lines, String.toList_append, String.toList_append, List.append_assoc]
  exact hclosed t.toList

/-- A character that is no terminator goes to the last line. -/
theorem lines_append_char (s : String) {c : Char} (hc : c ≠ '\n') :
    ∃ front last, lines s = front ++ openLine last ∧
      lines (s ++ String.ofList [c]) = front ++ openLine (c :: last) := by
  -- induction on the text, for every open line
  have hfrom : ∀ cs cur, ∃ front last,
      linesFrom cur cs = front ++ openLine last ∧
        linesFrom cur (cs ++ [c]) = front ++ openLine (c :: last) := by
    intro cs
    induction cs with
    | nil =>
        intro cur
        refine ⟨[], cur, rfl, ?_⟩
        rw [List.nil_append, linesFrom, if_neg hc]
        rfl
    | cons d cs ih =>
        intro cur
        by_cases hd : d = '\n'
        · obtain ⟨front, last, hopen, hmore⟩ := ih []
          refine ⟨closedLine cur :: front, last, ?_, ?_⟩
          · rw [linesFrom, if_pos hd, hopen]
            rfl
          · rw [List.cons_append, linesFrom, if_pos hd, hmore]
            rfl
        · obtain ⟨front, last, hopen, hmore⟩ := ih (d :: cur)
          refine ⟨front, last, ?_, ?_⟩
          · rw [linesFrom, if_neg hd, hopen]
          · rw [List.cons_append, linesFrom, if_neg hd, hmore]
  obtain ⟨front, last, hopen, hmore⟩ := hfrom s.toList []
  refine ⟨front, last, hopen, ?_⟩
  rw [lines, String.toList_append, String.toList_ofList]
  exact hmore

theorem linesFrom_line {cs : List Char} (hcs : '\n' ∉ cs) (cur ds : List Char) :
    linesFrom cur (cs ++ '\n' :: ds)
      = closedLine (cs.reverse ++ cur) :: linesFrom [] ds := by
  induction cs generalizing cur with
  | nil => exact if_pos rfl
  | cons c cs ih =>
      rw [List.mem_cons, not_or] at hcs
      rw [List.cons_append, linesFrom, if_neg (Ne.symm hcs.1), ih hcs.2,
        List.reverse_cons, List.append_assoc]
      rfl

/-- Neither of the characters that a line ends with. -/
def OneLine (s : String) : Prop := '\n' ∉ s.toList ∧ '\r' ∉ s.toList

instance : DecidablePred OneLine := fun _ => inferInstanceAs (Decidable (_ ∧ _))

/-- A line in front of a text. -/
theorem lines_line {s : String} (hs : OneLine s) (t : String) :
    lines (s ++ "\n" ++ t) = s :: lines t := by
  have hkept : closedLine s.toList.reverse = s := by
    rw [closedLine, dropCr, List.reverse_reverse, String.ofList_toList]
    intro cs heq
    exact hs.2 (List.mem_reverse.mp (heq ▸ List.mem_cons_self))
  rw [lines, String.toList_append, String.toList_append, List.append_assoc]
  refine (linesFrom_line hs.1 [] t.toList).trans ?_
  rw [List.append_nil, hkept, lines]

/-- Closing a line takes a `\r` from its end or nothing. -/
theorem openLine_eq (c : Char) (last : List Char) :
    ∃ cr, cr.toList.all isWhitespace = true ∧
      openLine (c :: last) = [closedLine (c :: last) ++ cr] := by
  by_cases hc : c = '\r'
  · refine ⟨"\r", by decide, ?_⟩
    rw [hc, openLine, closedLine, dropCr, List.reverse_cons, String.ofList_append]
    rfl
  · refine ⟨"", by decide, ?_⟩
    rw [String.append_empty, openLine, closedLine, dropCr]
    · rfl
    · intro cs h
      exact hc (List.cons.inj h).1

theorem toList_line (a b c d e : String) :
    (a ++ b ++ c ++ d ++ e).toList
      = a.toList ++ (b.toList ++ (c.toList ++ (d.toList ++ e.toList))) := by
  simp only [String.toList_append, List.append_assoc]

theorem not_mem_line {a b c d e : String} {x : Char} (ha : x ∉ a.toList)
    (hb : x ∉ b.toList) (hc : x ∉ c.toList) (hd : x ∉ d.toList)
    (he : x ∉ e.toList) : x ∉ (a ++ b ++ c ++ d ++ e).toList := by
  rw [toList_line]
  simp only [List.mem_append, ha, hb, hc, hd, he, or_self, not_false_eq_true]

theorem OneLine.line {a b c d e : String} (ha : OneLine a) (hb : OneLine b)
    (hc : OneLine c) (hd : OneLine d) (he : OneLine e) :
    OneLine (a ++ b ++ c ++ d ++ e) :=
  ⟨not_mem_line ha.1 hb.1 hc.1 hd.1 he.1, not_mem_line ha.2 hb.2 hc.2 hd.2 he.2⟩

/-! ## Joining -/

theorem join_cons_cons (sep s t : String) (rest : List String) :
    join sep (s :: t :: rest) = s ++ sep ++ join sep (t :: rest) := rfl

theorem join_append {sep : String} {ss ts : List String} (hs : ss ≠ [])
    (ht : ts ≠ []) : join sep (ss ++ ts) = join sep ss ++ sep ++ join sep ts := by
  obtain ⟨t, ts, rfl⟩ := List.exists_cons_of_ne_nil ht
  induction ss with
  | nil => exact absurd rfl hs
  | cons s ss ih =>
      cases ss with
      | nil => rfl
      | cons s' ss =>
          have hrest := ih (List.cons_ne_nil s' ss)
          rw [List.cons_append] at hrest
          rw [List.cons_append, List.cons_append, join_cons_cons, hrest,
            join_cons_cons]
          simp only [String.append_assoc]

/-- Without a separator, joining is concatenation. -/
theorem join_empty_append (ss ts : List String) :
    join "" (ss ++ ts) = join "" ss ++ join "" ts := by
  by_cases hs : ss = []
  · rw [hs, List.nil_append, join, String.empty_append]
  by_cases ht : ts = []
  · rw [ht, List.append_nil, join, String.append_empty]
  · rw [join_append hs ht, String.append_empty]

theorem not_mem_join {x : Char} {sep : String} {ss : List String}
    (hsep : x ∉ sep.toList) (h : ∀ s ∈ ss, x ∉ s.toList) :
    x ∉ (join sep ss).toList := by
  induction ss with
  | nil => exact List.not_mem_nil
  | cons s ss ih =>
      rw [List.forall_mem_cons] at h
      cases ss with
      | nil => exact h.1
      | cons s' ss =>
          rw [join_cons_cons, String.toList_append, String.toList_append,
            List.mem_append, List.mem_append]
          rintro ((hs | hs) | hs)
          · exact h.1 hs
          · exact hsep hs
          · exact ih h.2 hs

theorem OneLine.join {sep : String} {ss : List String} (hsep : OneLine sep)
    (h : ∀ s ∈ ss, OneLine s) : OneLine (join sep ss) :=
  ⟨not_mem_join hsep.1 fun s hs => (h s hs).1,
    not_mem_join hsep.2 fun s hs => (h s hs).2⟩

example : lines "a\r\n\n b\n" = ["a", "", " b"] := by decide

example : trim " \t-- x \n" = "-- x" := by decide

end RustStr
