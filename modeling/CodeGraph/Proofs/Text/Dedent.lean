import CodeGraph.Proofs.Text.Lines
import Mathlib.Data.List.Forall2
import Mathlib.Order.Bounds.Defs

/-!
# Common indentation

Only blanks are taken off the lines of a text: those at their ends, and at the start of all lines
but the first no more than each of them has.

* `cutIndentation_spec`: what is cut off a line is blank.
* `cutIndentation_of_single`: where blanks have one byte each, a number of characters is cut off.
* `dedented_dedented`: no common indentation is left.
* `dedent_common`: what `dedent` does, line by line.
-/

namespace CodeGraph.Text

variable {l r b : List Char} {ls rest : List (List Char)} {n : Nat}

/-! ## Indentation in bytes -/

theorem utf8Length_append (b r : List Char) :
    utf8Length (b ++ r) = utf8Length b + utf8Length r := by
  induction b with
  | nil => exact (Nat.zero_add _).symm
  | cons c b ih => rw [List.cons_append, utf8Length, utf8Length, ih, Nat.add_assoc]

theorem utf8Length_eq_zero_iff : utf8Length l = 0 ↔ l = [] := by
  cases l with
  | nil => exact iff_of_true rfl rfl
  | cons c l =>
    have hc := c.utf8Size_pos
    exact iff_of_false (by rw [utf8Length]; omega) (List.cons_ne_nil c l)

theorem dropBytes?_append (b r : List Char) : dropBytes? (utf8Length b) (b ++ r) = some r := by
  induction b with
  | nil => exact dropBytes?.eq_1 r
  | cons c b ih =>
    have hc := c.utf8Size_pos
    obtain ⟨k, hk⟩ : ∃ k, utf8Length (c :: b) = k + 1 :=
      Nat.exists_eq_succ_of_ne_zero (by rw [utf8Length]; omega)
    rw [hk, List.cons_append, dropBytes?, ← hk, utf8Length, if_pos (Nat.le_add_right _ _),
      Nat.add_sub_cancel_left, ih]

theorem eq_append_of_dropBytes? (h : dropBytes? n l = some r) :
    ∃ b, l = b ++ r ∧ utf8Length b = n := by
  fun_induction dropBytes? n l with
  | case1 => exact ⟨[], (Option.some.inj h), rfl⟩
  | case2 => cases h
  | case3 n c cs hle ih =>
    obtain ⟨b, rfl, hb⟩ := ih h
    exact ⟨c :: b, rfl, by rw [utf8Length, hb]; omega⟩
  | case4 => cases h

theorem isBlankLine_iff : isBlankLine l ↔ ∀ c ∈ l, isBlank c := List.all_eq_true

theorem isBlankLine_iff_trim : isBlankLine l ↔ trim l = [] :=
  isBlankLine_iff.trans trim_eq_nil_iff.symm

/-- What takes up no more bytes than the indentation is part of it. -/
theorem blank_of_utf8Length_le (h : utf8Length b ≤ indentation (b ++ r)) : ∀ c ∈ b, isBlank c := by
  have hindentation := List.takeWhile_prefix (l := b ++ r) isBlank
  intro c hc
  rcases List.prefix_or_prefix_of_prefix (List.prefix_append b r) hindentation with
    hb | ⟨more, hmore⟩
  · exact List.mem_takeWhile_imp (hb.subset hc)
  · -- the rest of it takes up no bytes
    have hbytes := congrArg utf8Length hmore
    rw [utf8Length_append] at hbytes
    rw [indentation] at h
    have hnil : more = [] := utf8Length_eq_zero_iff.1 (by omega)
    rw [hnil, List.append_nil] at hmore
    exact List.mem_takeWhile_imp (hmore ▸ hc)

/-- **What is cut off a line is blank,** if the line is or has that much indentation. -/
theorem cutIndentation_spec (h : ¬isBlankLine l → n ≤ indentation l) :
    ∃ b, l = b ++ cutIndentation n l ∧ ∀ c ∈ b, isBlank c := by
  unfold cutIndentation
  cases hdrop : dropBytes? n l with
  | none => exact ⟨l.takeWhile isBlank, List.takeWhile_append_dropWhile.symm, fun c =>
    List.mem_takeWhile_imp⟩
  | some r =>
    obtain ⟨b, rfl, rfl⟩ := eq_append_of_dropBytes? hdrop
    refine ⟨b, rfl, ?_⟩
    by_cases hblank : isBlankLine (b ++ r)
    · exact fun c hc => isBlankLine_iff.1 hblank c (List.mem_append_left r hc)
    · exact blank_of_utf8Length_le (h hblank)

@[simp] theorem cutIndentation_zero (l : List Char) : cutIndentation 0 l = l := by
  rw [cutIndentation, dropBytes?]
  rfl

theorem cutIndentation_indentation (l : List Char) :
    cutIndentation (indentation l) l = l.dropWhile isBlank := by
  have hdrop := dropBytes?_append (l.takeWhile isBlank) (l.dropWhile isBlank)
  rw [List.takeWhile_append_dropWhile] at hdrop
  rw [cutIndentation, indentation, hdrop, Option.getD_some]

/-- The number of leading blanks. -/
def indent (l : List Char) : Nat := (l.takeWhile isBlank).length

theorem utf8Length_of_single (h : ∀ c ∈ l, c.utf8Size = 1) : utf8Length l = l.length := by
  induction l with
  | nil => rfl
  | cons c l ih =>
    rw [utf8Length, h c List.mem_cons_self, ih fun d hd => h d (List.mem_cons_of_mem c hd),
      List.length_cons, Nat.add_comm]

theorem takeWhile_dropWhile (l : List Char) : (l.dropWhile isBlank).takeWhile isBlank = [] := by
  have hsplit : (l.takeWhile isBlank ++ l.dropWhile isBlank).takeWhile isBlank =
      l.takeWhile isBlank ++ (l.dropWhile isBlank).takeWhile isBlank :=
    List.takeWhile_append_of_pos fun c => List.mem_takeWhile_imp
  rw [List.takeWhile_append_dropWhile] at hsplit
  exact List.self_eq_append_right.1 hsplit

theorem take_takeWhile (hn : n ≤ indent l) : (l.takeWhile isBlank).take n = l.take n := by
  conv_rhs => rw [← List.takeWhile_append_dropWhile (p := isBlank) (l := l),
    List.take_append_of_le_length hn]

theorem takeWhile_drop (hn : n ≤ indent l) :
    (l.drop n).takeWhile isBlank = (l.takeWhile isBlank).drop n := by
  have hdrop : l.drop n = (l.takeWhile isBlank).drop n ++ l.dropWhile isBlank := by
    rw [← List.drop_append_of_le_length hn, List.takeWhile_append_dropWhile]
  rw [hdrop, List.takeWhile_append_of_pos fun c hc =>
    List.mem_takeWhile_imp (List.mem_of_mem_drop hc), takeWhile_dropWhile, List.append_nil]

/-- Where the leading blanks have one byte each, that many characters are cut off. -/
theorem cutIndentation_of_single (h : ∀ c ∈ l.takeWhile isBlank, c.utf8Size = 1)
    (hn : n ≤ indent l) :
    cutIndentation n l = l.drop n := by
  have hle : n ≤ l.length := hn.trans (List.takeWhile_prefix isBlank).length_le
  have hbytes : utf8Length (l.take n) = n := by
    rw [← take_takeWhile hn, utf8Length_of_single fun c hc => h c (List.mem_of_mem_take hc),
      List.length_take_of_le hn]
  have hdrop := dropBytes?_append (l.take n) (l.drop n)
  rw [List.take_append_drop, hbytes] at hdrop
  rw [cutIndentation, hdrop, Option.getD_some]

/-- A line that is not blank keeps the blanks that are not cut off. -/
theorem indent_trimEnd_drop (h : ¬isBlankLine l) (hn : n ≤ indent l) :
    indent (trimEnd (l.drop n)) + n = indent l := by
  have htake : ∀ c ∈ l.take n, isBlank c := by
    rw [← take_takeWhile hn]
    exact fun c hc => List.mem_takeWhile_imp (List.mem_of_mem_take hc)
  have hsome : ¬∀ c ∈ l.drop n, isBlank c := by
    rwa [← trim_eq_nil_iff, ← trim_append_of_blank htake, List.take_append_drop,
      ← isBlankLine_iff_trim]
  rw [indent, takeWhile_trimEnd hsome, takeWhile_drop hn, List.length_drop]
  exact Nat.sub_add_cancel hn

/-! ## Common indentation -/

/-- The common indentation is the smallest one of the lines that are not blank. -/
theorem isLeast_commonIndentation (h : ∃ l ∈ ls, ¬isBlankLine l) :
    IsLeast {k | ∃ l ∈ ls, ¬isBlankLine l ∧ indentation l = k} (commonIndentation ls) := by
  have hmem {k : Nat} : k ∈ (ls.filter (!isBlankLine ·)).map indentation ↔
      ∃ l ∈ ls, ¬isBlankLine l ∧ indentation l = k := by
    simp [and_assoc]
  unfold commonIndentation
  cases hmin : ((ls.filter (!isBlankLine ·)).map indentation).min? with
  | none =>
    obtain ⟨l, hl, hblank⟩ := h
    have hk := hmem.2 ⟨l, hl, hblank, rfl⟩
    rw [List.min?_eq_none_iff.1 hmin] at hk
    cases hk
  | some k =>
    obtain ⟨hk, hle⟩ := List.min?_eq_some_iff.1 hmin
    exact ⟨hmem.1 hk, fun j hj => hle j (hmem.2 hj)⟩

theorem commonIndentation_of_blank (h : ∀ l ∈ ls, isBlankLine l) : commonIndentation ls = 0 := by
  have hnil : ls.filter (!isBlankLine ·) = [] :=
    List.filter_eq_nil_iff.2 fun l hl => by simp [h l hl]
  rw [commonIndentation, hnil]
  rfl

theorem commonIndentation_le (hl : l ∈ ls) (hblank : ¬isBlankLine l) :
    commonIndentation ls ≤ indentation l :=
  (isLeast_commonIndentation ⟨l, hl, hblank⟩).2 ⟨l, hl, hblank, rfl⟩

/-! ## Lines that are dedented -/

/-- A line after the first, without the common indentation and the blanks at its end. -/
def dedentedLine (rest : List (List Char)) (l : List Char) : List Char :=
  trimEnd (cutIndentation (commonIndentation rest) l)

/-- The lines without their common indentation and the blanks at their ends. -/
def dedented : List (List Char) → List (List Char)
  | [] => []
  | first :: rest => trimEnd first :: rest.map (dedentedLine rest)

theorem dedentLines_eq (text : List Char) :
    dedentLines text = joinLines (dedented (lines text)) := by
  rw [dedentLines]
  cases lines text <;> rfl

/-- Only blanks around the line are missing, and all of those at its end. -/
structure Pared (l p : List Char) : Prop where
  within : p <:+: l
  trim_eq : trim p = trim l
  not_isBlank : ∀ c ∈ p.getLast?, ¬isBlank c

theorem pared_trimEnd (l : List Char) : Pared l (trimEnd l) :=
  ⟨(trimEnd_isPrefix l).isInfix, trim_trimEnd l, fun _ => not_isBlank_of_mem_getLast?_trimEnd⟩

theorem pared_dedentedLine (hl : l ∈ rest) : Pared l (dedentedLine rest l) := by
  obtain ⟨b, hb, hblank⟩ := cutIndentation_spec (n := commonIndentation rest) fun h =>
    commonIndentation_le hl h
  have htrim : trim (cutIndentation (commonIndentation rest) l) = trim l := by
    conv_rhs => rw [hb, trim_append_of_blank hblank]
  have hsuffix : cutIndentation (commonIndentation rest) l <:+ l := ⟨b, hb.symm⟩
  exact ⟨(trimEnd_isPrefix _).isInfix.trans hsuffix.isInfix, (trim_trimEnd _).trans htrim,
    fun _ => not_isBlank_of_mem_getLast?_trimEnd⟩

theorem Pared.isBlankLine_iff (h : Pared l r) : isBlankLine r ↔ isBlankLine l := by
  rw [isBlankLine_iff_trim, isBlankLine_iff_trim, h.trim_eq]

theorem forall₂_pared_dedented (ls : List (List Char)) : List.Forall₂ Pared ls (dedented ls) := by
  cases ls with
  | nil => exact .nil
  | cons first rest =>
    refine .cons (pared_trimEnd first) (List.forall₂_map_right_iff.2 ?_)
    exact List.forall₂_same.2 fun l hl => pared_dedentedLine hl

/-- The line with the smallest indentation loses all of it, so there is no common
indentation left. -/
theorem commonIndentation_map_dedentedLine (rest : List (List Char)) :
    commonIndentation (rest.map (dedentedLine rest)) = 0 := by
  by_cases hsome : ∃ l ∈ rest, ¬isBlankLine l
  · obtain ⟨⟨l, hl, hblank, hleast⟩, -⟩ := isLeast_commonIndentation hsome
    have hpared := pared_dedentedLine hl
    have hzero : indentation (dedentedLine rest l) = 0 := by
      have hsome : ¬∀ c ∈ l.dropWhile isBlank, isBlank c := by
        rwa [isBlankLine_iff_trim, trim_eq_rdropWhile, List.rdropWhile_eq_nil_iff] at hblank
      rw [dedentedLine, ← hleast, cutIndentation_indentation, indentation, takeWhile_trimEnd hsome,
        takeWhile_dropWhile]
      rfl
    have hle := commonIndentation_le (List.mem_map_of_mem hl) (mt hpared.isBlankLine_iff.1 hblank)
    exact Nat.le_zero.1 (hle.trans_eq hzero)
  · refine commonIndentation_of_blank fun p hp => ?_
    obtain ⟨l, hl, rfl⟩ := List.mem_map.1 hp
    exact (pared_dedentedLine hl).isBlankLine_iff.2 (by_contra fun hblank => hsome ⟨l, hl, hblank⟩)

theorem dedented_dedented (ls : List (List Char)) : dedented (dedented ls) = dedented ls := by
  cases ls with
  | nil => rfl
  | cons first rest =>
    rw [dedented, dedented, trimEnd_trimEnd, List.map_map]
    congr 1
    refine List.map_congr_left fun l _ => ?_
    rw [Function.comp_apply, dedentedLine, commonIndentation_map_dedentedLine, cutIndentation_zero]
    exact trimEnd_trimEnd _

theorem dedented_ne_nil (h : ls ≠ []) : dedented ls ≠ [] := by
  cases ls with
  | nil => exact absurd rfl h
  | cons first rest => exact List.cons_ne_nil _ _

theorem exists_pared_of_mem_dedented {p : List Char} (h : p ∈ dedented ls) :
    ∃ l ∈ ls, Pared l p := by
  cases ls with
  | nil => cases h
  | cons first rest =>
    rcases List.mem_cons.1 h with rfl | h
    · exact ⟨first, List.mem_cons_self, pared_trimEnd first⟩
    · obtain ⟨l, hl, rfl⟩ := List.mem_map.1 h
      exact ⟨l, List.mem_cons_of_mem first hl, pared_dedentedLine hl⟩

theorem exists_pared_of_mem_getLast? {p : List Char} (h : p ∈ (dedented ls).getLast?) :
    ∃ l ∈ ls.getLast?, Pared l p := by
  have hlines := List.rel_reverse (forall₂_pared_dedented ls)
  rw [← List.head?_reverse] at h ⊢
  generalize (dedented ls).reverse = pieces at h hlines
  generalize ls.reverse = lines at hlines ⊢
  cases hlines with
  | nil => cases h
  | cons hp _ =>
    cases h
    exact ⟨_, rfl, hp⟩

/-! ## Texts that are dedented -/

section

variable {text : List Char}

theorem notMem_of_mem_dedented {p : List Char} (hp : p ∈ dedented (lines text)) : '\n' ∉ p := by
  obtain ⟨l, hl, hpared⟩ := exists_pared_of_mem_dedented hp
  exact fun hmem => notMem_of_mem_lines hl (hpared.within.subset hmem)

/-- The pieces of a dedented text are the lines without what was taken off them. -/
theorem splitAll_dedentLines (h : text ≠ []) :
    splitAll '\n' (dedentLines text) = dedented (lines text) := by
  rw [dedentLines_eq]
  exact splitAll_joinLines (dedented_ne_nil (lines_ne_nil h)) fun p => notMem_of_mem_dedented

/-- **Dedenting twice is the same as dedenting once,** unless a blank line at the
end is left out. -/
theorem dedentLines_dedentLines (h : ∀ l ∈ (lines text).getLast?, ¬isBlankLine l) :
    dedentLines (dedentLines text) = dedentLines text := by
  by_cases hne : text = []
  · subst hne
    rfl
  · have hreturn : ∀ p ∈ dedented (lines text), p.getLast? ≠ some '\r' := by
      intro p hp hlast
      obtain ⟨l, -, hpared⟩ := exists_pared_of_mem_dedented hp
      exact hpared.not_isBlank '\r' hlast (by decide)
    have hlast : [] ∉ (dedented (lines text)).getLast? := by
      intro hnil
      obtain ⟨l, hl, hpared⟩ := exists_pared_of_mem_getLast? hnil
      exact h l hl (hpared.isBlankLine_iff.1 rfl)
    have hlines : lines (joinLines (dedented (lines text))) = dedented (lines text) :=
      lines_joinLines (dedented_ne_nil (lines_ne_nil hne))
        (fun p => notMem_of_mem_dedented) hreturn hlast
    rw [dedentLines_eq text, dedentLines_eq, hlines, dedented_dedented]

end

/-- Where the lines but the first are indented with blanks of one byte, they lose as many characters
as the least indented one of them has. -/
theorem exists_isLeast_indent
    (h : ∀ l ∈ rest, ¬isBlankLine l → ∀ c ∈ l.takeWhile isBlank, c.utf8Size = 1) :
    ((∃ l ∈ rest, ¬isBlankLine l) →
      IsLeast {k | ∃ l ∈ rest, ¬isBlankLine l ∧ indent l = k} (commonIndentation rest)) ∧
    ∀ l ∈ rest, ¬isBlankLine l → dedentedLine rest l = trimEnd (l.drop (commonIndentation rest)) ∧
      indent (dedentedLine rest l) + commonIndentation rest = indent l := by
  have hindentation {l : List Char} (hl : l ∈ rest) (hblank : ¬isBlankLine l) :
      indentation l = indent l :=
    utf8Length_of_single (h l hl hblank)
  refine ⟨fun hsome => ?_, fun l hl hblank => ?_⟩
  · have hleast := isLeast_commonIndentation hsome
    have hset : {k | ∃ l ∈ rest, ¬isBlankLine l ∧ indentation l = k} =
        {k | ∃ l ∈ rest, ¬isBlankLine l ∧ indent l = k} := by
      ext k
      refine exists_congr fun l => and_congr_right fun hl => and_congr_right fun hblank => ?_
      rw [hindentation hl hblank]
    rwa [hset] at hleast
  · have hle := commonIndentation_le hl hblank
    rw [hindentation hl hblank] at hle
    rw [dedentedLine, cutIndentation_of_single (h l hl hblank) hle]
    exact ⟨rfl, indent_trimEnd_drop hblank hle⟩

/-- Blanks are all that the lines lose: the first one those at its end, the further
ones also some at the start. -/
structure LosesIndentation (ls ps : List (List Char)) : Prop where
  length_eq : ps.length = ls.length
  pared : List.Forall₂ (fun l p => trim p = trim l ∧ ∀ c ∈ p.getLast?, ¬isBlank c) ls ps
  first : ps.head? = ls.head?.map trimEnd
  /-- Lines that are indented with blanks of one byte all lose the smallest of their indentations,
  so they stay as far apart as they were. -/
  common : (∀ l ∈ ls.tail, ¬isBlankLine l → ∀ c ∈ l.takeWhile isBlank, c.utf8Size = 1) →
    ∃ n, ((∃ l ∈ ls.tail, ¬isBlankLine l) →
      IsLeast {k | ∃ l ∈ ls.tail, ¬isBlankLine l ∧ indent l = k} n) ∧
      List.Forall₂ (fun l p => ¬isBlankLine l → p = trimEnd (l.drop n) ∧ indent p + n = indent l)
        ls.tail ps.tail

theorem losesIndentation_dedented (ls : List (List Char)) : LosesIndentation ls (dedented ls) where
  length_eq := (forall₂_pared_dedented ls).length_eq.symm
  pared := (forall₂_pared_dedented ls).imp fun l p h => ⟨h.trim_eq, h.not_isBlank⟩
  first := by cases ls <;> rfl
  common := by
    intro hsingle
    cases ls with
    | nil => exact ⟨0, by simp, .nil⟩
    | cons first rest =>
      obtain ⟨hleast, hlines⟩ := exists_isLeast_indent hsingle
      exact ⟨_, hleast, List.forall₂_map_right_iff.2 (List.forall₂_same.2 hlines)⟩

/-- **Common indentation is all that is lost, apart from blanks at the ends of lines.** The pieces
of a dedented text stand for the lines of the text, one by one. Nothing is left to be done a second
time, unless the last line is blank. -/
theorem dedent_common (s : String) :
    (s ≠ "" → LosesIndentation (lines s.toList) (splitAll '\n' (dedent s).toList)) ∧
      ((∀ l ∈ (lines s.toList).getLast?, ¬isBlankLine l) → dedent (dedent s) = dedent s) := by
  have htext : (dedent s).toList = dedentLines s.toList := String.toList_ofList
  constructor
  · intro hne
    rw [htext, splitAll_dedentLines (mt String.toList_eq_nil_iff.1 hne)]
    exact losesIndentation_dedented _
  · intro hlast
    rw [dedent, htext, dedentLines_dedentLines hlast]
    rfl

/-- The argument keeps two of its four blanks, as the parenthesis behind it is indented by two. -/
theorem dedent_common_call :
    let call := "f(\n    x\n  )"
    let before := lines call.toList
    call ≠ "" ∧ before.getLast? = some "  )".toList ∧ dedent call = "f(\n  x\n)" ∧
      (splitAll '\n' (dedent call).toList).length = before.length ∧
        dedent (dedent call) = dedent call ∧
      ∃ n, IsLeast {k | ∃ l ∈ before.tail, ¬isBlankLine l ∧ indent l = k} n := by
  intro call before
  have hne : call ≠ "" := by decide
  have hsingle : ∀ l ∈ before.tail, (l.takeWhile isBlank).all (·.utf8Size = 1) := by decide +kernel
  have hsome : ∃ l ∈ before.tail, ¬isBlankLine l :=
    ⟨"  )".toList, by decide +kernel, by decide +kernel⟩
  have hlast : before.getLast? = some "  )".toList := by decide +kernel
  obtain ⟨hpieces, htwice⟩ := dedent_common call
  obtain ⟨n, hleast, -⟩ := (hpieces hne).common fun l hl _ => by simpa using hsingle l hl
  refine ⟨hne, hlast, by decide +kernel, (hpieces hne).length_eq, htwice fun l hl => ?_, n,
    hleast hsome⟩
  cases Option.mem_unique hl hlast
  decide +kernel

end CodeGraph.Text
