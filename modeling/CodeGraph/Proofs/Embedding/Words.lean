import CodeGraph.Embedding.Words
import CodeGraph.Proofs.Text.Character
import Mathlib.Data.List.Chain

/-!
# What the words of a text are

A text falls into runs of letters and numbers that have no border inside. A run up to a border is a
piece of the text, whatever comes before and behind it (`pieces_append`), so the pieces of a text
are read off the way in which it is put together.

* `flatten_pieces`, `isRun_of_mem_pieces`: nothing is lost, and every piece is a run.
* `words_intercalate`, `words_camelCase`: the words of texts that are put together from words.
* `words_spelled`: what words are, that they are the words of themselves, and that it makes no
  difference how the words of an identifier are joined.
-/

namespace CodeGraph.Embedding

open Text

variable {c d sep : Char} {cs p w rest : List Char} {ps ws : List (List Char)}

/-! ## Runs -/

/-- Letters and numbers with no border between two of them. -/
structure IsRun (p : List Char) : Prop where
  ne_nil : p ≠ []
  alphanumeric : ∀ c ∈ p, isAlphanumeric c
  unsplit : p.IsChain fun c d => splitsWord c d = false

theorem IsRun.single (h : isAlphanumeric c) : IsRun [c] where
  ne_nil := List.cons_ne_nil c []
  alphanumeric _ hd := List.mem_singleton.1 hd ▸ h
  unsplit := .singleton c

theorem IsRun.cons (h : IsRun (d :: p)) (hc : isAlphanumeric c) (hsplit : splitsWord c d = false) :
    IsRun (c :: d :: p) where
  ne_nil := List.cons_ne_nil c _
  alphanumeric := List.forall_mem_cons.2 ⟨hc, h.alphanumeric⟩
  unsplit := List.isChain_cons_cons.2 ⟨hsplit, h.unsplit⟩

/-- A word ends between a character and what follows it. -/
def EndsWord (c : Char) (rest : List Char) : Prop :=
  ∀ d ∈ rest.head?, isAlphanumeric d → splitsWord c d

theorem endsWord_nil (c : Char) : EndsWord c [] := by
  intro d hd
  cases hd

theorem pieces_cons_of_not (h : ¬isAlphanumeric c) (cs : List Char) :
    pieces (c :: cs) = pieces cs := by
  rw [pieces.eq_def]
  exact if_neg h

theorem pieces_cons_of_endsWord (h : isAlphanumeric c) (hend : EndsWord c cs) :
    pieces (c :: cs) = [c] :: pieces cs := by
  rw [pieces.eq_def]
  dsimp only
  rw [if_pos h]
  split
  case h_1 d _ piece rest hpieces =>
    have hborder : ¬(isAlphanumeric d && !splitsWord c d) := by
      simpa using hend d rfl
    rw [if_neg hborder, hpieces]
  case h_2 => rfl

theorem pieces_cons_cons (hc : isAlphanumeric c) (hd : isAlphanumeric d)
    (h : splitsWord c d = false) (hpieces : pieces (d :: cs) = p :: ps) :
    pieces (c :: d :: cs) = (c :: p) :: ps := by
  rw [pieces.eq_def]
  simp [hc, hd, h, hpieces]

/-- **A run up to a border is a piece.** -/
theorem pieces_append (hp : IsRun p) (hend : ∀ c ∈ p.getLast?, EndsWord c rest) :
    pieces (p ++ rest) = p :: pieces rest := by
  obtain ⟨hne, halpha, hchain⟩ := hp
  induction p with
  | nil => exact absurd rfl hne
  | cons c p ih =>
    cases p with
    | nil => exact pieces_cons_of_endsWord (halpha c List.mem_cons_self) (hend c rfl)
    | cons d p =>
      obtain ⟨hsplit, hchain⟩ := List.isChain_cons_cons.1 hchain
      have htail : ∀ e ∈ d :: p, isAlphanumeric e :=
        fun e he => halpha e (List.mem_cons_of_mem c he)
      exact pieces_cons_cons (halpha c List.mem_cons_self) (htail d List.mem_cons_self) hsplit
        (ih hend (List.cons_ne_nil d p) htail hchain)

theorem pieces_of_isRun (hp : IsRun p) : pieces p = [p] := by
  have hpiece : pieces (p ++ []) = [p] := pieces_append hp fun c _ => endsWord_nil c
  rwa [List.append_nil] at hpiece

/-- A letter or number begins a run that goes on to a border. -/
theorem exists_run (hc : isAlphanumeric c) (cs : List Char) :
    ∃ p rest, c :: cs = p ++ rest ∧ IsRun p ∧ ∀ d ∈ p.getLast?, EndsWord d rest := by
  induction cs generalizing c with
  | nil =>
    exact ⟨[c], [], rfl, .single hc, fun d _ => endsWord_nil d⟩
  | cons d cs ih =>
    by_cases hend : EndsWord c (d :: cs)
    · exact ⟨[c], d :: cs, rfl, .single hc, fun e he => by cases he; exact hend⟩
    · obtain ⟨hd, hsplit⟩ : isAlphanumeric d ∧ splitsWord c d = false := by
        simpa [EndsWord] using hend
      obtain ⟨p, rest, hcs, hp, hends⟩ := ih hd
      cases p with
      | nil => exact absurd rfl hp.ne_nil
      | cons e p =>
        obtain ⟨rfl, hcs⟩ := List.cons.inj hcs
        exact ⟨c :: d :: p, rest, by rw [hcs]; rfl, hp.cons hc hsplit, hends⟩

/-- A text is empty, begins with what is no letter or number, or begins with a run
up to a border. -/
theorem runs_induction {P : List Char → Prop} (nil : P [])
    (skip : ∀ c cs, ¬isAlphanumeric c → P cs → P (c :: cs))
    (run : ∀ p rest, IsRun p → (∀ c ∈ p.getLast?, EndsWord c rest) → P rest → P (p ++ rest))
    (cs : List Char) :
    P cs := by
  induction hlength : cs.length using Nat.strongRecOn generalizing cs with
  | _ n ih =>
    subst hlength
    cases cs with
    | nil => exact nil
    | cons c cs =>
      by_cases hc : isAlphanumeric c
      · obtain ⟨p, rest, hcs, hp, hends⟩ := exists_run hc cs
        have hshorter : rest.length < (c :: cs).length := by
          rw [hcs, List.length_append]
          exact Nat.lt_add_of_pos_left (List.length_pos_of_ne_nil hp.ne_nil)
        rw [hcs]
        exact run p rest hp hends (ih _ hshorter rest rfl)
      · exact skip c cs hc (ih _ (Nat.lt_succ_self _) cs rfl)

/-- **Nothing but what is no letter or number is lost.** -/
theorem flatten_pieces (cs : List Char) : (pieces cs).flatten = cs.filter isAlphanumeric := by
  induction cs using runs_induction with
  | nil => rfl
  | skip c cs hc ih => rw [pieces_cons_of_not hc, ih, List.filter_cons_of_neg hc]
  | run p rest hp hends ih =>
    rw [pieces_append hp hends, List.flatten_cons, ih, List.filter_append,
      List.filter_eq_self.2 hp.alphanumeric]

/-- **Every piece is a run.** -/
theorem isRun_of_mem_pieces (h : p ∈ pieces cs) : IsRun p := by
  induction cs using runs_induction with
  | nil => cases h
  | skip c cs hc ih =>
    rw [pieces_cons_of_not hc] at h
    exact ih h
  | run q rest hq hends ih =>
    rw [pieces_append hq hends] at h
    rcases List.mem_cons.1 h with rfl | h
    · exact hq
    · exact ih h

/-- A run has digits only or none. -/
theorem IsRun.digits (h : IsRun p) : (∀ c ∈ p, isAsciiDigit c) ∨ ∀ c ∈ p, ¬isAsciiDigit c := by
  obtain ⟨hne, -, hchain⟩ := h
  induction p with
  | nil => exact absurd rfl hne
  | cons c p ih =>
    cases p with
    | nil =>
      simp only [List.forall_mem_singleton]
      exact em _
    | cons d p =>
      obtain ⟨hsplit, hchain⟩ := List.isChain_cons_cons.1 hchain
      have hsame : isAsciiDigit c = isAsciiDigit d := by
        simpa using (Bool.or_eq_false_iff.1 hsplit).2
      refine (ih (List.cons_ne_nil d p) hchain).imp (fun hall => ?_) fun hnone => ?_
      · exact List.forall_mem_cons.2 ⟨hsame ▸ hall d List.mem_cons_self, hall⟩
      · exact List.forall_mem_cons.2 ⟨hsame ▸ hnone d List.mem_cons_self, hnone⟩

/-- Runs that are joined by what is no letter or number are the pieces. -/
theorem pieces_intercalate (hsep : ¬isAlphanumeric sep) (h : ∀ p ∈ ps, IsRun p) :
    pieces ([sep].intercalate ps) = ps := by
  induction ps with
  | nil => rfl
  | cons p ps ih =>
    have hp := h p List.mem_cons_self
    cases ps with
    | nil =>
      rw [List.intercalate_singleton]
      exact pieces_of_isRun hp
    | cons q ps =>
      have hends : ∀ c ∈ p.getLast?, EndsWord c (sep :: [sep].intercalate (q :: ps)) := by
        intro c _ d hd halpha
        cases hd
        exact absurd halpha hsep
      rw [List.intercalate_cons_cons, List.append_assoc, List.singleton_append,
        pieces_append hp hends, pieces_cons_of_not hsep, ih fun p hp =>
          h p (List.mem_cons_of_mem _ hp)]

/-! ## Words -/

theorem flatten_words (cs : List Char) :
    (words cs).flatten = (cs.filter isAlphanumeric).flatMap lowercase := by
  rw [words, ← List.flatMap_def, ← flatten_pieces, List.flatten_eq_flatMap, List.flatMap_assoc]
  rfl

theorem exists_of_mem_words (h : w ∈ words cs) : ∃ p ∈ pieces cs, p.flatMap lowercase = w :=
  List.mem_map.1 h

theorem ne_nil_of_mem_words (h : w ∈ words cs) : w ≠ [] := by
  obtain ⟨p, hp, rfl⟩ := exists_of_mem_words h
  obtain ⟨c, p, rfl⟩ := List.exists_cons_of_ne_nil (isRun_of_mem_pieces hp).ne_nil
  exact List.append_ne_nil_of_left_ne_nil (lowercase_ne_nil c) _

/-- A word has digits only or none. -/
theorem digits_of_mem_words (h : w ∈ words cs) :
    (∀ c ∈ w, isAsciiDigit c) ∨ ∀ c ∈ w, ¬isAsciiDigit c := by
  obtain ⟨p, hp, rfl⟩ := exists_of_mem_words h
  refine (isRun_of_mem_pieces hp).digits.imp (fun hall d hd => ?_) fun hnone d hd => ?_
  · obtain ⟨c, hc, hd⟩ := List.mem_flatMap.1 hd
    exact (isAsciiDigit_iff_of_mem_lowercase hd).2 (hall c hc)
  · obtain ⟨c, hc, hd⟩ := List.mem_flatMap.1 hd
    exact mt (isAsciiDigit_iff_of_mem_lowercase hd).1 (hnone c hc)

/-- A run in lower case. -/
structure IsWord (w : List Char) : Prop where
  isRun : IsRun w
  lower : w.flatMap lowercase = w

/-- **Words that are joined by what is no letter or number are the words.** -/
theorem words_intercalate (hsep : ¬isAlphanumeric sep) (h : ∀ w ∈ ws, IsWord w) :
    words ([sep].intercalate ws) = ws := by
  rw [words, pieces_intercalate hsep fun w hw => (h w hw).isRun]
  exact (List.map_congr_left fun w hw => (h w hw).lower).trans (List.map_id ws)

theorem splitsWord_eq_false (hd : isUppercase d = false)
    (hdigits : isAsciiDigit c = isAsciiDigit d) :
    splitsWord c d = false := by
  simp [splitsWord, hd, hdigits]

/-- What becomes of the letters and digits among the first 128 characters. -/
theorem toLower_of_isAscii (h : isAscii c) (hc : isAlphanumeric c) :
    isAlphanumeric c.toLower ∧ isUppercase c.toLower = false ∧
    isAsciiDigit c.toLower = isAsciiDigit c ∧ lowercase c.toLower = [c.toLower] :=
  forall_ascii (P := fun c => isAlphanumeric c → isAlphanumeric c.toLower ∧
    isUppercase c.toLower = false ∧
    isAsciiDigit c.toLower = isAsciiDigit c ∧ lowercase c.toLower = [c.toLower])
    (by decide +kernel) h hc

theorem flatMap_lowercase_of_isAscii (h : ∀ c ∈ p, isAscii c) :
    p.flatMap lowercase = p.map Char.toLower := by
  rw [List.map_eq_flatMap]
  exact List.flatMap_congr fun c hc => lowercase_of_isAscii (h c hc)

/-- The words of a text of the first 128 characters are runs in lower case. -/
theorem isWord_of_mem_words (hcs : ∀ c ∈ cs, isAscii c) (h : w ∈ words cs) : IsWord w := by
  obtain ⟨p, hp, rfl⟩ := exists_of_mem_words h
  have hrun := isRun_of_mem_pieces hp
  have hascii : ∀ c ∈ p, isAscii c := fun c hc => by
    have hmem : c ∈ (pieces cs).flatten := List.mem_flatten.2 ⟨p, hp, hc⟩
    rw [flatten_pieces] at hmem
    exact hcs c (List.mem_of_mem_filter hmem)
  have hlower {c : Char} (hc : c ∈ p) := toLower_of_isAscii (hascii c hc) (hrun.alphanumeric c hc)
  rw [flatMap_lowercase_of_isAscii hascii]
  refine ⟨⟨mt List.map_eq_nil_iff.1 hrun.ne_nil, fun d hd => ?_, ?_⟩, ?_⟩
  · obtain ⟨c, hc, rfl⟩ := List.mem_map.1 hd
    exact (hlower hc).1
  · rw [List.isChain_map]
    refine hrun.unsplit.imp_of_mem_imp fun c d hc hd hsplit => ?_
    obtain ⟨-, -, hdigit, -⟩ := hlower hc
    obtain ⟨-, hupper, hdigit', -⟩ := hlower hd
    refine splitsWord_eq_false hupper ?_
    rw [hdigit, hdigit']
    simpa using (Bool.or_eq_false_iff.1 hsplit).2
  · rw [List.flatMap_map, List.map_eq_flatMap]
    exact List.flatMap_congr fun c hc => (hlower hc).2.2.2

/-! ## Identifiers -/

/-- The words joined by blanks. -/
def spaced (ws : List (List Char)) : List Char := [' '].intercalate ws

def snakeCase (ws : List (List Char)) : List Char := ['_'].intercalate ws

def capitalize (w : List Char) : List Char := w.modifyHead Char.toUpper

def camelCase : List (List Char) → List Char
  | [] => []
  | w :: ws => w ++ ws.flatMap capitalize

/-- A word of small letters. -/
structure IsSmall (w : List Char) : Prop where
  ne_nil : w ≠ []
  small : ∀ c ∈ w, isAsciiLower c

/-- What small letters are. -/
theorem letter_of_isAsciiLower (h : isAsciiLower c) :
    isAlphanumeric c ∧ isLowercase c ∧ isUppercase c = false ∧ isAsciiDigit c = false ∧
    lowercase c = [c] :=
  forall_ascii (P := fun c => isAsciiLower c → isAlphanumeric c ∧ isLowercase c ∧
    isUppercase c = false ∧
    isAsciiDigit c = false ∧ lowercase c = [c]) (by decide +kernel) (isAscii_of_isAsciiLower h) h

/-- What their capitals are. -/
theorem capital_of_isAsciiLower (h : isAsciiLower c) :
    isAlphanumeric c.toUpper ∧ isUppercase c.toUpper ∧ isAsciiDigit c.toUpper = false ∧
    lowercase c.toUpper = [c] :=
  forall_ascii (P := fun c => isAsciiLower c → isAlphanumeric c.toUpper ∧ isUppercase c.toUpper ∧
    isAsciiDigit c.toUpper = false ∧ lowercase c.toUpper = [c])
    (by decide +kernel) (isAscii_of_isAsciiLower h) h

theorem flatMap_lowercase_of_isAsciiLower (h : ∀ c ∈ w, isAsciiLower c) :
    w.flatMap lowercase = w := by
  conv_rhs => rw [← List.flatMap_singleton' w]
  exact List.flatMap_congr fun c hc => (letter_of_isAsciiLower (h c hc)).2.2.2.2

theorem IsSmall.isWord (h : IsSmall w) : IsWord w where
  isRun := {
    ne_nil := h.ne_nil
    alphanumeric := fun c hc => (letter_of_isAsciiLower (h.small c hc)).1
    unsplit := by
      refine (List.pairwise_of_forall_mem_list fun c hc d hd => ?_).isChain
      obtain ⟨-, -, -, hdigit, -⟩ := letter_of_isAsciiLower (h.small c hc)
      obtain ⟨-, -, hupper, hdigit', -⟩ := letter_of_isAsciiLower (h.small d hd)
      exact splitsWord_eq_false hupper (hdigit.trans hdigit'.symm) }
  lower := flatMap_lowercase_of_isAsciiLower h.small

/-- A capitalized word is a run: its capital is followed by no other one. -/
theorem IsSmall.isRun_capitalize (h : IsSmall w) : IsRun (capitalize w) := by
  obtain ⟨c, w, rfl⟩ := List.exists_cons_of_ne_nil h.ne_nil
  obtain ⟨hc, hw⟩ := List.forall_mem_cons.1 h.small
  obtain ⟨halpha, -, hdigit, -⟩ := capital_of_isAsciiLower hc
  cases w with
  | nil => exact .single halpha
  | cons d w =>
    have htail : IsSmall (d :: w) := ⟨List.cons_ne_nil d w, hw⟩
    obtain ⟨-, -, hupper, hdigit', -⟩ := letter_of_isAsciiLower (hw d List.mem_cons_self)
    exact htail.isWord.isRun.cons halpha (splitsWord_eq_false hupper (hdigit.trans hdigit'.symm))

theorem IsSmall.lower_capitalize (h : IsSmall w) : (capitalize w).flatMap lowercase = w := by
  obtain ⟨c, w, rfl⟩ := List.exists_cons_of_ne_nil h.ne_nil
  obtain ⟨hc, hw⟩ := List.forall_mem_cons.1 h.small
  obtain ⟨-, -, -, hlower⟩ := capital_of_isAsciiLower hc
  rw [capitalize, List.modifyHead_cons, List.flatMap_cons, hlower,
    flatMap_lowercase_of_isAsciiLower hw, List.singleton_append]

/-- A word ends between a small letter and a capitalized word. -/
theorem endsWord_capitals (hc : isAsciiLower c) (h : ∀ w ∈ ws, IsSmall w) :
    EndsWord c (ws.flatMap capitalize) := by
  cases ws with
  | nil => exact endsWord_nil c
  | cons w ws =>
    have hw := h w List.mem_cons_self
    obtain ⟨d, w, rfl⟩ := List.exists_cons_of_ne_nil hw.ne_nil
    obtain ⟨-, hlower, -, -, -⟩ := letter_of_isAsciiLower hc
    obtain ⟨-, hupper, -, -⟩ := capital_of_isAsciiLower (hw.small d List.mem_cons_self)
    intro e he _
    cases he
    rw [splitsWord, hlower, hupper]
    rfl

/-- Of more than one letter the last stays small. -/
theorem mem_of_mem_getLast?_capitalize (h : 2 ≤ w.length) (hc : c ∈ (capitalize w).getLast?) :
    c ∈ w := by
  match w, h with
  | a :: b :: w, _ =>
    have hlast : c ∈ b :: w := List.mem_of_mem_getLast? hc
    exact List.mem_cons_of_mem a hlast

/-- Capitalized words are the pieces of what they are put together to. Of the words before the last
one a single letter would not do: it has no small letter before the next capital. -/
theorem pieces_capitals (h : ∀ w ∈ ws, IsSmall w) (hlong : ∀ w ∈ ws.dropLast, 2 ≤ w.length) :
    pieces (ws.flatMap capitalize) = ws.map capitalize := by
  induction ws with
  | nil => rfl
  | cons w ws ih =>
    obtain ⟨hw, hws⟩ := List.forall_mem_cons.1 h
    cases ws with
    | nil =>
      rw [List.flatMap_singleton]
      exact pieces_of_isRun hw.isRun_capitalize
    | cons w' ws =>
      obtain ⟨hlength, hlong⟩ := List.forall_mem_cons.1 hlong
      have hends : ∀ c ∈ (capitalize w).getLast?, EndsWord c ((w' :: ws).flatMap capitalize) :=
        fun c hc => endsWord_capitals (hw.small c (mem_of_mem_getLast?_capitalize hlength hc)) hws
      rw [List.flatMap_cons, pieces_append hw.isRun_capitalize hends, ih hws hlong]
      rfl

/-- **The words of an identifier whose further words are capitalized.** -/
theorem words_camelCase (h : ∀ w ∈ ws, IsSmall w) (hlong : ∀ w ∈ ws.tail.dropLast, 2 ≤ w.length) :
    words (camelCase ws) = ws := by
  cases ws with
  | nil => rfl
  | cons w ws =>
    obtain ⟨hw, hws⟩ := List.forall_mem_cons.1 h
    have hends : ∀ c ∈ w.getLast?, EndsWord c (ws.flatMap capitalize) := fun c hc =>
      endsWord_capitals (hw.small c (List.mem_of_mem_getLast? hc)) hws
    rw [words, camelCase, pieces_append hw.isWord.isRun hends, pieces_capitals hws hlong,
      List.map_cons, hw.isWord.lower, List.map_map]
    congr 1
    exact (List.map_congr_left fun w hw => (hws w hw).lower_capitalize).trans (List.map_id ws)

/-- **Identifiers and prose split into the same words.** Words are what is left of a text in lower
case without what is no letter or number, cut into nonempty parts that have digits only or none.
Joined by blanks, the words of a text of the first 128 characters are the words of the result. Words
of small letters are found again, however an identifier or phrase is spelled with them, so the
spellings have one vector; only a single letter between others cannot be told from the next word
once both are capitalized. -/
theorem words_spelled (cs : List Char) (ws : List (List Char)) :
    ((words cs).flatten = (cs.filter isAlphanumeric).flatMap lowercase ∧
      ∀ w ∈ words cs, w ≠ [] ∧ ((∀ c ∈ w, isAsciiDigit c) ∨ ∀ c ∈ w, ¬isAsciiDigit c)) ∧
    ((∀ c ∈ cs, isAscii c) → words (spaced (words cs)) = words cs) ∧
    ((∀ w ∈ ws, w ≠ [] ∧ ∀ c ∈ w, isAsciiLower c) → (∀ w ∈ ws.tail.dropLast, 2 ≤ w.length) →
      words (camelCase ws) = ws ∧ words (snakeCase ws) = ws ∧ words (spaced ws) = ws ∧
      ∀ dimensions, wordVector dimensions (String.ofList (camelCase ws)) =
          wordVector dimensions (String.ofList (spaced ws)) ∧
        wordVector dimensions (String.ofList (snakeCase ws)) =
          wordVector dimensions (String.ofList (spaced ws))) := by
  refine ⟨⟨flatten_words cs, fun w hw => ⟨ne_nil_of_mem_words hw, digits_of_mem_words hw⟩⟩,
    fun hascii => ?_, fun hsmall hlong => ?_⟩
  · exact words_intercalate (by decide) fun w => isWord_of_mem_words hascii
  · have hwords : ∀ w ∈ ws, IsSmall w := fun w hw => ⟨(hsmall w hw).1, (hsmall w hw).2⟩
    have hcamel : words (camelCase ws) = ws := words_camelCase hwords hlong
    have hsnake : words (snakeCase ws) = ws :=
      words_intercalate (by decide) fun w hw => (hwords w hw).isWord
    have hspaced : words (spaced ws) = ws :=
      words_intercalate (by decide) fun w hw => (hwords w hw).isWord
    refine ⟨hcamel, hsnake, hspaced, fun dimensions => ⟨?_, ?_⟩⟩
    · simp only [wordVector, String.toList_ofList, hcamel, hspaced]
    · simp only [wordVector, String.toList_ofList, hsnake, hspaced]

/-- The words of an identifier in its spellings, and of a call of it with a digit in
the argument. -/
theorem words_spelled_parseYamlFile :
    let call := "parseYamlFile(path2)".toList
    let file := ["parse".toList, "yaml".toList, "file".toList]
    camelCase file = "parseYamlFile".toList ∧ snakeCase file = "parse_yaml_file".toList ∧
      words "parseYamlFile".toList = file ∧ words "parse_yaml_file".toList = file ∧
      words call = file ++ ["path".toList, "2".toList] ∧ words (spaced (words call)) = words call ∧
      wordVector 384 "parseYamlFile" = wordVector 384 "parse yaml file" := by
  intro call file
  have hcamel : camelCase file = "parseYamlFile".toList := by decide +kernel
  have hsnake : snakeCase file = "parse_yaml_file".toList := by decide +kernel
  have hspaced : spaced file = "parse yaml file".toList := by decide +kernel
  have hascii : call.all isAscii := by decide +kernel
  have hsmall : ∀ w ∈ file, w ≠ [] ∧ w.all isAsciiLower := by decide +kernel
  obtain ⟨-, hagain, hspelled⟩ := words_spelled call file
  obtain ⟨hcamel', hsnake', -, hvectors⟩ :=
    hspelled (fun w hw => (hsmall w hw).imp_right List.all_eq_true.1) (by decide +kernel)
  have hvector := (hvectors 384).1
  rw [hcamel, hspaced] at hvector
  rw [hcamel] at hcamel'
  rw [hsnake] at hsnake'
  exact ⟨hcamel, hsnake, hcamel', hsnake', by decide +kernel,
    hagain (List.all_eq_true.1 hascii), hvector⟩

end CodeGraph.Embedding
