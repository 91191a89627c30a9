import HackComputer.Text.Blank
import HackComputer.Text.Numeral

/-!
# `HackComputer.Proofs.Text.Lines`: texts that are read as they were written

A text is written line by line, and read by cutting it into lines, cutting
off comments and dropping blanks. The laws here say when the reading side
changes nothing:

* `lines_flatMap`: lines without line ends of their own come back from the
  text that they were written to.
* `squeeze_uncommented`: characters that are neither slashes nor blanks
  pass through unchanged.
* `isCode_uncommented`: what is left of a line without its comment.
* `splitOnce_append`, `splitOnce_of_not_mem`: a text is cut at the first
  separator, or not at all. `splitOnce_cases` has both.
* `words_eq_iff`: what the words of a text are.
* `eq_space_of_mem_normalized`: a normalized text holds no line end.
* `decimal?_eq_some_iff`, `unsigned?_eq_some_iff`: what is read as a
  number.
* `not_mem_toDigits`, `toDigits_inj`: numbers hold digits only, and are
  written in one way.
-/

set_option autoImplicit false

namespace HackComputer.Text

/-! ### Lines -/

/-- Cutting before a character: a line feed is a piece of its own, and any
other character joins the first piece. -/
theorem pieces_cons (c : Char) (cs : List Char) :
    pieces (c :: cs) = if c = '\n' then ['\n'] :: pieces cs
      else match pieces cs with
        | [] => [[c]]
        | p :: ps => (c :: p) :: ps := rfl

/-- The first line of a text is its first piece. -/
theorem pieces_append {line : List Char} (h : '\n' ∉ line) (rest : List Char) :
    pieces (line ++ '\n' :: rest) = (line ++ ['\n']) :: pieces rest := by
  induction line with
  | nil => simp [pieces_cons]
  | cons c line ih =>
      rw [List.mem_cons, not_or] at h
      rw [List.cons_append, pieces_cons, if_neg (Ne.symm h.1), ih h.2]
      rfl

/-- A line end is taken off if the line does not look like one itself. -/
theorem chomp_append {line : List Char} (h : line.getLast? ≠ some '\r') :
    chomp (line ++ ['\n']) = line := by
  simp [chomp, h]

/-- **Lines that are written are read back.** The carriage return matters
because one before a line feed belongs to the line end. -/
theorem lines_flatMap {ls : List (List Char)}
    (h : ∀ line ∈ ls, '\n' ∉ line ∧ line.getLast? ≠ some '\r') :
    lines (ls.flatMap (· ++ ['\n'])) = ls := by
  induction ls with
  | nil => rfl
  | cons line ls ih =>
      obtain ⟨hfeed, hreturn⟩ := h line List.mem_cons_self
      have hrest := ih fun line' hline' => h line' (List.mem_cons_of_mem line hline')
      rw [lines] at hrest ⊢
      rw [List.flatMap_cons, List.append_assoc, List.singleton_append, pieces_append hfeed,
        List.map_cons, chomp_append hreturn, hrest]

/-! ### Comments, blanks and separators -/

/-- Without slashes there is no comment. -/
theorem uncommented_of_not_mem {cs : List Char} (h : '/' ∉ cs) : uncommented cs = cs := by
  induction cs with
  | nil => rfl
  | cons c cs ih =>
      rw [List.mem_cons, not_or] at h
      rw [uncommented_cons, if_neg (fun hslash => h.1 hslash.1.symm), ih h.2]

/-- A line that starts with a comment is empty. -/
theorem uncommented_comment (cs : List Char) : uncommented ('/' :: '/' :: cs) = [] := by
  simp [uncommented_cons]

/-- `code` is the line up to its first pair of slashes, or all of it. -/
def IsCode (line code : List Char) : Prop :=
  code = line ∧ ¬['/', '/'] <:+: line ∨
    ∃ comment, line = code ++ '/' :: '/' :: comment ∧ ¬['/', '/'] <:+: code ++ ['/']

/-- A pair of slashes at the start. -/
theorem pair_prefix_cons_iff (c : Char) (cs : List Char) :
    ['/', '/'] <+: c :: cs ↔ c = '/' ∧ cs.head? = some '/' := by
  cases cs with
  | nil => simp
  | cons d ds => simp [eq_comm]

/-- **The code of a line ends where its comment starts.** -/
theorem isCode_uncommented (line : List Char) : IsCode line (uncommented line) := by
  induction line with
  | nil => exact .inl ⟨rfl, by simp⟩
  | cons c cs ih =>
      rw [uncommented_cons]
      by_cases hpair : c = '/' ∧ cs.head? = some '/'
      · obtain ⟨rfl, hhead⟩ := hpair
        obtain ⟨comment, rfl⟩ := List.head?_eq_some_iff.mp hhead
        rw [if_pos ⟨rfl, rfl⟩]
        exact .inr ⟨comment, rfl, by simp [List.infix_cons_iff]⟩
      · rw [if_neg hpair]
        rcases ih with ⟨hall, hnone⟩ | ⟨comment, hcs, hfirst⟩
        · refine .inl ⟨by rw [hall], ?_⟩
          rw [List.infix_cons_iff, pair_prefix_cons_iff]
          exact not_or.mpr ⟨hpair, hnone⟩
        · refine .inr ⟨comment, by rw [List.cons_append, ← hcs], ?_⟩
          -- The code with one more slash starts like the line does.
          have hhead : (uncommented cs ++ ['/']).head? = cs.head? := by
            conv => rhs; rw [hcs]
            cases uncommented cs <;> rfl
          rw [List.cons_append, List.infix_cons_iff, pair_prefix_cons_iff, hhead]
          exact not_or.mpr ⟨hpair, hfirst⟩

/-- The character is neither a slash nor a blank. -/
def isPlain (c : Char) : Bool :=
  c != '/' && !isBlank c

/-- **Plain characters are read as they are.** -/
theorem squeeze_uncommented {cs : List Char} (h : ∀ c ∈ cs, isPlain c = true) :
    squeeze (uncommented cs) = cs := by
  have hslash : '/' ∉ cs := by
    intro hmem
    exact absurd (h '/' hmem) (by decide)
  rw [uncommented_of_not_mem hslash, squeeze, List.filter_eq_self]
  intro c hc
  have hplain := h c hc
  simp only [isPlain, Bool.and_eq_true] at hplain
  exact hplain.2

/-- A text without blanks has none at its ends. -/
theorem trim_of_plain {cs : List Char} (h : ∀ c ∈ cs, isPlain c = true) : trim cs = cs := by
  have hkeep : ∀ ds : List Char, (∀ c ∈ ds, isPlain c = true) → ds.dropWhile isBlank = ds := by
    intro ds hds
    cases ds with
    | nil => rfl
    | cons d ds =>
        have hd := hds d List.mem_cons_self
        simp only [isPlain, Bool.and_eq_true, Bool.not_eq_true'] at hd
        simp [hd.2]
  rw [trim, hkeep cs h, hkeep cs.reverse (by simpa using h), List.reverse_reverse]

/-- A line feed and a carriage return are blanks. -/
theorem not_lineEnd_of_plain {cs : List Char} (h : ∀ c ∈ cs, isPlain c = true) :
    '\n' ∉ cs ∧ cs.getLast? ≠ some '\r' := by
  constructor
  · intro hmem
    exact absurd (h '\n' hmem) (by decide)
  · intro hlast
    exact absurd (h '\r' (List.mem_of_getLast? hlast)) (by decide)

/-- In a text without the separator every character is another one. -/
theorem bne_of_not_mem {sep : Char} {xs : List Char} (h : sep ∉ xs) :
    ∀ c ∈ xs, (c != sep) = true := by
  intro c hc
  rw [bne_iff_ne]
  intro heq
  exact h (heq ▸ hc)

/-- A text is cut at the first separator. -/
theorem splitOnce_append {sep : Char} {xs : List Char} (h : sep ∉ xs) (ys : List Char) :
    splitOnce sep (xs ++ sep :: ys) = some (xs, ys) := by
  rw [splitOnce, List.dropWhile_append_of_pos (bne_of_not_mem h),
    List.takeWhile_append_of_pos (bne_of_not_mem h)]
  simp

/-- A text without the separator is not cut. -/
theorem splitOnce_of_not_mem {sep : Char} {xs : List Char} (h : sep ∉ xs) :
    splitOnce sep xs = none := by
  have hdrop : (xs ++ []).dropWhile (· != sep) = [] :=
    List.dropWhile_append_of_pos (bne_of_not_mem h)
  rw [List.append_nil] at hdrop
  rw [splitOnce, hdrop]

/-- A text is cut at its first separator if it has one. -/
theorem splitOnce_cases (sep : Char) (cs : List Char) :
    sep ∉ cs ∧ splitOnce sep cs = none ∨
    ∃ xs ys, cs = xs ++ sep :: ys ∧ sep ∉ xs ∧ splitOnce sep cs = some (xs, ys) := by
  by_cases hmem : sep ∈ cs
  · obtain ⟨xs, ys, rfl, hfirst⟩ := List.eq_append_cons_of_mem hmem
    exact .inr ⟨xs, ys, rfl, hfirst, splitOnce_append hfirst ys⟩
  · exact .inl ⟨hmem, splitOnce_of_not_mem hmem⟩

/-! ### Words -/

/-- A character at which the text is cut starts a field, and any other
joins the first one. -/
theorem fields_cons (p : Char → Bool) (c : Char) (cs : List Char) :
    fields p (c :: cs) = if p c then [] :: fields p cs
      else (fields p cs).modifyHead (c :: ·) := rfl

/-- No field holds a character at which the text was cut. -/
theorem not_of_mem_fields (p : Char → Bool) (cs : List Char) :
    ∀ field ∈ fields p cs, ∀ c ∈ field, p c = false := by
  induction cs with
  | nil => simp [fields]
  | cons c cs ih =>
      rw [fields_cons]
      by_cases hp : p c = true
      · rw [if_pos hp]
        intro field hfield
        rcases List.mem_cons.mp hfield with rfl | hfield
        · simp
        · exact ih field hfield
      · rw [if_neg hp]
        cases hrest : fields p cs with
        | nil => simp
        | cons first rest =>
            rw [hrest] at ih
            intro field hfield
            rcases List.mem_cons.mp hfield with rfl | hfield
            · intro d hd
              rcases List.mem_cons.mp hd with rfl | hd
              · simpa using hp
              · exact ih first List.mem_cons_self d hd
            · exact ih field (List.mem_cons_of_mem first hfield)

/-- `ws` are the words of the text: runs of characters that are not blank,
each as long as it can be, with nothing but blanks around them. -/
inductive AreWords : List Char → List (List Char) → Prop
  | none {gap : List Char} (hgap : ∀ c ∈ gap, isBlank c = true) : AreWords gap []
  | cons {gap word rest : List Char} {ws : List (List Char)}
      (hgap : ∀ c ∈ gap, isBlank c = true) (hsome : word ≠ [])
      (hword : ∀ c ∈ word, isBlank c = false) (hend : ∀ c ∈ rest.head?, isBlank c = true)
      (hrest : AreWords rest ws) : AreWords (gap ++ (word ++ rest)) (word :: ws)

/-- Blanks in front of a text do not change its words. -/
theorem words_append_of_blank {gap : List Char} (h : ∀ c ∈ gap, isBlank c = true)
    (rest : List Char) : words (gap ++ rest) = words rest := by
  induction gap with
  | nil => rfl
  | cons c gap ih =>
      rw [List.forall_mem_cons] at h
      rw [List.cons_append, words, fields_cons, if_pos h.1]
      exact ih h.2

/-- Characters at which a text is not cut join its first field. -/
theorem fields_append_of_not {p : Char → Bool} {front : List Char}
    (h : ∀ c ∈ front, p c = false) (rest : List Char) :
    fields p (front ++ rest) = (fields p rest).modifyHead (front ++ ·) := by
  induction front with
  | nil =>
      rw [List.nil_append]
      cases fields p rest <;> rfl
  | cons c front ih =>
      rw [List.forall_mem_cons] at h
      rw [List.cons_append, fields_cons, h.1, ih h.2, List.modifyHead_modifyHead]
      rfl

/-- There is always a field. -/
theorem fields_ne_nil (p : Char → Bool) (cs : List Char) : fields p cs ≠ [] := by
  induction cs with
  | nil => simp [fields]
  | cons c cs ih =>
      rw [fields_cons]
      split
      · exact List.cons_ne_nil _ _
      · rwa [ne_eq, List.modifyHead_eq_nil_iff]

/-- The fields on the two sides of a cut. -/
theorem fields_append_cons {p : Char → Bool} {sep : Char} (h : p sep = true)
    (front rest : List Char) :
    fields p (front ++ sep :: rest) = fields p front ++ fields p rest := by
  induction front with
  | nil => rw [List.nil_append, fields_cons, if_pos h]; rfl
  | cons c front ih =>
      rw [List.cons_append, fields_cons, fields_cons, ih]
      split
      · rfl
      · cases hfront : fields p front with
        | nil => exact absurd hfront (fields_ne_nil p front)
        | cons first later => rfl

/-- The first word ends before the first blank behind it. -/
theorem words_append_of_not_blank {word rest : List Char} (hsome : word ≠ [])
    (hword : ∀ c ∈ word, isBlank c = false) (hend : ∀ c ∈ rest.head?, isBlank c = true) :
    words (word ++ rest) = word :: words rest := by
  -- Behind the word a field ends, so the first field of the rest is empty.
  obtain ⟨later, hlater⟩ : ∃ later, fields isBlank rest = [] :: later := by
    cases rest with
    | nil => exact ⟨[], rfl⟩
    | cons c rest => exact ⟨fields isBlank rest, by rw [fields_cons, if_pos (hend c rfl)]⟩
  rw [words, words, fields_append_of_not hword, hlater]
  simp [hsome]

/-- A text may start with its first word. -/
theorem AreWords.cons_word {word rest : List Char} {ws : List (List Char)} (hsome : word ≠ [])
    (hword : ∀ c ∈ word, isBlank c = false) (hend : ∀ c ∈ rest.head?, isBlank c = true)
    (hrest : AreWords rest ws) : AreWords (word ++ rest) (word :: ws) := by
  have hgap : ∀ c ∈ ([] : List Char), isBlank c = true := by simp
  exact .cons hgap hsome hword hend hrest

/-- A blank in front belongs to no word. -/
theorem AreWords.cons_blank {c : Char} {cs : List Char} {ws : List (List Char)}
    (hc : isBlank c = true) (h : AreWords cs ws) : AreWords (c :: cs) ws := by
  cases h with
  | none hgap => exact .none (List.forall_mem_cons.mpr ⟨hc, hgap⟩)
  | cons hgap hsome hword hend hrest =>
      exact .cons (List.forall_mem_cons.mpr ⟨hc, hgap⟩) hsome hword hend hrest

/-- Any other character joins the first word if it stands right before
it, and is a word of its own if not. -/
theorem AreWords.exists_cons {c : Char} {cs : List Char} {ws : List (List Char)}
    (hc : isBlank c = false) (h : AreWords cs ws) : ∃ ws', AreWords (c :: cs) ws' := by
  have hone : ∀ d ∈ [c], isBlank d = false := by simp [hc]
  cases h with
  | none hgap =>
      refine ⟨[[c]], .cons_word (List.cons_ne_nil c []) hone ?_ (.none hgap)⟩
      intro d hd
      exact hgap d (List.mem_of_mem_head? hd)
  | @cons gap word rest ws hgap hsome hword hend hrest =>
      cases gap with
      | nil =>
          exact ⟨(c :: word) :: ws, .cons_word (List.cons_ne_nil c word)
            (List.forall_mem_cons.mpr ⟨hc, hword⟩) hend hrest⟩
      | cons d gap =>
          refine ⟨[c] :: word :: ws, .cons_word (List.cons_ne_nil c []) hone ?_
            (.cons hgap hsome hword hend hrest)⟩
          intro e he
          obtain rfl : d = e := Option.some.inj he
          exact hgap d List.mem_cons_self

/-- Every text has words. -/
theorem exists_areWords (cs : List Char) : ∃ ws, AreWords cs ws := by
  induction cs with
  | nil => exact ⟨[], .none (by simp)⟩
  | cons c cs ih =>
      obtain ⟨ws, hws⟩ := ih
      cases hc : isBlank c with
      | true => exact ⟨ws, hws.cons_blank hc⟩
      | false => exact hws.exists_cons hc

/-- **A text is cut into its words.** -/
theorem words_eq_iff {cs : List Char} {ws : List (List Char)} :
    words cs = ws ↔ AreWords cs ws := by
  have hcut : ∀ {cs ws}, AreWords cs ws → words cs = ws := by
    intro cs ws h
    induction h with
    | @none gap hgap =>
        have hblank := words_append_of_blank hgap []
        rwa [List.append_nil] at hblank
    | cons hgap hsome hword hend hrest ih =>
        rw [words_append_of_blank hgap, words_append_of_not_blank hsome hword hend, ih]
  refine ⟨?_, hcut⟩
  rintro rfl
  obtain ⟨ws, hws⟩ := exists_areWords cs
  rwa [hcut hws]

/-- What stands between separators comes from one of the parts. -/
theorem mem_intercalate {c : Char} {sep : List Char} {parts : List (List Char)}
    (h : c ∈ sep.intercalate parts) : c ∈ sep ∨ ∃ part ∈ parts, c ∈ part := by
  induction parts with
  | nil => cases h
  | cons part parts ih =>
      cases parts with
      | nil =>
          rw [List.intercalate_singleton] at h
          exact .inr ⟨part, List.mem_cons_self, h⟩
      | cons next parts =>
          rw [List.intercalate_cons_cons, List.append_assoc, List.mem_append, List.mem_append] at h
          rcases h with hpart | hsep | hrest
          · exact .inr ⟨part, List.mem_cons_self, hpart⟩
          · exact .inl hsep
          · exact (ih hrest).imp_right fun ⟨later, hlater, hc⟩ =>
              ⟨later, List.mem_cons_of_mem part hlater, hc⟩

/-- Of all blanks only the space is left in a normalized text. -/
theorem eq_space_of_mem_normalized {cs : List Char} {c : Char} (hc : c ∈ normalized cs)
    (hblank : isBlank c = true) : c = ' ' := by
  rcases mem_intercalate hc with hspace | ⟨word, hword, hmem⟩
  · exact List.mem_singleton.mp hspace
  · have hfield := (List.mem_filter.mp hword).1
    rw [not_of_mem_fields isBlank cs word hfield c hmem] at hblank
    cases hblank

/-! ### Numbers -/

/-- What is read as a number: digits, at least one of them. -/
theorem decimal?_eq_some_iff (cs : List Char) (n : Nat) :
    decimal? cs = some n ↔
      cs ≠ [] ∧ (∀ c ∈ cs, c.isDigit = true) ∧ Nat.ofDigitChars 10 cs 0 = n := by
  simp [decimal?, ← and_assoc]

/-- A number may have a plus sign in front. -/
theorem unsigned?_eq_some_iff (cs : List Char) (n : Nat) :
    unsigned? cs = some n ↔
      ∃ digits, (cs = digits ∨ cs = '+' :: digits) ∧ digits ≠ [] ∧
        (∀ c ∈ digits, c.isDigit = true) ∧ Nat.ofDigitChars 10 digits 0 = n := by
  unfold unsigned?
  split
  · rename_i digits
    rw [decimal?_eq_some_iff]
    constructor
    · intro h
      exact ⟨digits, .inr rfl, h⟩
    · rintro ⟨digits', rfl | hdigits, hsome, hdigit, hvalue⟩
      · -- The plus sign is no digit.
        exact absurd (hdigit '+' List.mem_cons_self) (by decide)
      · cases hdigits
        exact ⟨hsome, hdigit, hvalue⟩
  · rename_i hplain
    rw [decimal?_eq_some_iff]
    constructor
    · intro h
      exact ⟨cs, .inl rfl, h⟩
    · rintro ⟨digits, rfl | rfl, h⟩
      · exact h
      · exact absurd rfl (hplain digits)

/-- A number holds digits only. -/
theorem not_mem_toDigits {c : Char} (h : c.isDigit = false) (n : Nat) :
    c ∉ Nat.toDigits 10 n := by
  intro hmem
  rw [Nat.isDigit_of_mem_toDigits (by decide) (by decide) hmem] at h
  cases h

/-- Numbers that are written alike are one number. -/
theorem toDigits_inj {m n : Nat} (h : Nat.toDigits 10 m = Nat.toDigits 10 n) : m = n := by
  have hread := decimal?_toDigits m
  rw [h, decimal?_toDigits n] at hread
  exact (Option.some.inj hread).symm

/-- A number is written with its decimal digits. -/
theorem toList_decimal (n : Nat) : (decimal n).toList = Nat.toDigits 10 n := by
  simp [decimal]

end HackComputer.Text
