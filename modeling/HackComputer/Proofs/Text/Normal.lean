import HackComputer.Proofs.Text.Lines

/-!
# `HackComputer.Proofs.Text.Normal`: texts in normal form

A source is cut into lines, a line loses its comment, and what is left is
written with one space between its words. This file says what the three
operations are, by relations that do not walk through a text, and that the
result is a normal form: it has no comment, no blank at its ends, no line end,
and is read as itself.

* `AreLines`, `lines_eq_iff`: what the lines of a text are.
* `uncommented_eq_iff`: what is left of a line without its comment.
* `of_mem_words`, `areWords_intercalate`: what the words of that are, and that
  they come back from the text in which single spaces stand between them.
* `lines_intercalate`: lines that are not empty come back from the text in
  which line feeds stand between them.
* `normalized_uncommented_self`: a text in normal form is its own normal form.
  Removing blanks never makes a comment, because a space is left wherever two
  words meet (`pair_infix_append_space`).
-/

set_option autoImplicit false

namespace HackComputer.Text

/-! ### Lines -/

/-- `ls` are the lines of the text. A line ends at a line feed, and one
carriage return before it belongs to the line end. Behind the last line feed
a line is only what is not empty, and a carriage return is part of it. -/
inductive AreLines : List Char → List (List Char) → Prop
  | none : AreLines [] []
  | last {line : List Char} (hsome : line ≠ []) (hline : '\n' ∉ line) : AreLines line [line]
  | feed {line rest : List Char} {ls : List (List Char)} (hline : '\n' ∉ line)
      (hreturn : line.getLast? ≠ some '\r') (hrest : AreLines rest ls) :
      AreLines (line ++ '\n' :: rest) (line :: ls)
  | returnFeed {line rest : List Char} {ls : List (List Char)} (hline : '\n' ∉ line)
      (hrest : AreLines rest ls) : AreLines (line ++ '\r' :: '\n' :: rest) (line :: ls)

/-- A text without a line feed is one piece. -/
theorem pieces_of_not_mem {line : List Char} (hsome : line ≠ []) (h : '\n' ∉ line) :
    pieces line = [line] := by
  induction line with
  | nil => exact absurd rfl hsome
  | cons c line ih =>
      rw [List.mem_cons, not_or] at h
      rw [pieces_cons, if_neg (Ne.symm h.1)]
      cases line with
      | nil => rfl
      | cons d line => rw [ih (List.cons_ne_nil d line) h.2]

/-- A piece without a line feed has no line end. -/
theorem chomp_of_not_mem {line : List Char} (h : '\n' ∉ line) : chomp line = line := by
  rw [chomp, if_neg]
  intro hlast
  exact h (List.mem_of_getLast? hlast)

/-- The first line of a text ends at the first line feed. -/
theorem lines_append {line : List Char} (h : '\n' ∉ line) (rest : List Char) :
    lines (line ++ '\n' :: rest) = chomp (line ++ ['\n']) :: lines rest := by
  rw [lines, pieces_append h]
  rfl

/-- Cutting a text at its line ends yields its lines. -/
theorem AreLines.lines_eq {cs : List Char} {ls : List (List Char)} (h : AreLines cs ls) :
    lines cs = ls := by
  induction h with
  | none => rfl
  | last hsome hline => rw [lines, pieces_of_not_mem hsome hline, List.map_singleton,
      chomp_of_not_mem hline]
  | feed hline hreturn hrest ih => rw [lines_append hline, chomp_append hreturn, ih]
  | @returnFeed line rest ls hline hrest ih =>
      have hline' : '\n' ∉ line ++ ['\r'] := by simp [hline]
      have hcut := lines_append hline' rest
      rw [List.append_assoc, List.singleton_append] at hcut
      rw [hcut, ih]
      simp [chomp]

/-- Every text has lines. -/
theorem exists_areLines (cs : List Char) : ∃ ls, AreLines cs ls := by
  by_cases hfeed : '\n' ∈ cs
  · obtain ⟨line, rest, hcs, hline⟩ := List.eq_append_cons_of_mem hfeed
    have hshorter : rest.length < cs.length := by simp [hcs]; omega
    obtain ⟨ls, hls⟩ := exists_areLines rest
    rw [hcs]
    -- One carriage return before the line feed is not part of the line.
    by_cases hreturn : line.getLast? = some '\r'
    · obtain ⟨front, rfl⟩ := List.getLast?_eq_some_iff.mp hreturn
      rw [List.append_assoc]
      exact ⟨front :: ls, .returnFeed (fun h => hline (List.mem_append_left _ h)) hls⟩
    · exact ⟨line :: ls, .feed hline hreturn hls⟩
  · cases cs with
    | nil => exact ⟨[], .none⟩
    | cons c cs => exact ⟨[c :: cs], .last (List.cons_ne_nil c cs) hfeed⟩
termination_by cs.length

/-- **A text is cut into its lines.** -/
theorem lines_eq_iff {cs : List Char} {ls : List (List Char)} :
    lines cs = ls ↔ AreLines cs ls := by
  refine ⟨?_, AreLines.lines_eq⟩
  rintro rfl
  obtain ⟨ls, hls⟩ := exists_areLines cs
  rwa [hls.lines_eq]

/-- **Lines come back from the text in which line feeds stand between them**,
if none of them is empty or looks like a line end. -/
theorem lines_intercalate {ls : List (List Char)}
    (h : ∀ line ∈ ls, line ≠ [] ∧ '\n' ∉ line ∧ line.getLast? ≠ some '\r') :
    lines (['\n'].intercalate ls) = ls := by
  rw [lines_eq_iff]
  induction ls with
  | nil => exact .none
  | cons line ls ih =>
      obtain ⟨⟨hsome, hfeed, hreturn⟩, hrest⟩ := List.forall_mem_cons.mp h
      cases ls with
      | nil =>
          rw [List.intercalate_singleton]
          exact .last hsome hfeed
      | cons next ls =>
          rw [List.intercalate_cons_cons, List.append_assoc]
          exact .feed hfeed hreturn (ih hrest)

/-! ### Comments -/

/-- Without a pair of slashes there is no comment. -/
theorem uncommented_of_no_pair {cs : List Char} (h : ¬['/', '/'] <:+: cs) :
    uncommented cs = cs := by
  rcases isCode_uncommented cs with ⟨hall, -⟩ | ⟨comment, hcs, -⟩
  · exact hall
  · exact absurd ⟨uncommented cs, comment, by simpa using hcs.symm⟩ h

/-- The first pair of slashes starts the comment. -/
theorem uncommented_append {code : List Char} (h : ¬['/', '/'] <:+: code ++ ['/'])
    (comment : List Char) : uncommented (code ++ '/' :: '/' :: comment) = code := by
  induction code with
  | nil => exact uncommented_comment comment
  | cons c code ih =>
      rw [List.cons_append, List.infix_cons_iff, not_or, pair_prefix_cons_iff] at h
      -- What follows the character is the same with and without the comment.
      have hhead : (code ++ '/' :: '/' :: comment).head? = (code ++ ['/']).head? := by
        cases code <;> rfl
      rw [List.cons_append, uncommented_cons, hhead, if_neg h.1, ih h.2]

/-- **A line is cut at its comment.** -/
theorem uncommented_eq_iff {line code : List Char} :
    uncommented line = code ↔ IsCode line code := by
  constructor
  · rintro rfl
    exact isCode_uncommented line
  · rintro (⟨rfl, hnone⟩ | ⟨comment, rfl, hfirst⟩)
    · exact uncommented_of_no_pair hnone
    · exact uncommented_append hfirst comment

/-- The code of a line holds no pair of slashes. -/
theorem IsCode.no_pair {line code : List Char} (h : IsCode line code) :
    ¬['/', '/'] <:+: code := by
  rcases h with ⟨rfl, hnone⟩ | ⟨-, -, hfirst⟩
  · exact hnone
  · intro hpair
    exact hfirst (hpair.trans (List.prefix_append code ['/']).isInfix)

/-! ### Words with single spaces -/

/-- Every word is a part of the text, is not empty and holds no blank. -/
theorem AreWords.of_mem {cs : List Char} {ws : List (List Char)} (h : AreWords cs ws) :
    ∀ word ∈ ws, word <:+: cs ∧ word ≠ [] ∧ ∀ c ∈ word, isBlank c = false := by
  induction h with
  | none => simp
  | @cons gap word rest ws hgap hsome hword hend hrest ih =>
      refine List.forall_mem_cons.mpr ⟨⟨⟨gap, rest, by simp⟩, hsome, hword⟩, ?_⟩
      intro later hlater
      obtain ⟨hpart, hgood⟩ := ih later hlater
      have hsuffix : rest <:+ gap ++ (word ++ rest) := ⟨gap ++ word, by simp⟩
      exact ⟨hpart.trans hsuffix.isInfix, hgood⟩

/-- Cutting a text at its blanks yields such words. -/
theorem of_mem_words {cs word : List Char} (h : word ∈ words cs) :
    word <:+: cs ∧ word ≠ [] ∧ ∀ c ∈ word, isBlank c = false :=
  (words_eq_iff.mp rfl).of_mem word h

/-- Words with single spaces between them are the words of that text. -/
theorem areWords_intercalate {ws : List (List Char)}
    (h : ∀ word ∈ ws, word ≠ [] ∧ ∀ c ∈ word, isBlank c = false) :
    AreWords ([' '].intercalate ws) ws := by
  induction ws with
  | nil => exact .none (by simp)
  | cons word ws ih =>
      obtain ⟨⟨hsome, hword⟩, hrest⟩ := List.forall_mem_cons.mp h
      cases ws with
      | nil =>
          have hend : AreWords (word ++ []) [word] :=
            .cons_word hsome hword (by simp) (.none (by simp))
          rw [List.append_nil] at hend
          rwa [List.intercalate_singleton]
      | cons next ws =>
          rw [List.intercalate_cons_cons, List.append_assoc]
          refine .cons_word hsome hword ?_ ((ih hrest).cons_blank rfl)
          intro c hc
          cases hc
          rfl

/-- A text without words is empty, and only that. -/
theorem normalized_eq_nil_iff {cs : List Char} : normalized cs = [] ↔ words cs = [] := by
  constructor
  · intro h
    cases hws : words cs with
    | nil => rfl
    | cons word ws =>
        have hword : word ∈ words cs := by simp [hws]
        have hsome := (of_mem_words hword).2.1
        rw [normalized, hws] at h
        -- A single word is the text itself; behind more of them there is a space.
        cases ws with
        | nil => exact absurd (by simpa using h) hsome
        | cons next ws => simp [List.intercalate_cons_cons] at h
  · intro h
    rw [normalized, h]
    rfl

/-- A second time nothing changes. -/
theorem normalized_normalized (cs : List Char) : normalized (normalized cs) = normalized cs := by
  have hsame : words (normalized cs) = words cs :=
    words_eq_iff.mpr (areWords_intercalate fun word hword => (of_mem_words hword).2)
  rw [normalized, hsame, normalized]

/-- A pair of slashes does not go over a space. -/
theorem pair_infix_append_space {front back : List Char}
    (h : ['/', '/'] <:+: front ++ ' ' :: back) :
    ['/', '/'] <:+: front ∨ ['/', '/'] <:+: back := by
  induction front with
  | nil =>
      rw [List.nil_append, List.infix_cons_iff, pair_prefix_cons_iff] at h
      rcases h with ⟨hspace, -⟩ | hback
      · exact absurd hspace (by decide)
      · exact .inr hback
  | cons c front ih =>
      rw [List.cons_append, List.infix_cons_iff, pair_prefix_cons_iff] at h
      rw [List.infix_cons_iff, pair_prefix_cons_iff]
      rcases h with ⟨hc, hhead⟩ | hlater
      · -- The second slash is not the space, so it stands in front of it too.
        cases front with
        | nil => exact absurd (Option.some.inj hhead) (by decide)
        | cons d front => exact .inl (.inl ⟨hc, hhead⟩)
      · exact (ih hlater).imp_left .inr

/-- A pair of slashes between single spaces is in one of the words. -/
theorem exists_pair_of_intercalate {ws : List (List Char)}
    (h : ['/', '/'] <:+: [' '].intercalate ws) : ∃ word ∈ ws, ['/', '/'] <:+: word := by
  induction ws with
  | nil => simp [List.intercalate] at h
  | cons word ws ih =>
      cases ws with
      | nil =>
          rw [List.intercalate_singleton] at h
          exact ⟨word, List.mem_cons_self, h⟩
      | cons next ws =>
          rw [List.intercalate_cons_cons, List.append_assoc] at h
          rcases pair_infix_append_space h with hword | hlater
          · exact ⟨word, List.mem_cons_self, hword⟩
          · obtain ⟨later, hmem, hpair⟩ := ih hlater
            exact ⟨later, List.mem_cons_of_mem word hmem, hpair⟩

/-- Single spaces do not make a comment. -/
theorem normalized_no_pair {cs : List Char} (h : ¬['/', '/'] <:+: cs) :
    ¬['/', '/'] <:+: normalized cs := by
  intro hpair
  obtain ⟨word, hword, hpart⟩ := exists_pair_of_intercalate hpair
  exact h (hpart.trans (of_mem_words hword).1)

/-- **The normal form of a line is its own normal form.** -/
theorem normalized_uncommented_self (line : List Char) :
    normalized (uncommented (normalized (uncommented line)))
      = normalized (uncommented line) := by
  rw [uncommented_of_no_pair (normalized_no_pair (isCode_uncommented line).no_pair),
    normalized_normalized]

/-- A normal form holds no line end. -/
theorem not_lineEnd_of_normalized (cs : List Char) :
    '\n' ∉ normalized cs ∧ (normalized cs).getLast? ≠ some '\r' := by
  constructor
  · intro hmem
    exact absurd (eq_space_of_mem_normalized hmem rfl) (by decide)
  · intro hlast
    exact absurd (eq_space_of_mem_normalized (List.mem_of_getLast? hlast) rfl) (by decide)

end HackComputer.Text
