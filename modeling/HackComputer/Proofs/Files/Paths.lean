import HackComputer.Files.Path
import HackComputer.Proofs.Text.Lines

/-!
# `HackComputer.Proofs.Files.Paths`: the names of a path

A path is a text, and the operations on paths put texts together and take them
apart. All that a file system reads of a path are its parts and whether it
starts at the root, so the laws here say what becomes of these two.

* `parts_join`: the parts of a path with a name behind it.
* `parts_eq`: a path with a last name has parts before it and parts that count
  for nothing behind it.
* `parts_withFileName`, `isAbsolute_withFileName`: replacing the last name
  leaves the parts before it, but for some that count for nothing.
* `fileName?_withFileName`: the new name is the last name afterwards.
* `fileName?_join`: so is a name that is put behind a path.
* `splitName_cases`: a name is its stem, or its stem, a dot and its extension.
  With its extension a stem determines the name (`eq_of_stem_eq`).
-/

set_option autoImplicit false

namespace HackComputer.Files.Path

/-- A name that a file can have. -/
structure IsName (name : String) : Prop where
  noSlash : '/' ∉ name.toList
  ne_empty : name ≠ ""
  ne_dot : name ≠ "."
  ne_dots : name ≠ ".."

/-- A part that counts for nothing: it is empty or a dot. -/
def isIdle (name : String) : Bool :=
  name == "" || name == "."

/-! ### Parts -/

/-- There is always a part, if only an empty one. -/
theorem parts_ne_nil (p : Path) : p.parts ≠ [] := by
  rw [parts, ne_eq, List.map_eq_nil_iff]
  exact Text.fields_ne_nil _ _

/-- Parts are cut at every slash. -/
theorem slash_not_mem_of_mem_parts {p : Path} {name : String} (h : name ∈ p.parts) :
    '/' ∉ name.toList := by
  obtain ⟨field, hfield, rfl⟩ := List.mem_map.mp h
  rw [String.toList_ofList]
  intro hslash
  exact absurd (Text.not_of_mem_fields _ _ field hfield '/' hslash) (by decide)

/-- A text without slashes is one part. -/
theorem parts_of_not_mem {p : Path} (h : '/' ∉ p.toList) : p.parts = [p] := by
  have hnot : ∀ c ∈ p.toList, (c == '/') = false := by
    intro c hc
    rw [beq_eq_false_iff_ne]
    intro heq
    exact h (heq ▸ hc)
  have hfields := Text.fields_append_of_not hnot []
  rw [List.append_nil] at hfields
  rw [parts, hfields]
  simp [Text.fields]

/-- The parts on the two sides of a slash. -/
theorem parts_append_slash (p q : Path) : parts (p ++ "/" ++ q) = p.parts ++ q.parts := by
  have htext : (p ++ "/" ++ q).toList = p.toList ++ '/' :: q.toList := by simp
  rw [parts, htext, Text.fields_append_cons (by decide), List.map_append]
  rfl

/-- Names that are put together with slashes come back. -/
theorem parts_intercalate {names : List String} (hne : names ≠ [])
    (h : ∀ name ∈ names, '/' ∉ name.toList) : parts ("/".intercalate names) = names := by
  induction names with
  | nil => exact absurd rfl hne
  | cons name names ih =>
      rw [List.forall_mem_cons] at h
      cases names with
      | nil => exact parts_of_not_mem h.1
      | cons next names =>
          have htext : "/".intercalate (name :: next :: names)
              = name ++ "/" ++ "/".intercalate (next :: names) := by
            rw [← String.toList_inj]
            simp [String.toList_intercalate]
          rw [htext, parts_append_slash, parts_of_not_mem h.1, ih (List.cons_ne_nil _ _) h.2]
          rfl

/-- A path starts at the root exactly if its first part is empty and not the
only one. -/
theorem isAbsolute_iff {p : Path} :
    p.isAbsolute = true ↔ ∃ rest, rest ≠ [] ∧ p.parts = "" :: rest := by
  cases hp : p.toList with
  | nil => simp [isAbsolute, parts, hp, Text.fields]
  | cons c cs =>
      rw [isAbsolute, parts, hp, Text.fields_cons]
      by_cases hc : c = '/'
      · simp [hc, Text.fields_ne_nil]
      · cases hfields : Text.fields (· == '/') cs with
        | nil => exact absurd hfields (Text.fields_ne_nil _ cs)
        | cons first later => simp [hc]

/-! ### A name behind a path -/

/-- The parts of a path with a name behind it. A slash at the end of the path
stands in the place of an empty part. -/
theorem parts_join (p : Path) {name : String} (hname : '/' ∉ name.toList) :
    p = "" ∧ p.join name = name ∨
    (∃ init, init ≠ [] ∧ p.parts = init ++ [""] ∧ (p.join name).parts = init ++ [name]) ∨
    p ≠ "" ∧ (p.join name).parts = p.parts ++ [name] := by
  by_cases hempty : p = ""
  · subst hempty
    exact .inl ⟨rfl, by simp [join]⟩
  · right
    by_cases hslash : p.toList.getLast? = some '/'
    · left
      obtain ⟨init, hinit⟩ := List.getLast?_eq_some_iff.mp hslash
      have hp : p = String.ofList init ++ "/" ++ "" := by
        rw [← String.toList_inj, hinit]
        simp
      have hjoin : p.join name = String.ofList init ++ "/" ++ name := by
        rw [join, if_pos (by simp [hslash])]
        conv => lhs; rw [hp]
        simp
      refine ⟨parts (String.ofList init), parts_ne_nil _, ?_, ?_⟩
      · conv => lhs; rw [hp]
        rw [parts_append_slash]
        rfl
      · rw [hjoin, parts_append_slash, parts_of_not_mem hname]
    · right
      have hjoin : p.join name = p ++ "/" ++ name := by
        rw [join, if_neg (by simp [hempty, hslash])]
      exact ⟨hempty, by rw [hjoin, parts_append_slash, parts_of_not_mem hname]⟩

/-- A name behind a path is its last part. -/
theorem exists_parts_join (p : Path) {name : String} (hname : '/' ∉ name.toList) :
    ∃ init, (p.join name).parts = init ++ [name] := by
  rcases parts_join p hname with ⟨-, hjoin⟩ | ⟨init, -, -, hjoin⟩ | ⟨-, hjoin⟩
  · exact ⟨[], by rw [hjoin, parts_of_not_mem hname]; rfl⟩
  · exact ⟨init, hjoin⟩
  · exact ⟨p.parts, hjoin⟩

/-- A name behind a path does not move its start. -/
theorem isAbsolute_join {p : Path} (h : p ≠ "") (name : String) :
    (p.join name).isAbsolute = p.isAbsolute := by
  have htext : ∃ rest, (p.join name).toList = p.toList ++ rest := by
    rw [join]
    split
    · exact ⟨name.toList, by simp⟩
    · exact ⟨'/' :: name.toList, by simp⟩
  obtain ⟨rest, hrest⟩ := htext
  rw [isAbsolute, isAbsolute, hrest]
  cases hp : p.toList with
  | nil => exact absurd (String.toList_eq_nil_iff.mp hp) h
  | cons c cs => rfl

/-! ### The parts that count -/

/-- Behind the parts that count there are only parts that count for
nothing. -/
theorem exists_idle (parts : List String) :
    ∃ idle, parts = significant parts ++ idle ∧ ∀ name ∈ idle, isIdle name = true := by
  refine ⟨((parts.drop 1).reverse.takeWhile isIdle).reverse, ?_, ?_⟩
  · have hrest : parts.drop 1 = ((parts.drop 1).reverse.dropWhile isIdle).reverse
        ++ ((parts.drop 1).reverse.takeWhile isIdle).reverse := by
      rw [← List.reverse_append, List.takeWhile_append_dropWhile, List.reverse_reverse]
    calc parts = parts.take 1 ++ parts.drop 1 := (List.take_append_drop 1 parts).symm
      _ = _ := by
        conv => lhs; rw [hrest]
        rw [← List.append_assoc]
        rfl
  · intro name hname
    rw [List.mem_reverse] at hname
    exact List.all_eq_true.mp List.all_takeWhile name hname

/-- The parts that count are parts. -/
theorem mem_of_mem_significant {parts : List String} {name : String}
    (h : name ∈ significant parts) : name ∈ parts := by
  obtain ⟨idle, hparts, -⟩ := exists_idle parts
  rw [hparts]
  exact List.mem_append_left idle h

/-- The last of several parts that count is none that counts for nothing. -/
theorem not_idle_of_significant {parts init : List String} {name : String} (hinit : init ≠ [])
    (h : significant parts = init ++ [name]) : isIdle name = false := by
  cases parts with
  | nil => simp [significant] at h
  | cons first parts =>
      obtain ⟨_, init, rfl⟩ := List.exists_cons_of_ne_nil hinit
      have hrest : (parts.reverse.dropWhile isIdle).reverse = init ++ [name] :=
        (List.cons.inj h).2
      have hdrop : parts.reverse.dropWhile isIdle = name :: init.reverse := by
        rw [← List.reverse_reverse (parts.reverse.dropWhile isIdle), hrest]
        simp
      have hhead := List.head?_dropWhile_not isIdle parts.reverse
      rwa [hdrop] at hhead

/-- Parts that end with a name all count. -/
theorem significant_append_singleton (parts : List String) {name : String}
    (h : isIdle name = false) : significant (parts ++ [name]) = parts ++ [name] := by
  cases parts with
  | nil => rfl
  | cons first parts =>
      show first :: (((parts ++ [name]).reverse.dropWhile isIdle).reverse) = _
      rw [List.reverse_append, List.reverse_singleton, List.singleton_append,
        List.dropWhile_cons_of_neg (by simp [h])]
      simp

/-- A path with a last name: the parts before it, the name, and parts that
count for nothing. -/
theorem parts_eq {p : Path} {name : String} (h : p.fileName? = some name) :
    IsName name ∧ significant p.parts = (significant p.parts).dropLast ++ [name] ∧
    ∃ idle, p.parts = (significant p.parts).dropLast ++ name :: idle ∧
      ∀ part ∈ idle, isIdle part = true := by
  obtain ⟨hlast, hname⟩ := Option.filter_eq_some_iff.mp h
  simp only [bne_iff_ne, Bool.and_eq_true, ne_eq] at hname
  have hcut : significant p.parts = (significant p.parts).dropLast ++ [name] := by
    obtain ⟨init, hinit⟩ := List.getLast?_eq_some_iff.mp hlast
    rw [hinit, List.dropLast_concat]
  obtain ⟨idle, hparts, hidle⟩ := exists_idle p.parts
  refine ⟨⟨?_, hname.1.1, hname.1.2, hname.2⟩, hcut, idle, ?_, hidle⟩
  · apply slash_not_mem_of_mem_parts (p := p)
    rw [hparts]
    exact List.mem_append_left _ (List.mem_of_getLast? hlast)
  · conv => lhs; rw [hparts, hcut]
    simp

/-- A last part that is a name is the last name. -/
theorem fileName?_of_parts {p : Path} {init : List String} {name : String}
    (hparts : p.parts = init ++ [name]) (hname : IsName name) : p.fileName? = some name := by
  have hidle : isIdle name = false := by simp [isIdle, hname.ne_empty, hname.ne_dot]
  rw [fileName?, hparts, significant_append_singleton init hidle]
  simp [hname.ne_empty, hname.ne_dot, hname.ne_dots]

/-- A name that is put behind a path is its last name. -/
theorem fileName?_join (p : Path) {name : String} (hname : IsName name) :
    (p.join name).fileName? = some name := by
  obtain ⟨init, hinit⟩ := exists_parts_join p hname.noSlash
  exact fileName?_of_parts hinit hname

/-! ### Another last name -/

/-- A name behind the parts that count of another path. -/
theorem parts_join_significant {parts : List String} {new : String}
    (hparts : ∀ name ∈ parts, '/' ∉ name.toList) (hnew : '/' ∉ new.toList) :
    (join (if significant parts == [""] then "/" else "/".intercalate (significant parts))
      new).parts = significant parts ++ [new] := by
  by_cases hroot : significant parts = [""]
  · rw [hroot]
    have hjoin : join "/" new = "" ++ "/" ++ new := by simp [join]
    show (join "/" new).parts = _
    rw [hjoin, parts_append_slash, parts_of_not_mem hnew]
    rfl
  · rw [if_neg (by simpa using hroot)]
    by_cases hnone : significant parts = []
    · rw [hnone]
      have hjoin : join "" new = new := by simp [join]
      show (join "" new).parts = [new]
      rw [hjoin, parts_of_not_mem hnew]
    · have hback : Path.parts ("/".intercalate (significant parts)) = significant parts :=
        parts_intercalate hnone fun name hname => hparts name (mem_of_mem_significant hname)
      -- The text is not empty and does not end with a slash: either would be an idle part.
      rcases parts_join ("/".intercalate (significant parts)) hnew with
        ⟨hempty, -⟩ | ⟨init, hinit, hslash, -⟩ | ⟨-, hjoin⟩
      · rw [hempty] at hback
        exact absurd hback.symm hroot
      · rw [hback] at hslash
        exact absurd (not_idle_of_significant hinit hslash) (by decide)
      · rw [hjoin, hback]

/-- The parts of a path whose last name was replaced. -/
theorem parts_withFileName {p : Path} {name new : String} (h : p.fileName? = some name)
    (hnew : '/' ∉ new.toList) :
    (p.withFileName new).parts = significant (significant p.parts).dropLast ++ [new] := by
  rw [withFileName, if_pos (by simp [h])]
  apply parts_join_significant _ hnew
  intro part hpart
  have hmem : part ∈ significant p.parts := (List.dropLast_sublist _).subset hpart
  exact slash_not_mem_of_mem_parts (mem_of_mem_significant hmem)

/-- Replacing the last name does not move the start of a path. -/
theorem isAbsolute_withFileName {p : Path} {name new : String} (h : p.fileName? = some name)
    (hnew : '/' ∉ new.toList) : (p.withFileName new).isAbsolute = p.isAbsolute := by
  obtain ⟨hname, -, idle, hparts, -⟩ := parts_eq h
  rw [Bool.eq_iff_iff, isAbsolute_iff, isAbsolute_iff, parts_withFileName h hnew]
  generalize (significant p.parts).dropLast = init at hparts
  rw [hparts]
  -- The first part is that of the old path, or there is nothing before the name.
  cases init with
  | nil => simp [significant, hname.ne_empty]
  | cons first init => simp [significant]

/-- **The new name is the last name afterwards**, also where there was none. -/
theorem fileName?_withFileName (p : Path) {new : String} (hnew : IsName new) :
    (p.withFileName new).fileName? = some new := by
  cases hname : p.fileName? with
  | some name => exact fileName?_of_parts (parts_withFileName hname hnew.noSlash) hnew
  | none =>
      rw [withFileName, if_neg (by simp [hname])]
      exact fileName?_join p hnew

/-! ### Stems -/

/-- A name is its stem, or its stem, a dot and its extension. -/
theorem splitName_cases (name : String) :
    splitName name = (name, none) ∨
    ∃ stem ext, splitName name = (stem, some ext) ∧ name = stem ++ "." ++ ext := by
  have hcut : (name.toList.reverse.takeWhile (· != '.'))
      ++ name.toList.reverse.dropWhile (· != '.') = name.toList.reverse :=
    List.takeWhile_append_dropWhile
  have hhead := List.head?_dropWhile_not (· != '.') name.toList.reverse
  cases hdrop : name.toList.reverse.dropWhile (· != '.') with
  | nil => exact .inl (by simp [splitName, hdrop])
  | cons dot before =>
      cases before with
      | nil => exact .inl (by simp [splitName, hdrop])
      | cons c before =>
          rw [hdrop] at hcut hhead
          have hdot : dot = '.' := by simpa using hhead
          -- The name was cut from behind, so it is put together in reverse.
          have hname := congrArg List.reverse hcut.symm
          refine .inr ⟨String.ofList (c :: before).reverse,
            String.ofList (name.toList.reverse.takeWhile (· != '.')).reverse, ?_, ?_⟩
          · simp [splitName, hdrop]
          · rw [← String.toList_inj]
            simpa [hdot] using hname

/-- A name is its stem, or its stem with a dot and more behind it. -/
theorem splitName_append (name : String) :
    ∃ rest, name.toList = (splitName name).1.toList ++ rest ∧ ∀ c ∈ rest.head?, c = '.' := by
  rcases splitName_cases name with hsplit | ⟨stem, ext, hsplit, hname⟩
  · exact ⟨[], by simp [hsplit], by simp⟩
  · refine ⟨'.' :: ext.toList, ?_, by simp⟩
    rw [hsplit, hname]
    simp

/-- Names with one stem and one extension are the same. -/
theorem eq_of_stem_eq {name name' ext : String} (h : (splitName name).2 = some ext)
    (h' : (splitName name').2 = some ext) (hstem : (splitName name).1 = (splitName name').1) :
    name = name' := by
  rcases splitName_cases name with hsplit | ⟨stem, _, hsplit, hname⟩
  · simp [hsplit] at h
  · rcases splitName_cases name' with hsplit' | ⟨stem', _, hsplit', hname'⟩
    · simp [hsplit'] at h'
    · simp only [hsplit, hsplit', Option.some.injEq] at h h' hstem
      rw [hname, hname', h, h', hstem]

/-- A text without slashes that has an extension is a name, and the extension
is that of the name. -/
theorem splitName_of_extension? {name ext : String} (hslash : '/' ∉ name.toList)
    (h : extension? name = some ext) : IsName name ∧ (splitName name).2 = some ext := by
  rw [extension?, Option.bind_eq_some_iff] at h
  obtain ⟨last, hlast, hext⟩ := h
  obtain ⟨hname, hcut, -⟩ := parts_eq hlast
  -- There is only one part, and so it is the last name.
  rw [parts_of_not_mem hslash] at hcut
  obtain rfl : name = last := by simpa [significant] using congrArg List.getLast? hcut
  exact ⟨hname, hext⟩

/-- A stem holds no slash if the name holds none. -/
theorem slash_not_mem_stem {name : String} (h : '/' ∉ name.toList) :
    '/' ∉ (splitName name).1.toList := by
  obtain ⟨rest, hname, -⟩ := splitName_append name
  rw [hname, List.mem_append, not_or] at h
  exact h.1

/-- A stem with something behind it that does not start with a dot is not the
name itself. -/
theorem stem_append_ne {name ending : String} {c : Char} (h : ending.toList.head? = some c)
    (hc : c ≠ '.') : (splitName name).1 ++ ending ≠ name := by
  intro heq
  obtain ⟨rest, hname, hrest⟩ := splitName_append name
  have htexts : (splitName name).1.toList ++ ending.toList = (splitName name).1.toList ++ rest := by
    rw [← String.toList_append, heq, ← hname]
  rw [List.append_cancel_left_eq] at htexts
  rw [htexts] at h
  exact hc (hrest c h)

end HackComputer.Files.Path
