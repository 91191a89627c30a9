import HackComputer.Files.Tree
import HackComputer.Proofs.Files.Paths
import Mathlib.Data.List.Nodup

/-!
# `HackComputer.Proofs.Files.Trees`: where paths lead and what writing changes

A path is followed name by name, and whether that works depends on nothing but
where the directories are. Writing puts no directory anywhere and takes none
away, so it moves no path.

* `follow_append`: a path is followed in two parts.
* `write_eq_ok`: a file that could be written stands at its place, and every
  other place is as it was.
* `WrittenAt.place?_eq`: paths lead to the same places afterwards.
* `placed_beside`: a path to a file, and the same path with another last name,
  lead to two names in one directory.
* `nodup_files?`: the files of a directory have different names.
* `Reordered`: trees with the same entries in another order. They agree on all
  questions about files, up to the order in which a directory is listed.
-/

set_option autoImplicit false

namespace HackComputer.Files.Tree

open HackComputer.Files.Path

/-! ### Following a path -/

/-- A directory stands at the place. -/
def isDirectoryAt (t : Tree) (place : Place) : Bool :=
  (t.entry? place).any Entry.isDirectory

/-- Goes from a place along one name. -/
def step (t : Tree) (place : Place) (name : String) : Option Place :=
  if !t.isDirectoryAt place || maxNameBytes < name.utf8ByteSize then none
  else if isIdle name then some place
  else if name = ".." then some place.dropLast
  else some (place ++ [name])

/-- A path is followed step by step. -/
theorem follow_cons (t : Tree) (place : Place) (name : String) (names : List String) :
    t.follow place (name :: names) = (t.step place name).bind (t.follow · names) := by
  conv => lhs; unfold follow
  rw [step]
  -- Both sides ask the same question first, and then look at the name.
  by_cases hopen : (!t.isDirectoryAt place || decide (maxNameBytes < name.utf8ByteSize)) = true
  · rw [if_pos hopen]
    exact if_pos hopen
  · rw [if_neg hopen]
    refine (if_neg hopen).trans ?_
    split
    · rfl
    · rfl
    · rfl
    · next hempty hdot hdots =>
        have hidle : ¬isIdle name = true := by simpa [isIdle] using ⟨hempty, hdot⟩
        rw [if_neg hidle, if_neg hdots]
        rfl

/-- **A path is followed in two parts.** -/
theorem follow_append (t : Tree) (place : Place) (names names' : List String) :
    t.follow place (names ++ names') = (t.follow place names).bind (t.follow · names') := by
  induction names generalizing place with
  | nil => rfl
  | cons name names ih =>
      rw [List.cons_append, follow_cons, follow_cons]
      cases t.step place name with
      | none => rfl
      | some next => exact ih next

/-- A path of one name is one step. -/
theorem follow_singleton (t : Tree) (place : Place) (name : String) :
    t.follow place [name] = t.step place name := by
  rw [follow_cons]
  cases t.step place name <;> rfl

/-- Every name leads on from a directory only. -/
theorem isDirectoryAt_of_step {t : Tree} {place place' : Place} {name : String}
    (h : t.step place name = some place') : t.isDirectoryAt place = true := by
  by_contra hclosed
  rw [step, if_pos (by simp [hclosed])] at h
  cases h

/-- A name leads to a place in the directory. -/
theorem eq_of_step_name {t : Tree} {place place' : Place} {name : String} (hname : IsName name)
    (h : t.step place name = some place') : place' = place ++ [name] := by
  have hidle : ¬isIdle name = true := by simpa [isIdle] using ⟨hname.ne_empty, hname.ne_dot⟩
  rw [step] at h
  split at h
  · cases h
  · rw [if_neg hname.ne_dots] at h
    exact (Option.some.inj h).symm

/-- A name that counts for nothing leads nowhere else. -/
theorem eq_of_step_idle {t : Tree} {place place' : Place} {name : String}
    (hidle : isIdle name = true) (h : t.step place name = some place') : place' = place := by
  rw [step] at h
  split at h
  · cases h
  · exact (Option.some.inj h).symm

/-- Parts that count for nothing lead nowhere. -/
theorem eq_of_follow_idle {t : Tree} {place place' : Place} {idle : List String}
    (hidle : ∀ name ∈ idle, isIdle name = true) (h : t.follow place idle = some place') :
    place' = place := by
  induction idle with
  | nil => exact (Option.some.inj h).symm
  | cons name idle ih =>
      rw [List.forall_mem_cons] at hidle
      rw [follow_cons, Option.bind_eq_some_iff] at h
      obtain ⟨next, hstep, hrest⟩ := h
      obtain rfl := eq_of_step_idle hidle.1 hstep
      exact ih hidle.2 hrest

/-- Paths lead to the same places in trees with the same directories. -/
theorem place?_congr {t t' : Tree} (hcurrent : t'.current = t.current)
    (h : ∀ place, t'.isDirectoryAt place = t.isDirectoryAt place) (p : Path) :
    t'.place? p = t.place? p := by
  have hstep : ∀ place name, t'.step place name = t.step place name := by
    intro place name
    rw [step, step, h]
  have hfollow : ∀ names place, t'.follow place names = t.follow place names := by
    intro names
    induction names with
    | nil => intro place; rfl
    | cons name names ih =>
        intro place
        rw [follow_cons, follow_cons, hstep]
        simp only [ih]
  rw [place?, place?, hfollow, hcurrent]

/-! ### Writing -/

/-- What is found after every entry for a place was replaced. -/
theorem lookup_replace (entries : List (Place × Entry)) (place place' : Place) (entry : Entry) :
    (entries.map fun e => if e.1 = place then (place, entry) else e).lookup place'
      = if place' = place then (entries.lookup place).map fun _ => entry
        else entries.lookup place' := by
  induction entries with
  | nil => simp
  | cons e entries ih =>
      obtain ⟨key, old⟩ := e
      rw [List.map_cons]
      by_cases hkey : key = place
      · subst hkey
        by_cases hplace : place' = key
        · simp [hplace]
        · simp [List.lookup_cons, hplace, beq_eq_false_iff_ne.mpr hplace, ih]
      · by_cases hplace : place' = key
        · simp [hplace, hkey]
        · simp only [hkey, if_false, List.lookup_cons, beq_eq_false_iff_ne.mpr hplace, ih,
            beq_eq_false_iff_ne.mpr (Ne.symm hkey)]

/-- Something new stands at its own place and nowhere else. -/
theorem entry?_put (t : Tree) {place : Place} (hplace : place ≠ []) (place' : Place)
    (entry : Entry) :
    Tree.entry? (t.put place entry) place'
      = if place' = place then some entry else t.entry? place' := by
  have hlookup : t.entries.lookup place = none ↔ ¬t.entries.any (·.1 = place) = true := by
    simp only [List.lookup_eq_none_iff, List.any_eq_true, decide_eq_true_eq, not_exists, not_and,
      bne_iff_ne, ne_eq, eq_comm (a := place)]
  unfold entry? put
  by_cases hempty : place' = []
  · simp [hempty, hplace.symm]
  · simp only [List.isEmpty_iff, hempty, if_false]
    split
    · next hany =>
        rw [lookup_replace]
        cases hold : t.entries.lookup place with
        | none => exact absurd hany (hlookup.mp hold)
        | some old => rfl
    · next hnone =>
        rw [List.lookup_append]
        by_cases hsame : place' = place
        · subst hsame
          simp [hlookup.mpr hnone]
        · simp [hsame, List.lookup_cons, beq_eq_false_iff_ne.mpr hsame]

/-- What stands at a place after something was written there. Devices stay
what they are. -/
def stored (old : Option Entry) (content : ByteArray) : Entry :=
  match old with
  | some .sink => .sink
  | some .full => .full
  | _ => .file content

/-- The second tree is the first one with something written at the place. -/
structure WrittenAt (t t' : Tree) (place : Place) (content : ByteArray) : Prop where
  notDirectory : t.isDirectoryAt place = false
  current : t'.current = t.current
  entry : t'.entry? place = some (stored (t.entry? place) content)
  other : ∀ place', place' ≠ place → t'.entry? place' = t.entry? place'

/-- A file that is put where no directory stands is written there. -/
theorem writtenAt_put {t : Tree} {place : Place} {content : ByteArray}
    (hnot : t.isDirectoryAt place = false)
    (hstored : stored (t.entry? place) content = .file content) :
    WrittenAt t (t.put place (.file content)) place content := by
  -- The root is a directory, so this is another place.
  have hroot : place ≠ [] := by
    rintro rfl
    cases hnot
  refine ⟨hnot, ?_, ?_, ?_⟩
  · unfold put
    split <;> rfl
  · rw [entry?_put t hroot, if_pos rfl, hstored]
  · intro place' hother
    rw [entry?_put t hroot, if_neg hother]

/-- What is written to a device leaves the tree as it is. -/
theorem writtenAt_device {t : Tree} {place : Place} {content : ByteArray} {device : Entry}
    (h : t.entry? place = some device) (hnot : device.isDirectory = false)
    (hstored : stored (some device) content = device) : WrittenAt t t place content where
  notDirectory := by rw [isDirectoryAt, h]; exact hnot
  current := rfl
  entry := by rw [h, hstored]
  other _ _ := rfl

/-- **What writing does.** A file that could be written stands at its place,
and every other place is as it was. -/
theorem write_eq_ok {t t' : Tree} {p : Path} {content : ByteArray}
    (h : t.write p content = .ok t') :
    ∃ place, t.place? p = some place ∧ WrittenAt t t' place content := by
  unfold write at h
  cases hplace : t.place? p with
  | none =>
      rw [hplace] at h
      cases h
  | some place =>
      refine ⟨place, rfl, ?_⟩
      simp only [hplace] at h
      cases hentry : t.entry? place with
      | none =>
          rw [hentry] at h
          cases h
          exact writtenAt_put (by rw [isDirectoryAt, hentry]; rfl) (by rw [hentry]; rfl)
      | some entry =>
          rw [hentry] at h
          cases entry with
          | directory => cases h
          | file old =>
              cases h
              exact writtenAt_put (by rw [isDirectoryAt, hentry]; rfl) (by rw [hentry]; rfl)
          | sink =>
              cases h
              exact writtenAt_device hentry rfl rfl
          | full =>
              by_cases hempty : content.isEmpty
              · simp only [hempty, if_true] at h
                cases h
                exact writtenAt_device hentry rfl rfl
              · simp only [hempty] at h
                cases h

/-- Writing puts no directory anywhere and takes none away. -/
theorem WrittenAt.isDirectoryAt {t t' : Tree} {place : Place} {content : ByteArray}
    (h : WrittenAt t t' place content) (place' : Place) :
    t'.isDirectoryAt place' = t.isDirectoryAt place' := by
  by_cases hsame : place' = place
  · subst hsame
    rw [h.notDirectory, Tree.isDirectoryAt, h.entry]
    unfold stored
    split <;> rfl
  · rw [Tree.isDirectoryAt, Tree.isDirectoryAt, h.other place' hsame]

/-- **Writing moves no path.** -/
theorem WrittenAt.place?_eq {t t' : Tree} {place : Place} {content : ByteArray}
    (h : WrittenAt t t' place content) (p : Path) : t'.place? p = t.place? p :=
  place?_congr h.current h.isDirectoryAt p

/-! ### Beside a file -/

/-- Where a path starts. -/
def startOf (t : Tree) (p : Path) : Place :=
  if p.isAbsolute then [] else t.current

/-- A path that leads to a place is not empty, and is followed from its start. -/
theorem follow_of_place? {t : Tree} {p : Path} {place : Place} (h : t.place? p = some place) :
    p ≠ "" ∧ t.follow (t.startOf p) p.parts = some place := by
  rw [place?] at h
  split at h
  · cases h
  · next hopen =>
      refine ⟨?_, h⟩
      rintro rfl
      exact hopen rfl

/-- A path with a last name leads to that name in the directory to which the
parts before it lead. -/
theorem exists_directory {t : Tree} {p : Path} {name : String} {place : Place}
    (hname : p.fileName? = some name) (h : t.place? p = some place) :
    ∃ directory, t.follow (t.startOf p) (significant p.parts).dropLast = some directory ∧
      place = directory ++ [name] := by
  obtain ⟨hreal, -, idle, hparts, hidle⟩ := parts_eq hname
  have hfollow := (follow_of_place? h).2
  rw [hparts, follow_append, Option.bind_eq_some_iff] at hfollow
  obtain ⟨directory, hdirectory, hrest⟩ := hfollow
  rw [follow_cons, Option.bind_eq_some_iff] at hrest
  obtain ⟨next, hstep, hend⟩ := hrest
  rw [eq_of_follow_idle hidle hend]
  exact ⟨directory, hdirectory, eq_of_step_name hreal hstep⟩

/-- **A file and one beside it.** A path leads to a place without a directory,
and with a new last name it leads somewhere as well. Then it has a last name
already, and the two places are these names in one directory. -/
theorem placed_beside {t : Tree} {p : Path} {place place' : Place} {new : String}
    (hnew : IsName new) (hplace : t.place? p = some place)
    (hnot : t.isDirectoryAt place = false)
    (hplace' : t.place? (p.withFileName new) = some place') :
    ∃ directory name, p.fileName? = some name ∧ place = directory ++ [name] ∧
      place' = directory ++ [new] := by
  obtain ⟨hsome, hfollow⟩ := follow_of_place? hplace
  have hfollow' := (follow_of_place? hplace').2
  cases hname : p.fileName? with
  | some name =>
      obtain ⟨directory, hdirectory, hend⟩ := exists_directory hname hplace
      refine ⟨directory, name, rfl, hend, ?_⟩
      have hstart : t.startOf (p.withFileName new) = t.startOf p := by
        rw [startOf, isAbsolute_withFileName hname hnew.noSlash, startOf]
      rw [parts_withFileName hname hnew.noSlash, hstart, follow_append, Option.bind_eq_some_iff]
        at hfollow'
      obtain ⟨directory', hdirectory', hlast⟩ := hfollow'
      -- The new path leaves out parts that count for nothing, and they lead nowhere.
      obtain ⟨idle, hinit, hidle⟩ := exists_idle (significant p.parts).dropLast
      rw [hinit, follow_append, hdirectory'] at hdirectory
      rw [eq_of_follow_idle hidle hdirectory]
      exact eq_of_step_name hnew ((follow_singleton t directory' new).symm.trans hlast)
  | none =>
      -- The new name stands behind the whole path, so the path leads to a directory.
      exfalso
      rw [withFileName, if_neg (by simp [hname])] at hfollow'
      rw [startOf, isAbsolute_join hsome, ← startOf] at hfollow'
      rcases parts_join p hnew.noSlash with ⟨hempty, -⟩ | ⟨init, -, hparts, -⟩ | ⟨-, hjoin⟩
      · exact hsome hempty
      · rw [hparts, follow_append, Option.bind_eq_some_iff] at hfollow
        obtain ⟨directory, -, hlast⟩ := hfollow
        rw [follow_singleton] at hlast
        obtain rfl := eq_of_step_idle rfl hlast
        rw [isDirectoryAt_of_step hlast] at hnot
        cases hnot
      · rw [hjoin, follow_append, hfollow] at hfollow'
        have hstep : t.step place new = some place' :=
          (follow_singleton t place new).symm.trans hfollow'
        rw [isDirectoryAt_of_step hstep] at hnot
        cases hnot

/-! ### Listing a directory -/

/-- A tree as a file system keeps it: every place has one entry at most, and no
name holds a slash. -/
structure IsProper (t : Tree) : Prop where
  distinct : (t.entries.map Prod.fst).Nodup
  noSlash : ∀ e ∈ t.entries, ∀ name ∈ e.1, '/' ∉ name.toList

/-- The name under which an entry is listed: it has to be a file right in the
directory. -/
def fileIn? (directory : Place) (e : Place × Entry) : Option String :=
  match e.2 with
  | .file _ => if e.1.dropLast = directory then e.1.getLast? else none
  | _ => none

/-- A file is listed under the name that leads from the directory to it. -/
theorem place_of_fileIn? {directory : Place} {e : Place × Entry} {name : String}
    (h : fileIn? directory e = some name) : e.1 = directory ++ [name] := by
  obtain ⟨place, entry⟩ := e
  cases entry with
  | file content =>
      obtain ⟨rfl, hlast⟩ : place.dropLast = directory ∧ place.getLast? = some name := by
        simpa [fileIn?] using h
      exact (List.dropLast_append_getLast? name hlast).symm
  | _ => simp [fileIn?] at h

/-- Listing goes through all entries. -/
theorem files?_eq (t : Tree) (p : Path) :
    t.files? p = (t.place? p).map fun directory => t.entries.filterMap (fileIn? directory) := by
  rw [files?]
  cases t.place? p <;> rfl

/-- **The files of a directory have different names.** -/
theorem nodup_files? {t : Tree} {p : Path} {names : List String} (h : t.IsProper)
    (hnames : t.files? p = some names) : names.Nodup := by
  rw [files?_eq, Option.map_eq_some_iff] at hnames
  obtain ⟨directory, -, rfl⟩ := hnames
  rw [List.Nodup, List.pairwise_filterMap]
  refine (List.pairwise_map.mp h.distinct).imp ?_
  -- Two files with one name would stand at one place.
  intro e e' hplaces name hname name' hname' heq
  apply hplaces
  rw [place_of_fileIn? hname, place_of_fileIn? hname', heq]

/-- The name of a file holds no slash. -/
theorem noSlash_of_mem_files? {t : Tree} {p : Path} {names : List String} {name : String}
    (h : t.IsProper) (hnames : t.files? p = some names) (hname : name ∈ names) :
    '/' ∉ name.toList := by
  rw [files?_eq, Option.map_eq_some_iff] at hnames
  obtain ⟨directory, -, rfl⟩ := hnames
  obtain ⟨e, he, hlisted⟩ := List.mem_filterMap.mp hname
  apply h.noSlash e he
  simp [place_of_fileIn? hlisted]

/-! ### Entries in another order -/

/-- With one entry for every place, what is found is what is there. -/
theorem lookup_eq_some_iff_mem {entries : List (Place × Entry)}
    (h : (entries.map Prod.fst).Nodup) {place : Place} {entry : Entry} :
    entries.lookup place = some entry ↔ (place, entry) ∈ entries := by
  induction entries with
  | nil => simp
  | cons e entries ih =>
      obtain ⟨key, first⟩ := e
      rw [List.map_cons, List.nodup_cons] at h
      rw [List.lookup_cons, List.mem_cons, Prod.mk.injEq]
      by_cases hkey : place = key
      · subst hkey
        have hlater : (place, entry) ∉ entries := fun hmem =>
          h.1 (List.mem_map.mpr ⟨_, hmem, rfl⟩)
        simp [hlater, eq_comm]
      · simp [hkey, beq_eq_false_iff_ne.mpr hkey, ih h.2]

/-- The second tree has the entries of the first in another order, and each
place has one entry at most. -/
structure Reordered (t t' : Tree) : Prop where
  current : t'.current = t.current
  entries : t'.entries.Perm t.entries
  distinct : (t.entries.map Prod.fst).Nodup

namespace Reordered

variable {t t' : Tree} (h : Reordered t t')
include h

/-- The same stands at every place. -/
theorem entry?_eq (place : Place) : t'.entry? place = t.entry? place := by
  have hdistinct : (t'.entries.map Prod.fst).Nodup :=
    (h.entries.map Prod.fst).nodup_iff.mpr h.distinct
  have hlookup : t'.entries.lookup place = t.entries.lookup place := by
    apply Option.ext
    intro entry
    rw [lookup_eq_some_iff_mem hdistinct, lookup_eq_some_iff_mem h.distinct, h.entries.mem_iff]
  unfold Tree.entry?
  rw [hlookup]

/-- Paths lead to the same places. -/
theorem place?_eq (p : Path) : t'.place? p = t.place? p := by
  apply place?_congr h.current
  intro place
  rw [isDirectoryAt, isDirectoryAt, h.entry?_eq]

/-- They lead to directories in the same cases. -/
theorem isDirectory_eq (p : Path) : t'.isDirectory p = t.isDirectory p := by
  rw [isDirectory, isDirectory, h.place?_eq]
  cases t.place? p with
  | none => rfl
  | some place =>
      show (t'.entry? place).any _ = (t.entry? place).any _
      rw [h.entry?_eq]

/-- Places have the same names. -/
theorem name?_eq (p : Path) : t'.name? p = t.name? p := by
  rw [name?, name?, h.place?_eq]
  simp only [h.entry?_eq]

/-- Files have the same content. -/
theorem read_eq (p : Path) : t'.read p = t.read p := by
  have hentry : (t'.place? p >>= t'.entry?) = (t.place? p >>= t.entry?) := by
    rw [h.place?_eq]
    cases t.place? p with
    | none => rfl
    | some place => exact h.entry?_eq place
  rw [read, read, hentry]

/-- **A directory is listed in another order.** -/
theorem files?_perm (p : Path) :
    t.files? p = none ∧ t'.files? p = none ∨
    ∃ names names', t.files? p = some names ∧ t'.files? p = some names' ∧ names'.Perm names := by
  rw [files?, files?, h.place?_eq]
  cases t.place? p with
  | none => exact .inl ⟨rfl, rfl⟩
  | some directory => exact .inr ⟨_, _, rfl, rfl, h.entries.filterMap _⟩

/-- Putting something new at a place keeps trees alike. -/
theorem put (place : Place) (entry : Entry) :
    Reordered (t.put place entry) (t'.put place entry) := by
  have hany : t'.entries.any (·.1 = place) = t.entries.any (·.1 = place) := by
    rw [Bool.eq_iff_iff]
    simp only [List.any_eq_true, h.entries.mem_iff]
  unfold Tree.put
  rw [hany]
  split
  · refine ⟨h.current, h.entries.map _, ?_⟩
    have hkeys : (t.entries.map fun e => if e.1 = place then (place, entry) else e).map Prod.fst
        = t.entries.map Prod.fst := by
      rw [List.map_map]
      apply List.map_congr_left
      intro e _
      show (if e.1 = place then (place, entry) else e).1 = e.1
      split
      · next hkey => exact hkey.symm
      · rfl
    rw [hkeys]
    exact h.distinct
  · next hnone =>
      refine ⟨h.current, h.entries.append_right _, ?_⟩
      rw [List.map_append, List.map_singleton, List.nodup_append]
      refine ⟨h.distinct, List.nodup_singleton place, ?_⟩
      rintro key hkey _ hplace rfl
      rw [List.mem_singleton] at hplace
      obtain ⟨e, he, rfl⟩ := List.mem_map.mp hkey
      exact hnone (List.any_eq_true.mpr ⟨e, he, by simpa using hplace⟩)

/-- **Writing keeps trees alike.** -/
theorem write (p : Path) (content : ByteArray) :
    (∃ e, t.write p content = .error e ∧ t'.write p content = .error e) ∨
    ∃ s s', t.write p content = .ok s ∧ t'.write p content = .ok s' ∧ Reordered s s' := by
  rw [Tree.write, Tree.write, h.place?_eq]
  cases t.place? p with
  | none => exact .inl ⟨_, rfl, rfl⟩
  | some place =>
      simp only [h.entry?_eq]
      cases t.entry? place with
      | none => exact .inr ⟨_, _, rfl, rfl, h.put place (.file content)⟩
      | some entry =>
          cases entry with
          | directory => exact .inl ⟨_, rfl, rfl⟩
          | file old => exact .inr ⟨_, _, rfl, rfl, h.put place (.file content)⟩
          | sink => exact .inr ⟨_, _, rfl, rfl, h⟩
          | full =>
              by_cases hempty : content.isEmpty
              · exact .inr ⟨_, _, if_pos hempty, if_pos hempty, h⟩
              · exact .inl ⟨_, if_neg hempty, if_neg hempty⟩

end Reordered

end HackComputer.Files.Tree
