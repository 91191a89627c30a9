import HackComputer.Proofs.FirstFailure
import HackComputer.Watch.Point
import Mathlib.Data.List.Nodup
import Mathlib.Order.Bounds.Basic
import Mathlib.Order.Nat

/-!
# `HackComputer.Proofs.Watch.Bindings`: the point that an address gets

A watch document is gathered twice. Reading puts its points under their keys,
and resolving puts them under the addresses that the keys denote. Keys that
differ can meet there: an address, labels, variables and predefined names may
all denote the same instruction.

`Gathers` says what a gathered table is, without the loop that fills it. What is
named has one pair, the pairs are in the order in which things are named first,
and each has the value that was given last. There is only one such table
(`Gathers.unique`), so this says all about the loop.

* `Gathers.put`, `Gathers.putAll`: one step of the loop, and the whole of it.
* `Keyed.ofNode?_eq_some_iff`: the points of a document under their keys.
* `Points.resolve_eq_ok_iff`, `Points.resolve_eq_error_iff`: the points under
  their addresses, or the first symbol that the program does not have.
* `Points.resolve_binds`: both ways of gathering, from the document to the
  addresses.

The value given last is that of the last key in the table of keys, and a key
that is repeated in the document has its place where it came first. The example
at the end shows that the last line for an address need not be the one that
counts.
-/

set_option autoImplicit false

namespace HackComputer.Watch

open Isa Assembly Yaml

/-! ### Gathered tables -/

section
variable {κ α β : Type}

/-- The numbers of the entries that name `a`. -/
def places (Names : κ → α → Prop) (written : List (κ × β)) (a : α) : Set Nat :=
  {i | ∃ key value, written[i]? = some (key, value) ∧ Names key a}

/-- The first entry that names `a` comes before the first that names `b`. -/
def Precedes (Names : κ → α → Prop) (written : List (κ × β)) (a b : α) : Prop :=
  ∃ i j, IsLeast (places Names written a) i ∧ IsLeast (places Names written b) j ∧ i < j

/-- The table holds what the entries say about everything that they name. -/
structure Gathers (Names : κ → α → Prop) (written : List (κ × β)) (table : List (α × β)) :
    Prop where
  /-- Exactly what is named has a pair. -/
  mem_iff : ∀ a, a ∈ table.map Prod.fst ↔ ∃ entry ∈ written, Names entry.1 a
  /-- It has only one. -/
  nodup : (table.map Prod.fst).Nodup
  /-- The pairs are in the order of the first entries. -/
  ordered : (table.map Prod.fst).Pairwise (Precedes Names written)
  /-- Each has the value of the last entry. -/
  latest : ∀ a value, (a, value) ∈ table →
    ∃ i key, IsGreatest (places Names written a) i ∧ written[i]? = some (key, value)

variable {Names : κ → α → Prop} {written : List (κ × β)} {table : List (α × β)}
  {key : κ} {a b : α} {value : β}

/-- A place is an entry that names the thing. -/
theorem mem_places {i : Nat} :
    i ∈ places Names written a ↔ ∃ key value, written[i]? = some (key, value) ∧ Names key a :=
  Iff.rfl

/-- What is named has a place. -/
theorem nonempty_places_iff :
    (places Names written a).Nonempty ↔ ∃ entry ∈ written, Names entry.1 a := by
  constructor
  · rintro ⟨i, key, value, hi, hname⟩
    exact ⟨(key, value), List.mem_of_getElem? hi, hname⟩
  · rintro ⟨⟨key, value⟩, hmem, hname⟩
    obtain ⟨i, hi⟩ := List.getElem?_of_mem hmem
    exact ⟨i, key, value, hi, hname⟩

/-- Places are places of the list. -/
theorem lt_length_of_mem_places {i : Nat} (h : i ∈ places Names written a) :
    i < written.length := by
  obtain ⟨key, value, hi, -⟩ := h
  exact (List.getElem?_eq_some_iff.mp hi).1

/-- One more entry names one more thing, and it has the highest number. -/
theorem mem_places_concat {i : Nat} :
    i ∈ places Names (written ++ [(key, value)]) a ↔
      i ∈ places Names written a ∨ i = written.length ∧ Names key a := by
  rcases Nat.lt_trichotomy i written.length with hlt | rfl | hgt
  · simp [mem_places, List.getElem?_append_left hlt, hlt.ne]
  · simp [mem_places]
  · have hout : ¬ i < (written ++ [(key, value)]).length := by
      rw [List.length_append, List.length_singleton]
      omega
    refine iff_of_false (fun h => hout (lt_length_of_mem_places h)) ?_
    rintro (h | ⟨rfl, -⟩)
    · exact absurd (lt_length_of_mem_places h) (by omega)
    · omega

/-- An entry for something else changes nothing. -/
theorem places_concat_of_not (hname : ¬ Names key a) :
    places Names (written ++ [(key, value)]) a = places Names written a := by
  ext i
  simp [mem_places_concat, hname]

/-- Where something is named first does not change. -/
theorem isLeast_places_concat {i : Nat} (h : IsLeast (places Names written a) i) :
    IsLeast (places Names (written ++ [(key, value)]) a) i := by
  refine ⟨mem_places_concat.mpr (.inl h.1), ?_⟩
  intro j hj
  rcases mem_places_concat.mp hj with hj | ⟨rfl, -⟩
  · exact h.2 hj
  · exact (lt_length_of_mem_places h.1).le

/-- What is named in order stays so, whatever comes behind. -/
theorem Precedes.concat (h : Precedes Names written a b) :
    Precedes Names (written ++ [(key, value)]) a b := by
  obtain ⟨i, j, hi, hj, hlt⟩ := h
  exact ⟨i, j, isLeast_places_concat hi, isLeast_places_concat hj, hlt⟩

/-- Something that is new comes behind all that was named before. -/
theorem precedes_concat_of_new (ha : ∃ entry ∈ written, Names entry.1 a)
    (hb : ¬ ∃ entry ∈ written, Names entry.1 b) (hname : Names key b) :
    Precedes Names (written ++ [(key, value)]) a b := by
  classical
  have hfirst : IsLeast (places Names written a) (Nat.find (nonempty_places_iff.mpr ha)) :=
    Nat.isLeast_find _
  refine ⟨_, written.length, isLeast_places_concat hfirst, ?_, lt_length_of_mem_places hfirst.1⟩
  refine ⟨mem_places_concat.mpr (.inr ⟨rfl, hname⟩), ?_⟩
  intro j hj
  rcases mem_places_concat.mp hj with hj | ⟨rfl, -⟩
  · exact absurd (nonempty_places_iff.mp ⟨j, hj⟩) hb
  · exact Nat.le_refl _

/-- What an entry names at the end is named there last. -/
theorem isGreatest_places_concat (hname : Names key a) :
    IsGreatest (places Names (written ++ [(key, value)]) a) written.length := by
  refine ⟨mem_places_concat.mpr (.inr ⟨rfl, hname⟩), ?_⟩
  intro j hj
  rcases mem_places_concat.mp hj with hj | ⟨rfl, -⟩
  · exact (lt_length_of_mem_places hj).le
  · exact Nat.le_refl _

/-- Of two things one is named first. -/
theorem Precedes.asymm (h : Precedes Names written a b) : ¬ Precedes Names written b a := by
  rintro ⟨j', i', hj', hi', hlt'⟩
  obtain ⟨i, j, hi, hj, hlt⟩ := h
  have hsame : i = i' := hi.unique hi'
  have hsame' : j = j' := hj.unique hj'
  omega

/-- No entries give an empty table. -/
theorem gathers_nil : Gathers Names ([] : List (κ × β)) ([] : List (α × β)) where
  mem_iff := by simp
  nodup := List.nodup_nil
  ordered := .nil
  latest := by simp

/-- **There is only one table that gathers some entries.** -/
theorem Gathers.unique {table' : List (α × β)} (h : Gathers Names written table)
    (h' : Gathers Names written table') : table = table' := by
  have hsub {t t' : List (α × β)} (h : Gathers Names written t) (h' : Gathers Names written t')
      (pair : α × β) (hpair : pair ∈ t) : pair ∈ t' := by
    obtain ⟨a, value⟩ := pair
    have ha : a ∈ t'.map Prod.fst := by
      rw [h'.mem_iff, ← h.mem_iff]
      exact List.mem_map_of_mem hpair
    obtain ⟨⟨_, value'⟩, hpair', rfl⟩ := List.mem_map.mp ha
    -- Both values stand in the last entry, which is the same for both tables.
    obtain ⟨i, key, hlast, hi⟩ := h.latest _ _ hpair
    obtain ⟨i', key', hlast', hi'⟩ := h'.latest _ _ hpair'
    rw [hlast.unique hlast', hi'] at hi
    cases hi
    exact hpair'
  have hperm : table.Perm table' :=
    (List.perm_ext_iff_of_nodup (h.nodup.of_map _) (h'.nodup.of_map _)).mpr
      fun pair => ⟨hsub h h' pair, hsub h' h pair⟩
  -- The order of the first entries is strict, so it can be met in one way only.
  refine hperm.eq_of_pairwise ?_ (List.pairwise_map.mp h.ordered) (List.pairwise_map.mp h'.ordered)
  intro pair pair' _ _ hbefore hafter
  exact absurd hafter hbefore.asymm

/-! ### The loop -/

variable [DecidableEq α]

/-- A key that is there already keeps its place, and a new one goes to the
end. -/
theorem map_fst_put (table : List (α × β)) (a : α) (value : β) :
    (put table a value).map Prod.fst =
      if a ∈ table.map Prod.fst then table.map Prod.fst else table.map Prod.fst ++ [a] := by
  have hany : table.any (·.1 = a) = true ↔ a ∈ table.map Prod.fst := by simp
  rw [put]
  simp only [hany]
  split
  · rw [List.map_map]
    apply List.map_congr_left
    intro pair _
    show (if pair.1 = a then (a, value) else pair).1 = pair.1
    split
    · exact Eq.symm ‹_›
    · rfl
  · simp

/-- A key has the value that was put there last, and all others keep theirs. -/
theorem mem_put {pair : α × β} :
    pair ∈ put table a value ↔ pair = (a, value) ∨ pair.1 ≠ a ∧ pair ∈ table := by
  rw [put]
  split
  · rename_i hany
    rw [List.mem_map]
    constructor
    · rintro ⟨old, hold, rfl⟩
      by_cases hkey : old.1 = a
      · simp [hkey]
      · simp [hkey, hold]
    · rintro (rfl | ⟨hkey, hpair⟩)
      · obtain ⟨old, hold, hkey⟩ := List.any_eq_true.mp hany
        exact ⟨old, hold, if_pos (of_decide_eq_true hkey)⟩
      · exact ⟨pair, hpair, if_neg hkey⟩
  · rename_i hany
    have hold : ∀ old ∈ table, old.1 ≠ a := by
      intro old hold hkey
      exact hany (List.any_eq_true.mpr ⟨old, hold, decide_eq_true hkey⟩)
    rw [List.mem_append, List.mem_singleton]
    constructor
    · rintro (hpair | rfl)
      · exact .inr ⟨hold pair hpair, hpair⟩
      · exact .inl rfl
    · rintro (rfl | ⟨-, hpair⟩)
      · exact .inr rfl
      · exact .inl hpair

/-- **One step of the loop.** An entry is put where its key points to. -/
theorem Gathers.put (h : Gathers Names written table) (hname : ∀ b, Names key b ↔ b = a)
    (value : β) :
    Gathers Names (written ++ [(key, value)]) (put table a value) where
  mem_iff b := by
    have hentries : (∃ entry ∈ written ++ [(key, value)], Names entry.1 b) ↔
        b ∈ table.map Prod.fst ∨ b = a := by
      rw [h.mem_iff, ← hname]
      simp [or_and_right, exists_or]
    rw [hentries, map_fst_put]
    split
    · rename_i hold
      exact ⟨.inl, fun hb => hb.elim id fun hb => hb ▸ hold⟩
    · simp
  nodup := by
    rw [map_fst_put]
    split
    · exact h.nodup
    · rename_i hnew
      rw [← List.concat_eq_append]
      exact h.nodup.concat hnew
  ordered := by
    have hold : (table.map Prod.fst).Pairwise (Precedes Names (written ++ [(key, value)])) :=
      h.ordered.imp Precedes.concat
    rw [map_fst_put]
    split
    · exact hold
    · rename_i hnew
      rw [h.mem_iff] at hnew
      refine List.pairwise_append.mpr ⟨hold, List.pairwise_singleton _ _, ?_⟩
      intro b hb c hc
      rw [List.mem_singleton] at hc
      subst hc
      exact precedes_concat_of_new ((h.mem_iff b).mp hb) hnew ((hname _).mpr rfl)
  latest b value' hpair := by
    rcases mem_put.mp hpair with hnew | ⟨hother, hpair⟩
    · cases hnew
      exact ⟨written.length, key, isGreatest_places_concat ((hname _).mpr rfl), by simp⟩
    · -- The new entry names something else, so the last entry for `b` is the one it was.
      obtain ⟨i, key', hlast, hi⟩ := h.latest b value' hpair
      refine ⟨i, key', ?_, ?_⟩
      · rw [places_concat_of_not (mt (hname b).mp hother)]
        exact hlast
      · rw [List.getElem?_append_left (lt_length_of_mem_places hlast.1)]
        exact hi

/-- All pairs are put into a table, one after the other. -/
def putAll (table pairs : List (α × β)) : List (α × β) :=
  pairs.foldl (fun table pair => put table pair.1 pair.2) table

/-- Putting nothing changes nothing. -/
@[simp] theorem putAll_nil (table : List (α × β)) : putAll table [] = table := rfl

/-- The first pair is put before the others. -/
@[simp] theorem putAll_cons (table : List (α × β)) (pair : α × β) (pairs : List (α × β)) :
    putAll table (pair :: pairs) = putAll (put table pair.1 pair.2) pairs := rfl

/-- **The whole loop.** All entries are put where their keys point to. -/
theorem Gathers.putAll {rest : List (κ × β)} {pairs : List (α × β)}
    (h : Gathers Names written table)
    (hrest : List.Forall₂ (fun entry pair => (∀ b, Names entry.1 b ↔ b = pair.1) ∧
      entry.2 = pair.2) rest pairs) :
    Gathers Names (written ++ rest) (putAll table pairs) := by
  -- The entries done so far are part of the statement, since they decide what is new.
  induction hrest generalizing written table with
  | nil => simpa using h
  | @cons entry pair rest pairs hfirst _ ih =>
      obtain ⟨key, value⟩ := entry
      obtain ⟨hname, rfl⟩ := hfirst
      have hnext := ih (h.put hname pair.2)
      rwa [List.append_assoc] at hnext

/-- Without another way to name things every pair is put under its own key. -/
theorem gathers_putAll (pairs : List (α × β)) : Gathers Eq pairs (putAll [] pairs) :=
  gathers_nil.putAll (List.forall₂_same.mpr fun _ _ => ⟨fun _ => eq_comm, rfl⟩)

/-- A loop that reads an entry and puts it into the table is reading and then
putting. -/
theorem foldlM_eq_putAll {m : Type → Type} [Monad m] [LawfulMonad m] {γ : Type}
    {step : List (α × β) → γ → m (List (α × β))} {read : γ → m (α × β)}
    (hstep : ∀ table x, step table x = (fun pair => put table pair.1 pair.2) <$> read x)
    (xs : List γ) (table : List (α × β)) :
    xs.foldlM step table = putAll table <$> xs.mapM read := by
  induction xs generalizing table with
  | nil => simp
  | cons x xs ih =>
      rw [List.foldlM_cons, List.mapM_cons, hstep]
      simp [ih]

end

/-! ### Reading -/

namespace Keyed

/-- One entry of a document. -/
def read? (pair : Node × Node) : Option (Key × Point) := do
  return (← Key.ofNode? pair.1, ← Point.ofNode? pair.2)

/-- An entry is read if both its key and its point are. -/
theorem read?_eq_some_iff {pair : Node × Node} {entry : Key × Point} :
    read? pair = some entry ↔
      Key.ofNode? pair.1 = some entry.1 ∧ Point.ofNode? pair.2 = some entry.2 := by
  simp [read?, Option.bind_eq_some_iff, Prod.ext_iff]

/-- Reading a document reads all entries and then puts them under their keys. -/
theorem ofNode?_eq_putAll (node : Node) :
    ofNode? node = (pairs? node).bind fun pairs => (pairs.mapM read?).map (putAll []) := by
  unfold ofNode?
  congr 1
  funext pairs
  refine foldlM_eq_putAll ?_ pairs []
  rintro keyed ⟨k, v⟩
  simp [read?]

/-- **A document gives every key the value of its last entry**, at the place of
its first one. -/
theorem ofNode?_eq_some_iff {node : Node} {keyed : Keyed} :
    ofNode? node = some keyed ↔
      ∃ pairs written, pairs? node = some pairs ∧
        List.Forall₂ (fun pair entry => Key.ofNode? pair.1 = some entry.1 ∧
          Point.ofNode? pair.2 = some entry.2) pairs written ∧
        Gathers Eq written keyed := by
  have htable (written : List (Key × Point)) :
      putAll [] written = keyed ↔ Gathers Eq written keyed :=
    ⟨fun h => h ▸ gathers_putAll written, (gathers_putAll written).unique⟩
  simp only [ofNode?_eq_putAll, Option.bind_eq_some_iff, Option.map_eq_some_iff,
    mapM_eq_some_iff, read?_eq_some_iff, htable, exists_and_left]

end Keyed

/-! ### Keys -/

/-- What a key denotes in a program: an address itself, and a symbol what it
stands for there. -/
inductive Key.Denotes (e : Executable) : Key → Word → Prop
  | address (w : Word) : Denotes e (.address w) w
  | symbol {name : String} {w : Word} (h : e.address? name = some w) : Denotes e (.symbol name) w

/-- A key denotes nothing in a program that does not have its symbol. -/
inductive Key.Misses (e : Executable) : Key → Error → Prop
  | symbol {name : String} (h : e.address? name = none) :
      Misses e (.symbol name) (.unknownSymbol name)

section
variable {e : Executable} {key : Key}

/-- A key is resolved to what it denotes. -/
theorem Key.resolve_eq_ok_iff {w : Word} : key.resolve e = .ok w ↔ key.Denotes e w := by
  constructor
  · intro h
    cases key with
    | address w =>
        cases h
        exact .address w
    | symbol name =>
        cases hname : e.address? name with
        | none => simp [resolve, hname] at h
        | some w' =>
            obtain rfl : w' = w := by simpa [resolve, hname] using h
            exact .symbol hname
  · rintro (_ | hname)
    · rfl
    · simp [resolve, hname]

/-- A key that misses its symbol is reported. -/
theorem Key.resolve_eq_error_iff {error : Error} :
    key.resolve e = .error error ↔ key.Misses e error := by
  constructor
  · intro h
    cases key with
    | address w => cases h
    | symbol name =>
        cases hname : e.address? name with
        | none =>
            obtain rfl : .unknownSymbol name = error := by simpa [resolve, hname] using h
            exact .symbol hname
        | some w => simp [resolve, hname] at h
  · rintro ⟨hname⟩
    simp [resolve, hname]

/-- A key denotes at most one address. -/
theorem Key.Denotes.eq_iff {w : Word} (h : key.Denotes e w) (w' : Word) :
    key.Denotes e w' ↔ w' = w := by
  rw [← resolve_eq_ok_iff] at h ⊢
  rw [h, Except.ok.injEq, eq_comm]

/-- A key that denotes nothing misses its symbol. -/
theorem Key.exists_misses_iff :
    (∃ error, key.Misses e error) ↔ ∀ w, ¬ key.Denotes e w := by
  simp only [← resolve_eq_error_iff, ← resolve_eq_ok_iff]
  cases key.resolve e <;> simp

end

/-! ### Resolving -/

/-- A point with the address of its key in place of the key. -/
def locate (e : Executable) (entry : Key × Point) : Except Error (Word × Point) :=
  (entry.1.resolve e).map (·, entry.2)

section
variable {e : Executable} {entry : Key × Point}

/-- A point gets the address of its key. -/
theorem locate_eq_ok_iff {pair : Word × Point} :
    locate e entry = .ok pair ↔ entry.1.Denotes e pair.1 ∧ entry.2 = pair.2 := by
  rw [← Key.resolve_eq_ok_iff, locate]
  cases entry.1.resolve e with
  | error error => simp [Except.map]
  | ok w => simp [Except.map, Prod.ext_iff]

/-- It gets none if its key misses. -/
theorem locate_eq_error_iff {error : Error} :
    locate e entry = .error error ↔ entry.1.Misses e error := by
  rw [← Key.resolve_eq_error_iff, locate]
  cases entry.1.resolve e <;> simp [Except.map]

end

namespace Points

section
variable {e : Executable} {keyed : Keyed} {points : Points} {error : Error}

/-- Resolving looks up all keys and then puts the points at their addresses. -/
theorem resolve_eq_putAll (e : Executable) (keyed : Keyed) :
    resolve e keyed = (keyed.mapM (locate e)).map (putAll []) := by
  refine foldlM_eq_putAll ?_ keyed []
  rintro table ⟨key, point⟩
  show (key.resolve e >>= fun w => pure (put table w point)) = _
  cases hkey : key.resolve e <;> simp [locate, hkey] <;> rfl

/-- **The first symbol that the program does not have is reported.** -/
theorem resolve_eq_error_iff :
    resolve e keyed = .error error ↔
      FirstFailure (fun entry => entry.1.Misses e) keyed error := by
  show _ ↔ FirstFailure (fun entry error => entry.1.Misses e error) keyed error
  simp only [← locate_eq_error_iff]
  rw [← mapM_eq_error_iff, resolve_eq_putAll]
  cases keyed.mapM (locate e) <;> simp [Except.map]

/-- Points that are resolved are gathered by address. -/
theorem gathers_of_resolve (h : resolve e keyed = .ok points) :
    Gathers (Key.Denotes e) keyed points := by
  rw [resolve_eq_putAll] at h
  cases hpairs : keyed.mapM (locate e) with
  | error error => simp [hpairs, Except.map] at h
  | ok pairs =>
      obtain rfl : putAll [] pairs = points := by simpa [hpairs, Except.map] using h
      refine gathers_nil.putAll ((mapM_eq_ok_iff.mp hpairs).imp ?_)
      intro entry pair hpair
      obtain ⟨hdenotes, hpoint⟩ := locate_eq_ok_iff.mp hpair
      exact ⟨hdenotes.eq_iff, hpoint⟩

/-- Something is reported exactly if a key denotes nothing. -/
theorem exists_resolve_error_iff :
    (∃ error, resolve e keyed = .error error) ↔
      ∃ entry ∈ keyed, ∀ address, ¬ entry.1.Denotes e address := by
  simp only [resolve_eq_error_iff, exists_firstFailure_iff, Key.exists_misses_iff]

/-- **Points are resolved exactly to the table that gathers them by address.** -/
theorem resolve_eq_ok_iff :
    resolve e keyed = .ok points ↔
      (∀ entry ∈ keyed, ∃ address, entry.1.Denotes e address) ∧
        Gathers (Key.Denotes e) keyed points := by
  cases h : resolve e keyed with
  | error error =>
      obtain ⟨entry, hentry, hnothing⟩ := exists_resolve_error_iff.mp ⟨error, h⟩
      refine iff_of_false nofun ?_
      rintro ⟨hbound, -⟩
      obtain ⟨address, hdenotes⟩ := hbound entry hentry
      exact hnothing address hdenotes
  | ok found =>
      have hgathers := gathers_of_resolve h
      constructor
      · rintro ⟨⟩
        refine ⟨?_, hgathers⟩
        by_contra! hnothing
        obtain ⟨error, herror⟩ := exists_resolve_error_iff.mpr hnothing
        rw [h] at herror
        cases herror
      · rintro ⟨-, hgathers'⟩
        rw [hgathers.unique hgathers']

end

/-- **Every address gets the point of the last key that denotes it**, and the
addresses come in the order in which keys denote them first. If there is a
symbol that the program does not have, the first one is reported instead. The
keys themselves come from a document in the same way, with every key in place
of what it denotes. -/
theorem resolve_binds (e : Executable) (keyed : Keyed) :
    ((∃ error, resolve e keyed = .error error) ↔
      ∃ name point, (.symbol name, point) ∈ keyed ∧ e.address? name = none) ∧
    (∀ error, resolve e keyed = .error error ↔
      FirstFailure (fun entry => entry.1.Misses e) keyed error) ∧
    (∀ points, resolve e keyed = .ok points ↔
      (∀ entry ∈ keyed, ∃ address, entry.1.Denotes e address) ∧
        Gathers (Key.Denotes e) keyed points) ∧
    ∀ node, Keyed.ofNode? node = some keyed ↔
      ∃ pairs written, pairs? node = some pairs ∧
        List.Forall₂ (fun pair entry => Key.ofNode? pair.1 = some entry.1 ∧
          Point.ofNode? pair.2 = some entry.2) pairs written ∧
        Gathers Eq written keyed := by
  refine ⟨?_, fun _ => resolve_eq_error_iff, fun _ => resolve_eq_ok_iff,
    fun _ => Keyed.ofNode?_eq_some_iff⟩
  simp only [resolve_eq_error_iff, exists_firstFailure_iff]
  constructor
  · rintro ⟨⟨key, point⟩, hentry, error, hmisses⟩
    cases hmisses with
    | symbol hname => exact ⟨_, point, hentry, hname⟩
  · rintro ⟨name, point, hentry, hname⟩
    exact ⟨(.symbol name, point), hentry, _, .symbol hname⟩

/-- The label denotes the instruction that the second line has the address of.
It is repeated in the third line, and yet the second line counts: in the table
of keys the label stands before the address. -/
example :
    let text (s : String) : Node := .scalar ⟨s, false⟩
    let cell (s : String) : Node := .mapping [(text "ram", .sequence [text s])]
    let document : Node :=
      .mapping [(text "LOOP", cell "1"), (text "5", cell "2"), (text "LOOP", cell "3")]
    (Keyed.ofNode? document).map (resolve ⟨#[], [("LOOP", 5)], []⟩)
      = some (.ok [(5, ⟨false, [], [2]⟩)]) :=
  rfl

end Points

end HackComputer.Watch
