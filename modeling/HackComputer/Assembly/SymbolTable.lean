import HackComputer.Isa.Word
import Std.Data.HashMap

/-!
# `HackComputer.Assembly.SymbolTable`: names with addresses, in order

A table that remembers the order in which its names came. Its meaning is
the list `entries`; a hash map beside it answers look-ups in constant
time, and the type carries the proof that both say the same.
-/

set_option autoImplicit false

namespace HackComputer.Assembly

open Isa

/-- Names with their addresses in the order in which they were added. -/
structure SymbolTable where
  /-- The pairs, oldest first. -/
  entries : Array (String × Word)
  /-- The same pairs by name. -/
  index : Std.HashMap String Word
  /-- The index finds what a search through the pairs finds. -/
  index_eq : ∀ name, index[name]? = entries.toList.lookup name

namespace SymbolTable

/-- The table without names. -/
def empty : SymbolTable where
  entries := #[]
  index := ∅
  index_eq _ := by simp

/-- The table without names stands for any table. -/
instance : Inhabited SymbolTable := ⟨empty⟩

/-- The pairs of the table, oldest first. -/
def toList (t : SymbolTable) : List (String × Word) :=
  t.entries.toList

/-- The number of names. -/
def size (t : SymbolTable) : Nat :=
  t.entries.size

/-- The address of a name. -/
def get? (t : SymbolTable) (name : String) : Option Word :=
  t.index[name]?

/-- The table with one more name at its end. A name that is there
already keeps its place and its address. -/
def push (t : SymbolTable) (name : String) (address : Word) : SymbolTable :=
  if h : name ∈ t.index then t
  else {
    entries := t.entries.push (name, address)
    index := t.index.insert name address
    index_eq := by
      intro other
      have habsent : t.entries.toList.lookup name = none := by
        rw [← t.index_eq name]
        exact Std.HashMap.getElem?_eq_none h
      rw [Std.HashMap.getElem?_insert, Array.toList_push, List.lookup_append, ← t.index_eq other]
      by_cases hname : name = other
      · subst hname
        simp [Std.HashMap.getElem?_eq_none h]
      · have hother : (other == name) = false := by simp [Ne.symm hname]
        simp [hname, List.lookup_cons, hother] }

/-- There are no pairs at first. -/
@[simp] theorem toList_empty : empty.toList = [] := rfl

/-- Look-up is a search through the pairs. -/
theorem get?_eq_lookup (t : SymbolTable) (name : String) :
    t.get? name = t.toList.lookup name :=
  t.index_eq name

/-- A new name goes to the end. -/
theorem toList_push {t : SymbolTable} {name : String} (h : t.get? name = none) (address : Word) :
    (t.push name address).toList = t.toList ++ [(name, address)] := by
  have habsent : name ∉ t.index := by
    rw [Std.HashMap.mem_iff_isSome_getElem?]
    simp only [get?] at h
    simp [h]
  simp [push, habsent, toList]

end SymbolTable

end HackComputer.Assembly
