-- Run-time values and the lists that they share. A list value is a reference:
-- every value with the same reference sees the same items. The heap holds the
-- items of all lists. A list keeps its length for good; one item of it can be
-- replaced at a time.

namespace Scriptlet

/-! ## Values -/

/-- The place of a list in the heap. -/
abbrev ListRef := Nat

inductive Value where
  | int (n : Int64)
  | str (s : String)
  | bool (b : Bool)
  | list (ref : ListRef)
  deriving DecidableEq, Inhabited

inductive Kind where
  | int | string | bool | list
  deriving DecidableEq

/-- The name of a kind in messages. -/
def Kind.name : Kind → String
  | int => "int"
  | string => "string"
  | bool => "bool"
  | list => "list"

namespace Value

def kind : Value → Kind
  | int _ => .int
  | str _ => .string
  | bool _ => .bool
  | list _ => .list

def int? : Value → Option Int64
  | int n => some n
  | _ => none

def bool? : Value → Option Bool
  | bool b => some b
  | _ => none

def list? : Value → Option ListRef
  | list r => some r
  | _ => none

end Value

/-! ## The heap -/

/-- The items of every list. A reference past the end is an empty list. -/
structure Heap where
  lists : Array (Array Value)

namespace Heap

def empty : Heap := ⟨#[]⟩

def size (h : Heap) : Nat := h.lists.size

/-- The items of a list. -/
def items (h : Heap) (r : ListRef) : List Value := (h.lists.getD r #[]).toList

def length (h : Heap) (r : ListRef) : Nat := (h.lists.getD r #[]).size

/-- A new list with these items, which no value refers to yet. -/
def alloc (h : Heap) (items : List Value) : ListRef × Heap :=
  (h.size, ⟨h.lists.push items.toArray⟩)

/-- The item at a position. -/
def get? (h : Heap) (r : ListRef) (i : Nat) : Option Value := (h.lists.getD r #[])[i]?

/-- The heap in which the item of `r` at position `i` is `v`. -/
def set (h : Heap) (r : ListRef) (i : Nat) (v : Value) : Heap :=
  ⟨h.lists.modify r (·.setIfInBounds i v)⟩

theorem lt_size_of_mem_items {h : Heap} {r : ListRef} {v : Value} (hv : v ∈ h.items r) :
    r < h.size := by
  unfold items Array.getD at hv
  split at hv
  · assumption
  · simp at hv

end Heap

end Scriptlet
