import Std.Data.TreeMap

/-!
# Tables of named entries

A table holds entries under distinct names, in the order in which they were declared.  An index from
names to places makes look-ups fast.
-/

namespace LangCheck

/-- What can be declared under a name of its own. -/
class Named (α : Type) where
  /-- The name of an entry. -/
  nameOf : α → String

export Named (nameOf)

/-- The error of a declaration whose name is taken. -/
structure DuplicateName where
  /-- The name that is taken. -/
  name : String
deriving DecidableEq, Repr, Inhabited

/-- What the error says. -/
def DuplicateName.message (e : DuplicateName) : String :=
  "`" ++ e.name ++ "` is already declared in this scope"

/-- Entries in the order of their declaration, with an index of their names. -/
structure Table (α : Type) where
  /-- The entries, in the order of their declaration. -/
  entries : Array α
  /-- The place of each name. -/
  index : Std.TreeMap String Nat
deriving Inhabited

namespace Table

variable {α : Type}

/-- The table without any entry. -/
def empty : Table α := ⟨#[], {}⟩

/-- The entries, in the order of their declaration. -/
def toList (t : Table α) : List α := t.entries.toList

/-- The number of entries. -/
def size (t : Table α) : Nat := t.entries.size

/-- Whether there are no entries. -/
def isEmpty (t : Table α) : Bool := t.entries.isEmpty

/-- Whether there is an entry of a name. -/
def contains (t : Table α) (name : String) : Bool := t.index.contains name

/-- The entry of a name. -/
def find? (t : Table α) (name : String) : Option α :=
  t.index[name]?.bind fun place => t.entries[place]?

/-- Declares an entry, unless its name is taken. -/
def declare [Named α] (t : Table α) (entry : α) : Except DuplicateName (Table α) :=
  if t.contains (nameOf entry) then .error ⟨nameOf entry⟩
  else .ok ⟨t.entries.push entry, t.index.insert (nameOf entry) t.entries.size⟩

/-- Declares an entry if its name is free, and otherwise leaves the table as it is. -/
def declareOrKeep [Named α] (t : Table α) (entry : α) : Table α :=
  match t.declare entry with
  | .ok t' => t'
  | .error _ => t

/-- Puts an entry in the place of the one of the given name; without such an entry the table stays
as it is. -/
def replace (t : Table α) (name : String) (entry : α) : Table α :=
  match t.index[name]? with
  | some place => { t with entries := t.entries.setIfInBounds place entry }
  | none => t

end Table

end LangCheck
