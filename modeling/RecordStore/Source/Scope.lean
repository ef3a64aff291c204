import RecordStore.Syntax.Item

/-!
Short names of a source file and the paths they stand for, as a module inside of the file's own
module has to write them:

* a path from `self` or from a module of the file starts one level above: at `super`;
* a path from `super` starts another level above;
* all other paths stay as they are.

Imports of everything bind no short name.
-/
namespace RecordStore

/-- A path to import, possibly under another name. The first segment of a path from the root of
all names is empty. -/
structure UsePath where
  segments : List String
  newName : Option String := none
  deriving DecidableEq, Repr

namespace UsePath

def text (p : UsePath) : String :=
  "::".intercalate p.segments ++ match p.newName with | some a => " as " ++ a | none => ""

/-- A path of the file, from a module one level down. -/
def descend (modules segments : List String) : List String :=
  match segments with
  | "self" :: rest => "super" :: rest
  | "super" :: _ => "super" :: segments
  | first :: _ => if modules.contains first then "super" :: segments else segments
  | [] => []

end UsePath

structure Scope where
  paths : List (String × UsePath)
  /-- Names that the file declares for built-in numbers. -/
  numbers : List (String × String)
  deriving DecidableEq, Repr

namespace Scope

def empty : Scope := ⟨[], []⟩

/-- Bind a name; a binding of the same name gives way. -/
def bind {α : Type} (name : String) (a : α) (entries : List (String × α)) : List (String × α) :=
  entries.filter (·.1 != name) ++ [(name, a)]

def resolve (s : Scope) (name : String) : Option UsePath := s.paths.lookup name

def number (s : Scope) (name : String) : Option String := s.numbers.lookup name

def size (s : Scope) : Nat := s.paths.length

def isEmpty (s : Scope) : Bool := s.paths.isEmpty

def numericPrimitives : List String :=
  ["i8", "i16", "i32", "i64", "isize", "u8", "u16", "u32", "u64", "usize", "f32", "f64"]

/-- The built-in number that a type is. -/
def primitive? : Ty → Option String
  | .path false [.mk n .none] => if numericPrimitives.contains n then some n else none
  | _ => none

/-! ### Leaves of imports -/

/-- A leaf of an import, with the name that it binds. -/
structure Leaf where
  name : String
  segments : List String
  newName : Option String
  deriving DecidableEq, Repr

mutual

/-- The leaves under a path; `self` stands for the path itself. -/
def leaves (before : List String) : UseTree → List Leaf
  | .path n t => leaves (before ++ [n]) t
  | .name n =>
    if n == "self" then
      match before.getLast? with
      | some last => [⟨last, before, none⟩]
      | none => []
    else [⟨n, before ++ [n], none⟩]
  | .rename n a => [⟨a, before ++ [n], some a⟩]
  | .glob => []
  | .group ts _ => groupLeaves before ts

def groupLeaves (before : List String) : List UseTree → List Leaf
  | [] => []
  | t :: ts => leaves before t ++ groupLeaves before ts

end

/-! ### Scopes of files -/

def declare (name : String) (s : Scope) : Scope :=
  { s with paths := bind name ⟨["super", name], none⟩ s.paths }

def addLeaf (modules : List String) (s : Scope) (l : Leaf) : Scope :=
  { s with paths := bind l.name ⟨UsePath.descend modules l.segments, l.newName⟩ s.paths }

/-- What an item adds, given the modules of the file. -/
def addItem (modules : List String) (s : Scope) (i : Item) : Scope :=
  match i.form with
  | .use rooted tree =>
    (leaves (if rooted then [""] else []) tree).foldl (addLeaf modules) s
  | .struct item => s.declare item.name
  | .enum name => s.declare name
  | .typeName name ty =>
    let s := s.declare name
    match primitive? ty with
    | some p => { s with numbers := bind name p s.numbers }
    | none => s
  | _ => s

def moduleNames (items : List Item) : List String :=
  items.filterMap fun i => match i.form with | .module n => some n | _ => none

def ofItems (items : List Item) : Scope :=
  items.foldl (addItem (moduleNames items)) empty

end Scope
end RecordStore
