import RecordStore.Config
import RecordStore.Error
import RecordStore.Source.Scope
import RecordStore.Text.CharClass

/-!
Categories of column types. References, parentheses and boxes do not matter, an option makes a
category nullable, and sequences are no columns.
-/
namespace RecordStore

/-- Which predicates a column admits. -/
inductive Kind where
  | numeric
  | string
  | boolean
  | time
  deriving DecidableEq, Repr

inductive Category where
  /-- `declared` numbers are named by the source itself. -/
  | numeric (declared unsigned : Bool)
  | string
  | boolean
  | time
  | nullable (k : Kind)
  deriving DecidableEq, Repr

namespace Category

/-- One bit for each property. -/
def bits : Category → Nat
  | numeric declared unsigned => 1 + (if declared then 64 else 0) + if unsigned then 512 else 0
  | string => 2
  | boolean => 4
  | time => 8
  | nullable .numeric => 16
  | nullable .time => 32
  | nullable .string => 128
  | nullable .boolean => 256

/-- The kind of a category that is not nullable. -/
def plainKind? : Category → Option Kind
  | numeric _ _ => some .numeric
  | string => some .string
  | boolean => some .boolean
  | time => some .time
  | nullable _ => none

def hasRange : Category → Bool
  | numeric _ _ => true
  | time => true
  | _ => false

def hasLike : Category → Bool
  | string => true
  | _ => false

def isNullable : Category → Bool
  | nullable _ => true
  | _ => false

def isUnsigned : Category → Bool
  | numeric _ u => u
  | _ => false

end Category

/-! ### Classification -/

namespace Ty

def signedNames : List String := ["i8", "i16", "i32", "i64", "isize", "f32", "f64"]
def unsignedNames : List String := ["u8", "u16", "u32", "u64", "usize"]
def timeNames : List String := ["NaiveDateTime", "NaiveDate", "NaiveTime"]
def sequenceNames : List String := ["Vec", "VecDeque"]

/-- Time zones of timestamps that the runtime converts. -/
def zoneNames : List String := ["Utc", "FixedOffset", "Local"]

/-- The last name of a path. -/
def lastName? : Ty → Option String
  | .path _ ss => ss.getLast?.map Segment.name
  | .qualified _ _ _ ss => ss.getLast?.map Segment.name
  | _ => none

/-- A path without its arguments. -/
def pathText (ss : List Segment) : String := "::".intercalate (ss.map Segment.name)

def isZone (ty : Option Ty) : Bool := (ty.bind lastName?).any zoneNames.contains

/-- The category of a path by the last name in it, wrappers and sequences apart; `argument` is the
first type among its arguments. A path of that name alone may be built in. -/
def namedCategory (config : Config) (scope : Scope) (alone : Bool) (name text : String)
    (argument : Option Ty) : Except TypeIssue Category :=
  let registered : Except TypeIssue Category :=
    if name == "DateTime" then
      if isZone argument then .ok .time else .error .unrecognized
    else if timeNames.contains name then .ok .time
    else if config.isNumeric name || config.isNumeric text then .ok (.numeric false false)
    else .error .unrecognized
  if !alone then registered
  else if signedNames.contains name then .ok (.numeric false false)
  else if unsignedNames.contains name then .ok (.numeric false true)
  else if name == "String" then .ok .string
  else if name == "bool" then .ok .boolean
  else
    match scope.number name with
    | some target => .ok (.numeric true (unsignedNames.contains target))
    | none => registered

/-- The category of an option. -/
def optional (c : Category) : Except TypeIssue Category :=
  match c.plainKind? with
  | some k => .ok (.nullable k)
  | none => .error .unrecognized

mutual

/-- The first type among some arguments, with its category. -/
def classifyArguments (config : Config) (scope : Scope) :
    List Argument → Option (Ty × Except TypeIssue Category)
  | [] => none
  | .type t :: _ => some (t, classify config scope t)
  | _ :: rest => classifyArguments config scope rest

/-- The first type among the arguments of a segment. -/
def classifyArgument (config : Config) (scope : Scope) :
    Segment → Option (Ty × Except TypeIssue Category)
  | .mk _ (.angled _ as _) => classifyArguments config scope as
  | .mk _ _ => none

/-- The category of a path by its last segment. -/
def classifyLast (config : Config) (scope : Scope) (alone : Bool) (text : String) :
    List Segment → Except TypeIssue Category
  | [] => .error .unrecognized
  | [s] =>
    let argument := classifyArgument config scope s
    if sequenceNames.contains s.name then .error .slice
    else if s.name == "Box" then
      match argument with
      | some (_, c) => c
      | none => .error .unrecognized
    else if s.name == "Option" then
      match argument with
      | some (_, c) => c.bind optional
      | none => .error .unrecognized
    else namedCategory config scope alone s.name text (argument.map Prod.fst)
  | _ :: rest => classifyLast config scope alone text rest

/-- The category of a column's type. -/
def classify (config : Config) (scope : Scope) : Ty → Except TypeIssue Category
  | .slice _ => .error .slice
  | .array _ _ => .error .slice
  | .reference _ _ t => classify config scope t
  | .parenthesized t => classify config scope t
  | .path _ ss => classifyLast config scope (ss.length == 1) (pathText ss) ss
  | .qualified _ _ _ ss => classifyLast config scope false (pathText ss) ss
  | _ => .error .unrecognized

end

/-! ### Names that a type needs -/

/-- Names that are known everywhere. -/
def preludeNames : List String :=
  ["Option", "String", "Vec", "Box", "bool", "char", "str", "i8", "i16", "i32", "i64", "i128",
   "isize", "u8", "u16", "u32", "u64", "u128", "usize", "f32", "f64", "Self"]

/-- The name that a path needs: the first one, unless it is known everywhere or leads away from
here. -/
def headName (rooted : Bool) (ss : List Segment) : List String :=
  match rooted, ss with
  | true, _ => []
  | _, [] => []
  | _, [s] => if preludeNames.contains s.name then [] else [s.name]
  | _, s :: _ => if ["crate", "self", "super"].contains s.name then [] else [s.name]

mutual

/-- The names that a type needs, arguments included, from left to right. -/
def neededNames : Ty → List String
  | .reference _ _ t => neededNames t
  | .parenthesized t => neededNames t
  | .path rooted ss => headName rooted ss ++ segmentNames ss
  | .qualified _ _ rooted ss => headName rooted ss ++ segmentNames ss
  | _ => []

def segmentNames : List Segment → List String
  | [] => []
  | .mk _ (.angled _ as _) :: rest => argumentNames as ++ segmentNames rest
  | _ :: rest => segmentNames rest

def argumentNames : List Argument → List String
  | [] => []
  | .type t :: rest => neededNames t ++ argumentNames rest
  | _ :: rest => argumentNames rest

end

/-- Sorted, each name once. -/
def distinctSorted (names : List String) : List String :=
  (names.mergeSort fun a b => decide (a ≤ b)).eraseReps

def imports (ty : Ty) : List String := distinctSorted (neededNames ty)

/-! ### Text of a type -/

def isWordChar (c : Char) : Bool := CharClass.isAlphanumeric c || c == '_'

/-- Drop blanks that do not part words; `before` is the last character kept. -/
def closeUp (before : Option Char) : List Char → List Char
  | [] => []
  | c :: rest =>
    if c == ' ' && !(before.any isWordChar && rest.head?.any isWordChar) then closeUp before rest
    else c :: closeUp (some c) rest

/-- A type on one line, as people write it. -/
def display (ty : Ty) : String := String.ofList (closeUp none (tokenText ty.tokens).toList)

end Ty
end RecordStore
