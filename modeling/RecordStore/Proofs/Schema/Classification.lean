import RecordStore.Proofs.Schema.Built

/-!
Categories of types by the wrappers around them. References, parentheses and boxes do not matter,
an option has a category exactly if what it is an option of has one that is not nullable, and a
sequence is told as one from below any wrappers. A category has one kind, as a set of properties too.
-/
namespace RecordStore

/-! ### Wrappers -/

/-- The first type among some arguments. -/
def Argument.firstType? : List Argument → Option Ty
  | [] => none
  | .type t :: _ => some t
  | _ :: rest => firstType? rest

/-- The first type among the arguments in angle brackets. -/
def Segment.firstType? : Segment → Option Ty
  | .mk _ (.angled _ as _) => Argument.firstType? as
  | .mk _ _ => none

namespace Ty

/-- The segments of a path. -/
def segments : Ty → List Segment
  | path _ ss => ss
  | qualified _ _ _ ss => ss
  | _ => []

/-- A path that ends in a name, with a type as the first one among its arguments. -/
def Applies (name : String) (ty t : Ty) : Prop :=
  ∃ s, ty.segments.getLast? = some s ∧ s.name = name ∧ s.firstType? = some t

/-- Types that are columns as another one is. -/
inductive Wraps : Ty → Ty → Prop where
  | reference (lifetime : Option String) (mutable : Bool) (t : Ty) :
    Wraps (reference lifetime mutable t) t
  | parenthesized (t : Ty) : Wraps (parenthesized t) t
  | box {ty t : Ty} (h : Applies "Box" ty t) : Wraps ty t

/-- Below wrappers and options, however nested. -/
inductive Contains : Ty → Ty → Prop where
  | refl (t : Ty) : Contains t t
  | wrapped {ty t u : Ty} (h : Wraps ty t) (below : Contains t u) : Contains ty u
  | optional {ty t u : Ty} (h : Applies "Option" ty t) (below : Contains t u) : Contains ty u

section

variable {config : Config} {scope : Scope}

theorem classifyArguments_eq (as : List Argument) : classifyArguments config scope as =
    (Argument.firstType? as).map fun t => (t, t.classify config scope) := by
  induction as with
  | nil => rfl
  | cons a as ih => cases a <;> simp [classifyArguments, Argument.firstType?, ih]

theorem classifyArgument_eq (s : Segment) : classifyArgument config scope s =
    s.firstType?.map fun t => (t, t.classify config scope) := by
  obtain ⟨name, arguments⟩ := s
  cases arguments <;>
    simp [classifyArgument, Segment.firstType?, classifyArguments_eq]

/-- Only the last segment of a path counts. -/
theorem classifyLast_eq {alone : Bool} {text : String} {ss : List Segment} {s : Segment}
    (h : ss.getLast? = some s) :
    classifyLast config scope alone text ss = classifyLast config scope alone text [s] := by
  induction ss with
  | nil => simp at h
  | cons a ss ih =>
    cases ss with
    | nil =>
      obtain rfl : a = s := by simpa using h
      rfl
    | cons b ss =>
      rw [classifyLast]
      exact ih (by simpa using h)

end

end Ty

/-! ### Categories as sets of properties -/

/-- What a category says of a column. -/
inductive Property where
  | numeric
  | string
  | boolean
  | time
  | nullableNumeric
  | nullableTime
  /-- The source itself names the number. -/
  | declared
  | nullableString
  | nullableBoolean
  | unsigned
  deriving DecidableEq, Repr

namespace Property

def all : List Property :=
  [numeric, string, boolean, time, nullableNumeric, nullableTime, declared, nullableString,
    nullableBoolean, unsigned]

/-- The bit of a property. -/
def place : Property → Nat
  | numeric => 0
  | string => 1
  | boolean => 2
  | time => 3
  | nullableNumeric => 4
  | nullableTime => 5
  | declared => 6
  | nullableString => 7
  | nullableBoolean => 8
  | unsigned => 9

def isNullable : Property → Bool
  | nullableNumeric => true
  | nullableTime => true
  | nullableString => true
  | nullableBoolean => true
  | _ => false

end Property

namespace Kind

/-- The property that is the kind. -/
def plain : Kind → Property
  | numeric => .numeric
  | string => .string
  | boolean => .boolean
  | time => .time

/-- The property of options of that kind. -/
def optional : Kind → Property
  | numeric => .nullableNumeric
  | string => .nullableString
  | boolean => .nullableBoolean
  | time => .nullableTime

end Kind

namespace Category

/-- The property that is the kind of a category. -/
def kind : Category → Property
  | numeric _ _ => .numeric
  | string => .string
  | boolean => .boolean
  | time => .time
  | nullable k => k.optional

end Category

namespace Ty

/-- A path of one name, with types as its arguments. -/
def applied (name : String) (arguments : List Ty) : Ty :=
  path false [.mk name (.angled false (arguments.map .type) false)]

end Ty
end RecordStore
