import RecordStore.Syntax.Reading
import RecordStore.Text.SnakeCase

/-!
How tables, columns, methods and blueprint slots are named.
-/
namespace RecordStore.Naming

/-- Slots that every blueprint has. -/
def commonSlots : List String :=
  ["inclusive", "limit", "offset", "order_by", "order_direction", "unscoped"]

def endsWith (cs : List Char) (ending : String) : Bool := ending.toList.isSuffixOf cs

/-- The plural of an English noun, by its ending. -/
def pluralize (noun : String) : String :=
  let cs := noun.toList
  if ["s", "sh", "ch", "x"].any (endsWith cs) then noun ++ "es"
  else if endsWith cs "y" && !(["ay", "ey", "oy"].any (endsWith cs)) then
    String.ofList cs.dropLast ++ "ies"
  else noun ++ "s"

/-- The table of a record that names none. -/
def defaultTable (record : String) : String := LetterCase.lower (pluralize record)

/-- A method that does what `verb` says to `noun`. -/
def method (verb noun : String) : String :=
  let verb := snakeCase verb
  if verb.isEmpty then snakeCase noun else verb ++ "_" ++ snakeCase noun

/-- A further slot of a field. -/
def slot (field suffix : String) : String := field ++ "_" ++ snakeCase suffix

/-- Names that SQL text holds as they are. -/
def isSqlName (name : String) : Bool :=
  !name.isEmpty && name.toList.all fun c => c.isAlpha || c == '_'

def isIdentifier (name : String) : Bool := (identifier? name).isSome

end RecordStore.Naming
