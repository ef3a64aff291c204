/-!
Settings of a whole run. Those of single records are in the tags of their declarations.
-/
namespace RecordStore

/-- Who may use what is generated. -/
inductive Access where
  | everyone
  /-- As declared for the record itself. -/
  | inherited
  deriving DecidableEq, Repr

structure Config where
  /-- Further types that are numbers, by name or by path. -/
  numericTypes : List String := []
  /-- The path under which generated code finds its runtime. -/
  runtime : String := "::marlow_core"
  access : Access := .everyone
  deriving DecidableEq, Repr

namespace Config

/-- Settings for code that stands beside the record's declaration. -/
def forDerive : Config := { access := .inherited }

def isNumeric (c : Config) (name : String) : Bool := c.numericTypes.contains name

end Config
end RecordStore
