/-!
What can go wrong when code is generated. Every failure has one message; all but failures of the
output's own form name the record that is to blame, and the field if there is one.
-/
namespace RecordStore

/-- Where a problem is. -/
structure Site where
  record : String
  field : Option String := none
  deriving DecidableEq, Repr

namespace Site

def text (s : Site) : String :=
  "record `" ++ s.record ++ "`" ++
    match s.field with
    | some f => " field `" ++ f ++ "`"
    | none => ""

end Site

inductive ConfigIssue where
  | malformedTag (reason : String)
  | unknownOption (key : String)
  | invalidOptionValue (key value : String)
  | duplicateColumn (column : String)
  | invalidName (name : String)
  | bitmaskNotUnsigned
  | missingPrimaryKey
  | unknownSoftDeleteField (field : String)
  | blueprintFieldCollision (slot : String)
  | duplicateMethod (method : String)
  | duplicateRecord
  | genericRecord
  | unnamedFields
  deriving DecidableEq, Repr

namespace ConfigIssue

def message : ConfigIssue → String
  | malformedTag reason => "malformed-tag: " ++ reason
  | unknownOption key => "unknown-option `" ++ key ++ "`"
  | invalidOptionValue key value => "invalid-option-value `" ++ key ++ "=" ++ value ++ "`"
  | duplicateColumn column => "duplicate-column `" ++ column ++ "`"
  | invalidName name => "invalid-name `" ++ name ++ "`"
  | bitmaskNotUnsigned => "bitmask-not-unsigned"
  | missingPrimaryKey => "missing-primary-key: postgres creation requires `primaryKey`"
  | unknownSoftDeleteField field => "unknown-soft-delete-field `" ++ field ++ "`"
  | blueprintFieldCollision slot => "blueprint-field-collision `" ++ slot ++ "`"
  | duplicateMethod method => "duplicate-method `" ++ method ++ "`"
  | duplicateRecord => "duplicate-record"
  | genericRecord => "generic-record: records cannot have generic parameters"
  | unnamedFields => "unnamed-fields: records need named fields"

end ConfigIssue

/-- Why a type cannot be a column's. -/
inductive TypeIssue where
  | slice
  | unrecognized
  deriving DecidableEq, Repr

namespace TypeIssue

def message : TypeIssue → String
  | slice => "unsupported-slice-type"
  | unrecognized => "no recognized type category"

end TypeIssue

/-- Why output could not be passed on. -/
inductive EmitIssue where
  | closed
  | noRoom
  | flush
  deriving DecidableEq, Repr

namespace EmitIssue

def message : EmitIssue → String
  | closed => "record output was closed"
  | noRoom => "disk full"
  | flush => "flush failed"

end EmitIssue

inductive Error where
  /-- The source is no valid source text. -/
  | parse
  | config (site : Site) (issue : ConfigIssue)
  | unsupportedType (site : Site) (ty : String) (issue : TypeIssue)
  | emit (issue : EmitIssue)
  /-- A text that was to be part of the output is not what it has to be. -/
  | format (output : String)
  deriving DecidableEq, Repr

namespace Error

def ofRecord (record : String) (issue : ConfigIssue) : Error := config { record } issue

def ofField (record field : String) (issue : ConfigIssue) : Error :=
  config { record, field := some field } issue

/-- The text of an error. Parse errors are told apart by their unit only. -/
def message : Error → String
  | parse => "parse error"
  | config site issue => "config error at " ++ site.text ++ ": " ++ issue.message
  | unsupportedType site ty issue =>
    "unsupported type at " ++ site.text ++ ": `" ++ ty ++ "` (" ++ issue.message ++ ")"
  | emit issue => "emit error: " ++ issue.message
  | format output => "format error\n--- unformatted output ---\n" ++ output

end Error
end RecordStore
