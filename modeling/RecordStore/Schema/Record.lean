import RecordStore.Schema.Assignment

/-!
Records with all that generation asks about them. A record is built from its declaration and
checked at once: columns and methods have names of their own, names are well formed, and settings
fit the columns.
-/
namespace RecordStore

structure Record where
  name : String
  /-- The name inside of the names of update methods. -/
  recordName : String
  table : String
  storeName : String
  blueprintName : String
  repositoryName : String
  /-- How many rows are read when the caller sets no limit. -/
  defaultLimit : Int
  dialect : Dialect
  primaryKey : Option String
  /-- The field that tells which rows are deleted. -/
  softDelete : Option String
  parts : NameParts
  capabilities : Capabilities
  columns : List Column
  /-- All fields of the declaration, columns or not. -/
  fieldNames : List String
  visibility : Visibility

/-- What one method of a store does. -/
inductive Action where
  | create
  | write (a : Assignment) (c : Column)
  | delete
  | find
  | count
  | select (c : Column)

namespace Record

/-- The field whose tags hold settings of the record. -/
def tableField : String := "table"

/-- The method that makes a store. -/
def constructorName : String := "new"

/-! ### Reading a declaration -/

/-- The record's settings: those of its own tags, then those of the table field. -/
def settings (d : Declaration) : Except Error RecordSettings := do
  let s ← (d.tags.foldlM RecordSettings.applyTag {}).mapError (Error.ofRecord d.name)
  let tags := (d.fields.filter (·.name == tableField)).flatMap FieldDeclaration.tags
  (tags.foldlM RecordSettings.applyTag s).mapError (Error.ofField d.name tableField)

/-- Add a column; one of a field of the same name gives its place to it. -/
def insertColumn (columns : List Column) (c : Column) : List Column :=
  if columns.any (·.name == c.name) then columns.map fun o => if o.name == c.name then c else o
  else columns ++ [c]

/-- The columns of some fields, after those of the fields before them; `used` are the columns
taken by then. -/
def columnsFrom (config : Config) (scope : Scope) (record : String) (parts : NameParts)
    (used : List String) (columns : List Column) :
    List FieldDeclaration → Except Error (List Column)
  | [] => .ok columns
  | f :: rest =>
    if f.name == tableField || !f.isTagged then
      columnsFrom config scope record parts used columns rest
    else do
      match ← Column.ofField config scope record parts f with
      | none => columnsFrom config scope record parts used columns rest
      | some c =>
        if used.contains c.column then
          throw (.ofField record c.name (.duplicateColumn c.column))
        columnsFrom config scope record parts (c.column :: used) (insertColumn columns c) rest

/-! ### Names of methods -/

variable (r : Record)

def findMethod : String := Naming.method r.parts.find (Naming.pluralize r.name)
def countMethod : String := Naming.method r.parts.count (Naming.pluralize r.name)
def createMethod : String := Naming.method "Create" (Naming.pluralize r.name)
def deleteMethod : String := Naming.method "Delete" (Naming.pluralize r.name)
def selectMethod (c : Column) : String := Naming.method r.parts.select (Naming.pluralize c.name)

/-- A method that does what `verb` says to a field of the record. -/
def fieldMethod (verb : String) (c : Column) : String :=
  Naming.method verb (r.recordName ++ "_" ++ c.name)

def updateMethod (c : Column) : String := r.fieldMethod r.parts.update c
def addMethod (c : Column) : String := r.fieldMethod "Add" c
def dropMethod (c : Column) : String := r.fieldMethod "Drop" c

/-- The method that writes a column in one way. -/
def writeMethod (c : Column) : Assignment → String
  | .set => r.updateMethod c
  | .add => r.addMethod c
  | .drop => r.dropMethod c

def writeMethods (c : Column) : List String := (Assignment.all c).map (r.writeMethod c)

def methodName : Action → String
  | .create => r.createMethod
  | .write a c => r.writeMethod c a
  | .delete => r.deleteMethod
  | .find => r.findMethod
  | .count => r.countMethod
  | .select c => r.selectMethod c

/-- What the store does, in the order in which its methods are generated. -/
def actions : List Action :=
  if r.columns.isEmpty then []
  else
    (if r.capabilities.create then [.create] else []) ++
      (if r.capabilities.update then
        (r.columns.filter Column.isWritable).flatMap fun c => (Assignment.all c).map (.write · c)
        else []) ++
      (if r.capabilities.delete then [.delete] else []) ++
      if r.capabilities.query then .find :: .count :: r.columns.map .select else []

/-- The methods of the store. -/
def storeMethods : List String := r.actions.map r.methodName

def action? (method : String) : Option Action :=
  r.actions.find? (r.methodName · == method)

/-! ### Columns -/

def column? (field : String) : Option Column := r.columns.find? (·.name == field)

def softDeleteColumn : Option String := (r.softDelete.bind r.column?).map Column.column

/-- Columns by name, which is the order of all column lists. -/
def sortedColumns : List Column := r.columns.mergeSort fun a b => decide (a.column ≤ b.column)

/-- The columns of inserts. -/
def insertColumns : List Column := r.sortedColumns.filter fun c => !c.autoIncrement

def qualified (column : String) : String := r.table ++ "." ++ column

/-! ### Checks -/

/-- Whether a declared field is a nullable time. -/
def isNullableTime (columns : List Column) (field : String) : Bool :=
  (columns.find? (·.name == field)).any (·.category == .nullable .time)

/-- The first slot that is taken, with the column it belongs to; `used` are those taken before. -/
def slotClash (used : List String) : List (Column × String) → Option (Column × String)
  | [] => none
  | (c, slot) :: rest =>
    if used.contains slot then some (c, slot) else slotClash (slot :: used) rest

def checkSlots : Except Error Unit :=
  let slots := r.columns.flatMap fun c => c.slots.map fun s => (c, s)
  match slotClash Naming.commonSlots slots with
  | some (c, slot) => .error (.ofField r.name c.name (.blueprintFieldCollision slot))
  | none => .ok ()

/-- All names that have to be identifiers. -/
def generatedNames : List String :=
  [r.storeName, r.blueprintName, r.repositoryName, r.findMethod, r.countMethod, r.createMethod,
    r.deleteMethod] ++
    r.columns.flatMap fun c => c.slots ++ r.selectMethod c :: r.writeMethods c

def checkIdentifiers : Except Error Unit :=
  match r.generatedNames.find? fun n => !Naming.isIdentifier n with
  | some bad => .error (.ofRecord r.name (.invalidName bad))
  | none => .ok ()

/-- The first name that occurs again; `used` are those before. -/
def repeated? (used : List String) : List String → Option String
  | [] => none
  | n :: rest => if used.contains n then some n else repeated? (n :: used) rest

def checkMethods : Except Error Unit :=
  match repeated? [constructorName] r.storeMethods with
  | some name => .error (.ofRecord r.name (.duplicateMethod name))
  | none => .ok ()

def check (record : String) (b : Bool) (issue : ConfigIssue) : Except Error Unit :=
  if b then .ok () else .error (.ofRecord record issue)

/-- A record from its settings and columns. -/
def make (d : Declaration) (s : RecordSettings) (columns : List Column) : Record :=
  { name := d.name
    recordName := s.record.getD d.name
    table := s.table.getD (Naming.defaultTable d.name)
    storeName := s.store.getD (d.name ++ "Store")
    blueprintName := s.blueprint.getD (d.name ++ "Blueprint")
    repositoryName := d.name ++ "Repository"
    defaultLimit := s.defaultLimit
    dialect := s.dialect
    primaryKey := s.primaryKey
    softDelete := s.softDelete
    parts := s.parts
    capabilities := s.capabilities
    columns
    fieldNames := d.fields.map FieldDeclaration.name
    visibility := d.visibility }

/-- The record that a declaration describes. -/
def build (d : Declaration) (scope : Scope) (config : Config) : Except Error Record := do
  let s ← settings d
  let columns ← columnsFrom config scope d.name s.parts [] [] d.fields
  let r := make d s columns
  check d.name (Naming.isSqlName r.table) (.invalidName r.table)
  r.softDelete.forM fun field =>
    check d.name (isNullableTime columns field) (.unknownSoftDeleteField field)
  r.primaryKey.forM fun key => check d.name (Naming.isSqlName key) (.invalidName key)
  check d.name
    (!(r.dialect == .postgres && r.capabilities.create && r.primaryKey.isNone)) .missingPrimaryKey
  r.checkSlots
  r.checkIdentifiers
  r.checkMethods
  return r

end Record
end RecordStore
