import RecordStore.Schema.Record

/-!
The parts of a record's statements that are the same in every call.
-/
namespace RecordStore.Record

variable (r : Record)

def columnList (columns : List Column) : String := ",".intercalate (columns.map Column.column)

/-- An insert up to its rows. -/
def insertHead (columns : List Column) : String :=
  "INSERT INTO " ++ r.table ++ " (" ++ columnList columns ++ ") VALUES "

/-- An insert after its rows. -/
def insertTail : String := r.dialect.insertSuffix r.primaryKey ++ ";"

/-- An update up to the placeholder of the new value. -/
def updateHead (a : Assignment) (c : Column) : String :=
  "UPDATE " ++ r.table ++ " SET " ++ a.sqlText c.column

def deleteHead : String := "DELETE FROM " ++ r.table

def findHead : String := "SELECT " ++ columnList r.sortedColumns ++ " FROM " ++ r.table

def countHead : String := "SELECT COUNT(*) FROM " ++ r.table

def selectHead (c : Column) : String := "SELECT " ++ r.qualified c.column ++ " FROM " ++ r.table

/-- The place of a field's column in what is found. -/
def place? (field : String) : Option Nat := r.sortedColumns.findIdx? (·.name == field)

/-- The columns by which rows can be ordered. -/
def orderColumns : List String :=
  (r.columns.map Column.column).mergeSort fun a b => decide (a ≤ b)

end RecordStore.Record
