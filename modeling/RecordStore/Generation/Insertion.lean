import RecordStore.Generation.Message

/-!
The method that inserts many records with one statement. Every row has a placeholder for each
column; numbered ones count on from row to row.
-/
namespace RecordStore.Insertion

open Code

variable (ctx : Context)

/-- The statement, with a place for its rows. -/
def statement (columns : List Column) : Code :=
  template [ctx.record.insertHead columns, ctx.record.insertTail]

/-- Add the placeholders of a row. -/
def pushRow (count : Nat) : Code :=
  let row (mark : String) : Code :=
    text ("(" ++ ",".intercalate (List.replicate count mark) ++ ")")
  let push (c : Code) : Code := stmt (ofText "groups.push" ++ Token.parens c)
  match ctx.record.dialect with
  | .default => push (ofText "::std::string::String::from" ++ Token.parens (row "?"))
  | .postgres =>
    let positions := (List.range count).map fun i =>
      ofText "index *" ++ number count ++ ofText "+" ++ number (i + 1)
    push (call "::std::format!" (row "$\x7b\x7d" :: positions))

/-- Run the statement and return the last key. -/
def run : Code :=
  if ctx.record.dialect.returnsKeys then
    ofText "let mut rows = statement.query(&values)?; let mut key = 0;" ++
      ofText "while let ::core::option::Option::Some(row) = rows.next_row()?" ++
      Token.braces (ofText "key = row.get(0)?;") ++ ofText "::core::result::Result::Ok(key)"
  else
    ofText "let outcome = statement.execute(&values)?;" ++
      ofText "::core::result::Result::Ok(outcome.last_insert_id)"

def body (columns : List Column) (accessors : List String) : Code :=
  let count := columns.length
  let values := accessors.flatMap fun a =>
    stmt (ofText "values.push" ++
      Token.parens (ctx.valueFrom (ofText "record." ++ name a ++ ofText ".clone()")))
  ofText "if records.is_empty()" ++
    Token.braces (ofText "return ::core::result::Result::Ok(0);") ++
    ofText "let mut groups = ::std::vec::Vec::with_capacity(records.len());" ++
    stmt (ofText "let mut values =" ++
      call "::std::vec::Vec::with_capacity" [ofText "records.len() *" ++ number count]) ++
    ofText "for (index, record) in records.iter().enumerate()" ++
    Token.braces (pushRow ctx count ++ values) ++
    stmt (ofText "let query =" ++
      call "::std::format!" [statement ctx columns, ofText "groups.join(\", \")"]) ++
    prepare ++ run ctx

/-- Nothing is produced when there is nothing to insert. -/
def produce : Producer Unit := do
  let r := ctx.record
  let columns := r.insertColumns
  if columns.isEmpty then return
  Producer.need [r.name]
  let accessors ← columns.mapM fun c => Producer.identifier c.name
  let label := r.createMethod
  let m ← Producer.declare
    { label
      name := ← Producer.identifier label
      inputs := [("records", ofText "&" ++ Token.brackets (name ctx.recordType))]
      output := ctx.result (ofText "i64")
      attributes :=
        doc ("Insert `" ++ r.name ++ "` records; returns the last generated key.") ++
          ofText "#[allow(unused_variables)]"
      body := body ctx columns accessors }
  Producer.send (.fragment (.methods [m]))

end RecordStore.Insertion
