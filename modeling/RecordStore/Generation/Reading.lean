import RecordStore.Generation.Message

/-!
Methods that read: whole records, their number, and single columns. A missing blueprint reads as
the default one, so that rows deleted softly stay hidden.
-/
namespace RecordStore.Reading

open Code

variable (ctx : Context)

/-- Append predicate, order and paging to a query. -/
def paging : Code :=
  let append (part : String) : Code :=
    ofText ("if !" ++ part ++ ".is_empty()") ++
      Token.braces (ofText ("query.push(' '); query.push_str(&" ++ part ++ ");"))
  ofText "let predicate = blueprint.predicate(1);" ++ append "predicate" ++
    ofText "let order = blueprint.order_clause();" ++ append "order" ++
    ofText "let limit = if blueprint.limit < 1" ++
    Token.braces (number ctx.record.defaultLimit.toNat) ++ ofText "else" ++
    Token.braces (ofText "blueprint.limit") ++
    ofText "; let offset = if blueprint.offset < 0" ++ Token.braces (number 0) ++ ofText "else" ++
    Token.braces (ofText "blueprint.offset") ++ ofText ";" ++
    stmt (ofText "query.push_str" ++
      Token.parens (ofText "&" ++
        call "::std::format!"
          [template [" LIMIT ", " OFFSET ", ""], ofText "limit", ofText "offset"]))

/-- Collect something of every row. -/
def rowLoop (list : String) (item : Code) : Code :=
  ofText "let mut rows = statement.query(&blueprint.values())?;" ++
    ofText ("let mut " ++ list ++ " = ::std::vec::Vec::new();") ++
    ofText "while let ::core::option::Option::Some(row) = rows.next_row()?" ++
    Token.braces (stmt (ofText (list ++ ".push") ++ Token.parens item)) ++
    ofText ("::core::result::Result::Ok(" ++ list ++ ")")

def vector (item : Code) : Code := ofText "::std::vec::Vec <" ++ item ++ ofText ">"

/-- A vector as the last argument of a result closes with it. -/
def vectorResult (item : Code) : Code := ctx.result (vector item)

def readQuery (head : String) : Code :=
  ctx.resolveBlueprint ++
    stmt (ofText "let mut query =" ++ call "::std::string::String::from" [text head]) ++
    paging ctx ++ prepare

def method (label : String) (output : Code) (documentation : String) (body : Code) :
    Producer StoreMethod := do
  Producer.declare
    { label
      name := ← Producer.identifier label
      inputs := [("blueprint", ctx.blueprintArgument)]
      output
      attributes := doc documentation
      body }

/-! ### Records -/

/-- A field of a record that is read: from its column, or the default where it has none. -/
def fieldInit (field : String) : Producer Code := do
  let member ← Producer.identifier field
  let value := match ctx.record.place? field with
    | some i => ofText "row.get" ++ Token.parens (number i) ++ ofText "?"
    | none => ofText "::core::default::Default::default()"
  return name member ++ ofText ":" ++ value

def find : Producer Unit := do
  let r := ctx.record
  Producer.need [r.name]
  let inits ← r.fieldNames.mapM (fieldInit ctx)
  let m ← method ctx r.findMethod (vectorResult ctx (name ctx.recordType))
    ("Find `" ++ r.name ++ "` records matching `blueprint`.")
    (readQuery ctx (r.findHead) ++
      rowLoop "records" (name ctx.recordType ++ Token.braces (terminated inits)))
  Producer.send (.fragment (.methods [m]))

/-! ### Numbers of records -/

def countBody : Code :=
  let head := ctx.record.countHead
  ctx.resolveBlueprint ++ ofText "let predicate = blueprint.predicate(1);" ++
    ofText "let query = if predicate.is_empty()" ++
    Token.braces (call "::std::string::String::from" [text (head ++ ";")]) ++ ofText "else" ++
    Token.braces (call "::std::format!" [template [head ++ " ", ";"], ofText "predicate"]) ++
    ofText ";" ++ prepare ++
    ofText "let mut rows = statement.query(&blueprint.values())?; match rows.next_row()?" ++
    Token.braces
      (ofText "::core::option::Option::Some(row) => row.get(0), ::core::option::Option::None =>" ++
        Token.braces
          (ofText "::core::result::Result::Err" ++
            Token.parens (ctx.runtimeName "Error::InvalidScan")))

def count : Producer Unit := do
  let r := ctx.record
  let m ← method ctx r.countMethod (ctx.result (ofText "i64"))
    ("Count `" ++ r.name ++ "` records matching `blueprint`.") (countBody ctx)
  Producer.send (.fragment (.methods [m]))

/-! ### Single columns -/

def select (c : Column) : Producer Unit := do
  let r := ctx.record
  Producer.need c.imports
  let m ← method ctx (r.selectMethod c) (vectorResult ctx c.ty.tokens)
    ("Select `" ++ c.name ++ "` of matching `" ++ r.name ++ "` records.")
    (readQuery ctx (r.selectHead c) ++ rowLoop "selected" (ofText "row.get(0)?"))
  Producer.send (.fragment (.methods [m]))

def produce : Producer Unit := do
  find ctx
  count ctx
  ctx.record.columns.forM (select ctx)

end RecordStore.Reading
