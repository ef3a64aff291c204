import RecordStore.Generation.Message

/-!
The type of a record's blueprints: what a caller may ask for, and how that becomes a predicate.
Every slot has a method that makes its clause and the values bound in it, from the index of the
first placeholder on.
-/
namespace RecordStore.BlueprintCode

open Code

variable (ctx : Context)

/-- The expression of a placeholder's text. -/
def placeholder (d : Dialect) (index : Code) : Code :=
  match d with
  | .default => call "::std::string::String::from" [text "?"]
  | .postgres => call "::std::format!" [template ["$", ""], index]

def emptyClause : Code :=
  Token.parens (ofText "::std::string::String::new(), ::std::vec::Vec::new()")

def returnEmpty : Code := stmt (ofText "return" ++ emptyClause)

/-- A clause that binds nothing. -/
def returnText (s : String) : Code :=
  stmt (ofText "return" ++
    Token.parens
      (call "::std::string::String::from" [text s] ++ ofText ", ::std::vec::Vec::new()"))

def slotRef (slot : String) : Code := ofText "self." ++ name slot

def withCapacity (list : String) (items : Code) : Code :=
  stmt (ofText ("let mut " ++ list ++ " = ::std::vec::Vec::with_capacity") ++
    Token.parens (items ++ ofText ".len()"))

def baseOffset : Code := ofText "base + offset"

/-- One placeholder and one value for each item. -/
def inList (items : Code) (column : String) : Code :=
  withCapacity "placeholders" items ++ withCapacity "values" items ++
    ofText "for (offset, item) in" ++ items ++ ofText ".iter().enumerate()" ++
    Token.braces
      (stmt (ofText "placeholders.push" ++
          Token.parens (placeholder ctx.record.dialect baseOffset)) ++
        stmt (ofText "values.push" ++ Token.parens (ctx.valueFrom (ofText "item.clone()")))) ++
    Token.parens
      (call "::std::format!"
          [template [column ++ " IN (", ")"], ofText "placeholders.join(\",\")"] ++
        ofText ", values")

def ifEmpty (items : Code) (c : Code) : Code :=
  ofText "if" ++ items ++ ofText ".is_empty()" ++ Token.braces c

def exactBody (slot column : String) : Code :=
  ifEmpty (slotRef slot) returnEmpty ++ inList ctx (slotRef slot) column

/-- No list asks for nothing, an empty one for rows with a value, and a list with a missing value
for rows without one. -/
def nullableBody (slot column : String) : Code :=
  ofText "let ::core::option::Option::Some(items) = &" ++ slotRef slot ++ ofText "else" ++
    Token.braces returnEmpty ++ ofText ";" ++
    ifEmpty (name "items") (returnText (ctx.record.dialect.present column)) ++
    ofText "if items.iter().any(::core::option::Option::is_none)" ++
    Token.braces (returnText (Dialect.absent column)) ++ inList ctx (name "items") column

/-- Two values are the ends of a range; any other number of them asks for nothing. -/
def rangeBody (slot column : String) : Code :=
  let end' (i : Nat) : Code :=
    ctx.valueFrom (slotRef slot ++ Token.brackets (number i) ++ ofText ".clone()")
  let mark (index : Code) : Code := placeholder ctx.record.dialect index
  ofText "if" ++ slotRef slot ++ ofText ".len() != 2" ++ Token.braces returnEmpty ++
    Token.parens
      (call "::std::format!"
          [template ["(" ++ column ++ " > ", " AND " ++ column ++ " < ", ")"], mark (name "base"),
            mark (ofText "base + 1")] ++
        ofText ", ::std::vec!" ++ Token.brackets (commas [end' 0, end' 1]))

/-- Patterns are joined like the clauses themselves. -/
def likeBody (slot column : String) : Code :=
  ifEmpty (slotRef slot) returnEmpty ++ withCapacity "parts" (slotRef slot) ++
    withCapacity "values" (slotRef slot) ++ ofText "for (offset, pattern) in" ++ slotRef slot ++
    ofText ".iter().enumerate()" ++
    Token.braces
      (stmt (ofText "parts.push" ++
          Token.parens
            (call "::std::format!"
              [template [column ++ " LIKE ", ""], placeholder ctx.record.dialect baseOffset])) ++
        stmt (ofText "values.push" ++ Token.parens (ctx.valueFrom (ofText "pattern.clone()")))) ++
    ofText "let joiner = if self.inclusive" ++ Token.braces (text " OR ") ++ ofText "else" ++
    Token.braces (text " AND ") ++ ofText "; (parts.join(joiner), values)"

/-- The method of a slot is named after it, without the mark of raw names. -/
def clauseMethod (slot : String) : String :=
  "clause_" ++
    match slot.toList with
    | 'r' :: '#' :: rest => String.ofList rest
    | _ => slot

def vector (item : Code) : Code := ofText "::std::vec::Vec <" ++ item ++ ofText ">"

/-- The type of an optional vector; its ends are written together. -/
def optionalVector (item : Code) : Code :=
  ofText "::core::option::Option < ::std::vec::Vec <" ++ item ++ ofText ">>"

def exactSlot (c : Column) (slot : String) : SlotCode :=
  let column := ctx.record.qualified c.column
  if c.category.isNullable then
    ⟨slot, optionalVector c.ty.tokens, clauseMethod slot, nullableBody ctx slot column⟩
  else ⟨slot, vector c.ty.tokens, clauseMethod slot, exactBody ctx slot column⟩

def rangeSlot (c : Column) (slot : String) : SlotCode :=
  ⟨slot, vector c.ty.tokens, clauseMethod slot, rangeBody ctx slot (ctx.record.qualified c.column)⟩

def likeSlot (c : Column) (slot : String) : SlotCode :=
  ⟨slot, vector (ofText "::std::string::String"), clauseMethod slot,
    likeBody ctx slot (ctx.record.qualified c.column)⟩

/-- The slots of a column. -/
def columnSlots (c : Column) : Producer (List SlotCode) := do
  let exact := exactSlot ctx c (← Producer.identifier c.name)
  let range ← c.rangeSlot.toList.mapM fun s => return rangeSlot ctx c (← Producer.identifier s)
  let like ← c.likeSlot.toList.mapM fun s => return likeSlot ctx c (← Producer.identifier s)
  return exact :: range ++ like

/-! ### Predicate and order -/

/-- Rows that are deleted softly stay out unless they are asked for. Alternatives are grouped
before the scope is added to them. -/
def scopeBody (column : String) : Code :=
  let scope := Dialect.absent (ctx.record.qualified column)
  let returnJoined (parts : List String) : Code :=
    stmt (ofText "return" ++ call "::std::format!" [template parts, name "joined"])
  ofText "if !self.unscoped" ++
    Token.braces
      (ofText "if clauses.is_empty()" ++
        Token.braces
          (stmt (ofText "return" ++
            call "::std::string::String::from" [text ("WHERE " ++ scope)])) ++
        ofText "if self.inclusive && joined.contains(\" OR \")" ++
        Token.braces (returnJoined ["WHERE (", ") AND " ++ scope]) ++
        returnJoined ["WHERE ", " AND " ++ scope])

def predicateCode : Code :=
  ofText "let (clauses, _) = self.conditions(base); let joiner = if self.inclusive" ++
    Token.braces (text " OR ") ++ ofText "else" ++ Token.braces (text " AND ") ++
    ofText "; let joined = clauses.join(joiner);" ++
    (match ctx.record.softDeleteColumn with | some c => scopeBody ctx c | none => []) ++
    ofText "if clauses.is_empty()" ++
    Token.braces (ofText "return ::std::string::String::new();") ++
    call "::std::format!" [template ["WHERE ", ""], name "joined"]

def orderCode : Code :=
  let arm (column : String) : Code :=
    text column ++ ofText "=>" ++ text (ctx.record.qualified column)
  ofText "let column = match self.order_by.as_str()" ++
    Token.braces
      (terminated (ctx.record.orderColumns.map arm) ++
        ofText "_ => return ::std::string::String::new()") ++
    ofText "; let direction = if self.order_direction.eq_ignore_ascii_case(\"desc\")" ++
    Token.braces (text "DESC") ++ ofText "else" ++ Token.braces (text "ASC") ++ ofText ";" ++
    call "::std::format!" [template ["ORDER BY ", " ", ""], name "column", name "direction"]

/-! ### Code of the type -/

/-- The fields that all blueprints have, with what they mean. -/
def commonFields (b : BlueprintCode) : List (String × String × Code) :=
  [("inclusive", " Join clauses with `OR` instead of `AND`.", name "bool"),
    ("limit", " Row limit; values below 1 use the store default.", name "i64"),
    ("offset", " Rows to skip.", name "i64"),
    ("order_by", " Column to order by.", ofText "::std::string::String"),
    ("order_direction", " `asc` or `desc`.", ofText "::std::string::String")] ++
    if b.hasScope then [("unscoped", " Include soft-deleted rows.", name "bool")] else []

/-- The names of all fields. -/
def fieldNames (b : BlueprintCode) : List String :=
  b.slots.map SlotCode.name ++ b.commonFields.map Prod.fst

def fieldsCode (b : BlueprintCode) : Code :=
  terminated (b.slots.map fun s => ctx.visibility ++ name s.name ++ ofText ":" ++ s.ty) ++
    b.commonFields.flatMap fun (n, d, ty) =>
      docLine d ++ ctx.visibility ++ name n ++ ofText ":" ++ ty ++ comma

def clauseCode (s : SlotCode) : Code :=
  ofText "#[allow(unused_variables)] fn" ++ name s.clauseMethod ++
    ofText "(&self, base: usize) ->" ++
    Token.parens (ofText "::std::string::String, ::std::vec::Vec <" ++ ctx.runtimeName "Value" ++
      ofText ">") ++
    Token.braces s.clauseBody

/-- Clauses and values of all slots, each from the placeholder after those before it. -/
def conditionsCode (slots : List SlotCode) : Code :=
  let values := ofText "::std::vec::Vec <" ++ ctx.runtimeName "Value" ++ ofText ">"
  let one (s : SlotCode) : Code :=
    stmt (ofText "let (clause, bound) = self." ++ name s.clauseMethod ++
        ofText "(base + values.len())") ++
      ofText "if !clause.is_empty()" ++
      Token.braces (ofText "clauses.push(clause); values.extend(bound);")
  ofText "fn conditions(&self, base: usize) ->" ++
    Token.parens (ofText "::std::vec::Vec<::std::string::String>," ++ values) ++
    Token.braces
      (ofText "let mut clauses: ::std::vec::Vec<::std::string::String> = ::std::vec::Vec::new();" ++
        ofText "let mut values:" ++ values ++ ofText "= ::std::vec::Vec::new();" ++
        slots.flatMap one ++ ofText "(clauses, values)")

def methodsCode (b : BlueprintCode) : Code :=
  b.slots.flatMap (clauseCode ctx) ++ conditionsCode ctx b.slots ++
    docLine " `WHERE` clause with placeholders numbered from `base`, or an" ++
    docLine " empty string when nothing applies." ++ ctx.visibility ++
    ofText "fn predicate(&self, base: usize) -> ::std::string::String" ++
    Token.braces b.predicateBody ++
    docLine " Values bound by the predicate, in placeholder order." ++ ctx.visibility ++
    ofText "fn values(&self) -> ::std::vec::Vec <" ++ ctx.runtimeName "Value" ++ ofText ">" ++
    Token.braces (ofText "self.conditions(1).1") ++
    docLine " Whether any caller-set condition applies." ++ ctx.visibility ++
    ofText "fn has_conditions(&self) -> bool" ++
    Token.braces (ofText "!self.conditions(1).0.is_empty()") ++
    docLine " `ORDER BY` clause for `order_by`, or an empty string when it names" ++
    docLine " no column." ++ ctx.visibility ++
    ofText "fn order_clause(&self) -> ::std::string::String" ++ Token.braces b.orderBody

def code (b : BlueprintCode) : Code :=
  doc ("Query blueprint for `" ++ ctx.record.name ++ "` records.") ++
    ofText "#[derive(Debug, Clone, Default)]" ++ ctx.visibility ++ ofText "struct" ++
    name ctx.blueprintType ++ Token.braces (fieldsCode ctx b) ++ ofText "impl" ++
    name ctx.blueprintType ++ Token.braces (methodsCode ctx b) ++
    ofText "impl ::core::fmt::Display for" ++ name ctx.blueprintType ++
    Token.braces
      (ofText "fn fmt(&self, f: &mut ::core::fmt::Formatter<'_>) -> ::core::fmt::Result" ++
        Token.braces (ofText "f.write_str(&self.predicate(1))"))

/-- The type of the record's blueprints. -/
def ofSlots (slots : List SlotCode) : BlueprintCode :=
  { slots
    hasScope := ctx.record.softDelete.isSome
    predicateBody := predicateCode ctx
    orderBody := orderCode ctx }

def columnWithNeeds (c : Column) : Producer (List SlotCode) := do
  Producer.need c.imports
  columnSlots ctx c

def produce : Producer Unit := do
  let slots ← ctx.record.columns.mapM (columnWithNeeds ctx)
  Producer.send (.fragment (.blueprint (ofSlots ctx slots.flatten)))

end RecordStore.BlueprintCode
