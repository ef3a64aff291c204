import RecordStore.Syntax.Grammar.Items
import RecordStore.Syntax.Lexer

/-!
Reading source text: files, and single types, paths, names and the like. A text that is no such
thing reads as nothing.
-/
namespace RecordStore

open RecordStore.Parser

/-- The grammar of phrases that nest at most to a depth. -/
def Grammar.ofDepth : Nat → Grammar
  | 0 => Grammar.empty
  | n + 1 =>
    { ty := fun bounds ts => (tyBody (ofDepth n) bounds).run ts
      bound := fun captures constants ts => (boundBody (ofDepth n) captures constants).run ts
      expr := fun records ts => (exprBody (ofDepth n) records).run ts
      early := fun ts => (earlyBody (ofDepth n)).run ts
      operand := fun records ts => (operandBody (ofDepth n) records).run ts
      climb := fun records precedence e ts => (climbBody (ofDepth n) records precedence e).run ts
      pattern := fun ts => (patternBody (ofDepth n)).run ts
      block := fun ts => (blockBody (ofDepth n)).run ts
      item := fun ts => (itemBody (ofDepth n)).run ts
      useTree := fun anyRoot ts => (useTreeBody (ofDepth n) anyRoot).run ts }

/-- A grammar deep enough for a token sequence. -/
def Grammar.ofTokens (tokens : List Token) : Grammar := .ofDepth (8 * tokens.length + 16)

/-- Read a whole text. -/
def read? {α : Type} (p : Grammar → Parser α) (source : String) : Option α := do
  let tokens ← tokens? source
  all? (p (.ofTokens tokens)) tokens

def Ty.read? (source : String) : Option Ty := RecordStore.read? (·.ty true) source

def Path.read? (source : String) : Option Path :=
  RecordStore.read? (Grammar.path · false) source

def Expr.read? (source : String) : Option Expr := RecordStore.read? (·.expr true) source

def Visibility.read? (source : String) : Option Visibility :=
  RecordStore.read? (fun _ => Grammar.visibility) source

def Signature.read? (source : String) : Option Signature :=
  RecordStore.read? Grammar.signature source

/-- The identifier in a text, which may have blanks and comments around it. -/
def identifier? (source : String) : Option String := RecordStore.read? (fun _ => name) source

/-- Everything from the first line's end on, when the text starts with a line for the system that
runs it; attributes inside of the file start alike. -/
def SourceFile.splitShebang (source : List Char) : Option String × List Char :=
  match source with
  | '#' :: '!' :: rest =>
    if (Lexer.skip rest).head? == some '[' then (none, source)
    else
      let isInLine (c : Char) : Bool := c != '\n'
      (some (String.ofList (source.takeWhile isInLine)), source.dropWhile isInLine)
  | _ => (none, source)

/-- A whole file. A byte order mark may lead it, and another one what follows a first line. -/
def SourceFile.read? (source : String) : Option SourceFile := do
  let (shebang, cs) := splitShebang (Lexer.withoutByteOrderMark source.toList)
  let file (g : Grammar) : Parser SourceFile := do
    let inner ← Grammar.innerAttributes g
    return ⟨shebang, inner, ← whileSees (return !(← atEnd)) g.item⟩
  RecordStore.read? file (String.ofList cs)

/-- A declaration of a type by itself; of a struct all is kept. -/
structure TypeItem where
  name : String
  isGeneric : Bool
  struct : Option StructItem

/-- The name of a type, and whether it has parameters. -/
def TypeItem.head (g : Grammar) : Parser (String × Bool) := do
  let _ ← anyWord
  let n ← Parser.name
  return (n, !(← Grammar.generics g).isEmpty)

/-- A struct, enum or union. -/
def TypeItem.parser (g : Grammar) : Parser TypeItem := do
  let attrs ← Grammar.attributes g
  let vis ← Grammar.visibility
  if ← sees "struct" then
    let s ← Grammar.structItem g attrs vis
    return ⟨s.name, !s.generics.isEmpty, some s⟩
  else
    let ts ← ahead
    let (n, isGeneric) ← head g
    set ts
    let _ ← if ← sees "enum" then Grammar.enumItem g attrs vis else Grammar.unionItem g attrs vis
    return ⟨n, isGeneric, none⟩

def TypeItem.read? (source : String) : Option TypeItem := RecordStore.read? parser source

end RecordStore
