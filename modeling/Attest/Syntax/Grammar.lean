/-
  The grammar of Rust source as far as expressions need it: statements, items with the types in
  their headers and the bodies inside them, patterns, types and expressions. What no rule reads is
  passed over token by token, so every token list is read to its end.
-/
import Attest.Syntax.Form

namespace Attest.Syntax

/-- Where an expression stands, as far as it decides how the expression is read: anywhere, in
front of the block of an `if`, `match` or loop, at the start of a statement, or as the value of an
arm. -/
inductive Position where
  | inside
  | head
  | statement
  | arm
deriving DecidableEq, Repr

namespace Position

/-- Where the operands of an expression stand, except for the first one. -/
def operand : Position → Position
  | head => head
  | _ => inside

/-- In front of a block a brace belongs to the block, so there is no struct literal, and a brace
starts no operand. -/
def allowsBraces (p : Position) : Bool := p != head

/-- Behind a block-like expression, these start the next statement or the pattern of the next
arm. -/
def starters : Position → List String
  | statement => ["-", "*", "&", "<", "|", "..", "(", "[", "::"]
  | arm => ["-", "&", "<", "|", "..", "(", "[", "::"]
  | _ => []

end Position

/-- Names of the rules. -/
inductive Rule where
  | file | statement | declaration | items | block | tokenTree | attr
  | expr (p : Position) | range (p : Position) | binary (p : Position) (level : Nat)
  | unary (p : Position) | suffixed (p : Position) | primary (p : Position)
  | closure (p : Position) | group | array | structLiteral | macroCall | path | blockLike
  | conditional | arm | arguments | typeArguments | type | pattern | patternItem
deriving DecidableEq, Repr

namespace Grammar

abbrev F := Form Rule

abbrev Link := (Kind → Bool) × Kind × Role × F

/-! ## Small forms -/

def seqs (fs : List F) : F := fs.foldr .seq .empty

/-- Reads nothing, whatever is there. -/
def never : F := .token (fun _ => false) fun _ => .mark

/-- The first of the forms that reads anything. -/
def alts : List F → F
  | [] => never
  | [f] => f
  | f :: fs => .alt f (alts fs)

def opt (f : F) : F := .alt f .empty

def ahead (f : F) : F := .unless (.unless f)

def as (k : Kind) (f : F) : F := .node (fun _ => k) f

def leaf (k : Kind) (accepts : Token → Bool) : F := .token accepts fun _ => k

/-- Words that are never names. -/
def reserved : List String :=
  ["as", "async", "await", "break", "const", "continue", "crate", "dyn", "else", "enum", "extern",
   "false", "fn", "for", "if", "impl", "in", "let", "loop", "match", "mod", "move", "mut", "pub",
   "ref", "return", "self", "static", "struct", "super", "trait", "true", "type", "unsafe", "use",
   "where", "while", "_"]

def isName (t : Token) : Bool := t.kind == .word && !reserved.contains t.text

def name : F := leaf .name isName

def typeName : F := leaf .typeName isName

/-- Behind a point every word but `await` is a field. -/
def fieldName : F := leaf .fieldName fun t => t.kind == .word && t.text != "await"

def keyword (w : String) : F := leaf .mark (·.isWord w)

def mark (c : String) : F := leaf .mark (·.isMark c)

def any : F := leaf .mark fun _ => true

def atEnd : F := .unless any

def lit (k : TokenKind) (kind : Kind) : F := leaf kind (·.kind == k)

def literal : F :=
  alts [lit .integer .integer, lit .float .float, lit .char .char, lit .text .text,
    lit .rawText .rawText, leaf .boolean fun t => t.isWord "true" || t.isWord "false"]

def comma : F := mark ","

def op (s : String) : F := .operator s

def r (x : Rule) : F := .rule x

/-- A link that may stand behind anything. -/
def link (k : Kind) (role : Role) (f : F) : Link := (fun _ => true, k, role, f)

/-- Kinds of expressions that end with a block. -/
def isBlockLike : Kind → Bool
  | .block | .conditional | .match | .loop | .scope => true
  | _ => false

/-- A link that begins with an operator, and may not stand behind a block-like expression where
that operator starts something new. -/
def linkAt (p : Position) (operator : String) (k : Kind) (role : Role) (f : F) : Link :=
  (fun behind => !(p.starters.contains operator && isBlockLike behind), k, role, f)

/-- Items with commas between them and perhaps one behind the last. -/
def list (item : F) : F := opt (seqs [item, .many (seqs [comma, item]), opt comma])

def attrs : F := .many (r .attr)

/-- What starts with an apostrophe: a lifetime or the name of a block. -/
def label : F := as .label (seqs [mark "'", leaf .name (·.kind == .word)])

def blockLabel : F := opt (seqs [label, op ":"])

/-! ## Names and paths -/

def selfWord : F := leaf .selfName fun t => t.isWord "self" || t.isWord "super" || t.isWord "crate"

/-- A type in angle brackets, perhaps seen as a trait. -/
def bracketed : F :=
  as .type (seqs [mark "<", r .type, opt (seqs [keyword "as", r .type]), mark ">"])

/-- `Name::<…>` with more of the path behind it: the name is that of a type. -/
def pathGeneric : F :=
  as .type (seqs [typeName, op "::", r .typeArguments, ahead (op "::")])

def pathStart : F := alts [selfWord, pathGeneric, name, bracketed, as .path (seqs [op "::", name])]

def pathLinks : List Link :=
  [link .path .plain (seqs [op "::", alts [name, selfWord]]),
   link .type .plain (seqs [op "::", r .typeArguments, ahead (op "::")])]

def path : F := .grow pathStart pathLinks

/-- The name of a struct literal: the last name of its path is that of the type, unless type
arguments follow a path of several names. -/
def structName : F :=
  as .type <| alts [
    seqs [typeName, op "::", r .typeArguments, ahead (mark "\x7b")],
    seqs [path, op "::", r .typeArguments, ahead (mark "\x7b")],
    seqs [opt (op "::"), opt (seqs [pathGeneric, op "::"]),
      .many (seqs [alts [selfWord, name], opt (seqs [op "::", r .typeArguments]), op "::",
        ahead name]),
      typeName]]

/-! ## Types -/

def primitives : List String :=
  ["u8", "i8", "u16", "i16", "u32", "i32", "u64", "i64", "u128", "i128", "isize", "usize",
   "f32", "f64", "bool", "str", "char"]

def primitive : F := leaf .type fun t => t.kind == .word && primitives.contains t.text

/-- The type of what a function returns. -/
def result : F := opt (seqs [op "->", r .type])

/-- Type arguments or, for the function traits, parameter types and a result. -/
def typeSuffix : F :=
  opt (alts [seqs [opt (op "::"), r .typeArguments],
    seqs [as .parameters (seqs [mark "(", list (r .type), mark ")"]), result]])

/-- A name in front of `::` is a module or the like, any other one is a type. -/
def typeSegment : F :=
  alts [selfWord, seqs [name, ahead (seqs [op "::", .unless (mark "<")])],
    seqs [typeName, typeSuffix]]

def typePath : F :=
  seqs [opt (op "::"), alts [bracketed, typeSegment], .many (seqs [op "::", typeSegment])]

def bounds : F :=
  seqs [opt (mark "?"), alts [label, r .type], .many (seqs [op "+", opt (mark "?"), alts [label, r .type]])]

def functionType : F :=
  seqs [.many (alts [keyword "unsafe", keyword "extern", lit .text .text]), keyword "fn",
    as .parameters (seqs [mark "(", list (seqs [opt (seqs [alts [name, keyword "_"], op ":"]), r .type]),
      mark ")"]),
    result]

def type : F :=
  as .type <| alts [
    seqs [mark "&", opt label, opt (keyword "mut"), r .type],
    seqs [mark "*", alts [keyword "const", keyword "mut"], r .type],
    seqs [mark "(", list (r .type), mark ")"],
    seqs [mark "[", r .type, opt (seqs [mark ";", r (.expr .inside)]), mark "]"],
    mark "!", keyword "_",
    seqs [keyword "for", r .typeArguments, r .type],
    seqs [alts [keyword "dyn", keyword "impl"], bounds],
    functionType, primitive, seqs [typePath, .unless (op "!")], r .macroCall]

def typeArgument : F :=
  alts [label, seqs [typeName, op "=", r .type], seqs [typeName, op ":", bounds], r .type,
    r .block, seqs [mark "-", literal], literal]

def typeArguments : F := as .typeArguments (seqs [mark "<", list typeArgument, mark ">"])

/-! ## Patterns -/

def rangeMark : F := alts [op "..=", op "...", op ".."]

def patternLiteral : F := alts [as .unary (seqs [mark "-", literal]), literal]

def patternBound : F := alts [patternLiteral, path]

def patternField : F :=
  seqs [attrs, alts [
    op "..",
    seqs [alts [fieldName, lit .integer .integer], op ":", r .pattern],
    seqs [opt (keyword "ref"), opt (keyword "mut"), leaf .typeName isName]]]

def patternItem : F :=
  as .pattern <| alts [
    seqs [patternLiteral, opt (seqs [rangeMark, opt patternBound])],
    seqs [op "..=", patternBound], op "..", keyword "_",
    seqs [keyword "ref", opt (keyword "mut"), r .patternItem],
    seqs [keyword "mut", r .patternItem],
    seqs [mark "&", opt (keyword "mut"), r .patternItem],
    seqs [mark "(", list (r .pattern), mark ")"],
    seqs [mark "[", list (r .pattern), mark "]"],
    seqs [keyword "const", r .block],
    r .macroCall,
    seqs [structName, mark "\x7b", list patternField, mark "\x7d"],
    seqs [path, mark "(", list (r .pattern), mark ")"],
    seqs [name, mark "@", r .pattern],
    seqs [path, opt (seqs [rangeMark, opt patternBound])]]

def pattern : F :=
  as .pattern (seqs [opt (op "|"), r .patternItem, .many (seqs [op "|", r .patternItem])])

/-! ## Expressions -/

/-- Binary operators, loosest first. -/
def binaryLevels : List (List String) :=
  [["||"], ["&&"], ["==", "!=", "<", "<=", ">", ">="], ["|"], ["^"], ["&"], ["<<", ">>"],
   ["+", "-"], ["*", "/", "%"]]

def assignments : List String :=
  ["=", "+=", "-=", "*=", "/=", "%=", "&=", "|=", "^=", "<<=", ">>="]

def ops (ss : List String) : F := alts (ss.map op)

def operandAhead (p : Position) : F := if p.allowsBraces then .empty else .unless (mark "\x7b")

def expr (p : Position) : F :=
  .grow (r (.range p))
    [link .assignment .plain (seqs [ops assignments, r (.range p.operand)])]

def rangeLink (p : Position) (spelling : String) : Link :=
  linkAt p spelling .range .plain
    (seqs [op spelling, opt (seqs [operandAhead p, r (.binary p.operand 0)])])

def range (p : Position) : F :=
  alts [
    as .range (seqs [rangeMark, opt (seqs [operandAhead p, r (.binary p.operand 0)])]),
    .grow (r (.binary p 0)) (["..=", "...", ".."].map (rangeLink p))]

def fieldOf : F := alts [fieldName, lit .integer .integer]

def postfixLinks (p : Position) : List Link :=
  [linkAt p "(" .call .function (.role .arguments (r .arguments)),
   linkAt p "[" .index .plain (seqs [mark "[", r (.expr .inside), mark "]"]),
   link .try .plain (mark "?"),
   link .await .plain (seqs [op ".", keyword "await"]),
   link .member .value (seqs [op ".", .role .field fieldOf]),
   linkAt p "::" .generic .function (seqs [op "::", r .typeArguments])]

/-- What follows a conversion to a type applies to the converted value. -/
def binary (p : Position) (level : Nat) : F :=
  match binaryLevels[level]? with
  | some os =>
    .grow (r (.binary p (level + 1)))
      (os.map fun o =>
        linkAt p o .binary .plain (seqs [op o, r (.binary p.operand (level + 1))]))
  | none =>
    .grow (r (.unary p)) (link .cast .plain (seqs [keyword "as", r .type]) :: postfixLinks p)

def referenceMarks : F :=
  seqs [mark "&", alts [
    seqs [keyword "raw", alts [keyword "const", keyword "mut"]], keyword "mut", .empty]]

def unary (p : Position) : F :=
  alts [
    as .unary (seqs [alts [mark "-", mark "*", mark "!"], r (.unary p.operand)]),
    as .reference (seqs [referenceMarks, .role .value (r (.unary p.operand))]),
    r (.suffixed p)]

def arguments : F :=
  as .arguments (seqs [mark "(", list (seqs [attrs, r (.expr .inside)]), mark ")"])

/-- Parentheses hold nothing, one expression, or a tuple, which has a comma. -/
def groupKind (ts : List Tree) : Kind :=
  if ts.any fun t => t.kind == .mark && t.text == "," then .tuple
  else if (ts.filter fun t => t.isNamed && !t.isComment).isEmpty then .unit
  else .paren

def group : F :=
  .node groupKind (seqs [mark "(", attrs, list (r (.expr .inside)), mark ")"])

def array : F :=
  as .array <| seqs [mark "[", attrs,
    opt (seqs [r (.expr .inside), alts [
      seqs [mark ";", r (.expr .inside)],
      seqs [.many (seqs [comma, attrs, r (.expr .inside)]), opt comma]]]),
    mark "]"]

def structField : F :=
  seqs [attrs, alts [
    seqs [op "..", opt (r (.expr .inside))],
    seqs [alts [fieldName, lit .integer .integer], op ":", r (.expr .inside)],
    name]]

def structLiteral : F :=
  as .structLiteral (seqs [structName,
    as .fields (seqs [mark "\x7b", list structField, mark "\x7d"])])

def macroCall : F :=
  as .macroCall (seqs [path, op "!", r .tokenTree])

def closureParameters : F :=
  as .parameters (seqs [mark "|",
    list (seqs [attrs, r .patternItem, opt (seqs [op ":", r .type])]), mark "|"])

def closure (p : Position) : F :=
  as .closure (seqs [opt (keyword "static"), opt (keyword "async"), opt (keyword "move"),
    closureParameters,
    alts [seqs [op "->", r .type, r .block], r (.expr p.operand)]])

/-- The value of `break` and the like, where one may stand. -/
def jumpValue (p : Position) : F := opt (seqs [operandAhead p, r (.expr p.operand)])

def jump (p : Position) : F :=
  as .jump <| alts [
    seqs [alts [keyword "return", keyword "yield"], jumpValue p],
    seqs [keyword "break", opt label, jumpValue p],
    seqs [keyword "continue", opt label]]

/-- A condition that matches a pattern; it binds tighter than the logical operators. -/
def letCondition (p : Position) : F :=
  as .condition (seqs [keyword "let", r .pattern, op "=", r (.binary p.operand 2)])

def primary (p : Position) : F :=
  alts [literal, r (.closure p), r .group, r .array, r .blockLike, jump p, letCondition p,
    if p.allowsBraces then r .structLiteral else never,
    r .macroCall, r .path, leaf .name (·.isWord "_")]

def conditional : F :=
  as .conditional (seqs [keyword "if", r (.expr .head), r .block,
    opt (seqs [keyword "else", alts [r .block, r .conditional]])])

def arm : F :=
  as .arm (seqs [attrs, r .pattern, opt (seqs [keyword "if", r (.expr .inside)]), op "=>",
    r (.expr .arm), opt comma])

def blockLike : F :=
  alts [
    r .block, r .conditional,
    as .match (seqs [keyword "match", r (.expr .head),
      as .arms (seqs [mark "\x7b", .many (r .arm), mark "\x7d"])]),
    as .loop (seqs [blockLabel, keyword "while", r (.expr .head), r .block]),
    as .loop (seqs [blockLabel, keyword "loop", r .block]),
    as .loop (seqs [blockLabel, keyword "for", r .pattern, keyword "in", r (.expr .head), r .block]),
    as .scope (seqs [alts [keyword "async", keyword "gen"], opt (keyword "move"), r .block]),
    as .scope (seqs [alts [keyword "unsafe", keyword "const", keyword "try"], r .block])]

/-! ## Statements and declarations -/

def openBrace : F := mark "\x7b"

/-- A closing brace; the end of the text closes all that is open. -/
def closeBrace : F := alts [mark "\x7d", atEnd]

def stray : F := leaf .stray fun _ => true

/-- Statements up to the closing brace, and whatever else stands there. -/
def body : F :=
  seqs [openBrace, .many (alts [r .statement, seqs [.unless (mark "\x7d"), stray]]), closeBrace]

def block : F := as .block (seqs [blockLabel, body])

def items : F := as .items body

/-- Balanced brackets with any tokens inside. -/
def tokenTree : F :=
  let inside := .many (alts [r .tokenTree,
    seqs [.unless (alts [mark ")", mark "]", mark "\x7d"]), any]])
  as .tokenTree <| alts [
    seqs [mark "(", inside, mark ")"],
    seqs [mark "[", inside, mark "]"],
    seqs [mark "\x7b", inside, mark "\x7d"]]

def attr : F :=
  as .attr (seqs [mark "#", opt (mark "!"), mark "[",
    alts [
      seqs [path, alts [seqs [op "=", r (.expr .inside)], opt (r .tokenTree)], mark "]"],
      seqs [.many (alts [r .tokenTree, seqs [.unless (mark "]"), any]]), mark "]"]]])

def endOfStatement : F := opt (mark ";")

def letStatement : F :=
  as .declaration (seqs [keyword "let", r .pattern, opt (seqs [op ":", r .type]),
    opt (seqs [op "=", r (.expr .inside)]), opt (seqs [keyword "else", r .block]), endOfStatement])

/-! ### Headers of items -/

/-- Where an item is seen; parentheses that say nothing of the kind belong to a type. -/
def visibility : F :=
  opt (seqs [keyword "pub",
    opt (seqs [mark "(", alts [seqs [keyword "in", path], selfWord], mark ")"])])

def modifiers : F :=
  .many (alts [keyword "async", keyword "const", keyword "unsafe", keyword "default", keyword "auto",
    keyword "extern", lit .text .text])

def word : F := leaf .mark fun t => t.kind == .word

def boundsBehind : F := opt (seqs [op ":", bounds])

/-- A lifetime, a constant or a type that an item is generic in. -/
def genericParameter : F :=
  seqs [attrs, alts [
    seqs [label, boundsBehind],
    seqs [keyword "const", name, op ":", r .type,
      opt (seqs [op "=", alts [r .block, name, patternLiteral]])],
    seqs [typeName, boundsBehind, opt (seqs [op "=", r .type])]]]

def generics : F := opt (as .parameters (seqs [mark "<", list genericParameter, mark ">"]))

def whereClause : F :=
  opt (seqs [keyword "where", list (seqs [alts [label, r .type], op ":", bounds])])

/-- A parameter of a function: a pattern with its type, the receiver, or a type alone. -/
def parameter : F :=
  seqs [attrs, alts [
    seqs [r .pattern, op ":", alts [op "...", r .type]],
    seqs [opt (mark "&"), opt label, opt (keyword "mut"), selfWord],
    op "...",
    r .type]]

def parameters : F := as .parameters (seqs [mark "(", list parameter, mark ")"])

def namedFields : F :=
  as .fields (seqs [openBrace, list (seqs [attrs, visibility, fieldName, op ":", r .type]),
    mark "\x7d"])

def tupleFields : F :=
  as .fields (seqs [mark "(", list (seqs [attrs, visibility, r .type]), mark ")"])

def variants : F :=
  as .items (seqs [openBrace,
    list (seqs [attrs, visibility, word, opt (alts [namedFields, tupleFields, r .tokenTree]),
      opt (seqs [op "=", r (.expr .inside)])]),
    mark "\x7d"])

/-- What is left of a header, up to the body of the item or its end. -/
def header : F :=
  .many (alts [
    seqs [ahead (alts [mark "(", mark "["]), r .tokenTree],
    seqs [.unless (alts [mark "\x7b", mark "\x7d", mark ";", mark ")", mark "]"]), any]])

/-- Skips to the end of an item. -/
def skipped : F :=
  seqs [.many (alts [r .tokenTree, seqs [.unless (mark ";"), any]]), mark ";"]

/-! ### Items -/

def declaration : F :=
  as .declaration <| seqs [visibility, alts [
    seqs [modifiers, keyword "fn", word, generics, opt parameters, result, whereClause, header,
      alts [r .block, mark ";"]],
    seqs [modifiers, keyword "trait", word, generics, boundsBehind, whereClause, header,
      alts [r .items, mark ";"]],
    seqs [modifiers, keyword "impl", generics, opt (mark "!"), opt (r .type),
      opt (seqs [keyword "for", r .type]), whereClause, header, alts [r .items, mark ";"]],
    seqs [keyword "mod", word, alts [r .items, mark ";"]],
    seqs [keyword "extern", opt (lit .text .text), r .items],
    seqs [keyword "enum", word, generics, whereClause, header, alts [variants, r .tokenTree]],
    seqs [alts [keyword "struct", keyword "union"], word, generics, whereClause,
      alts [namedFields,
        seqs [opt tupleFields, whereClause, header, alts [r .tokenTree, mark ";"]]]],
    seqs [keyword "const", alts [name, keyword "_"], opt (seqs [op ":", r .type]),
      opt (seqs [op "=", r (.expr .inside)]), endOfStatement],
    seqs [keyword "static", opt (keyword "mut"), name, op ":", r .type,
      opt (seqs [op "=", r (.expr .inside)]), endOfStatement],
    seqs [keyword "type", word, generics, boundsBehind, whereClause, opt (seqs [op "=", r .type]),
      whereClause, skipped],
    seqs [keyword "use", skipped],
    seqs [keyword "extern", keyword "crate", skipped],
    seqs [keyword "macro_rules", mark "!", word, r .tokenTree, endOfStatement]]]

def statement : F :=
  alts [r .attr, mark ";", letStatement, r .declaration,
    as .statement (seqs [r (.expr .statement), endOfStatement])]

def file : F := .many (alts [r .statement, stray])

end Grammar

/-- The form behind each rule name. -/
def rust : Rule → Form Rule
  | .file => Grammar.file
  | .statement => Grammar.statement
  | .declaration => Grammar.declaration
  | .items => Grammar.items
  | .block => Grammar.block
  | .tokenTree => Grammar.tokenTree
  | .attr => Grammar.attr
  | .expr p => Grammar.expr p
  | .range p => Grammar.range p
  | .binary p level => Grammar.binary p level
  | .unary p => Grammar.unary p
  | .suffixed p => .grow (.rule (.primary p)) (Grammar.postfixLinks p)
  | .primary p => Grammar.primary p
  | .closure p => Grammar.closure p
  | .group => Grammar.group
  | .array => Grammar.array
  | .structLiteral => Grammar.structLiteral
  | .macroCall => Grammar.macroCall
  | .path => Grammar.path
  | .blockLike => Grammar.blockLike
  | .conditional => Grammar.conditional
  | .arm => Grammar.arm
  | .arguments => Grammar.arguments
  | .typeArguments => Grammar.typeArguments
  | .type => Grammar.type
  | .pattern => Grammar.pattern
  | .patternItem => Grammar.patternItem

end Attest.Syntax
