/-
  The syntax tree. Every expression, type, statement and declaration has the span of the text
  it was read from. Shapes that the language does not have cannot be written down here, but for
  those that are a matter of counting: a tuple of one, an empty import path.
-/
import JuiceSyntax.Tree.Operator

namespace JuiceSyntax

/-- How a string literal is laid out. -/
inductive Layout where
  | inline
  /-- Over several lines, with the spans of the markers that were stripped. -/
  | lines (markers : List Span)
deriving DecidableEq, Repr, Inhabited

/-- The braces after the name of a macro. What is in them is kept and never read. -/
structure MacroBody where
  /-- With the braces. -/
  span : Span
  /-- Between the braces. -/
  inner : Span
  /-- The text between the braces, without blanks at its ends. -/
  text : String
  /-- The tokens between the braces. -/
  tokens : List Token
deriving Inhabited

/-- The name of a function; a macro is declared with a bang after it. -/
structure FnName where
  text : String
  isMacro : Bool
  span : Span
deriving DecidableEq, Repr, Inhabited

mutual

structure Expr where
  kind : ExprKind
  span : Span

inductive ExprKind where
  | int (value : UInt64) (radix : Radix)
  | float (value : Float)
  | bool (value : Bool)
  | str (segments : List Segment) (layout : Layout)
  | name (text : String)
  | typeName (text : String)
  /-- `[a, b]` -/
  | list (items : List Expr)
  /-- `{ a = 1, b }` -/
  | record (fields : List RecordField)
  /-- `(a, b)` -/
  | tuple (items : List Expr)
  /-- `(a)` -/
  | group (inner : Expr)
  | unary (op : UnaryOp) (operand : Expr)
  | binary (op : BinaryOp) (left right : Expr)
  /-- `a?` -/
  | attempt (inner : Expr)
  /-- `a.b`, where any atom may follow the point. -/
  | member (object member : Expr)
  /-- `a::b` -/
  | typeAccess (base member : Expr)
  | call (callee : Expr) (args : List Arg)
  /-- `name!(args)`, `name!{ body }` or `name!(args){ body }` -/
  | macroCall (name : String) (nameSpan : Span) (parenthesized : Bool) (args : List Arg)
    (body : Option MacroBody)
  | fn (decl : FnDecl)
  /-- The branch after `else` is another conditional or a block. -/
  | conditional (test : Expr) (body : Block) (otherwise : Option Expr)
  | selection (scrutinee : Expr) (arms : List Arm)
  | block (block : Block)

/-- A segment of a string literal. -/
inductive Segment where
  | text (text : String) (span : Span)
  /-- An escape as written and the character it stands for. -/
  | escape (value : Char) (raw : String) (span : Span)
  /-- `${ expr }` -/
  | fragment (expr : Expr) (span : Span)

/-- An argument with the label before its colon, if it has one. -/
structure Arg where
  label : Option String
  value : Expr
  span : Span

/-- A field without a value takes that of the variable of its name. -/
structure RecordField where
  name : String
  value : Option Expr
  span : Span

/-- `pattern -> body`; the body is a block or a record. -/
structure Arm where
  pattern : Pattern
  body : Expr
  span : Span

inductive Pattern where
  | value (expr : Expr)
  | type (type : TypeExpr)

structure TypeExpr where
  kind : TypeKind
  span : Span

inductive TypeKind where
  | builtin (type : BuiltinType)
  | name (text : String)
  | typeName (text : String)
  | literal (expr : Expr)
  /-- `Name(label: T, U)` -/
  | call (callee : String) (calleeSpan : Span) (args : List TypeArg)
  | tuple (items : List TypeExpr)
  | group (inner : TypeExpr)
  | binary (op : TypeOp) (left right : TypeExpr)

structure TypeArg where
  label : Option String
  value : TypeExpr
  span : Span

structure Param where
  name : String
  type : Option TypeExpr
  span : Span

/-- `[static] fn [name] [(params)] [-> T] { body }` -/
structure FnDecl where
  isStatic : Bool
  name : Option FnName
  params : List Param
  result : Option TypeExpr
  body : Block
  span : Span

structure Block where
  statements : List Statement
  span : Span

structure Statement where
  kind : StatementKind
  span : Span

inductive StatementKind where
  /-- `name := value` or `name: T = value` -/
  | binding (name : String) (nameSpan : Span) (type : Option TypeExpr) (value : Expr)
  /-- `name = value` -/
  | assignment (name : String) (nameSpan : Span) (value : Expr)
  | fn (decl : FnDecl)
  /-- `for range { }` or `for element of range { }` -/
  | loop (element : Option String) (range : LoopRange) (body : Block)
  | leave (value : Option Expr)
  | stop
  | next
  | block (block : Block)
  | expr (expr : Expr)

inductive LoopRange where
  | endless
  | over (expr : Expr)
  /-- `a..b` -/
  | between (first last : Expr)

end

namespace Segment

def span : Segment → Span
  | text _ span | escape _ _ span | fragment _ span => span

/-- The value of a literal of these segments, if there is no fragment among them. -/
def plain? : List Segment → Option String
  | [] => some ""
  | text s _ :: rest => (plain? rest).map (s ++ ·)
  | escape c _ _ :: rest => (plain? rest).map (c.toString ++ ·)
  | fragment _ _ :: _ => none

end Segment

def Pattern.span : Pattern → Span
  | value e => e.span
  | type t => t.span

/-- A name that an import makes visible. -/
structure Exposed where
  name : String
  isMacro : Bool
  span : Span
deriving DecidableEq, Repr, Inhabited

/-- `[foreign] import [.]a.b [as c] [(x, y!)]` -/
structure Import where
  foreign : Bool
  /-- The path begins with a point. -/
  relative : Bool
  path : List String
  renamed : Option String
  exposed : List Exposed
deriving DecidableEq, Repr, Inhabited

/-- A field of a type declared by its fields. -/
structure Field where
  name : String
  type : TypeExpr
  span : Span

structure Constructor where
  name : String
  params : List Param
  span : Span

/-- The body of a type declaration: one type, or braces with either fields or constructors. -/
inductive TypeBody where
  | synonym (type : TypeExpr)
  | fields (fields : List Field)
  | constructors (constructors : List Constructor)

/-- `[type] Name [(params)] := body` -/
structure TypeDecl where
  /-- Written with the word `type`. -/
  keyword : Bool
  name : String
  nameSpan : Span
  params : List Param
  body : TypeBody

/-- `impl T { fns }` or `impl Trait for T { fns }` -/
structure Impl where
  traitType : Option TypeExpr
  selfType : TypeExpr
  fns : List FnDecl

inductive ItemKind where
  | imports (decl : Import)
  | fn (decl : FnDecl)
  | type (decl : TypeDecl)
  /-- `name := value` or `name: T = value` -/
  | binding (name : String) (nameSpan : Span) (type : Option TypeExpr) (value : Expr)
  /-- `name = value` -/
  | assignment (name : String) (nameSpan : Span) (value : Expr)
  | impl (decl : Impl)

/-- A statement of the program. -/
structure Item where
  kind : ItemKind
  exported : Bool
  span : Span

structure Program where
  /-- The `#!` line. -/
  shebang : Option Span
  items : List Item
  /-- The whole document. -/
  span : Span

end JuiceSyntax
