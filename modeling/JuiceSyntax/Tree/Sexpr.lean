/-
  The tree without spans, as an S-expression. Words stand for names, numbers and tags; texts
  are quoted.
-/
import JuiceSyntax.Decimal.Shortest
import JuiceSyntax.Text.Quoted
import JuiceSyntax.Tree.Basic

namespace JuiceSyntax

inductive Sexpr where
  | word (text : String)
  | quote (text : String)
  | node (items : List Sexpr)

namespace Sexpr

def tagged (tag : String) (items : List Sexpr) : Sexpr := node (word tag :: items)

mutual

def render : Sexpr → String
  | word text => text
  | quote text => quoted text
  | node items => "(" ++ " ".intercalate (renderAll items) ++ ")"

def renderAll : List Sexpr → List String
  | [] => []
  | item :: rest => item.render :: renderAll rest

end

/-- `item` under the label, if there is one. -/
def labelled (label : Option String) (item : Sexpr) : Sexpr :=
  match label with
  | some label => tagged ":" [word label, item]
  | none => item

/-- A name with its type, if it has one. -/
def typed (name : String) (type : Option Sexpr) : Sexpr :=
  match type with
  | some type => tagged ":" [word name, type]
  | none => word name

end Sexpr

open Sexpr (word quote node tagged labelled typed)

/-- An integer in its radix, with lower-case digits. -/
def integerText (value : UInt64) (radix : Radix) : String :=
  radix.lead ++ String.ofList (Nat.toDigits radix.base value.toNat)

def FnName.written (name : FnName) : String := if name.isMacro then name.text ++ "!" else name.text

def bindingSexpr (name : String) (type : Option Sexpr) (value : Sexpr) : Sexpr :=
  match type with
  | some type => tagged ":" [word name, type, value]
  | none => tagged ":=" [word name, value]

mutual

def Expr.sexpr : Expr → Sexpr
  | ⟨kind, _⟩ => kind.sexpr

def ExprKind.sexpr : ExprKind → Sexpr
  | .int value radix => word (integerText value radix)
  | .float value => word (floatText value)
  | .bool value => word (toString value)
  | .str segments layout =>
    tagged (match layout with | .inline => "str" | .lines _ => "mstr") (segmentSexprs segments)
  | .name text => word text
  | .typeName text => word text
  | .list items => tagged "list" (exprSexprs items)
  | .record fields => tagged "record" (recordFieldSexprs fields)
  | .tuple items => tagged "tuple" (exprSexprs items)
  | .group inner => tagged "group" [inner.sexpr]
  | .unary op operand => tagged op.symbol [operand.sexpr]
  | .binary op left right => tagged op.symbol [left.sexpr, right.sexpr]
  | .attempt inner => tagged "?" [inner.sexpr]
  | .member object member => tagged "." [object.sexpr, member.sexpr]
  | .typeAccess base member => tagged "::" [base.sexpr, member.sexpr]
  | .call callee args => tagged "call" (callee.sexpr :: argSexprs args)
  | .macroCall name _ parenthesized args body =>
    tagged "macro"
      (word name :: (if parenthesized then [tagged "args" (argSexprs args)] else []) ++
        match body with
        | some body => [tagged "body" [quote body.text]]
        | none => [])
  | .fn decl => decl.sexpr
  | .conditional test body otherwise =>
    tagged "if" (test.sexpr :: body.sexpr :: (optionalExprSexpr otherwise).toList)
  | .selection scrutinee arms => tagged "match" (scrutinee.sexpr :: armSexprs arms)
  | .block block => block.sexpr

def exprSexprs : List Expr → List Sexpr
  | [] => []
  | expr :: rest => expr.sexpr :: exprSexprs rest

def optionalExprSexpr : Option Expr → Option Sexpr
  | none => none
  | some expr => some expr.sexpr

def segmentSexprs : List Segment → List Sexpr
  | [] => []
  | segment :: rest => segment.sexpr :: segmentSexprs rest

def Segment.sexpr : Segment → Sexpr
  | .text text _ => tagged "text" [quote text]
  | .escape _ raw _ => tagged "esc" [quote raw]
  | .fragment expr _ => tagged "interp" [expr.sexpr]

def argSexprs : List Arg → List Sexpr
  | [] => []
  | ⟨label, value, _⟩ :: rest => labelled label value.sexpr :: argSexprs rest

def recordFieldSexprs : List RecordField → List Sexpr
  | [] => []
  | ⟨name, value, _⟩ :: rest =>
    (match optionalExprSexpr value with
      | some value => tagged "=" [word name, value]
      | none => word name) :: recordFieldSexprs rest

def armSexprs : List Arm → List Sexpr
  | [] => []
  | ⟨pattern, body, _⟩ :: rest => tagged "arm" [pattern.sexpr, body.sexpr] :: armSexprs rest

def Pattern.sexpr : Pattern → Sexpr
  | .value expr => expr.sexpr
  | .type type => tagged "type" [type.sexpr]

def TypeExpr.sexpr : TypeExpr → Sexpr
  | ⟨kind, _⟩ => kind.sexpr

def TypeKind.sexpr : TypeKind → Sexpr
  | .builtin type => word type.name
  | .name text => word text
  | .typeName text => word text
  | .literal expr => expr.sexpr
  | .call callee _ args => tagged "tcall" (word callee :: typeArgSexprs args)
  | .tuple items => tagged "ttuple" (typeSexprs items)
  | .group inner => tagged "tgroup" [inner.sexpr]
  | .binary op left right => tagged op.symbol [left.sexpr, right.sexpr]

def typeSexprs : List TypeExpr → List Sexpr
  | [] => []
  | type :: rest => type.sexpr :: typeSexprs rest

def optionalTypeSexpr : Option TypeExpr → Option Sexpr
  | none => none
  | some type => some type.sexpr

def typeArgSexprs : List TypeArg → List Sexpr
  | [] => []
  | ⟨label, value, _⟩ :: rest => labelled label value.sexpr :: typeArgSexprs rest

def paramSexprs : List Param → List Sexpr
  | [] => []
  | ⟨name, type, _⟩ :: rest => typed name (optionalTypeSexpr type) :: paramSexprs rest

def FnDecl.sexpr : FnDecl → Sexpr
  | ⟨isStatic, name, params, result, body, _⟩ =>
    tagged "fn"
      ((if isStatic then [word "static"] else []) ++
        (name.map fun name => word name.written).toList ++
        [tagged "params" (paramSexprs params)] ++
        ((optionalTypeSexpr result).map fun type => tagged "ret" [type]).toList ++
        [body.sexpr])

def Block.sexpr : Block → Sexpr
  | ⟨statements, _⟩ => tagged "block" (statementSexprs statements)

def statementSexprs : List Statement → List Sexpr
  | [] => []
  | ⟨kind, _⟩ :: rest => kind.sexpr :: statementSexprs rest

def StatementKind.sexpr : StatementKind → Sexpr
  | .binding name _ type value => bindingSexpr name (optionalTypeSexpr type) value.sexpr
  | .assignment name _ value => tagged "=" [word name, value.sexpr]
  | .fn decl => decl.sexpr
  | .loop element range body =>
    node
      ((match element with
          | some element => [word "for-of", word element]
          | none => [word "for"]) ++
        range.sexprs ++ [body.sexpr])
  | .leave value => tagged "return" (optionalExprSexpr value).toList
  | .stop => tagged "break" []
  | .next => tagged "continue" []
  | .block block => block.sexpr
  | .expr expr => expr.sexpr

def LoopRange.sexprs : LoopRange → List Sexpr
  | .endless => []
  | .over expr => [expr.sexpr]
  | .between first last => [tagged ".." [first.sexpr, last.sexpr]]

end

def Statement.sexpr (statement : Statement) : Sexpr := statement.kind.sexpr

def Exposed.sexpr (name : Exposed) : Sexpr := word (if name.isMacro then name.name ++ "!" else name.name)

def Import.sexpr (decl : Import) : Sexpr :=
  tagged "import"
    ((if decl.foreign then [word "foreign"] else []) ++
      (if decl.relative then [word "relative"] else []) ++
      [tagged "path" (decl.path.map word)] ++
      (decl.renamed.map fun name => tagged "as" [word name]).toList ++
      (if decl.exposed.isEmpty then [] else [tagged "expose" (decl.exposed.map Exposed.sexpr)]))

def TypeBody.sexpr : TypeBody → Sexpr
  | .synonym type => type.sexpr
  | .fields fs => tagged "fields" (fs.map fun f => typed f.name (some f.type.sexpr))
  | .constructors cs =>
    tagged "ctors" (cs.map fun c => node (word c.name :: paramSexprs c.params))

def TypeDecl.sexpr (decl : TypeDecl) : Sexpr :=
  let params := if decl.params.isEmpty then [] else [tagged "params" (paramSexprs decl.params)]
  tagged "type" ([word decl.name] ++ params ++ [decl.body.sexpr])

def Impl.sexpr (decl : Impl) : Sexpr :=
  tagged "impl"
    ((match decl.traitType with
        | some traitType => [traitType.sexpr, tagged "for" [decl.selfType.sexpr]]
        | none => [decl.selfType.sexpr]) ++
      decl.fns.map FnDecl.sexpr)

def ItemKind.sexpr : ItemKind → Sexpr
  | .imports decl => decl.sexpr
  | .fn decl => decl.sexpr
  | .type decl => decl.sexpr
  | .binding name _ t value => bindingSexpr name (optionalTypeSexpr t) value.sexpr
  | .assignment name _ value => tagged "=" [word name, value.sexpr]
  | .impl decl => decl.sexpr

def Item.sexpr (item : Item) : Sexpr :=
  if item.exported then tagged "export" [item.kind.sexpr] else item.kind.sexpr

/-- The dump of a program: one line for each item. -/
def Program.dump (program : Program) : String :=
  "\n".intercalate (program.items.map fun item => item.sexpr.render)

end JuiceSyntax
