/-
  The nodes of a tree that are written with braces: blocks, records, macro bodies and the arms of
  a `match`, each before what is in it.
-/
import JuiceSyntax.Tree.Basic

namespace JuiceSyntax

/-- A node that ends with a closing brace. -/
inductive BraceNode where
  /-- A block, a record or a macro body: from its opening brace to the closing one. -/
  | group (span : Span)
  /-- A `match`: from the word to the brace that closes its arms. -/
  | selection (scrutinee : Expr) (span : Span)

def MacroBody.node (body : MacroBody) : BraceNode := .group body.span

mutual

def Expr.braces : Expr → List BraceNode
  | ⟨kind, span⟩ => kind.braces span

/-- The nodes in an expression of this kind with this span. -/
def ExprKind.braces (span : Span) : ExprKind → List BraceNode
  | .int _ _ | .float _ | .bool _ | .name _ | .typeName _ => []
  | .str segments _ => segmentBraces segments
  | .list items | .tuple items => exprBraces items
  | .record fields => .group span :: recordFieldBraces fields
  | .group inner | .attempt inner => inner.braces
  | .unary _ operand => operand.braces
  | .binary _ left right => left.braces ++ right.braces
  | .member object member => object.braces ++ member.braces
  | .typeAccess base member => base.braces ++ member.braces
  | .call callee args => callee.braces ++ argBraces args
  | .macroCall _ _ _ args body => argBraces args ++ body.toList.map MacroBody.node
  | .fn decl => decl.braces
  | .conditional test body otherwise => test.braces ++ body.braces ++ optionalExprBraces otherwise
  | .selection scrutinee arms => .selection scrutinee span :: (scrutinee.braces ++ armBraces arms)
  | .block block => block.braces

def exprBraces : List Expr → List BraceNode
  | [] => []
  | expr :: rest => expr.braces ++ exprBraces rest

def optionalExprBraces : Option Expr → List BraceNode
  | none => []
  | some expr => expr.braces

def segmentBraces : List Segment → List BraceNode
  | [] => []
  | .text _ _ :: rest | .escape _ _ _ :: rest => segmentBraces rest
  | .fragment expr _ :: rest => expr.braces ++ segmentBraces rest

def argBraces : List Arg → List BraceNode
  | [] => []
  | ⟨_, value, _⟩ :: rest => value.braces ++ argBraces rest

def recordFieldBraces : List RecordField → List BraceNode
  | [] => []
  | ⟨_, value, _⟩ :: rest => optionalExprBraces value ++ recordFieldBraces rest

def armBraces : List Arm → List BraceNode
  | [] => []
  | ⟨pattern, body, _⟩ :: rest => pattern.braces ++ body.braces ++ armBraces rest

def Pattern.braces : Pattern → List BraceNode
  | .value expr => expr.braces
  | .type type => type.braces

def TypeExpr.braces : TypeExpr → List BraceNode
  | ⟨kind, _⟩ => kind.braces

def TypeKind.braces : TypeKind → List BraceNode
  | .builtin _ | .name _ | .typeName _ => []
  | .literal expr => expr.braces
  | .call _ _ args => typeArgBraces args
  | .tuple items => typeBraces items
  | .group inner => inner.braces
  | .binary _ left right => left.braces ++ right.braces

def typeBraces : List TypeExpr → List BraceNode
  | [] => []
  | type :: rest => type.braces ++ typeBraces rest

def optionalTypeBraces : Option TypeExpr → List BraceNode
  | none => []
  | some type => type.braces

def typeArgBraces : List TypeArg → List BraceNode
  | [] => []
  | ⟨_, value, _⟩ :: rest => value.braces ++ typeArgBraces rest

def paramBraces : List Param → List BraceNode
  | [] => []
  | ⟨_, type, _⟩ :: rest => optionalTypeBraces type ++ paramBraces rest

def FnDecl.braces : FnDecl → List BraceNode
  | ⟨_, _, params, result, body, _⟩ => paramBraces params ++ optionalTypeBraces result ++ body.braces

def Block.braces : Block → List BraceNode
  | ⟨statements, span⟩ => .group span :: statementBraces statements

def statementBraces : List Statement → List BraceNode
  | [] => []
  | ⟨kind, _⟩ :: rest => kind.braces ++ statementBraces rest

def StatementKind.braces : StatementKind → List BraceNode
  | .binding _ _ type value => optionalTypeBraces type ++ value.braces
  | .assignment _ _ value => value.braces
  | .fn decl => decl.braces
  | .loop _ range body => range.braces ++ body.braces
  | .leave value => optionalExprBraces value
  | .stop | .next => []
  | .block block => block.braces
  | .expr expr => expr.braces

def LoopRange.braces : LoopRange → List BraceNode
  | .endless => []
  | .over expr => expr.braces
  | .between first last => first.braces ++ last.braces

end

def Arg.braces (arg : Arg) : List BraceNode := arg.value.braces

def RecordField.braces (field : RecordField) : List BraceNode := optionalExprBraces field.value

def Arm.braces (arm : Arm) : List BraceNode := arm.pattern.braces ++ arm.body.braces

def TypeArg.braces (arg : TypeArg) : List BraceNode := arg.value.braces

def Param.braces (param : Param) : List BraceNode := optionalTypeBraces param.type

def Statement.braces (statement : Statement) : List BraceNode := statement.kind.braces

def Field.braces (field : Field) : List BraceNode := field.type.braces

def Constructor.braces (constructor : Constructor) : List BraceNode := paramBraces constructor.params

def TypeBody.braces : TypeBody → List BraceNode
  | .synonym type => type.braces
  | .fields fs => fs.flatMap Field.braces
  | .constructors cs => cs.flatMap Constructor.braces

def TypeDecl.braces (decl : TypeDecl) : List BraceNode := paramBraces decl.params ++ decl.body.braces

def Impl.braces (decl : Impl) : List BraceNode :=
  optionalTypeBraces decl.traitType ++ decl.selfType.braces ++ decl.fns.flatMap FnDecl.braces

def ItemKind.braces : ItemKind → List BraceNode
  | .imports _ => []
  | .fn decl => decl.braces
  | .type decl => decl.braces
  | .binding _ _ declared value => optionalTypeBraces declared ++ value.braces
  | .assignment _ _ value => value.braces
  | .impl decl => decl.braces

def Item.braces (item : Item) : List BraceNode := item.kind.braces

/-! ## Lists -/

theorem exprBraces_eq_flatMap (items : List Expr) : exprBraces items = items.flatMap Expr.braces := by
  induction items with
  | nil => rfl
  | cons item rest ih => rw [exprBraces, ih, List.flatMap_cons]

theorem argBraces_eq_flatMap (args : List Arg) : argBraces args = args.flatMap Arg.braces := by
  induction args with
  | nil => rfl
  | cons arg rest ih =>
    cases arg
    rw [argBraces, ih, List.flatMap_cons, Arg.braces]

theorem recordFieldBraces_eq_flatMap (fields : List RecordField) :
    recordFieldBraces fields = fields.flatMap RecordField.braces := by
  induction fields with
  | nil => rfl
  | cons field rest ih =>
    cases field
    rw [recordFieldBraces, ih, List.flatMap_cons, RecordField.braces]

theorem armBraces_eq_flatMap (arms : List Arm) : armBraces arms = arms.flatMap Arm.braces := by
  induction arms with
  | nil => rfl
  | cons arm rest ih =>
    cases arm
    rw [armBraces, ih, List.flatMap_cons, Arm.braces]

theorem typeBraces_eq_flatMap (types : List TypeExpr) : typeBraces types = types.flatMap TypeExpr.braces := by
  induction types with
  | nil => rfl
  | cons type rest ih => rw [typeBraces, ih, List.flatMap_cons]

theorem typeArgBraces_eq_flatMap (args : List TypeArg) : typeArgBraces args = args.flatMap TypeArg.braces := by
  induction args with
  | nil => rfl
  | cons arg rest ih =>
    cases arg
    rw [typeArgBraces, ih, List.flatMap_cons, TypeArg.braces]

theorem paramBraces_eq_flatMap (params : List Param) : paramBraces params = params.flatMap Param.braces := by
  induction params with
  | nil => rfl
  | cons param rest ih =>
    cases param
    rw [paramBraces, ih, List.flatMap_cons, Param.braces]

theorem statementBraces_eq_flatMap (statements : List Statement) :
    statementBraces statements = statements.flatMap Statement.braces := by
  induction statements with
  | nil => rfl
  | cons statement rest ih =>
    cases statement
    rw [statementBraces, ih, List.flatMap_cons, Statement.braces]

end JuiceSyntax
