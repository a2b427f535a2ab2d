/-
  The macro bodies of a tree, in the order in which they stand in the text. Types hold some
  too, in the fragments of a string literal.
-/
import JuiceSyntax.Tree.Basic

namespace JuiceSyntax

mutual

def Expr.macroBodies : Expr → List MacroBody
  | ⟨kind, _⟩ => kind.macroBodies

def ExprKind.macroBodies : ExprKind → List MacroBody
  | .int _ _ | .float _ | .bool _ | .name _ | .typeName _ => []
  | .str segments _ => segmentBodies segments
  | .list items | .tuple items => exprBodies items
  | .record fields => recordFieldBodies fields
  | .group inner | .attempt inner => inner.macroBodies
  | .unary _ operand => operand.macroBodies
  | .binary _ left right => left.macroBodies ++ right.macroBodies
  | .member object member => object.macroBodies ++ member.macroBodies
  | .typeAccess base member => base.macroBodies ++ member.macroBodies
  | .call callee args => callee.macroBodies ++ argBodies args
  | .macroCall _ _ _ args body => argBodies args ++ body.toList
  | .fn decl => decl.macroBodies
  | .conditional test body otherwise => test.macroBodies ++ body.macroBodies ++ optionalExprBodies otherwise
  | .selection scrutinee arms => scrutinee.macroBodies ++ armBodies arms
  | .block block => block.macroBodies

def exprBodies : List Expr → List MacroBody
  | [] => []
  | expr :: rest => expr.macroBodies ++ exprBodies rest

def optionalExprBodies : Option Expr → List MacroBody
  | none => []
  | some expr => expr.macroBodies

def segmentBodies : List Segment → List MacroBody
  | [] => []
  | .text _ _ :: rest | .escape _ _ _ :: rest => segmentBodies rest
  | .fragment expr _ :: rest => expr.macroBodies ++ segmentBodies rest

def argBodies : List Arg → List MacroBody
  | [] => []
  | ⟨_, value, _⟩ :: rest => value.macroBodies ++ argBodies rest

def recordFieldBodies : List RecordField → List MacroBody
  | [] => []
  | ⟨_, value, _⟩ :: rest => optionalExprBodies value ++ recordFieldBodies rest

def armBodies : List Arm → List MacroBody
  | [] => []
  | ⟨pattern, body, _⟩ :: rest => pattern.macroBodies ++ body.macroBodies ++ armBodies rest

def Pattern.macroBodies : Pattern → List MacroBody
  | .value expr => expr.macroBodies
  | .type type => type.macroBodies

def TypeExpr.macroBodies : TypeExpr → List MacroBody
  | ⟨kind, _⟩ => kind.macroBodies

def TypeKind.macroBodies : TypeKind → List MacroBody
  | .builtin _ | .name _ | .typeName _ => []
  | .literal expr => expr.macroBodies
  | .call _ _ args => typeArgBodies args
  | .tuple items => typeBodies items
  | .group inner => inner.macroBodies
  | .binary _ left right => left.macroBodies ++ right.macroBodies

def typeBodies : List TypeExpr → List MacroBody
  | [] => []
  | type :: rest => type.macroBodies ++ typeBodies rest

def optionalTypeBodies : Option TypeExpr → List MacroBody
  | none => []
  | some type => type.macroBodies

def typeArgBodies : List TypeArg → List MacroBody
  | [] => []
  | ⟨_, value, _⟩ :: rest => value.macroBodies ++ typeArgBodies rest

def paramBodies : List Param → List MacroBody
  | [] => []
  | ⟨_, type, _⟩ :: rest => optionalTypeBodies type ++ paramBodies rest

def FnDecl.macroBodies : FnDecl → List MacroBody
  | ⟨_, _, params, result, body, _⟩ => paramBodies params ++ optionalTypeBodies result ++ body.macroBodies

def Block.macroBodies : Block → List MacroBody
  | ⟨statements, _⟩ => statementBodies statements

def statementBodies : List Statement → List MacroBody
  | [] => []
  | ⟨kind, _⟩ :: rest => kind.macroBodies ++ statementBodies rest

def StatementKind.macroBodies : StatementKind → List MacroBody
  | .binding _ _ type value => optionalTypeBodies type ++ value.macroBodies
  | .assignment _ _ value => value.macroBodies
  | .fn decl => decl.macroBodies
  | .loop _ range body => range.macroBodies ++ body.macroBodies
  | .leave value => optionalExprBodies value
  | .stop | .next => []
  | .block block => block.macroBodies
  | .expr expr => expr.macroBodies

def LoopRange.macroBodies : LoopRange → List MacroBody
  | .endless => []
  | .over expr => expr.macroBodies
  | .between first last => first.macroBodies ++ last.macroBodies

end

def Segment.macroBodies (segment : Segment) : List MacroBody := segmentBodies [segment]

def Arg.macroBodies (arg : Arg) : List MacroBody := arg.value.macroBodies

def RecordField.macroBodies (field : RecordField) : List MacroBody := optionalExprBodies field.value

def Arm.macroBodies (arm : Arm) : List MacroBody := arm.pattern.macroBodies ++ arm.body.macroBodies

def TypeArg.macroBodies (arg : TypeArg) : List MacroBody := arg.value.macroBodies

def Param.macroBodies (param : Param) : List MacroBody := optionalTypeBodies param.type

def Statement.macroBodies (statement : Statement) : List MacroBody := statement.kind.macroBodies

def Field.macroBodies (field : Field) : List MacroBody := field.type.macroBodies

def Constructor.macroBodies (constructor : Constructor) : List MacroBody := paramBodies constructor.params

def TypeBody.macroBodies : TypeBody → List MacroBody
  | .synonym type => type.macroBodies
  | .fields fs => fs.flatMap Field.macroBodies
  | .constructors cs => cs.flatMap Constructor.macroBodies

def TypeDecl.macroBodies (decl : TypeDecl) : List MacroBody := paramBodies decl.params ++ decl.body.macroBodies

def Impl.macroBodies (decl : Impl) : List MacroBody :=
  optionalTypeBodies decl.traitType ++ decl.selfType.macroBodies ++ decl.fns.flatMap FnDecl.macroBodies

def ItemKind.macroBodies : ItemKind → List MacroBody
  | .imports _ => []
  | .fn decl => decl.macroBodies
  | .type decl => decl.macroBodies
  | .binding _ _ declared value => optionalTypeBodies declared ++ value.macroBodies
  | .assignment _ _ value => value.macroBodies
  | .impl decl => decl.macroBodies

def Item.macroBodies (item : Item) : List MacroBody := item.kind.macroBodies

def Program.macroBodies (program : Program) : List MacroBody := program.items.flatMap Item.macroBodies

/-! ## Lists -/

theorem exprBodies_eq_flatMap (items : List Expr) : exprBodies items = items.flatMap Expr.macroBodies := by
  induction items with
  | nil => rfl
  | cons item rest ih => rw [exprBodies, ih, List.flatMap_cons]

theorem argBodies_eq_flatMap (args : List Arg) : argBodies args = args.flatMap Arg.macroBodies := by
  induction args with
  | nil => rfl
  | cons arg rest ih =>
    cases arg
    rw [argBodies, ih, List.flatMap_cons, Arg.macroBodies]

theorem recordFieldBodies_eq_flatMap (fields : List RecordField) :
    recordFieldBodies fields = fields.flatMap RecordField.macroBodies := by
  induction fields with
  | nil => rfl
  | cons field rest ih =>
    cases field
    rw [recordFieldBodies, ih, List.flatMap_cons, RecordField.macroBodies]

theorem armBodies_eq_flatMap (arms : List Arm) : armBodies arms = arms.flatMap Arm.macroBodies := by
  induction arms with
  | nil => rfl
  | cons arm rest ih =>
    cases arm
    rw [armBodies, ih, List.flatMap_cons, Arm.macroBodies]

theorem typeBodies_eq_flatMap (types : List TypeExpr) : typeBodies types = types.flatMap TypeExpr.macroBodies := by
  induction types with
  | nil => rfl
  | cons type rest ih => rw [typeBodies, ih, List.flatMap_cons]

theorem typeArgBodies_eq_flatMap (args : List TypeArg) : typeArgBodies args = args.flatMap TypeArg.macroBodies := by
  induction args with
  | nil => rfl
  | cons arg rest ih =>
    cases arg
    rw [typeArgBodies, ih, List.flatMap_cons, TypeArg.macroBodies]

theorem paramBodies_eq_flatMap (params : List Param) : paramBodies params = params.flatMap Param.macroBodies := by
  induction params with
  | nil => rfl
  | cons param rest ih =>
    cases param
    rw [paramBodies, ih, List.flatMap_cons, Param.macroBodies]

theorem statementBodies_eq_flatMap (statements : List Statement) :
    statementBodies statements = statements.flatMap Statement.macroBodies := by
  induction statements with
  | nil => rfl
  | cons statement rest ih =>
    cases statement
    rw [statementBodies, ih, List.flatMap_cons, Statement.macroBodies]

end JuiceSyntax
