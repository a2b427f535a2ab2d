/-
  What a tree says: its names, literals and operators, in the order in which they stand in the
  text. A macro body says what its tokens say.

  The words `of` and `as`, which may stand as labels, are not names and are left out.
-/
import JuiceSyntax.Proofs.Token.Leaves

namespace JuiceSyntax

/-! ## Operators -/

def UnaryOp.mark : UnaryOp → Mark
  | not => .bang
  | neg => .minus

def BinaryOp.mark : BinaryOp → Mark
  | add => .plus
  | sub => .minus
  | bitAnd => .amp
  | bitOr => .pipe
  | bitXor => .caret
  | mod => .percent
  | and => .ampAmp
  | or => .pipePipe
  | mul => .star
  | div => .slash
  | pow => .starStar
  | eq => .eqEq
  | ne => .bangEq
  | lt => .lt
  | gt => .gt
  | le => .ltEq
  | ge => .gtEq
  | shl => .shl
  | shr => .shr

def TypeOp.mark : TypeOp → Mark
  | union => .pipe
  | intersection => .amp

theorem UnaryOp.leaves_of_ofKind? {kind : Kind} {op : UnaryOp} (h : ofKind? kind = some op) :
    kind.leaves = [.operator op.mark] := by
  unfold ofKind? at h
  split at h
  · cases h
    rfl
  · cases h
    rfl
  · cases h

theorem BinaryOp.leaves_of_ofKind? {kind : Kind} {op : BinaryOp} (h : ofKind? kind = some op) :
    kind.leaves = [.operator op.mark] := by
  cases kind with
  | mark m =>
    have hmark : m = op.mark := by
      cases m <;> cases h <;> rfl
    subst hmark
    cases op <;> rfl
  | _ => cases h

theorem TypeOp.leaves_of_ofKind? {kind : Kind} {op : TypeOp} (h : ofKind? kind = some op) :
    kind.leaves = [.operator op.mark] := by
  unfold ofKind? at h
  split at h
  · cases h
    rfl
  · cases h
    rfl
  · cases h

/-! ## Parts that hold no others -/

def labelLeaves : Option String → List Leaf
  | none => []
  | some label => if isLabelWord label then [] else [.name label]

def MacroBody.leaves (body : MacroBody) : List Leaf := tokenLeaves body.tokens

def FnName.leaves (name : FnName) : List Leaf := [if name.isMacro then .macroName name.text else .name name.text]

def Layout.isMultiline : Layout → Bool
  | .inline => false
  | .lines _ => true

/-! ## Trees -/

mutual

def Expr.leaves : Expr → List Leaf
  | ⟨kind, _⟩ => kind.leaves

def ExprKind.leaves : ExprKind → List Leaf
  | .int value radix => [.int value radix]
  | .float value => [.float value]
  | .bool value => [.bool value]
  | .str segments layout => [.str layout.isMultiline (segmentParts segments)]
  | .name text | .typeName text => [.name text]
  | .list items | .tuple items => exprLeaves items
  | .record fields => recordFieldLeaves fields
  | .group inner => inner.leaves
  | .unary op operand => .operator op.mark :: operand.leaves
  | .binary op left right => left.leaves ++ .operator op.mark :: right.leaves
  | .attempt inner => inner.leaves ++ [.operator .question]
  | .member object member => object.leaves ++ member.leaves
  | .typeAccess base member => base.leaves ++ member.leaves
  | .call callee args => callee.leaves ++ argLeaves args
  | .macroCall name _ _ args body => .macroName name :: argLeaves args ++ body.toList.flatMap MacroBody.leaves
  | .fn decl => decl.leaves
  | .conditional test body otherwise => test.leaves ++ body.leaves ++ optionalExprLeaves otherwise
  | .selection scrutinee arms => scrutinee.leaves ++ armLeaves arms
  | .block block => block.leaves

def exprLeaves : List Expr → List Leaf
  | [] => []
  | expr :: rest => expr.leaves ++ exprLeaves rest

def optionalExprLeaves : Option Expr → List Leaf
  | none => []
  | some expr => expr.leaves

def segmentParts : List Segment → List LeafPart
  | [] => []
  | .text text _ :: rest => .text text :: segmentParts rest
  | .escape value raw _ :: rest => .escape value raw :: segmentParts rest
  | .fragment expr _ :: rest => .fragment expr.leaves :: segmentParts rest

def argLeaves : List Arg → List Leaf
  | [] => []
  | ⟨label, value, _⟩ :: rest => labelLeaves label ++ value.leaves ++ argLeaves rest

def recordFieldLeaves : List RecordField → List Leaf
  | [] => []
  | ⟨name, value, _⟩ :: rest => .name name :: optionalExprLeaves value ++ recordFieldLeaves rest

def armLeaves : List Arm → List Leaf
  | [] => []
  | ⟨pattern, body, _⟩ :: rest => pattern.leaves ++ body.leaves ++ armLeaves rest

def Pattern.leaves : Pattern → List Leaf
  | .value expr => expr.leaves
  | .type type => type.leaves

def TypeExpr.leaves : TypeExpr → List Leaf
  | ⟨kind, _⟩ => kind.leaves

def TypeKind.leaves : TypeKind → List Leaf
  | .builtin type => [.name type.name]
  | .name text | .typeName text => [.name text]
  | .literal expr => expr.leaves
  | .call callee _ args => .name callee :: typeArgLeaves args
  | .tuple items => typeLeaves items
  | .group inner => inner.leaves
  | .binary op left right => left.leaves ++ .operator op.mark :: right.leaves

def typeLeaves : List TypeExpr → List Leaf
  | [] => []
  | type :: rest => type.leaves ++ typeLeaves rest

def optionalTypeLeaves : Option TypeExpr → List Leaf
  | none => []
  | some type => type.leaves

def typeArgLeaves : List TypeArg → List Leaf
  | [] => []
  | ⟨label, value, _⟩ :: rest => labelLeaves label ++ value.leaves ++ typeArgLeaves rest

def paramLeaves : List Param → List Leaf
  | [] => []
  | ⟨name, type, _⟩ :: rest => .name name :: optionalTypeLeaves type ++ paramLeaves rest

def FnDecl.leaves : FnDecl → List Leaf
  | ⟨_, name, params, result, body, _⟩ =>
    name.toList.flatMap FnName.leaves ++ paramLeaves params ++ optionalTypeLeaves result ++ body.leaves

def Block.leaves : Block → List Leaf
  | ⟨statements, _⟩ => statementLeaves statements

def statementLeaves : List Statement → List Leaf
  | [] => []
  | ⟨kind, _⟩ :: rest => kind.leaves ++ statementLeaves rest

def StatementKind.leaves : StatementKind → List Leaf
  | .binding name _ type value => .name name :: optionalTypeLeaves type ++ value.leaves
  | .assignment name _ value => .name name :: value.leaves
  | .fn decl => decl.leaves
  | .loop element range body => element.toList.map .name ++ range.leaves ++ body.leaves
  | .leave value => optionalExprLeaves value
  | .stop | .next => []
  | .block block => block.leaves
  | .expr expr => expr.leaves

def LoopRange.leaves : LoopRange → List Leaf
  | .endless => []
  | .over expr => expr.leaves
  | .between first last => first.leaves ++ last.leaves

end

def Arg.leaves (arg : Arg) : List Leaf := labelLeaves arg.label ++ arg.value.leaves

def RecordField.leaves (field : RecordField) : List Leaf := .name field.name :: optionalExprLeaves field.value

def Arm.leaves (arm : Arm) : List Leaf := arm.pattern.leaves ++ arm.body.leaves

def TypeArg.leaves (arg : TypeArg) : List Leaf := labelLeaves arg.label ++ arg.value.leaves

def Param.leaves (param : Param) : List Leaf := .name param.name :: optionalTypeLeaves param.type

def Statement.leaves (statement : Statement) : List Leaf := statement.kind.leaves

def Exposed.leaves (exposed : Exposed) : List Leaf :=
  [if exposed.isMacro then .macroName exposed.name else .name exposed.name]

def Import.leaves (decl : Import) : List Leaf :=
  decl.path.map .name ++ decl.renamed.toList.map .name ++ decl.exposed.flatMap Exposed.leaves

def Field.leaves (field : Field) : List Leaf := .name field.name :: field.type.leaves

def Constructor.leaves (constructor : Constructor) : List Leaf := .name constructor.name :: paramLeaves constructor.params

def TypeBody.leaves : TypeBody → List Leaf
  | .synonym type => type.leaves
  | .fields fs => fs.flatMap Field.leaves
  | .constructors cs => cs.flatMap Constructor.leaves

def TypeDecl.leaves (decl : TypeDecl) : List Leaf := .name decl.name :: paramLeaves decl.params ++ decl.body.leaves

def Impl.leaves (decl : Impl) : List Leaf :=
  optionalTypeLeaves decl.traitType ++ decl.selfType.leaves ++ decl.fns.flatMap FnDecl.leaves

def ItemKind.leaves : ItemKind → List Leaf
  | .imports decl => decl.leaves
  | .fn decl => decl.leaves
  | .type decl => decl.leaves
  | .binding name _ declared value => .name name :: optionalTypeLeaves declared ++ value.leaves
  | .assignment name _ value => .name name :: value.leaves
  | .impl decl => decl.leaves

def Item.leaves (item : Item) : List Leaf := item.kind.leaves

/-! ## Lists -/

theorem exprLeaves_eq_flatMap (items : List Expr) : exprLeaves items = items.flatMap Expr.leaves := by
  induction items with
  | nil => rfl
  | cons item rest ih => exact congrArg (item.leaves ++ ·) ih

theorem argLeaves_eq_flatMap (args : List Arg) : argLeaves args = args.flatMap Arg.leaves := by
  induction args with
  | nil => rfl
  | cons arg rest ih =>
    cases arg
    exact congrArg (_ ++ ·) ih

theorem recordFieldLeaves_eq_flatMap (fs : List RecordField) : recordFieldLeaves fs = fs.flatMap RecordField.leaves := by
  induction fs with
  | nil => rfl
  | cons f rest ih =>
    cases f
    exact congrArg (_ ++ ·) ih

theorem armLeaves_eq_flatMap (arms : List Arm) : armLeaves arms = arms.flatMap Arm.leaves := by
  induction arms with
  | nil => rfl
  | cons arm rest ih =>
    cases arm
    exact congrArg (_ ++ ·) ih

theorem typeLeaves_eq_flatMap (types : List TypeExpr) : typeLeaves types = types.flatMap TypeExpr.leaves := by
  induction types with
  | nil => rfl
  | cons type rest ih => exact congrArg (type.leaves ++ ·) ih

theorem typeArgLeaves_eq_flatMap (args : List TypeArg) : typeArgLeaves args = args.flatMap TypeArg.leaves := by
  induction args with
  | nil => rfl
  | cons arg rest ih =>
    cases arg
    exact congrArg (_ ++ ·) ih

theorem paramLeaves_eq_flatMap (params : List Param) : paramLeaves params = params.flatMap Param.leaves := by
  induction params with
  | nil => rfl
  | cons param rest ih =>
    cases param
    exact congrArg (_ ++ ·) ih

theorem statementLeaves_eq_flatMap (statements : List Statement) :
    statementLeaves statements = statements.flatMap Statement.leaves := by
  induction statements with
  | nil => rfl
  | cons statement rest ih =>
    cases statement
    exact congrArg (_ ++ ·) ih

end JuiceSyntax
