/-
  Trees without their places. `Item.bare` and the like drop every span, the text of macro bodies
  and how escapes were written; everything else of a tree stays.
-/
import JuiceSyntax.Grammar.Fault
import JuiceSyntax.Proofs.Token.Bare
import JuiceSyntax.Tree.Basic

namespace JuiceSyntax

def Layout.bare : Layout → Layout
  | .inline => .inline
  | .lines markers => .lines (markers.map fun _ => .point 0)

def MacroBody.bare (body : MacroBody) : MacroBody := ⟨.point 0, .point 0, "", bareTokens body.tokens⟩

def FnName.bare (name : FnName) : FnName := { name with span := .point 0 }

mutual

def Expr.bare : Expr → Expr
  | ⟨kind, _⟩ => ⟨kind.bare, .point 0⟩

def ExprKind.bare : ExprKind → ExprKind
  | .int value radix => .int value radix
  | .float value => .float value
  | .bool value => .bool value
  | .str segments layout => .str (bareSegments segments) layout.bare
  | .name text => .name text
  | .typeName text => .typeName text
  | .list items => .list (bareExprs items)
  | .record fields => .record (bareRecordFields fields)
  | .tuple items => .tuple (bareExprs items)
  | .group inner => .group inner.bare
  | .unary op operand => .unary op operand.bare
  | .binary op left right => .binary op left.bare right.bare
  | .attempt inner => .attempt inner.bare
  | .member object member => .member object.bare member.bare
  | .typeAccess base member => .typeAccess base.bare member.bare
  | .call callee args => .call callee.bare (bareArgs args)
  | .macroCall name _ parenthesized args body =>
    .macroCall name (.point 0) parenthesized (bareArgs args) (body.map MacroBody.bare)
  | .fn decl => .fn decl.bare
  | .conditional test body otherwise => .conditional test.bare body.bare (bareExpr? otherwise)
  | .selection scrutinee arms => .selection scrutinee.bare (bareArms arms)
  | .block block => .block block.bare

def bareExprs : List Expr → List Expr
  | [] => []
  | expr :: rest => expr.bare :: bareExprs rest

def bareExpr? : Option Expr → Option Expr
  | none => none
  | some expr => some expr.bare

def bareSegments : List Segment → List Segment
  | [] => []
  | .text text _ :: rest => .text text (.point 0) :: bareSegments rest
  | .escape value _ _ :: rest => .escape value "" (.point 0) :: bareSegments rest
  | .fragment expr _ :: rest => .fragment expr.bare (.point 0) :: bareSegments rest

def bareArgs : List Arg → List Arg
  | [] => []
  | ⟨label, value, _⟩ :: rest => ⟨label, value.bare, .point 0⟩ :: bareArgs rest

def bareRecordFields : List RecordField → List RecordField
  | [] => []
  | ⟨name, value, _⟩ :: rest => ⟨name, bareExpr? value, .point 0⟩ :: bareRecordFields rest

def bareArms : List Arm → List Arm
  | [] => []
  | ⟨pattern, body, _⟩ :: rest => ⟨pattern.bare, body.bare, .point 0⟩ :: bareArms rest

def Pattern.bare : Pattern → Pattern
  | .value expr => .value expr.bare
  | .type type => .type type.bare

def TypeExpr.bare : TypeExpr → TypeExpr
  | ⟨kind, _⟩ => ⟨kind.bare, .point 0⟩

def TypeKind.bare : TypeKind → TypeKind
  | .builtin type => .builtin type
  | .name text => .name text
  | .typeName text => .typeName text
  | .literal expr => .literal expr.bare
  | .call callee _ args => .call callee (.point 0) (bareTypeArgs args)
  | .tuple items => .tuple (bareTypes items)
  | .group inner => .group inner.bare
  | .binary op left right => .binary op left.bare right.bare

def bareTypes : List TypeExpr → List TypeExpr
  | [] => []
  | type :: rest => type.bare :: bareTypes rest

def bareType? : Option TypeExpr → Option TypeExpr
  | none => none
  | some type => some type.bare

def bareTypeArgs : List TypeArg → List TypeArg
  | [] => []
  | ⟨label, value, _⟩ :: rest => ⟨label, value.bare, .point 0⟩ :: bareTypeArgs rest

def bareParams : List Param → List Param
  | [] => []
  | ⟨name, type, _⟩ :: rest => ⟨name, bareType? type, .point 0⟩ :: bareParams rest

def FnDecl.bare : FnDecl → FnDecl
  | ⟨isStatic, name, params, result, body, _⟩ =>
    ⟨isStatic, name.map FnName.bare, bareParams params, bareType? result, body.bare, .point 0⟩

def Block.bare : Block → Block
  | ⟨statements, _⟩ => ⟨bareStatements statements, .point 0⟩

def bareStatements : List Statement → List Statement
  | [] => []
  | ⟨kind, _⟩ :: rest => ⟨kind.bare, .point 0⟩ :: bareStatements rest

def StatementKind.bare : StatementKind → StatementKind
  | .binding name _ type value => .binding name (.point 0) (bareType? type) value.bare
  | .assignment name _ value => .assignment name (.point 0) value.bare
  | .fn decl => .fn decl.bare
  | .loop element range body => .loop element range.bare body.bare
  | .leave value => .leave (bareExpr? value)
  | .stop => .stop
  | .next => .next
  | .block block => .block block.bare
  | .expr expr => .expr expr.bare

def LoopRange.bare : LoopRange → LoopRange
  | .endless => .endless
  | .over expr => .over expr.bare
  | .between first last => .between first.bare last.bare

end

def Arg.bare (arg : Arg) : Arg := ⟨arg.label, arg.value.bare, .point 0⟩

def RecordField.bare (field : RecordField) : RecordField := ⟨field.name, bareExpr? field.value, .point 0⟩

def Arm.bare (arm : Arm) : Arm := ⟨arm.pattern.bare, arm.body.bare, .point 0⟩

def TypeArg.bare (arg : TypeArg) : TypeArg := ⟨arg.label, arg.value.bare, .point 0⟩

def Param.bare (param : Param) : Param := ⟨param.name, bareType? param.type, .point 0⟩

def Statement.bare (statement : Statement) : Statement := ⟨statement.kind.bare, .point 0⟩

def Exposed.bare (exposed : Exposed) : Exposed := { exposed with span := .point 0 }

def Import.bare (decl : Import) : Import := { decl with exposed := decl.exposed.map Exposed.bare }

def Field.bare (field : Field) : Field := ⟨field.name, field.type.bare, .point 0⟩

def Constructor.bare (constructor : Constructor) : Constructor :=
  ⟨constructor.name, bareParams constructor.params, .point 0⟩

def TypeBody.bare : TypeBody → TypeBody
  | .synonym type => .synonym type.bare
  | .fields fs => .fields (fs.map Field.bare)
  | .constructors cs => .constructors (cs.map Constructor.bare)

def TypeDecl.bare (decl : TypeDecl) : TypeDecl :=
  ⟨decl.keyword, decl.name, .point 0, bareParams decl.params, decl.body.bare⟩

def Impl.bare (decl : Impl) : Impl := ⟨bareType? decl.traitType, decl.selfType.bare, decl.fns.map FnDecl.bare⟩

def ItemKind.bare : ItemKind → ItemKind
  | .imports decl => .imports decl.bare
  | .fn decl => .fn decl.bare
  | .type decl => .type decl.bare
  | .binding name _ declared value => .binding name (.point 0) (bareType? declared) value.bare
  | .assignment name _ value => .assignment name (.point 0) value.bare
  | .impl decl => .impl decl.bare

def Item.bare (item : Item) : Item := ⟨item.kind.bare, item.exported, .point 0⟩

/-- The `#!` line is known by its span alone. -/
def Program.bare (program : Program) : Program := ⟨none, program.items.map Item.bare, .point 0⟩

/-! ## Lists -/

@[simp] theorem bareExprs_eq_map (items : List Expr) : bareExprs items = items.map Expr.bare := by
  induction items with
  | nil => rfl
  | cons item rest ih => rw [bareExprs, ih, List.map_cons]

@[simp] theorem bareExpr?_eq_map (expr : Option Expr) : bareExpr? expr = expr.map Expr.bare := by
  cases expr <;> rfl

@[simp] theorem bareArgs_eq_map (args : List Arg) : bareArgs args = args.map Arg.bare := by
  induction args with
  | nil => rfl
  | cons arg rest ih =>
    cases arg
    rw [bareArgs, ih, List.map_cons, Arg.bare]

@[simp] theorem bareRecordFields_eq_map (fields : List RecordField) :
    bareRecordFields fields = fields.map RecordField.bare := by
  induction fields with
  | nil => rfl
  | cons field rest ih =>
    cases field
    rw [bareRecordFields, ih, List.map_cons, RecordField.bare]

@[simp] theorem bareArms_eq_map (arms : List Arm) : bareArms arms = arms.map Arm.bare := by
  induction arms with
  | nil => rfl
  | cons arm rest ih =>
    cases arm
    rw [bareArms, ih, List.map_cons, Arm.bare]

@[simp] theorem bareTypes_eq_map (types : List TypeExpr) : bareTypes types = types.map TypeExpr.bare := by
  induction types with
  | nil => rfl
  | cons type rest ih => rw [bareTypes, ih, List.map_cons]

@[simp] theorem bareType?_eq_map (type : Option TypeExpr) : bareType? type = type.map TypeExpr.bare := by
  cases type <;> rfl

@[simp] theorem bareTypeArgs_eq_map (args : List TypeArg) : bareTypeArgs args = args.map TypeArg.bare := by
  induction args with
  | nil => rfl
  | cons arg rest ih =>
    cases arg
    rw [bareTypeArgs, ih, List.map_cons, TypeArg.bare]

@[simp] theorem bareParams_eq_map (params : List Param) : bareParams params = params.map Param.bare := by
  induction params with
  | nil => rfl
  | cons param rest ih =>
    cases param
    rw [bareParams, ih, List.map_cons, Param.bare]

@[simp] theorem bareStatements_eq_map (statements : List Statement) :
    bareStatements statements = statements.map Statement.bare := by
  induction statements with
  | nil => rfl
  | cons statement rest ih =>
    cases statement
    rw [bareStatements, ih, List.map_cons, Statement.bare]

/-! ## Shapes -/

@[simp] theorem Expr.kind_bare (expr : Expr) : expr.bare.kind = expr.kind.bare := by
  cases expr
  rw [Expr.bare]

@[simp] theorem TypeExpr.kind_bare (type : TypeExpr) : type.bare.kind = type.kind.bare := by
  cases type
  rw [TypeExpr.bare]

/-- What is a question mark's expression without its places is one. -/
theorem ExprKind.attempt_of_bare {kind : ExprKind} {inner : Expr} (h : kind.bare = .attempt inner) :
    ∃ e, kind = .attempt e := by
  cases kind <;> simp_all [ExprKind.bare]

/-! ## Operators -/

theorem UnaryOp.ofKind?_bare (kind : Kind) : UnaryOp.ofKind? kind.bare = UnaryOp.ofKind? kind := by
  cases kind <;> simp only [Kind.bare, UnaryOp.ofKind?]

theorem BinaryOp.ofKind?_bare (kind : Kind) : BinaryOp.ofKind? kind.bare = BinaryOp.ofKind? kind := by
  cases kind <;> simp only [Kind.bare, BinaryOp.ofKind?]

theorem TypeOp.ofKind?_bare (kind : Kind) : TypeOp.ofKind? kind.bare = TypeOp.ofKind? kind := by
  cases kind <;> simp only [Kind.bare, TypeOp.ofKind?]

/-! ## Faults -/

def Cause.bare : Cause → Cause
  | .unexpected wanted found advice => .unexpected wanted found.bare advice
  | .missing wanted found advice => .missing wanted found.bare advice
  | .exportWithoutDeclaration found => .exportWithoutDeclaration found.bare
  | .unresolvable => .unresolvable
  | .reserved word => .reserved word
  | .mixedMembers fieldsFirst => .mixedMembers fieldsFirst
  | .singleElementTuple => .singleElementTuple
  | .nestingTooDeep limit => .nestingTooDeep limit
  | .tooManyFaults limit => .tooManyFaults limit

/-- Whether something was passed over stays. -/
def Fault.bare (fault : Fault) : Fault := ⟨fault.cause.bare, .point 0, fault.skipped.map fun _ => .point 0⟩

/-- A string is shown as one, whatever it holds. -/
theorem Wanted.message_str (wanted : Wanted) (multiline : Bool) (pieces pieces' : List Piece) :
    wanted.message (.str multiline pieces) = wanted.message (.str multiline pieces') := by
  have hshown : (Kind.str multiline pieces).shown = (Kind.str multiline pieces').shown := rfl
  unfold Wanted.message
  split <;> simp_all

theorem Wanted.hint?_str (wanted : Wanted) (multiline : Bool) (pieces pieces' : List Piece) :
    wanted.hint? (.str multiline pieces) = wanted.hint? (.str multiline pieces') := by
  cases wanted with
  | mark m => cases m <;> rfl
  | word w => cases w <;> rfl
  | _ => rfl

theorem Wanted.message_bare (wanted : Wanted) (found : Kind) : wanted.message found.bare = wanted.message found := by
  cases found with
  | str multiline pieces =>
    rw [Kind.bare]
    exact wanted.message_str _ _ _
  | _ => rw [Kind.bare]

theorem Wanted.hint?_bare (wanted : Wanted) (found : Kind) : wanted.hint? found.bare = wanted.hint? found := by
  cases found with
  | str multiline pieces =>
    rw [Kind.bare]
    exact wanted.hint?_str _ _ _
  | _ => rw [Kind.bare]

namespace Cause

theorem title_bare (cause : Cause) : cause.bare.title = cause.title := by cases cause <;> rfl

theorem message_bare (cause : Cause) : cause.bare.message = cause.message := by
  cases cause with
  | unexpected wanted found advice => exact wanted.message_bare found
  | missing wanted found advice => exact wanted.message_bare found
  | exportWithoutDeclaration found =>
    have hlabel := found.label_bare
    exact congrArg ("'export' must be followed by a declaration, found " ++ ·) hlabel
  | _ => rw [bare]

theorem hint?_bare (cause : Cause) : cause.bare.hint? = cause.hint? := by
  cases cause with
  | unexpected wanted found advice => exact congrArg (advice.map Advice.text).or (wanted.hint?_bare found)
  | missing wanted found advice => exact congrArg (advice.map Advice.text).or (wanted.hint?_bare found)
  | _ => rfl

theorem accepted_bare (cause : Cause) : cause.bare.accepted = cause.accepted := by cases cause <;> rfl

theorem isFatal_bare (cause : Cause) : cause.bare.isFatal = cause.isFatal := by cases cause <;> rfl

theorem isStructural_bare (cause : Cause) : cause.bare.isStructural = cause.isStructural := by cases cause <;> rfl

end Cause

/-- What is told of a fault, but for where it is. -/
structure Wording where
  title : String
  message : String
  accepted : List String
  hint? : Option String
  /-- Something was passed over. -/
  passed : Bool
deriving DecidableEq, Repr, Inhabited

def Fault.wording (fault : Fault) : Wording :=
  ⟨fault.cause.title, fault.cause.message, fault.cause.accepted, fault.cause.hint?, fault.skipped.isSome⟩

theorem Fault.wording_bare (fault : Fault) : fault.bare.wording = fault.wording := by
  simp only [Fault.wording, Fault.bare, Cause.title_bare, Cause.message_bare, Cause.accepted_bare, Cause.hint?_bare,
    Option.isSome_map]

end JuiceSyntax
