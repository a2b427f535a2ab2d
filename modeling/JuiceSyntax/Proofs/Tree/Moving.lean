/-
  Trees in another place. `Expr.moved f` does `f` to every offset of an expression and keeps
  everything else, also the texts that are kept as they were written.

  `Expr.sexpr_moved`: places do not show in the S-expression.
-/
import JuiceSyntax.Proofs.Token.Moving
import JuiceSyntax.Tree.Sexpr

namespace JuiceSyntax

def Layout.moved (f : Nat → Nat) : Layout → Layout
  | .inline => .inline
  | .lines markers => .lines (markers.map (·.moved f))

def MacroBody.moved (f : Nat → Nat) (body : MacroBody) : MacroBody :=
  ⟨body.span.moved f, body.inner.moved f, body.text, movedTokens f body.tokens⟩

def FnName.moved (f : Nat → Nat) (name : FnName) : FnName := { name with span := name.span.moved f }

mutual

def Expr.moved (f : Nat → Nat) : Expr → Expr
  | ⟨kind, span⟩ => ⟨kind.moved f, span.moved f⟩

def ExprKind.moved (f : Nat → Nat) : ExprKind → ExprKind
  | .int value radix => .int value radix
  | .float value => .float value
  | .bool value => .bool value
  | .str segments layout => .str (movedSegments f segments) (layout.moved f)
  | .name text => .name text
  | .typeName text => .typeName text
  | .list items => .list (movedExprs f items)
  | .record fields => .record (movedRecordFields f fields)
  | .tuple items => .tuple (movedExprs f items)
  | .group inner => .group (inner.moved f)
  | .unary op operand => .unary op (operand.moved f)
  | .binary op left right => .binary op (left.moved f) (right.moved f)
  | .attempt inner => .attempt (inner.moved f)
  | .member object member => .member (object.moved f) (member.moved f)
  | .typeAccess base member => .typeAccess (base.moved f) (member.moved f)
  | .call callee args => .call (callee.moved f) (movedArgs f args)
  | .macroCall name nameSpan parenthesized args body =>
    .macroCall name (nameSpan.moved f) parenthesized (movedArgs f args) (body.map (·.moved f))
  | .fn decl => .fn (decl.moved f)
  | .conditional test body otherwise => .conditional (test.moved f) (body.moved f) (movedExpr? f otherwise)
  | .selection scrutinee arms => .selection (scrutinee.moved f) (movedArms f arms)
  | .block block => .block (block.moved f)

def movedExprs (f : Nat → Nat) : List Expr → List Expr
  | [] => []
  | expr :: rest => expr.moved f :: movedExprs f rest

def movedExpr? (f : Nat → Nat) : Option Expr → Option Expr
  | none => none
  | some expr => some (expr.moved f)

def movedSegments (f : Nat → Nat) : List Segment → List Segment
  | [] => []
  | .text text span :: rest => .text text (span.moved f) :: movedSegments f rest
  | .escape value raw span :: rest => .escape value raw (span.moved f) :: movedSegments f rest
  | .fragment expr span :: rest => .fragment (expr.moved f) (span.moved f) :: movedSegments f rest

def movedArgs (f : Nat → Nat) : List Arg → List Arg
  | [] => []
  | ⟨label, value, span⟩ :: rest => ⟨label, value.moved f, span.moved f⟩ :: movedArgs f rest

def movedRecordFields (f : Nat → Nat) : List RecordField → List RecordField
  | [] => []
  | ⟨name, value, span⟩ :: rest => ⟨name, movedExpr? f value, span.moved f⟩ :: movedRecordFields f rest

def movedArms (f : Nat → Nat) : List Arm → List Arm
  | [] => []
  | ⟨pattern, body, span⟩ :: rest => ⟨pattern.moved f, body.moved f, span.moved f⟩ :: movedArms f rest

def Pattern.moved (f : Nat → Nat) : Pattern → Pattern
  | .value expr => .value (expr.moved f)
  | .type type => .type (type.moved f)

def TypeExpr.moved (f : Nat → Nat) : TypeExpr → TypeExpr
  | ⟨kind, span⟩ => ⟨kind.moved f, span.moved f⟩

def TypeKind.moved (f : Nat → Nat) : TypeKind → TypeKind
  | .builtin type => .builtin type
  | .name text => .name text
  | .typeName text => .typeName text
  | .literal expr => .literal (expr.moved f)
  | .call callee calleeSpan args => .call callee (calleeSpan.moved f) (movedTypeArgs f args)
  | .tuple items => .tuple (movedTypes f items)
  | .group inner => .group (inner.moved f)
  | .binary op left right => .binary op (left.moved f) (right.moved f)

def movedTypes (f : Nat → Nat) : List TypeExpr → List TypeExpr
  | [] => []
  | type :: rest => type.moved f :: movedTypes f rest

def movedType? (f : Nat → Nat) : Option TypeExpr → Option TypeExpr
  | none => none
  | some type => some (type.moved f)

def movedTypeArgs (f : Nat → Nat) : List TypeArg → List TypeArg
  | [] => []
  | ⟨label, value, span⟩ :: rest => ⟨label, value.moved f, span.moved f⟩ :: movedTypeArgs f rest

def movedParams (f : Nat → Nat) : List Param → List Param
  | [] => []
  | ⟨name, type, span⟩ :: rest => ⟨name, movedType? f type, span.moved f⟩ :: movedParams f rest

def FnDecl.moved (f : Nat → Nat) : FnDecl → FnDecl
  | ⟨isStatic, name, params, result, body, span⟩ =>
    ⟨isStatic, name.map (·.moved f), movedParams f params, movedType? f result, body.moved f, span.moved f⟩

def Block.moved (f : Nat → Nat) : Block → Block
  | ⟨statements, span⟩ => ⟨movedStatements f statements, span.moved f⟩

def movedStatements (f : Nat → Nat) : List Statement → List Statement
  | [] => []
  | ⟨kind, span⟩ :: rest => ⟨kind.moved f, span.moved f⟩ :: movedStatements f rest

def StatementKind.moved (f : Nat → Nat) : StatementKind → StatementKind
  | .binding name nameSpan type value => .binding name (nameSpan.moved f) (movedType? f type) (value.moved f)
  | .assignment name nameSpan value => .assignment name (nameSpan.moved f) (value.moved f)
  | .fn decl => .fn (decl.moved f)
  | .loop element range body => .loop element (range.moved f) (body.moved f)
  | .leave value => .leave (movedExpr? f value)
  | .stop => .stop
  | .next => .next
  | .block block => .block (block.moved f)
  | .expr expr => .expr (expr.moved f)

def LoopRange.moved (f : Nat → Nat) : LoopRange → LoopRange
  | .endless => .endless
  | .over expr => .over (expr.moved f)
  | .between first last => .between (first.moved f) (last.moved f)

end

def Arg.moved (f : Nat → Nat) (arg : Arg) : Arg := ⟨arg.label, arg.value.moved f, arg.span.moved f⟩

def RecordField.moved (f : Nat → Nat) (field : RecordField) : RecordField :=
  ⟨field.name, field.value.map (·.moved f), field.span.moved f⟩

def Arm.moved (f : Nat → Nat) (arm : Arm) : Arm := ⟨arm.pattern.moved f, arm.body.moved f, arm.span.moved f⟩

def TypeArg.moved (f : Nat → Nat) (arg : TypeArg) : TypeArg := ⟨arg.label, arg.value.moved f, arg.span.moved f⟩

def Param.moved (f : Nat → Nat) (param : Param) : Param :=
  ⟨param.name, param.type.map (·.moved f), param.span.moved f⟩

def Statement.moved (f : Nat → Nat) (statement : Statement) : Statement :=
  ⟨statement.kind.moved f, statement.span.moved f⟩

section

variable (f : Nat → Nat)

/-! ## Lists -/

@[simp] theorem movedExprs_eq_map (items : List Expr) : movedExprs f items = items.map (·.moved f) := by
  induction items with
  | nil => rfl
  | cons item rest ih =>
    rw [movedExprs, ih, List.map_cons]

@[simp] theorem movedExpr?_eq_map (expr : Option Expr) : movedExpr? f expr = expr.map (·.moved f) := by
  cases expr <;> rfl

@[simp] theorem movedArgs_eq_map (args : List Arg) : movedArgs f args = args.map (·.moved f) := by
  induction args with
  | nil => rfl
  | cons arg rest ih =>
    cases arg
    rw [movedArgs, ih, List.map_cons, Arg.moved]

@[simp] theorem movedRecordFields_eq_map (fields : List RecordField) : movedRecordFields f fields = fields.map (·.moved f) := by
  induction fields with
  | nil => rfl
  | cons field rest ih =>
    cases field
    rw [movedRecordFields, ih, List.map_cons, RecordField.moved, movedExpr?_eq_map]

@[simp] theorem movedArms_eq_map (arms : List Arm) : movedArms f arms = arms.map (·.moved f) := by
  induction arms with
  | nil => rfl
  | cons arm rest ih =>
    cases arm
    rw [movedArms, ih, List.map_cons, Arm.moved]

@[simp] theorem movedTypes_eq_map (types : List TypeExpr) : movedTypes f types = types.map (·.moved f) := by
  induction types with
  | nil => rfl
  | cons type rest ih =>
    rw [movedTypes, ih, List.map_cons]

@[simp] theorem movedType?_eq_map (type : Option TypeExpr) : movedType? f type = type.map (·.moved f) := by
  cases type <;> rfl

@[simp] theorem movedTypeArgs_eq_map (args : List TypeArg) : movedTypeArgs f args = args.map (·.moved f) := by
  induction args with
  | nil => rfl
  | cons arg rest ih =>
    cases arg
    rw [movedTypeArgs, ih, List.map_cons, TypeArg.moved]

@[simp] theorem movedParams_eq_map (params : List Param) : movedParams f params = params.map (·.moved f) := by
  induction params with
  | nil => rfl
  | cons param rest ih =>
    cases param
    rw [movedParams, ih, List.map_cons, Param.moved, movedType?_eq_map]

@[simp] theorem movedStatements_eq_map (statements : List Statement) : movedStatements f statements = statements.map (·.moved f) := by
  induction statements with
  | nil => rfl
  | cons statement rest ih =>
    cases statement
    rw [movedStatements, ih, List.map_cons, Statement.moved]

/-! ## Spans -/

@[simp] theorem Expr.span_moved (e : Expr) : (e.moved f).span = e.span.moved f := by cases e; rfl

@[simp] theorem Expr.kind_moved (e : Expr) : (e.moved f).kind = e.kind.moved f := by cases e; rfl

@[simp] theorem TypeExpr.span_moved (type : TypeExpr) : (type.moved f).span = type.span.moved f := by cases type; rfl

@[simp] theorem Block.span_moved (block : Block) : (block.moved f).span = block.span.moved f := by cases block; rfl

@[simp] theorem FnDecl.span_moved (decl : FnDecl) : (decl.moved f).span = decl.span.moved f := by cases decl; rfl

@[simp] theorem Pattern.span_moved (pattern : Pattern) : (pattern.moved f).span = pattern.span.moved f := by
  cases pattern
  · exact Expr.span_moved f _
  · exact TypeExpr.span_moved f _

/-! ## S-expressions -/

theorem FnName.written_moved (name : FnName) : (name.moved f).written = name.written := rfl

mutual

theorem Expr.sexpr_moved : (e : Expr) → (e.moved f).sexpr = e.sexpr
  | ⟨kind, _⟩ => by simp only [Expr.moved, Expr.sexpr, kind.sexpr_moved]

theorem ExprKind.sexpr_moved : (kind : ExprKind) → (kind.moved f).sexpr = kind.sexpr
  | .int _ _ | .float _ | .bool _ | .name _ | .typeName _ => rfl
  | .str segments .inline | .str segments (.lines _) => by
    simp only [ExprKind.moved, ExprKind.sexpr, Layout.moved, segmentSexprs_moved segments]
  | .list items | .tuple items => by simp only [ExprKind.moved, ExprKind.sexpr, exprSexprs_moved items]
  | .record fields => by simp only [ExprKind.moved, ExprKind.sexpr, recordFieldSexprs_moved fields]
  | .group inner | .attempt inner => by simp only [ExprKind.moved, ExprKind.sexpr, inner.sexpr_moved]
  | .unary _ operand => by simp only [ExprKind.moved, ExprKind.sexpr, operand.sexpr_moved]
  | .binary _ left right => by simp only [ExprKind.moved, ExprKind.sexpr, left.sexpr_moved, right.sexpr_moved]
  | .member object member => by simp only [ExprKind.moved, ExprKind.sexpr, object.sexpr_moved, member.sexpr_moved]
  | .typeAccess base member => by simp only [ExprKind.moved, ExprKind.sexpr, base.sexpr_moved, member.sexpr_moved]
  | .call callee args => by simp only [ExprKind.moved, ExprKind.sexpr, callee.sexpr_moved, argSexprs_moved args]
  | .macroCall _ _ _ args none | .macroCall _ _ _ args (some _) => by
    simp only [ExprKind.moved, ExprKind.sexpr, argSexprs_moved args, Option.map_none, Option.map_some, MacroBody.moved]
  | .fn decl => by simp only [ExprKind.moved, ExprKind.sexpr, decl.sexpr_moved]
  | .conditional test body otherwise => by
    simp only [ExprKind.moved, ExprKind.sexpr, test.sexpr_moved, body.sexpr_moved, optionalExprSexpr_moved otherwise]
  | .selection scrutinee arms => by
    simp only [ExprKind.moved, ExprKind.sexpr, scrutinee.sexpr_moved, armSexprs_moved arms]
  | .block block => by simp only [ExprKind.moved, ExprKind.sexpr, block.sexpr_moved]

theorem exprSexprs_moved : (items : List Expr) → exprSexprs (movedExprs f items) = exprSexprs items
  | [] => rfl
  | expr :: rest => by simp only [movedExprs, exprSexprs, expr.sexpr_moved, exprSexprs_moved rest]

theorem optionalExprSexpr_moved : (expr : Option Expr) → optionalExprSexpr (movedExpr? f expr) = optionalExprSexpr expr
  | none => rfl
  | some expr => by simp only [movedExpr?, optionalExprSexpr, expr.sexpr_moved]

theorem segmentSexprs_moved : (segments : List Segment) → segmentSexprs (movedSegments f segments) = segmentSexprs segments
  | [] => rfl
  | .text _ _ :: rest | .escape _ _ _ :: rest => by
    simp only [movedSegments, segmentSexprs, Segment.sexpr, segmentSexprs_moved rest]
  | .fragment expr _ :: rest => by
    simp only [movedSegments, segmentSexprs, Segment.sexpr, expr.sexpr_moved, segmentSexprs_moved rest]

theorem argSexprs_moved : (args : List Arg) → argSexprs (movedArgs f args) = argSexprs args
  | [] => rfl
  | ⟨_, value, _⟩ :: rest => by simp only [movedArgs, argSexprs, value.sexpr_moved, argSexprs_moved rest]

theorem recordFieldSexprs_moved :
    (fields : List RecordField) → recordFieldSexprs (movedRecordFields f fields) = recordFieldSexprs fields
  | [] => rfl
  | ⟨_, value, _⟩ :: rest => by
    simp only [movedRecordFields, recordFieldSexprs, optionalExprSexpr_moved value, recordFieldSexprs_moved rest]

theorem armSexprs_moved : (arms : List Arm) → armSexprs (movedArms f arms) = armSexprs arms
  | [] => rfl
  | ⟨pattern, body, _⟩ :: rest => by
    simp only [movedArms, armSexprs, pattern.sexpr_moved, body.sexpr_moved, armSexprs_moved rest]

theorem Pattern.sexpr_moved : (pattern : Pattern) → (pattern.moved f).sexpr = pattern.sexpr
  | .value expr => by simp only [Pattern.moved, Pattern.sexpr, expr.sexpr_moved]
  | .type type => by simp only [Pattern.moved, Pattern.sexpr, type.sexpr_moved]

theorem TypeExpr.sexpr_moved : (type : TypeExpr) → (type.moved f).sexpr = type.sexpr
  | ⟨kind, _⟩ => by simp only [TypeExpr.moved, TypeExpr.sexpr, kind.sexpr_moved]

theorem TypeKind.sexpr_moved : (kind : TypeKind) → (kind.moved f).sexpr = kind.sexpr
  | .builtin _ | .name _ | .typeName _ => rfl
  | .literal expr => by simp only [TypeKind.moved, TypeKind.sexpr, expr.sexpr_moved]
  | .call _ _ args => by simp only [TypeKind.moved, TypeKind.sexpr, typeArgSexprs_moved args]
  | .tuple items => by simp only [TypeKind.moved, TypeKind.sexpr, typeSexprs_moved items]
  | .group inner => by simp only [TypeKind.moved, TypeKind.sexpr, inner.sexpr_moved]
  | .binary _ left right => by simp only [TypeKind.moved, TypeKind.sexpr, left.sexpr_moved, right.sexpr_moved]

theorem typeSexprs_moved : (types : List TypeExpr) → typeSexprs (movedTypes f types) = typeSexprs types
  | [] => rfl
  | type :: rest => by simp only [movedTypes, typeSexprs, type.sexpr_moved, typeSexprs_moved rest]

theorem optionalTypeSexpr_moved : (type : Option TypeExpr) → optionalTypeSexpr (movedType? f type) = optionalTypeSexpr type
  | none => rfl
  | some type => by simp only [movedType?, optionalTypeSexpr, type.sexpr_moved]

theorem typeArgSexprs_moved : (args : List TypeArg) → typeArgSexprs (movedTypeArgs f args) = typeArgSexprs args
  | [] => rfl
  | ⟨_, value, _⟩ :: rest => by simp only [movedTypeArgs, typeArgSexprs, value.sexpr_moved, typeArgSexprs_moved rest]

theorem paramSexprs_moved : (params : List Param) → paramSexprs (movedParams f params) = paramSexprs params
  | [] => rfl
  | ⟨_, type, _⟩ :: rest => by
    simp only [movedParams, paramSexprs, optionalTypeSexpr_moved type, paramSexprs_moved rest]

theorem FnDecl.sexpr_moved : (decl : FnDecl) → (decl.moved f).sexpr = decl.sexpr
  | ⟨_, none, params, result, body, _⟩ | ⟨_, some _, params, result, body, _⟩ => by
    simp only [FnDecl.moved, FnDecl.sexpr, Option.map_none, Option.map_some, FnName.written_moved,
      paramSexprs_moved params, optionalTypeSexpr_moved result, body.sexpr_moved]

theorem Block.sexpr_moved : (block : Block) → (block.moved f).sexpr = block.sexpr
  | ⟨statements, _⟩ => by simp only [Block.moved, Block.sexpr, statementSexprs_moved statements]

theorem statementSexprs_moved :
    (statements : List Statement) → statementSexprs (movedStatements f statements) = statementSexprs statements
  | [] => rfl
  | ⟨kind, _⟩ :: rest => by
    simp only [movedStatements, statementSexprs, kind.sexpr_moved, statementSexprs_moved rest]

theorem StatementKind.sexpr_moved : (kind : StatementKind) → (kind.moved f).sexpr = kind.sexpr
  | .binding _ _ type value => by
    simp only [StatementKind.moved, StatementKind.sexpr, optionalTypeSexpr_moved type, value.sexpr_moved]
  | .assignment _ _ value => by simp only [StatementKind.moved, StatementKind.sexpr, value.sexpr_moved]
  | .fn decl => by simp only [StatementKind.moved, StatementKind.sexpr, decl.sexpr_moved]
  | .loop _ range body => by
    simp only [StatementKind.moved, StatementKind.sexpr, range.sexprs_moved, body.sexpr_moved]
  | .leave value => by simp only [StatementKind.moved, StatementKind.sexpr, optionalExprSexpr_moved value]
  | .stop | .next => rfl
  | .block block => by simp only [StatementKind.moved, StatementKind.sexpr, block.sexpr_moved]
  | .expr expr => by simp only [StatementKind.moved, StatementKind.sexpr, expr.sexpr_moved]

theorem LoopRange.sexprs_moved : (range : LoopRange) → (range.moved f).sexprs = range.sexprs
  | .endless => rfl
  | .over expr => by simp only [LoopRange.moved, LoopRange.sexprs, expr.sexpr_moved]
  | .between first last => by simp only [LoopRange.moved, LoopRange.sexprs, first.sexpr_moved, last.sexpr_moved]

end

end

end JuiceSyntax
