/-
  Trees without what an S-expression of them leaves out: every span, the `#!` line, whether a type was
  declared with the word `type`, the markers of a string over several lines, and the tokens of macro
  bodies.

  `Program.dump_erased`: a dump shows nothing of that.
-/
import JuiceSyntax.Tree.Sexpr

namespace JuiceSyntax

open Sexpr (word node tagged typed)

def Layout.erased : Layout → Layout
  | .inline => .inline
  | .lines _ => .lines []

def MacroBody.erased (body : MacroBody) : MacroBody := ⟨.point 0, .point 0, body.text, []⟩

def FnName.erased (name : FnName) : FnName := { name with span := .point 0 }

mutual

def Expr.erased : Expr → Expr
  | ⟨kind, _⟩ => ⟨kind.erased, .point 0⟩

def ExprKind.erased : ExprKind → ExprKind
  | .int value radix => .int value radix
  | .float value => .float value
  | .bool value => .bool value
  | .str segments layout => .str (erasedSegments segments) layout.erased
  | .name text => .name text
  | .typeName text => .typeName text
  | .list items => .list (erasedExprs items)
  | .record fields => .record (erasedFields fields)
  | .tuple items => .tuple (erasedExprs items)
  | .group inner => .group inner.erased
  | .unary op operand => .unary op operand.erased
  | .binary op left right => .binary op left.erased right.erased
  | .attempt inner => .attempt inner.erased
  | .member object member => .member object.erased member.erased
  | .typeAccess base member => .typeAccess base.erased member.erased
  | .call callee args => .call callee.erased (erasedArgs args)
  | .macroCall name _ parenthesized args body =>
    .macroCall name (.point 0) parenthesized (erasedArgs args) (body.map MacroBody.erased)
  | .fn decl => .fn decl.erased
  | .conditional test body otherwise => .conditional test.erased body.erased (erasedExpr? otherwise)
  | .selection scrutinee arms => .selection scrutinee.erased (erasedArms arms)
  | .block block => .block block.erased

def erasedExprs : List Expr → List Expr
  | [] => []
  | expr :: rest => expr.erased :: erasedExprs rest

def erasedExpr? : Option Expr → Option Expr
  | none => none
  | some expr => some expr.erased

def erasedSegments : List Segment → List Segment
  | [] => []
  | .text text _ :: rest => .text text (.point 0) :: erasedSegments rest
  | .escape value raw _ :: rest => .escape value raw (.point 0) :: erasedSegments rest
  | .fragment expr _ :: rest => .fragment expr.erased (.point 0) :: erasedSegments rest

def erasedArgs : List Arg → List Arg
  | [] => []
  | ⟨label, value, _⟩ :: rest => ⟨label, value.erased, .point 0⟩ :: erasedArgs rest

def erasedFields : List RecordField → List RecordField
  | [] => []
  | ⟨name, value, _⟩ :: rest => ⟨name, erasedExpr? value, .point 0⟩ :: erasedFields rest

def erasedArms : List Arm → List Arm
  | [] => []
  | ⟨pattern, body, _⟩ :: rest => ⟨pattern.erased, body.erased, .point 0⟩ :: erasedArms rest

def Pattern.erased : Pattern → Pattern
  | .value expr => .value expr.erased
  | .type type => .type type.erased

def TypeExpr.erased : TypeExpr → TypeExpr
  | ⟨kind, _⟩ => ⟨kind.erased, .point 0⟩

def TypeKind.erased : TypeKind → TypeKind
  | .builtin type => .builtin type
  | .name text => .name text
  | .typeName text => .typeName text
  | .literal expr => .literal expr.erased
  | .call callee _ args => .call callee (.point 0) (erasedTypeArgs args)
  | .tuple items => .tuple (erasedTypes items)
  | .group inner => .group inner.erased
  | .binary op left right => .binary op left.erased right.erased

def erasedTypes : List TypeExpr → List TypeExpr
  | [] => []
  | type :: rest => type.erased :: erasedTypes rest

def erasedType? : Option TypeExpr → Option TypeExpr
  | none => none
  | some type => some type.erased

def erasedTypeArgs : List TypeArg → List TypeArg
  | [] => []
  | ⟨label, value, _⟩ :: rest => ⟨label, value.erased, .point 0⟩ :: erasedTypeArgs rest

def erasedParams : List Param → List Param
  | [] => []
  | ⟨name, type, _⟩ :: rest => ⟨name, erasedType? type, .point 0⟩ :: erasedParams rest

def FnDecl.erased : FnDecl → FnDecl
  | ⟨isStatic, name, params, result, body, _⟩ =>
    ⟨isStatic, name.map FnName.erased, erasedParams params, erasedType? result, body.erased, .point 0⟩

def Block.erased : Block → Block
  | ⟨statements, _⟩ => ⟨erasedStatements statements, .point 0⟩

def erasedStatements : List Statement → List Statement
  | [] => []
  | ⟨kind, _⟩ :: rest => ⟨kind.erased, .point 0⟩ :: erasedStatements rest

def StatementKind.erased : StatementKind → StatementKind
  | .binding name _ type value => .binding name (.point 0) (erasedType? type) value.erased
  | .assignment name _ value => .assignment name (.point 0) value.erased
  | .fn decl => .fn decl.erased
  | .loop element range body => .loop element range.erased body.erased
  | .leave value => .leave (erasedExpr? value)
  | .stop => .stop
  | .next => .next
  | .block block => .block block.erased
  | .expr expr => .expr expr.erased

def LoopRange.erased : LoopRange → LoopRange
  | .endless => .endless
  | .over expr => .over expr.erased
  | .between first last => .between first.erased last.erased

end

def Exposed.erased (name : Exposed) : Exposed := { name with span := .point 0 }

def Import.erased (decl : Import) : Import := { decl with exposed := decl.exposed.map Exposed.erased }

def Field.erased (field : Field) : Field := ⟨field.name, field.type.erased, .point 0⟩

def Constructor.erased (constructor : Constructor) : Constructor :=
  ⟨constructor.name, erasedParams constructor.params, .point 0⟩

def TypeBody.erased : TypeBody → TypeBody
  | .synonym type => .synonym type.erased
  | .fields fs => .fields (fs.map Field.erased)
  | .constructors cs => .constructors (cs.map Constructor.erased)

def TypeDecl.erased (decl : TypeDecl) : TypeDecl :=
  ⟨false, decl.name, .point 0, erasedParams decl.params, decl.body.erased⟩

def Impl.erased (decl : Impl) : Impl :=
  ⟨erasedType? decl.traitType, decl.selfType.erased, decl.fns.map FnDecl.erased⟩

def ItemKind.erased : ItemKind → ItemKind
  | .imports decl => .imports decl.erased
  | .fn decl => .fn decl.erased
  | .type decl => .type decl.erased
  | .binding name _ declared value => .binding name (.point 0) (erasedType? declared) value.erased
  | .assignment name _ value => .assignment name (.point 0) value.erased
  | .impl decl => .impl decl.erased

def Item.erased (item : Item) : Item := ⟨item.kind.erased, item.exported, .point 0⟩

def Program.erased (program : Program) : Program := ⟨none, program.items.map Item.erased, .point 0⟩

/-! ## What is shown -/

mutual

theorem Expr.sexpr_erased : (e : Expr) → e.erased.sexpr = e.sexpr
  | ⟨kind, _⟩ => kind.sexpr_erased

theorem ExprKind.sexpr_erased : (kind : ExprKind) → kind.erased.sexpr = kind.sexpr
  | .int _ _ | .float _ | .bool _ | .name _ | .typeName _ => rfl
  | .str segments .inline => congrArg (tagged "str") (segmentSexprs_erased segments)
  | .str segments (.lines _) => congrArg (tagged "mstr") (segmentSexprs_erased segments)
  | .list items => congrArg (tagged "list") (exprSexprs_erased items)
  | .record fields => congrArg (tagged "record") (recordFieldSexprs_erased fields)
  | .tuple items => congrArg (tagged "tuple") (exprSexprs_erased items)
  | .group inner => by rw [ExprKind.erased, ExprKind.sexpr, ExprKind.sexpr, inner.sexpr_erased]
  | .unary op operand => by rw [ExprKind.erased, ExprKind.sexpr, ExprKind.sexpr, operand.sexpr_erased]
  | .binary op left right => by
    rw [ExprKind.erased, ExprKind.sexpr, ExprKind.sexpr, left.sexpr_erased, right.sexpr_erased]
  | .attempt inner => by rw [ExprKind.erased, ExprKind.sexpr, ExprKind.sexpr, inner.sexpr_erased]
  | .member object member => by
    rw [ExprKind.erased, ExprKind.sexpr, ExprKind.sexpr, object.sexpr_erased, member.sexpr_erased]
  | .typeAccess base member => by
    rw [ExprKind.erased, ExprKind.sexpr, ExprKind.sexpr, base.sexpr_erased, member.sexpr_erased]
  | .call callee args => by rw [ExprKind.erased, ExprKind.sexpr, ExprKind.sexpr, callee.sexpr_erased, argSexprs_erased]
  | .macroCall name span parenthesized args none => by
    simp only [ExprKind.erased, ExprKind.sexpr, argSexprs_erased, Option.map_none]
  | .macroCall name span parenthesized args (some body) => by
    simp only [ExprKind.erased, ExprKind.sexpr, argSexprs_erased, Option.map_some, MacroBody.erased]
  | .fn decl => decl.sexpr_erased
  | .conditional test body otherwise => by
    rw [ExprKind.erased, ExprKind.sexpr, ExprKind.sexpr, test.sexpr_erased, body.sexpr_erased, optionalExprSexpr_erased]
  | .selection scrutinee arms => by
    rw [ExprKind.erased, ExprKind.sexpr, ExprKind.sexpr, scrutinee.sexpr_erased, armSexprs_erased]
  | .block block => block.sexpr_erased

theorem exprSexprs_erased : (items : List Expr) → exprSexprs (erasedExprs items) = exprSexprs items
  | [] => rfl
  | item :: rest => by rw [erasedExprs, exprSexprs, exprSexprs, item.sexpr_erased, exprSexprs_erased rest]

theorem optionalExprSexpr_erased : (e : Option Expr) → optionalExprSexpr (erasedExpr? e) = optionalExprSexpr e
  | none => rfl
  | some e => congrArg some e.sexpr_erased

theorem segmentSexprs_erased : (segments : List Segment) → segmentSexprs (erasedSegments segments) = segmentSexprs segments
  | [] => rfl
  | .text _ _ :: rest => congrArg (_ :: ·) (segmentSexprs_erased rest)
  | .escape _ _ _ :: rest => congrArg (_ :: ·) (segmentSexprs_erased rest)
  | .fragment e span :: rest => by
    rw [erasedSegments, segmentSexprs, segmentSexprs, Segment.sexpr, Segment.sexpr, e.sexpr_erased, segmentSexprs_erased rest]

theorem argSexprs_erased : (args : List Arg) → argSexprs (erasedArgs args) = argSexprs args
  | [] => rfl
  | ⟨label, value, _⟩ :: rest => by rw [erasedArgs, argSexprs, argSexprs, value.sexpr_erased, argSexprs_erased rest]

theorem recordFieldSexprs_erased : (fs : List RecordField) → recordFieldSexprs (erasedFields fs) = recordFieldSexprs fs
  | [] => rfl
  | ⟨name, value, _⟩ :: rest => by
    rw [erasedFields, recordFieldSexprs, recordFieldSexprs, optionalExprSexpr_erased, recordFieldSexprs_erased rest]

theorem armSexprs_erased : (arms : List Arm) → armSexprs (erasedArms arms) = armSexprs arms
  | [] => rfl
  | ⟨pattern, body, _⟩ :: rest => by
    rw [erasedArms, armSexprs, armSexprs, pattern.sexpr_erased, body.sexpr_erased, armSexprs_erased rest]

theorem Pattern.sexpr_erased : (pattern : Pattern) → pattern.erased.sexpr = pattern.sexpr
  | .value e => e.sexpr_erased
  | .type t => by rw [Pattern.erased, Pattern.sexpr, Pattern.sexpr, t.sexpr_erased]

theorem TypeExpr.sexpr_erased : (t : TypeExpr) → t.erased.sexpr = t.sexpr
  | ⟨kind, _⟩ => kind.sexpr_erased

theorem TypeKind.sexpr_erased : (kind : TypeKind) → kind.erased.sexpr = kind.sexpr
  | .builtin _ | .name _ | .typeName _ => rfl
  | .literal e => e.sexpr_erased
  | .call callee span args => by rw [TypeKind.erased, TypeKind.sexpr, TypeKind.sexpr, typeArgSexprs_erased]
  | .tuple items => congrArg (tagged "ttuple") (typeSexprs_erased items)
  | .group inner => by rw [TypeKind.erased, TypeKind.sexpr, TypeKind.sexpr, inner.sexpr_erased]
  | .binary op left right => by
    rw [TypeKind.erased, TypeKind.sexpr, TypeKind.sexpr, left.sexpr_erased, right.sexpr_erased]

theorem typeSexprs_erased : (types : List TypeExpr) → typeSexprs (erasedTypes types) = typeSexprs types
  | [] => rfl
  | t :: rest => by rw [erasedTypes, typeSexprs, typeSexprs, t.sexpr_erased, typeSexprs_erased rest]

theorem optionalTypeSexpr_erased : (t : Option TypeExpr) → optionalTypeSexpr (erasedType? t) = optionalTypeSexpr t
  | none => rfl
  | some t => congrArg some t.sexpr_erased

theorem typeArgSexprs_erased : (args : List TypeArg) → typeArgSexprs (erasedTypeArgs args) = typeArgSexprs args
  | [] => rfl
  | ⟨label, value, _⟩ :: rest => by
    rw [erasedTypeArgs, typeArgSexprs, typeArgSexprs, value.sexpr_erased, typeArgSexprs_erased rest]

theorem paramSexprs_erased : (params : List Param) → paramSexprs (erasedParams params) = paramSexprs params
  | [] => rfl
  | ⟨name, type, _⟩ :: rest => by
    rw [erasedParams, paramSexprs, paramSexprs, optionalTypeSexpr_erased, paramSexprs_erased rest]

theorem FnDecl.sexpr_erased : (decl : FnDecl) → decl.erased.sexpr = decl.sexpr
  | ⟨isStatic, name, params, result, body, _⟩ => by
    rw [FnDecl.erased, FnDecl.sexpr, FnDecl.sexpr, paramSexprs_erased, optionalTypeSexpr_erased, body.sexpr_erased]
    cases name <;> rfl

theorem Block.sexpr_erased : (block : Block) → block.erased.sexpr = block.sexpr
  | ⟨statements, _⟩ => congrArg (tagged "block") (statementSexprs_erased statements)

theorem statementSexprs_erased : (statements : List Statement) →
    statementSexprs (erasedStatements statements) = statementSexprs statements
  | [] => rfl
  | ⟨kind, _⟩ :: rest => by
    rw [erasedStatements, statementSexprs, statementSexprs, kind.sexpr_erased, statementSexprs_erased rest]

theorem StatementKind.sexpr_erased : (kind : StatementKind) → kind.erased.sexpr = kind.sexpr
  | .binding name _ type value => by
    rw [StatementKind.erased, StatementKind.sexpr, StatementKind.sexpr, optionalTypeSexpr_erased, value.sexpr_erased]
  | .assignment name _ value => by
    rw [StatementKind.erased, StatementKind.sexpr, StatementKind.sexpr, value.sexpr_erased]
  | .fn decl => decl.sexpr_erased
  | .loop element range body => by
    simp only [StatementKind.erased, StatementKind.sexpr, range.sexprs_erased, body.sexpr_erased]
  | .leave value => by rw [StatementKind.erased, StatementKind.sexpr, StatementKind.sexpr, optionalExprSexpr_erased]
  | .stop | .next => rfl
  | .block block => block.sexpr_erased
  | .expr e => e.sexpr_erased

theorem LoopRange.sexprs_erased : (range : LoopRange) → range.erased.sexprs = range.sexprs
  | .endless => rfl
  | .over e => by rw [LoopRange.erased, LoopRange.sexprs, LoopRange.sexprs, e.sexpr_erased]
  | .between first last => by
    rw [LoopRange.erased, LoopRange.sexprs, LoopRange.sexprs, first.sexpr_erased, last.sexpr_erased]

end

theorem Import.sexpr_erased (decl : Import) : decl.erased.sexpr = decl.sexpr := by
  rw [Import.sexpr, Import.sexpr, Import.erased, List.isEmpty_map, List.map_map]
  rfl

theorem TypeBody.sexpr_erased (body : TypeBody) : body.erased.sexpr = body.sexpr := by
  cases body with
  | synonym t => exact t.sexpr_erased
  | fields fs =>
    rw [TypeBody.erased, TypeBody.sexpr, TypeBody.sexpr, List.map_map]
    exact congrArg (tagged "fields") (List.map_congr_left fun f _ => congrArg (typed f.name ∘ some) f.type.sexpr_erased)
  | constructors cs =>
    rw [TypeBody.erased, TypeBody.sexpr, TypeBody.sexpr, List.map_map]
    refine congrArg (tagged "ctors") (List.map_congr_left fun c _ => ?_)
    exact congrArg (node ∘ (word c.name :: ·)) (paramSexprs_erased c.params)

theorem isEmpty_erasedParams (params : List Param) : (erasedParams params).isEmpty = params.isEmpty := by
  cases params with
  | nil => rfl
  | cons param rest =>
    cases param
    rfl

theorem TypeDecl.sexpr_erased (decl : TypeDecl) : decl.erased.sexpr = decl.sexpr := by
  rw [TypeDecl.sexpr, TypeDecl.sexpr, TypeDecl.erased, isEmpty_erasedParams, paramSexprs_erased, decl.body.sexpr_erased]

theorem Impl.sexpr_erased (decl : Impl) : decl.erased.sexpr = decl.sexpr := by
  have hfns : (decl.fns.map FnDecl.erased).map FnDecl.sexpr = decl.fns.map FnDecl.sexpr := by
    rw [List.map_map]
    exact List.map_congr_left fun fn _ => fn.sexpr_erased
  rw [Impl.sexpr, Impl.sexpr, Impl.erased, hfns, decl.selfType.sexpr_erased]
  cases decl.traitType with
  | none => rfl
  | some t => simp only [erasedType?, t.sexpr_erased]

theorem ItemKind.sexpr_erased (kind : ItemKind) : kind.erased.sexpr = kind.sexpr := by
  cases kind with
  | imports decl => exact decl.sexpr_erased
  | fn decl => exact decl.sexpr_erased
  | type decl => exact decl.sexpr_erased
  | binding name span declared value =>
    rw [ItemKind.erased, ItemKind.sexpr, ItemKind.sexpr, optionalTypeSexpr_erased, value.sexpr_erased]
  | assignment name span value => rw [ItemKind.erased, ItemKind.sexpr, ItemKind.sexpr, value.sexpr_erased]
  | impl decl => exact decl.sexpr_erased

theorem Program.dump_erased (program : Program) : program.erased.dump = program.dump := by
  rw [Program.dump, Program.dump, Program.erased, List.map_map]
  refine congrArg ("\n".intercalate ·) (List.map_congr_left fun item _ => congrArg Sexpr.render ?_)
  rw [Item.sexpr, Item.sexpr, Item.erased, item.kind.sexpr_erased]

end JuiceSyntax
