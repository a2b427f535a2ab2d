/-
  Where the nodes of a tree lie. An outline is a tree of spans alone: every node that has a span,
  with those inside it that have one, in the order in which they are written. The markers of a
  string over several lines are left out, since they lie among its segments and belong to none.

  `Outline.Nested`: every node of the outline lies within the node around it.
-/
import JuiceSyntax.Tree.Basic

namespace JuiceSyntax

/-- A span and what lies inside it. -/
inductive Outline where
  | node (span : Span) (inner : List Outline)

namespace Outline

def span : Outline → Span
  | node span _ => span

def inner : Outline → List Outline
  | node _ inner => inner

/-- A node without others inside. -/
def leaf (span : Span) : Outline := node span []

mutual

/-- Each node inside, after the one right around it. -/
def edges : Outline → List (Span × Span)
  | node span inner => edgesWithin span inner

/-- The same for nodes right inside a span. -/
def edgesWithin (outer : Span) : List Outline → List (Span × Span)
  | [] => []
  | o :: rest => (outer, o.span) :: (o.edges ++ edgesWithin outer rest)

end

/-- Every node lies within the one around it. -/
def Nested (o : Outline) : Prop := ∀ edge ∈ o.edges, edge.1.holds edge.2 = true

instance (o : Outline) : Decidable o.Nested := inferInstanceAs (Decidable (∀ _ ∈ _, _))

theorem nested_node_iff {span : Span} {inner : List Outline} :
    (node span inner).Nested ↔ ∀ o ∈ inner, span.holds o.span = true ∧ o.Nested := by
  unfold Nested
  rw [edges]
  induction inner with
  | nil => exact ⟨fun _ => nofun, fun _ => nofun⟩
  | cons o rest ih =>
    rw [edgesWithin, List.forall_mem_cons, List.forall_mem_append, ih, List.forall_mem_cons, and_assoc]

end Outline

/-! ## Outlines of trees -/

def MacroBody.outline (body : MacroBody) : Outline := .node body.span [.leaf body.inner]

mutual

def Expr.outline : Expr → Outline
  | ⟨kind, span⟩ => .node span kind.outlines

def ExprKind.outlines : ExprKind → List Outline
  | .int _ _ | .float _ | .bool _ | .name _ | .typeName _ => []
  | .str segments _ => segmentOutlines segments
  | .list items | .tuple items => exprOutlines items
  | .record fields => recordFieldOutlines fields
  | .group inner | .attempt inner => [inner.outline]
  | .unary _ operand => [operand.outline]
  | .binary _ left right => [left.outline, right.outline]
  | .member object member => [object.outline, member.outline]
  | .typeAccess base member => [base.outline, member.outline]
  | .call callee args => callee.outline :: argOutlines args
  | .macroCall _ nameSpan _ args body =>
    .leaf nameSpan :: (argOutlines args ++ body.toList.map MacroBody.outline)
  | .fn decl => [decl.outline]
  | .conditional test body otherwise => test.outline :: body.outline :: optionalExprOutlines otherwise
  | .selection scrutinee arms => scrutinee.outline :: armOutlines arms
  | .block block => [block.outline]

def exprOutlines : List Expr → List Outline
  | [] => []
  | expr :: rest => expr.outline :: exprOutlines rest

def optionalExprOutlines : Option Expr → List Outline
  | none => []
  | some expr => [expr.outline]

def segmentOutlines : List Segment → List Outline
  | [] => []
  | .text _ span :: rest | .escape _ _ span :: rest => .leaf span :: segmentOutlines rest
  | .fragment expr span :: rest => .node span [expr.outline] :: segmentOutlines rest

def argOutlines : List Arg → List Outline
  | [] => []
  | ⟨_, value, span⟩ :: rest => .node span [value.outline] :: argOutlines rest

def recordFieldOutlines : List RecordField → List Outline
  | [] => []
  | ⟨_, value, span⟩ :: rest => .node span (optionalExprOutlines value) :: recordFieldOutlines rest

def armOutlines : List Arm → List Outline
  | [] => []
  | ⟨pattern, body, span⟩ :: rest => .node span [pattern.outline, body.outline] :: armOutlines rest

def Pattern.outline : Pattern → Outline
  | .value expr => expr.outline
  | .type type => type.outline

def TypeExpr.outline : TypeExpr → Outline
  | ⟨kind, span⟩ => .node span kind.outlines

def TypeKind.outlines : TypeKind → List Outline
  | .builtin _ | .name _ | .typeName _ => []
  | .literal expr => [expr.outline]
  | .call _ calleeSpan args => .leaf calleeSpan :: typeArgOutlines args
  | .tuple items => typeOutlines items
  | .group inner => [inner.outline]
  | .binary _ left right => [left.outline, right.outline]

def typeOutlines : List TypeExpr → List Outline
  | [] => []
  | type :: rest => type.outline :: typeOutlines rest

def optionalTypeOutlines : Option TypeExpr → List Outline
  | none => []
  | some type => [type.outline]

def typeArgOutlines : List TypeArg → List Outline
  | [] => []
  | ⟨_, value, span⟩ :: rest => .node span [value.outline] :: typeArgOutlines rest

def paramOutlines : List Param → List Outline
  | [] => []
  | ⟨_, type, span⟩ :: rest => .node span (optionalTypeOutlines type) :: paramOutlines rest

def FnDecl.outline : FnDecl → Outline
  | ⟨_, name, params, result, body, span⟩ =>
    .node span (name.toList.map (fun name => .leaf name.span) ++ paramOutlines params ++
      optionalTypeOutlines result ++ [body.outline])

def Block.outline : Block → Outline
  | ⟨statements, span⟩ => .node span (statementOutlines statements)

def statementOutlines : List Statement → List Outline
  | [] => []
  | ⟨kind, span⟩ :: rest => .node span kind.outlines :: statementOutlines rest

def StatementKind.outlines : StatementKind → List Outline
  | .binding _ nameSpan type value => .leaf nameSpan :: (optionalTypeOutlines type ++ [value.outline])
  | .assignment _ nameSpan value => [.leaf nameSpan, value.outline]
  | .fn decl => [decl.outline]
  | .loop _ range body => range.outlines ++ [body.outline]
  | .leave value => optionalExprOutlines value
  | .stop | .next => []
  | .block block => [block.outline]
  | .expr expr => [expr.outline]

def LoopRange.outlines : LoopRange → List Outline
  | .endless => []
  | .over expr => [expr.outline]
  | .between first last => [first.outline, last.outline]

end

def Arg.outline (arg : Arg) : Outline := .node arg.span [arg.value.outline]

def RecordField.outline (field : RecordField) : Outline := .node field.span (optionalExprOutlines field.value)

def Arm.outline (arm : Arm) : Outline := .node arm.span [arm.pattern.outline, arm.body.outline]

def TypeArg.outline (arg : TypeArg) : Outline := .node arg.span [arg.value.outline]

def Param.outline (param : Param) : Outline := .node param.span (optionalTypeOutlines param.type)

def Statement.outline (statement : Statement) : Outline := .node statement.span statement.kind.outlines

def Import.outlines (decl : Import) : List Outline := decl.exposed.map fun name => .leaf name.span

def Field.outline (field : Field) : Outline := .node field.span [field.type.outline]

def Constructor.outline (constructor : Constructor) : Outline :=
  .node constructor.span (paramOutlines constructor.params)

def TypeBody.outlines : TypeBody → List Outline
  | .synonym type => [type.outline]
  | .fields fs => fs.map Field.outline
  | .constructors cs => cs.map Constructor.outline

def TypeDecl.outlines (decl : TypeDecl) : List Outline :=
  .leaf decl.nameSpan :: (paramOutlines decl.params ++ decl.body.outlines)

def Impl.outlines (decl : Impl) : List Outline :=
  optionalTypeOutlines decl.traitType ++ decl.selfType.outline :: decl.fns.map FnDecl.outline

def ItemKind.outlines : ItemKind → List Outline
  | .imports decl => decl.outlines
  | .fn decl => [decl.outline]
  | .type decl => decl.outlines
  | .binding _ nameSpan declared value => .leaf nameSpan :: (optionalTypeOutlines declared ++ [value.outline])
  | .assignment _ nameSpan value => [.leaf nameSpan, value.outline]
  | .impl decl => decl.outlines

def Item.outline (item : Item) : Outline := .node item.span item.kind.outlines

def Program.outline (program : Program) : Outline :=
  .node program.span (program.shebang.toList.map .leaf ++ program.items.map Item.outline)

end JuiceSyntax
