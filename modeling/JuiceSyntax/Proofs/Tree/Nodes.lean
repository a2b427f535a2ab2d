/-
  The nodes of a tree that a reader of its S-expression has to tell apart: names and words, escapes,
  and the kinds of expressions, types and statements.

  `Lawful` says of nodes what holds of them in every tree that is read from a text. A name is spelled
  as its kind is, a type that is a literal is one that can be written, no expression stands as a
  statement that would have been read as a statement of its own, and what is between the braces of a
  macro body lies in the body.
-/
import JuiceSyntax.Proofs.Token.Spelling
import JuiceSyntax.Tree.Basic

namespace JuiceSyntax

inductive Node where
  /-- What something is called by. -/
  | word (text : String)
  | title (name : FnName)
  | escape (value : Char) (raw : String)
  | expr (kind : ExprKind)
  | type (kind : TypeKind)
  | statement (kind : StatementKind)

/-! ## Nodes of trees -/

mutual

def Expr.nodes : Expr → List Node
  | ⟨kind, _⟩ => .expr kind :: kind.nodes

/-- The nodes inside an expression. -/
def ExprKind.nodes : ExprKind → List Node
  | .int _ _ | .float _ | .bool _ | .name _ | .typeName _ => []
  | .str segments _ => segmentNodes segments
  | .list items | .tuple items => exprNodes items
  | .record fields => recordFieldNodes fields
  | .group inner | .attempt inner => inner.nodes
  | .unary _ operand => operand.nodes
  | .binary _ left right => left.nodes ++ right.nodes
  | .member object member => object.nodes ++ member.nodes
  | .typeAccess base member => base.nodes ++ member.nodes
  | .call callee args => callee.nodes ++ argNodes args
  | .macroCall name _ _ args _ => .word name :: argNodes args
  | .fn decl => decl.nodes
  | .conditional test body otherwise => test.nodes ++ body.nodes ++ optionalExprNodes otherwise
  | .selection scrutinee arms => scrutinee.nodes ++ armNodes arms
  | .block block => block.nodes

def exprNodes : List Expr → List Node
  | [] => []
  | expr :: rest => expr.nodes ++ exprNodes rest

def optionalExprNodes : Option Expr → List Node
  | none => []
  | some expr => expr.nodes

def segmentNodes : List Segment → List Node
  | [] => []
  | .text _ _ :: rest => segmentNodes rest
  | .escape value raw _ :: rest => .escape value raw :: segmentNodes rest
  | .fragment expr _ :: rest => expr.nodes ++ segmentNodes rest

def argNodes : List Arg → List Node
  | [] => []
  | ⟨label, value, _⟩ :: rest => label.toList.map .word ++ value.nodes ++ argNodes rest

def recordFieldNodes : List RecordField → List Node
  | [] => []
  | ⟨name, value, _⟩ :: rest => .word name :: optionalExprNodes value ++ recordFieldNodes rest

def armNodes : List Arm → List Node
  | [] => []
  | ⟨pattern, body, _⟩ :: rest => pattern.nodes ++ body.nodes ++ armNodes rest

def Pattern.nodes : Pattern → List Node
  | .value expr => expr.nodes
  | .type type => type.nodes

def TypeExpr.nodes : TypeExpr → List Node
  | ⟨kind, _⟩ => .type kind :: kind.nodes

/-- The nodes inside a type. -/
def TypeKind.nodes : TypeKind → List Node
  | .builtin _ | .name _ | .typeName _ => []
  | .literal expr => expr.nodes
  | .call callee _ args => .word callee :: typeArgNodes args
  | .tuple items => typeNodes items
  | .group inner => inner.nodes
  | .binary _ left right => left.nodes ++ right.nodes

def typeNodes : List TypeExpr → List Node
  | [] => []
  | type :: rest => type.nodes ++ typeNodes rest

def optionalTypeNodes : Option TypeExpr → List Node
  | none => []
  | some type => type.nodes

def typeArgNodes : List TypeArg → List Node
  | [] => []
  | ⟨label, value, _⟩ :: rest => label.toList.map .word ++ value.nodes ++ typeArgNodes rest

def paramNodes : List Param → List Node
  | [] => []
  | ⟨name, type, _⟩ :: rest => .word name :: optionalTypeNodes type ++ paramNodes rest

def FnDecl.nodes : FnDecl → List Node
  | ⟨_, name, params, result, body, _⟩ =>
    name.toList.map .title ++ paramNodes params ++ optionalTypeNodes result ++ body.nodes

def Block.nodes : Block → List Node
  | ⟨statements, _⟩ => statementNodes statements

def statementNodes : List Statement → List Node
  | [] => []
  | ⟨kind, _⟩ :: rest => .statement kind :: kind.nodes ++ statementNodes rest

/-- The nodes inside a statement. -/
def StatementKind.nodes : StatementKind → List Node
  | .binding name _ type value => .word name :: optionalTypeNodes type ++ value.nodes
  | .assignment name _ value => .word name :: value.nodes
  | .fn decl => decl.nodes
  | .loop element range body => element.toList.map .word ++ range.nodes ++ body.nodes
  | .leave value => optionalExprNodes value
  | .stop | .next => []
  | .block block => block.nodes
  | .expr expr => expr.nodes

def LoopRange.nodes : LoopRange → List Node
  | .endless => []
  | .over expr => expr.nodes
  | .between first last => first.nodes ++ last.nodes

end

def Arg.nodes (arg : Arg) : List Node := arg.label.toList.map .word ++ arg.value.nodes

def RecordField.nodes (field : RecordField) : List Node := .word field.name :: optionalExprNodes field.value

def Arm.nodes (arm : Arm) : List Node := arm.pattern.nodes ++ arm.body.nodes

def TypeArg.nodes (arg : TypeArg) : List Node := arg.label.toList.map .word ++ arg.value.nodes

def Param.nodes (param : Param) : List Node := .word param.name :: optionalTypeNodes param.type

def Statement.nodes (statement : Statement) : List Node := .statement statement.kind :: statement.kind.nodes

def Import.nodes (decl : Import) : List Node :=
  decl.path.map .word ++ decl.renamed.toList.map .word ++ decl.exposed.map (.word ·.name)

def Field.nodes (field : Field) : List Node := .word field.name :: field.type.nodes

def Constructor.nodes (constructor : Constructor) : List Node := .word constructor.name :: paramNodes constructor.params

def TypeBody.nodes : TypeBody → List Node
  | .synonym type => type.nodes
  | .fields fs => fs.flatMap Field.nodes
  | .constructors cs => cs.flatMap Constructor.nodes

def TypeDecl.nodes (decl : TypeDecl) : List Node := .word decl.name :: paramNodes decl.params ++ decl.body.nodes

def Impl.nodes (decl : Impl) : List Node :=
  optionalTypeNodes decl.traitType ++ decl.selfType.nodes ++ decl.fns.flatMap FnDecl.nodes

def ItemKind.nodes : ItemKind → List Node
  | .imports decl => decl.nodes
  | .fn decl => decl.nodes
  | .type decl => decl.nodes
  | .binding name _ declared value => .word name :: optionalTypeNodes declared ++ value.nodes
  | .assignment name _ value => .word name :: value.nodes
  | .impl decl => decl.nodes

def Program.nodes (program : Program) : List Node := program.items.flatMap (·.kind.nodes)

/-! ## Lists -/

theorem exprNodes_eq_flatMap (items : List Expr) : exprNodes items = items.flatMap Expr.nodes := by
  induction items with
  | nil => rfl
  | cons item rest ih => exact congrArg (item.nodes ++ ·) ih

theorem argNodes_eq_flatMap (args : List Arg) : argNodes args = args.flatMap Arg.nodes := by
  induction args with
  | nil => rfl
  | cons arg rest ih =>
    cases arg
    exact congrArg (_ ++ ·) ih

theorem recordFieldNodes_eq_flatMap (fs : List RecordField) : recordFieldNodes fs = fs.flatMap RecordField.nodes := by
  induction fs with
  | nil => rfl
  | cons f rest ih =>
    cases f
    exact congrArg (_ ++ ·) ih

theorem armNodes_eq_flatMap (arms : List Arm) : armNodes arms = arms.flatMap Arm.nodes := by
  induction arms with
  | nil => rfl
  | cons arm rest ih =>
    cases arm
    exact congrArg (_ ++ ·) ih

theorem typeNodes_eq_flatMap (types : List TypeExpr) : typeNodes types = types.flatMap TypeExpr.nodes := by
  induction types with
  | nil => rfl
  | cons type rest ih => exact congrArg (type.nodes ++ ·) ih

theorem typeArgNodes_eq_flatMap (args : List TypeArg) : typeArgNodes args = args.flatMap TypeArg.nodes := by
  induction args with
  | nil => rfl
  | cons arg rest ih =>
    cases arg
    exact congrArg (_ ++ ·) ih

theorem paramNodes_eq_flatMap (params : List Param) : paramNodes params = params.flatMap Param.nodes := by
  induction params with
  | nil => rfl
  | cons param rest ih =>
    cases param
    exact congrArg (_ ++ ·) ih

theorem statementNodes_eq_flatMap (statements : List Statement) :
    statementNodes statements = statements.flatMap Statement.nodes := by
  induction statements with
  | nil => rfl
  | cons statement rest ih =>
    cases statement
    exact congrArg (_ ++ ·) ih

/-! ## Floats -/

def Node.float? : Node → Option Float
  | .expr (.float value) => some value
  | _ => none

/-- The values of the float literals of a program. -/
def Program.floats (program : Program) : List Float := program.nodes.filterMap Node.float?

/-! ## Laws -/

/-- Functions and blocks are statements of their own. -/
def ExprKind.isStatement : ExprKind → Bool
  | .fn _ | .block _ => true
  | _ => false

/-- The literals that can be types. -/
def ExprKind.isLiteral : ExprKind → Bool
  | .int _ _ | .float _ | .bool _ | .str _ _ | .list _ => true
  | _ => false

namespace Node

def Lawful : Node → Prop
  | .word text => WordText text
  | .title name => NameText name.text
  | .escape value raw => value = escapeValue raw
  | .expr (.name text) => NameText text
  | .expr (.typeName text) => TypeText text
  | .expr (.macroCall _ _ parenthesized args body) =>
    (parenthesized = false → args = []) ∧ ∀ b ∈ body, b.span.holds b.inner = true
  | .type (.name text) => NameText text ∧ BuiltinType.ofName? text = none
  | .type (.typeName text) => TypeText text
  | .type (.literal literal) => literal.kind.isLiteral = true
  | .statement (.expr e) => e.kind.isStatement = false
  | _ => True

end Node

/-- So is every one of the nodes. -/
def AllNodes (p : Node → Prop) (nodes : List Node) : Prop := ∀ node ∈ nodes, p node

namespace AllNodes

variable {p : Node → Prop} {node : Node} {nodes nodes' : List Node} {α : Type}

theorem nil : AllNodes p [] := fun _ hmem => absurd hmem List.not_mem_nil

theorem cons (h : p node) (h' : AllNodes p nodes) : AllNodes p (node :: nodes) := List.forall_mem_cons.2 ⟨h, h'⟩

theorem append (h : AllNodes p nodes) (h' : AllNodes p nodes') : AllNodes p (nodes ++ nodes') :=
  List.forall_mem_append.2 ⟨h, h'⟩

theorem flatMap {items : List α} {f : α → List Node} (h : ∀ item ∈ items, AllNodes p (f item)) :
    AllNodes p (items.flatMap f) := by
  intro node hnode
  obtain ⟨item, hitem, hmem⟩ := List.mem_flatMap.1 hnode
  exact h item hitem node hmem

theorem here (h : AllNodes p (node :: nodes)) : p node := h node List.mem_cons_self

theorem later (h : AllNodes p (node :: nodes)) : AllNodes p nodes := fun n hn => h n (List.mem_cons_of_mem _ hn)

theorem left (h : AllNodes p (nodes ++ nodes')) : AllNodes p nodes := fun n hn => h n (List.mem_append_left _ hn)

theorem right (h : AllNodes p (nodes ++ nodes')) : AllNodes p nodes' := fun n hn => h n (List.mem_append_right _ hn)

theorem imp {q : Node → Prop} (himp : ∀ node, p node → q node) (h : AllNodes p nodes) : AllNodes q nodes :=
  fun n hn => himp n (h n hn)

end AllNodes

/-! ## Nodes of lists -/

namespace AllNodes

variable {p : Node → Prop}

theorem exprs {items : List Expr} (h : ∀ item ∈ items, AllNodes p item.nodes) : AllNodes p (exprNodes items) :=
  exprNodes_eq_flatMap items ▸ .flatMap h

theorem args {items : List Arg} (h : ∀ item ∈ items, AllNodes p item.nodes) : AllNodes p (argNodes items) :=
  argNodes_eq_flatMap items ▸ .flatMap h

theorem recordFields {items : List RecordField} (h : ∀ item ∈ items, AllNodes p item.nodes) :
    AllNodes p (recordFieldNodes items) :=
  recordFieldNodes_eq_flatMap items ▸ .flatMap h

theorem arms {items : List Arm} (h : ∀ item ∈ items, AllNodes p item.nodes) : AllNodes p (armNodes items) :=
  armNodes_eq_flatMap items ▸ .flatMap h

theorem types {items : List TypeExpr} (h : ∀ item ∈ items, AllNodes p item.nodes) : AllNodes p (typeNodes items) :=
  typeNodes_eq_flatMap items ▸ .flatMap h

theorem typeArgs {items : List TypeArg} (h : ∀ item ∈ items, AllNodes p item.nodes) : AllNodes p (typeArgNodes items) :=
  typeArgNodes_eq_flatMap items ▸ .flatMap h

theorem params {items : List Param} (h : ∀ item ∈ items, AllNodes p item.nodes) : AllNodes p (paramNodes items) :=
  paramNodes_eq_flatMap items ▸ .flatMap h

theorem statements {items : List Statement} (h : ∀ item ∈ items, AllNodes p item.nodes) :
    AllNodes p (statementNodes items) :=
  statementNodes_eq_flatMap items ▸ .flatMap h

end AllNodes

/-- Every one of the nodes is as it can be read. -/
abbrev Lawful (nodes : List Node) : Prop := AllNodes Node.Lawful nodes

end JuiceSyntax
