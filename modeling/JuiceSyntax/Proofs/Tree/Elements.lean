/-
  The elements of a tree, each with the spans that it keeps: expressions, types, arms and imports as such,
  everything else by its span alone. The spans of a macro body are its own, that between its braces, and
  those of its tokens.

  `Element.isShaped` is what the language asks of an element where the types of the tree do not: how many items
  a tuple has, what a question mark follows, what an `else` or an arm leads to, and that operators are
  grouped by their levels.

  `AllSound`: every element of a list is shaped so, and the spans in it have some property.
-/
import JuiceSyntax.Tree.Basic

namespace JuiceSyntax

/-! ## Spans of tokens -/

mutual

/-- The spans inside a token: those of the pieces of a string, and of the tokens in its fragments. -/
def Kind.spans : Kind → List Span
  | .str _ pieces => pieceSpans pieces
  | _ => []

def pieceSpans : List Piece → List Span
  | [] => []
  | .fragment tokens span :: rest => span :: (tokenSpans tokens ++ pieceSpans rest)
  | .text _ span :: rest | .escape _ _ span :: rest | .indent span :: rest => span :: pieceSpans rest

/-- The spans of tokens and of all that is inside them, at any depth. -/
def tokenSpans : List Token → List Span
  | [] => []
  | ⟨kind, span⟩ :: rest => span :: (kind.spans ++ tokenSpans rest)

end

def Token.spans (token : Token) : List Span := token.span :: token.kind.spans

theorem tokenSpans_cons (token : Token) (rest : List Token) : tokenSpans (token :: rest) = token.spans ++ tokenSpans rest := by
  cases token
  rw [tokenSpans]
  rfl

theorem tokenSpans_eq_flatMap (tokens : List Token) : tokenSpans tokens = tokens.flatMap Token.spans := by
  induction tokens with
  | nil => rw [tokenSpans, List.flatMap_nil]
  | cons token rest ih => rw [tokenSpans_cons, ih, List.flatMap_cons]

theorem span_mem_tokenSpans {tokens : List Token} {token : Token} (h : token ∈ tokens) : token.span ∈ tokenSpans tokens := by
  rw [tokenSpans_eq_flatMap]
  exact List.mem_flatMap.2 ⟨token, h, List.mem_cons_self⟩

theorem tokenSpans_subset {tokens tokens' : List Token} (h : tokens ⊆ tokens') : tokenSpans tokens ⊆ tokenSpans tokens' := by
  rw [tokenSpans_eq_flatMap, tokenSpans_eq_flatMap]
  intro span hspan
  obtain ⟨token, htoken, hmem⟩ := List.mem_flatMap.1 hspan
  exact List.mem_flatMap.2 ⟨token, h htoken, hmem⟩

/-- In a string are its pieces, and the tokens of its fragments. -/
theorem mem_pieceSpans {pieces : List Piece} {piece : Piece} (h : piece ∈ pieces) :
    piece.span ∈ pieceSpans pieces ∧ ∀ tokens span, piece = .fragment tokens span → tokenSpans tokens ⊆ pieceSpans pieces := by
  induction pieces with
  | nil => exact absurd h List.not_mem_nil
  | cons first rest ih =>
    obtain rfl | hmem := List.mem_cons.1 h
    · cases piece with
      | fragment tokens span =>
        rw [pieceSpans]
        refine ⟨List.mem_cons_self, fun _ _ heq => ?_⟩
        cases heq
        exact List.subset_cons_of_subset _ (List.subset_append_left _ _)
      | _ =>
        rw [pieceSpans]
        exact ⟨List.mem_cons_self, nofun⟩
    · obtain ⟨hspan, htokens⟩ := ih hmem
      have hsub : pieceSpans rest ⊆ pieceSpans (first :: rest) := by
        cases first with
        | fragment tokens span =>
          rw [pieceSpans]
          exact List.subset_cons_of_subset _ (List.subset_append_right _ _)
        | _ =>
          rw [pieceSpans]
          exact List.subset_cons_self _ _
      exact ⟨hsub hspan, fun tokens span heq => List.Subset.trans (htokens tokens span heq) hsub⟩

/-! ## Elements -/

inductive Element where
  | expr (expr : Expr)
  | type (type : TypeExpr)
  | arm (arm : Arm)
  | imports (decl : Import)
  /-- Where anything else stands. -/
  | spot (span : Span)

def Element.span? : Element → Option Span
  | .expr e => some e.span
  | .type t => some t.span
  | .arm a => some a.span
  | .imports _ => none
  | .spot span => some span

def Layout.elements : Layout → List Element
  | .inline => []
  | .lines markers => markers.map .spot

def MacroBody.elements (body : MacroBody) : List Element :=
  .spot body.span :: .spot body.inner :: (tokenSpans body.tokens).map .spot

mutual

def Expr.elements : Expr → List Element
  | ⟨kind, span⟩ => .expr ⟨kind, span⟩ :: kind.elements

/-- The elements inside an expression. -/
def ExprKind.elements : ExprKind → List Element
  | .int _ _ | .float _ | .bool _ | .name _ | .typeName _ => []
  | .str segments layout => segmentElements segments ++ layout.elements
  | .list items | .tuple items => exprElements items
  | .record fields => recordFieldElements fields
  | .group inner | .attempt inner => inner.elements
  | .unary _ operand => operand.elements
  | .binary _ left right => left.elements ++ right.elements
  | .member object member => object.elements ++ member.elements
  | .typeAccess base member => base.elements ++ member.elements
  | .call callee args => callee.elements ++ argElements args
  | .macroCall _ nameSpan _ args body => .spot nameSpan :: (argElements args ++ body.toList.flatMap MacroBody.elements)
  | .fn decl => decl.elements
  | .conditional test body otherwise => test.elements ++ body.elements ++ optionalExprElements otherwise
  | .selection scrutinee arms => scrutinee.elements ++ armElements arms
  | .block block => block.elements

def exprElements : List Expr → List Element
  | [] => []
  | expr :: rest => expr.elements ++ exprElements rest

def optionalExprElements : Option Expr → List Element
  | none => []
  | some expr => expr.elements

def segmentElements : List Segment → List Element
  | [] => []
  | .text _ span :: rest => .spot span :: segmentElements rest
  | .escape _ _ span :: rest => .spot span :: segmentElements rest
  | .fragment expr span :: rest => .spot span :: (expr.elements ++ segmentElements rest)

def argElements : List Arg → List Element
  | [] => []
  | ⟨_, value, span⟩ :: rest => .spot span :: (value.elements ++ argElements rest)

def recordFieldElements : List RecordField → List Element
  | [] => []
  | ⟨_, value, span⟩ :: rest => .spot span :: (optionalExprElements value ++ recordFieldElements rest)

def armElements : List Arm → List Element
  | [] => []
  | ⟨pattern, body, span⟩ :: rest => .arm ⟨pattern, body, span⟩ :: (pattern.elements ++ body.elements ++ armElements rest)

def Pattern.elements : Pattern → List Element
  | .value expr => expr.elements
  | .type type => type.elements

def TypeExpr.elements : TypeExpr → List Element
  | ⟨kind, span⟩ => .type ⟨kind, span⟩ :: kind.elements

/-- The elements inside a type. -/
def TypeKind.elements : TypeKind → List Element
  | .builtin _ | .name _ | .typeName _ => []
  | .literal expr => expr.elements
  | .call _ calleeSpan args => .spot calleeSpan :: typeArgElements args
  | .tuple items => typeElements items
  | .group inner => inner.elements
  | .binary _ left right => left.elements ++ right.elements

def typeElements : List TypeExpr → List Element
  | [] => []
  | type :: rest => type.elements ++ typeElements rest

def optionalTypeElements : Option TypeExpr → List Element
  | none => []
  | some type => type.elements

def typeArgElements : List TypeArg → List Element
  | [] => []
  | ⟨_, value, span⟩ :: rest => .spot span :: (value.elements ++ typeArgElements rest)

def paramElements : List Param → List Element
  | [] => []
  | ⟨_, type, span⟩ :: rest => .spot span :: (optionalTypeElements type ++ paramElements rest)

def FnDecl.elements : FnDecl → List Element
  | ⟨_, name, params, result, body, span⟩ =>
    .spot span :: (name.toList.map (.spot ·.span) ++ paramElements params ++ optionalTypeElements result ++ body.elements)

def Block.elements : Block → List Element
  | ⟨statements, span⟩ => .spot span :: statementElements statements

def statementElements : List Statement → List Element
  | [] => []
  | ⟨kind, span⟩ :: rest => .spot span :: (kind.elements ++ statementElements rest)

/-- The elements inside a statement. -/
def StatementKind.elements : StatementKind → List Element
  | .binding _ nameSpan type value => .spot nameSpan :: (optionalTypeElements type ++ value.elements)
  | .assignment _ nameSpan value => .spot nameSpan :: value.elements
  | .fn decl => decl.elements
  | .loop _ range body => range.elements ++ body.elements
  | .leave value => optionalExprElements value
  | .stop | .next => []
  | .block block => block.elements
  | .expr expr => expr.elements

def LoopRange.elements : LoopRange → List Element
  | .endless => []
  | .over expr => expr.elements
  | .between first last => first.elements ++ last.elements

end

def Arg.elements (arg : Arg) : List Element := .spot arg.span :: arg.value.elements

def RecordField.elements (field : RecordField) : List Element := .spot field.span :: optionalExprElements field.value

def Arm.elements (arm : Arm) : List Element := .arm arm :: (arm.pattern.elements ++ arm.body.elements)

def TypeArg.elements (arg : TypeArg) : List Element := .spot arg.span :: arg.value.elements

def Param.elements (param : Param) : List Element := .spot param.span :: optionalTypeElements param.type

def Statement.elements (statement : Statement) : List Element := .spot statement.span :: statement.kind.elements

def Import.elements (decl : Import) : List Element := .imports decl :: decl.exposed.map (.spot ·.span)

def Field.elements (field : Field) : List Element := .spot field.span :: field.type.elements

def Constructor.elements (constructor : Constructor) : List Element := .spot constructor.span :: paramElements constructor.params

def TypeBody.elements : TypeBody → List Element
  | .synonym type => type.elements
  | .fields fs => fs.flatMap Field.elements
  | .constructors cs => cs.flatMap Constructor.elements

def TypeDecl.elements (decl : TypeDecl) : List Element := .spot decl.nameSpan :: (paramElements decl.params ++ decl.body.elements)

def Impl.elements (decl : Impl) : List Element :=
  optionalTypeElements decl.traitType ++ decl.selfType.elements ++ decl.fns.flatMap FnDecl.elements

def ItemKind.elements : ItemKind → List Element
  | .imports decl => decl.elements
  | .fn decl => decl.elements
  | .type decl => decl.elements
  | .binding _ nameSpan declared value => .spot nameSpan :: (optionalTypeElements declared ++ value.elements)
  | .assignment _ nameSpan value => .spot nameSpan :: value.elements
  | .impl decl => decl.elements

def Item.elements (item : Item) : List Element := .spot item.span :: item.kind.elements

def Program.elements (program : Program) : List Element :=
  .spot program.span :: (program.shebang.toList.map .spot ++ program.items.flatMap Item.elements)

/-! ## Shapes -/

/-- The level of the operator of an expression that is a chain. -/
def Expr.level? (e : Expr) : Option Nat :=
  match e.kind with
  | .binary op _ _ => some op.level
  | _ => none

def ExprKind.isBlock : ExprKind → Bool
  | .block _ => true
  | _ => false

def ExprKind.isRecord : ExprKind → Bool
  | .record _ => true
  | _ => false

def ExprKind.isConditional : ExprKind → Bool
  | .conditional _ _ _ => true
  | _ => false

/-- No question mark may follow such an expression. -/
def ExprKind.refusesAttempt : ExprKind → Bool
  | .attempt _ | .group _ | .unary _ _ | .binary _ _ _ | .fn _ | .conditional _ _ _ | .selection _ _ | .block _ => true
  | _ => false

def ExprKind.isShaped : ExprKind → Bool
  | .tuple items => decide (2 ≤ items.length)
  | .attempt inner => !inner.kind.refusesAttempt
  | .conditional _ _ otherwise => otherwise.all fun e => e.kind.isConditional || e.kind.isBlock
  | .macroCall _ _ parenthesized _ body => parenthesized || body.isSome
  | .binary op left right =>
    left.level?.all (fun level => decide (op.level ≤ level)) && right.level?.all fun level => decide (op.level < level)
  | _ => true

def TypeKind.isShaped : TypeKind → Bool
  | .tuple items => decide (2 ≤ items.length)
  | _ => true

def Element.isShaped : Element → Bool
  | .expr e => e.kind.isShaped
  | .type t => t.kind.isShaped
  | .arm a => a.body.kind.isBlock || a.body.kind.isRecord
  | .imports decl => !decl.path.isEmpty
  | .spot _ => true

/-! ## Sound elements -/

/-- The element has its shape, and its span the property `good`. -/
structure Element.Sound (good : Span → Prop) (element : Element) : Prop where
  shaped : element.isShaped = true
  placed : ∀ span, element.span? = some span → good span

def AllSound (good : Span → Prop) (elements : List Element) : Prop := ∀ element ∈ elements, element.Sound good

variable {good : Span → Prop}

theorem Element.Sound.of {element : Element} {span : Span} (hspan : element.span? = some span) (h : element.isShaped = true) (h' : good span) :
    element.Sound good :=
  ⟨h, fun _ heq => Option.some.inj (hspan.symm.trans heq) ▸ h'⟩

namespace AllSound

variable {element : Element} {elements elements' : List Element} {span : Span} {α : Type}

theorem nil : AllSound good [] := fun _ hmem => absurd hmem List.not_mem_nil

theorem cons (h : element.Sound good) (h' : AllSound good elements) : AllSound good (element :: elements) := List.forall_mem_cons.2 ⟨h, h'⟩

theorem append (h : AllSound good elements) (h' : AllSound good elements') : AllSound good (elements ++ elements') :=
  List.forall_mem_append.2 ⟨h, h'⟩

theorem head (h : AllSound good (element :: elements)) : element.Sound good := h element List.mem_cons_self

theorem flatMap {items : List α} {f : α → List Element} (h : ∀ item ∈ items, AllSound good (f item)) :
    AllSound good (items.flatMap f) := by
  intro element helement
  obtain ⟨item, hitem, hmem⟩ := List.mem_flatMap.1 helement
  exact h item hitem element hmem

/-- A span before other elements. -/
theorem spot (h : good span) (h' : AllSound good elements) : AllSound good (.spot span :: elements) := .cons (.of rfl rfl h) h'

theorem spots {items : List α} {f : α → Span} (h : ∀ item ∈ items, good (f item)) :
    AllSound good (items.map fun item => .spot (f item)) := by
  intro element helement
  obtain ⟨item, hitem, rfl⟩ := List.mem_map.1 helement
  exact .of rfl rfl (h item hitem)

/-- An expression with what is inside it. -/
theorem expr {kind : ExprKind} (h : good span) (hkind : kind.isShaped = true) (h' : AllSound good kind.elements) :
    AllSound good (Expr.elements ⟨kind, span⟩) :=
  .cons (.of rfl hkind h) h'

/-- A type with what is inside it. -/
theorem type {kind : TypeKind} (h : good span) (hkind : kind.isShaped = true) (h' : AllSound good kind.elements) :
    AllSound good (TypeExpr.elements ⟨kind, span⟩) :=
  .cons (.of rfl hkind h) h'

/-- The elements of a list whose function goes through it item by item. -/
theorem listed {f : List α → List Element} {g : α → List Element} (empty : f [] = [])
    (step : ∀ item rest, f (item :: rest) = g item ++ f rest) {items : List α} (h : ∀ item ∈ items, AllSound good (g item)) :
    AllSound good (f items) := by
  induction items with
  | nil =>
    rw [empty]
    exact .nil
  | cons item rest ih =>
    obtain ⟨hitem, hrest⟩ := List.forall_mem_cons.1 h
    rw [step]
    exact .append hitem (ih hrest)

theorem exprs {items : List Expr} (h : ∀ item ∈ items, AllSound good item.elements) : AllSound good (exprElements items) :=
  .listed rfl (fun _ _ => rfl) h

theorem args {items : List Arg} (h : ∀ item ∈ items, AllSound good item.elements) : AllSound good (argElements items) :=
  .listed rfl (fun ⟨_, _, _⟩ _ => rfl) h

theorem recordFields {items : List RecordField} (h : ∀ item ∈ items, AllSound good item.elements) :
    AllSound good (recordFieldElements items) :=
  .listed rfl (fun ⟨_, _, _⟩ _ => rfl) h

theorem arms {items : List Arm} (h : ∀ item ∈ items, AllSound good item.elements) : AllSound good (armElements items) :=
  .listed rfl (fun ⟨_, _, _⟩ _ => rfl) h

theorem types {items : List TypeExpr} (h : ∀ item ∈ items, AllSound good item.elements) : AllSound good (typeElements items) :=
  .listed rfl (fun _ _ => rfl) h

theorem typeArgs {items : List TypeArg} (h : ∀ item ∈ items, AllSound good item.elements) : AllSound good (typeArgElements items) :=
  .listed rfl (fun ⟨_, _, _⟩ _ => rfl) h

theorem params {items : List Param} (h : ∀ item ∈ items, AllSound good item.elements) : AllSound good (paramElements items) :=
  .listed rfl (fun ⟨_, _, _⟩ _ => rfl) h

theorem statements {items : List Statement} (h : ∀ item ∈ items, AllSound good item.elements) :
    AllSound good (statementElements items) :=
  .listed rfl (fun ⟨_, _⟩ _ => rfl) h

/-! ## Spans of sound trees -/

theorem exprSpan {e : Expr} (h : AllSound good e.elements) : good e.span := by
  cases e
  exact h.head.placed _ rfl

theorem typeSpan {t : TypeExpr} (h : AllSound good t.elements) : good t.span := by
  cases t
  exact h.head.placed _ rfl

theorem patternSpan {pattern : Pattern} (h : AllSound good pattern.elements) : good pattern.span := by
  cases pattern with
  | value e => exact exprSpan h
  | type t => exact typeSpan h

theorem blockSpan {b : Block} (h : AllSound good b.elements) : good b.span := by
  cases b
  exact h.head.placed _ rfl

theorem fnSpan {decl : FnDecl} (h : AllSound good decl.elements) : good decl.span := by
  cases decl
  exact h.head.placed _ rfl

end AllSound

end JuiceSyntax
