/-
  The nodes of a tree over its tokens. A frame is a node that has a span, with the nodes inside it
  that have one; it is a node of whole tokens, or a segment of a string: a piece of the text or a
  fragment, which has tokens of its own. The names that a node gives the span of are nodes too. What
  is in a macro body is not read and has none.

  `Exact source stream lo nodes hi` says of nodes over a stream of tokens that they lie between two
  offsets one after another, with the nodes inside them between their ends, and begin and end where
  tokens of the stream do.
-/
import JuiceSyntax.Tree.Basic
import JuiceSyntax.Token.Stream
import JuiceSyntax.Source.Bytes

namespace JuiceSyntax

/-- A node with its span and the nodes inside it. -/
inductive Frame where
  | whole (span : Span) (inner : List Frame)
  /-- A text or an escape in a string. -/
  | text (span : Span)
  /-- A fragment in a string. -/
  | fragment (span : Span) (inner : Frame)

namespace Frame

/-- A node without others inside. -/
def leaf (span : Span) : Frame := whole span []

end Frame

/-! ## Frames of trees -/

mutual

def Expr.frame : Expr → Frame
  | ⟨kind, span⟩ => .whole span kind.frames

def ExprKind.frames : ExprKind → List Frame
  | .int _ _ | .float _ | .bool _ | .name _ | .typeName _ => []
  | .str segments _ => segmentFrames segments
  | .list items | .tuple items => exprFrames items
  | .record fields => recordFieldFrames fields
  | .group inner | .attempt inner => [inner.frame]
  | .unary _ operand => [operand.frame]
  | .binary _ left right => [left.frame, right.frame]
  | .member object member => [object.frame, member.frame]
  | .typeAccess base member => [base.frame, member.frame]
  | .call callee args => callee.frame :: argFrames args
  | .macroCall _ nameSpan _ args body =>
    .leaf nameSpan :: (argFrames args ++ body.toList.map fun body => .leaf body.span)
  | .fn decl => [decl.frame]
  | .conditional test body otherwise => test.frame :: body.frame :: optionalExprFrames otherwise
  | .selection scrutinee arms => scrutinee.frame :: armFrames arms
  | .block block => [block.frame]

def exprFrames : List Expr → List Frame
  | [] => []
  | expr :: rest => expr.frame :: exprFrames rest

def optionalExprFrames : Option Expr → List Frame
  | none => []
  | some expr => [expr.frame]

def segmentFrames : List Segment → List Frame
  | [] => []
  | .text _ span :: rest | .escape _ _ span :: rest => .text span :: segmentFrames rest
  | .fragment expr span :: rest => .fragment span expr.frame :: segmentFrames rest

def argFrames : List Arg → List Frame
  | [] => []
  | ⟨_, value, span⟩ :: rest => .whole span [value.frame] :: argFrames rest

def recordFieldFrames : List RecordField → List Frame
  | [] => []
  | ⟨_, value, span⟩ :: rest => .whole span (optionalExprFrames value) :: recordFieldFrames rest

def armFrames : List Arm → List Frame
  | [] => []
  | ⟨pattern, body, span⟩ :: rest => .whole span [pattern.frame, body.frame] :: armFrames rest

def Pattern.frame : Pattern → Frame
  | .value expr => expr.frame
  | .type type => type.frame

def TypeExpr.frame : TypeExpr → Frame
  | ⟨kind, span⟩ => .whole span kind.frames

def TypeKind.frames : TypeKind → List Frame
  | .builtin _ | .name _ | .typeName _ => []
  | .literal expr => [expr.frame]
  | .call _ calleeSpan args => .leaf calleeSpan :: typeArgFrames args
  | .tuple items => typeFrames items
  | .group inner => [inner.frame]
  | .binary _ left right => [left.frame, right.frame]

def typeFrames : List TypeExpr → List Frame
  | [] => []
  | type :: rest => type.frame :: typeFrames rest

def optionalTypeFrames : Option TypeExpr → List Frame
  | none => []
  | some type => [type.frame]

def typeArgFrames : List TypeArg → List Frame
  | [] => []
  | ⟨_, value, span⟩ :: rest => .whole span [value.frame] :: typeArgFrames rest

def paramFrames : List Param → List Frame
  | [] => []
  | ⟨_, type, span⟩ :: rest => .whole span (optionalTypeFrames type) :: paramFrames rest

def FnDecl.frame : FnDecl → Frame
  | ⟨_, name, params, result, body, span⟩ =>
    .whole span (name.toList.map (fun name => .leaf name.span) ++ paramFrames params ++
      optionalTypeFrames result ++ [body.frame])

def Block.frame : Block → Frame
  | ⟨statements, span⟩ => .whole span (statementFrames statements)

def statementFrames : List Statement → List Frame
  | [] => []
  | ⟨kind, span⟩ :: rest => .whole span kind.frames :: statementFrames rest

def StatementKind.frames : StatementKind → List Frame
  | .binding _ nameSpan type value => .leaf nameSpan :: (optionalTypeFrames type ++ [value.frame])
  | .assignment _ nameSpan value => [.leaf nameSpan, value.frame]
  | .fn decl => [decl.frame]
  | .loop _ range body => range.frames ++ [body.frame]
  | .leave value => optionalExprFrames value
  | .stop | .next => []
  | .block block => [block.frame]
  | .expr expr => [expr.frame]

def LoopRange.frames : LoopRange → List Frame
  | .endless => []
  | .over expr => [expr.frame]
  | .between first last => [first.frame, last.frame]

end

def Arg.frame (arg : Arg) : Frame := .whole arg.span [arg.value.frame]

def RecordField.frame (field : RecordField) : Frame := .whole field.span (optionalExprFrames field.value)

def Arm.frame (arm : Arm) : Frame := .whole arm.span [arm.pattern.frame, arm.body.frame]

def TypeArg.frame (arg : TypeArg) : Frame := .whole arg.span [arg.value.frame]

def Param.frame (param : Param) : Frame := .whole param.span (optionalTypeFrames param.type)

def Statement.frame (statement : Statement) : Frame := .whole statement.span statement.kind.frames

def Exposed.frame (name : Exposed) : Frame := .leaf name.span

def Field.frame (field : Field) : Frame := .whole field.span [field.type.frame]

def Constructor.frame (constructor : Constructor) : Frame :=
  .whole constructor.span (paramFrames constructor.params)

def TypeBody.frames : TypeBody → List Frame
  | .synonym type => [type.frame]
  | .fields fs => fs.map Field.frame
  | .constructors cs => cs.map Constructor.frame

def TypeDecl.frames (decl : TypeDecl) : List Frame :=
  .leaf decl.nameSpan :: (paramFrames decl.params ++ decl.body.frames)

def Impl.frames (decl : Impl) : List Frame :=
  optionalTypeFrames decl.traitType ++ decl.selfType.frame :: decl.fns.map FnDecl.frame

def ItemKind.frames : ItemKind → List Frame
  | .imports decl => decl.exposed.map Exposed.frame
  | .fn decl => [decl.frame]
  | .type decl => decl.frames
  | .binding _ nameSpan declared value => .leaf nameSpan :: (optionalTypeFrames declared ++ [value.frame])
  | .assignment _ nameSpan value => [.leaf nameSpan, value.frame]
  | .impl decl => decl.frames

def Item.frame (item : Item) : Frame := .whole item.span item.kind.frames

/-! ## Lists -/

@[simp] theorem exprFrames_eq_map (items : List Expr) : exprFrames items = items.map Expr.frame := by
  induction items with
  | nil => rfl
  | cons item rest ih => rw [exprFrames, ih, List.map_cons]

@[simp] theorem argFrames_eq_map (args : List Arg) : argFrames args = args.map Arg.frame := by
  induction args with
  | nil => rfl
  | cons arg rest ih =>
    cases arg
    rw [argFrames, ih, List.map_cons, Arg.frame]

@[simp] theorem recordFieldFrames_eq_map (fields : List RecordField) :
    recordFieldFrames fields = fields.map RecordField.frame := by
  induction fields with
  | nil => rfl
  | cons field rest ih =>
    cases field
    rw [recordFieldFrames, ih, List.map_cons, RecordField.frame]

@[simp] theorem armFrames_eq_map (arms : List Arm) : armFrames arms = arms.map Arm.frame := by
  induction arms with
  | nil => rfl
  | cons arm rest ih =>
    cases arm
    rw [armFrames, ih, List.map_cons, Arm.frame]

@[simp] theorem typeFrames_eq_map (types : List TypeExpr) : typeFrames types = types.map TypeExpr.frame := by
  induction types with
  | nil => rfl
  | cons type rest ih => rw [typeFrames, ih, List.map_cons]

@[simp] theorem typeArgFrames_eq_map (args : List TypeArg) : typeArgFrames args = args.map TypeArg.frame := by
  induction args with
  | nil => rfl
  | cons arg rest ih =>
    cases arg
    rw [typeArgFrames, ih, List.map_cons, TypeArg.frame]

@[simp] theorem paramFrames_eq_map (params : List Param) : paramFrames params = params.map Param.frame := by
  induction params with
  | nil => rfl
  | cons param rest ih =>
    cases param
    rw [paramFrames, ih, List.map_cons, Param.frame]

@[simp] theorem statementFrames_eq_map (statements : List Statement) :
    statementFrames statements = statements.map Statement.frame := by
  induction statements with
  | nil => rfl
  | cons statement rest ih =>
    cases statement
    rw [statementFrames, ih, List.map_cons, Statement.frame]

/-! ## Exact nodes -/

/-- The span begins with one of the tokens and ends with one. -/
structure Edges (stream : List Token) (span : Span) : Prop where
  starts : ∃ token ∈ stream, token.kind.isDone = false ∧ token.span.start = span.start
  stops : ∃ token ∈ stream, token.kind.isDone = false ∧ token.span.stop = span.stop

/-- The tokens are those of a fragment at this span in a string of the stream. The span is that of
`${`, the text that the tokens are lexed from, and the brace that closes it, which is missing only
where no brace does. -/
structure FragmentOf (source : List Char) (stream tokens : List Token) (span : Span) : Prop where
  piece : ∃ token ∈ stream, ∃ multiline pieces, token.kind = .str multiline pieces ∧ .fragment tokens span ∈ pieces
  written : ∃ levels text close, slice? source span = some ('$' :: '{' :: (text ++ close)) ∧
    tokens = (lexAt none levels (span.start + 2) text).tokens ∧
    (close = ['}'] ∨ close = [] ∧ literalLength [.code 0] text = none)

inductive Exact (source : List Char) : List Token → Nat → List Frame → Nat → Prop
  | nil {stream : List Token} {lo hi : Nat} (le : lo ≤ hi) : Exact source stream lo [] hi
  | whole {stream : List Token} {lo hi : Nat} {span : Span} {inner rest : List Frame} (edges : Edges stream span)
    (after : lo ≤ span.start) (inside : Exact source stream span.start inner span.stop)
    (following : Exact source stream span.stop rest hi) : Exact source stream lo (.whole span inner :: rest) hi
  | text {stream : List Token} {lo hi : Nat} {span : Span} {rest : List Frame} (after : lo ≤ span.start)
    (le : span.start ≤ span.stop) (following : Exact source stream span.stop rest hi) :
    Exact source stream lo (.text span :: rest) hi
  | fragment {stream tokens : List Token} {lo hi : Nat} {span : Span} {inner : Frame} {rest : List Frame}
    (own : FragmentOf source stream tokens span) (after : lo ≤ span.start)
    (inside : Exact source tokens span.start [inner] span.stop) (following : Exact source stream span.stop rest hi) :
    Exact source stream lo (.fragment span inner :: rest) hi

namespace Exact

variable {source : List Char} {stream : List Token} {lo lo' mid hi hi' : Nat} {nodes nodes' : List Frame}

theorem le (h : Exact source stream lo nodes hi) : lo ≤ hi := by
  induction h with
  | nil le => exact le
  | whole edges after inside following ihInside ihFollowing => omega
  | text after le following ih => omega
  | fragment own after inside following ihInside ihFollowing => omega

theorem mono (h : Exact source stream lo nodes hi) (hlo : lo' ≤ lo) (hhi : hi ≤ hi') :
    Exact source stream lo' nodes hi' := by
  induction h generalizing lo' with
  | nil le => exact .nil (by omega)
  | whole edges after inside following _ ih => exact .whole edges (by omega) inside (ih (Nat.le_refl _) hhi)
  | text after le following ih => exact .text (by omega) le (ih (Nat.le_refl _) hhi)
  | fragment own after inside following _ ih => exact .fragment own (by omega) inside (ih (Nat.le_refl _) hhi)

theorem append (h : Exact source stream lo nodes mid) (h' : Exact source stream mid nodes' hi) :
    Exact source stream lo (nodes ++ nodes') hi := by
  induction h with
  | nil le => exact h'.mono le (Nat.le_refl _)
  | whole edges after inside following _ ih => exact .whole edges after inside (ih h')
  | text after le following ih => exact .text after le (ih h')
  | fragment own after inside following _ ih => exact .fragment own after inside (ih h')

end Exact

end JuiceSyntax
