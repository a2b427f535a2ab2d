/-
  Outlines of exact nodes. `Outlined frames outlines`: the outlines have the spans of the frames, and show in
  a macro body what is between its braces besides.

  `Outlined.nested`: where the frames are exact, every node of the outlines lies within the one around it.
-/
import JuiceSyntax.Proofs.Tree.Frame
import JuiceSyntax.Proofs.Tree.Nodes
import JuiceSyntax.Proofs.Tree.Outline

namespace JuiceSyntax

/-- Outlines with the spans of these frames. -/
inductive Outlined : List Frame → List Outline → Prop
  | nil : Outlined [] []
  | whole (span : Span) {inner rest : List Frame} {inner' rest' : List Outline} (inside : Outlined inner inner')
    (following : Outlined rest rest') : Outlined (.whole span inner :: rest) (.node span inner' :: rest')
  | text (span : Span) {rest : List Frame} {rest' : List Outline} (following : Outlined rest rest') :
    Outlined (.text span :: rest) (.leaf span :: rest')
  | fragment (span : Span) {inner : Frame} {inner' : List Outline} {rest : List Frame} {rest' : List Outline}
    (inside : Outlined [inner] inner') (following : Outlined rest rest') :
    Outlined (.fragment span inner :: rest) (.node span inner' :: rest')
  | body {body : MacroBody} {rest : List Frame} {rest' : List Outline} (holds : body.span.holds body.inner = true)
    (following : Outlined rest rest') : Outlined (.leaf body.span :: rest) (body.outline :: rest')

namespace Outlined

variable {frames frames' inner : List Frame} {outlines outlines' inner' : List Outline}

theorem append (h : Outlined frames outlines) (h' : Outlined frames' outlines') :
    Outlined (frames ++ frames') (outlines ++ outlines') := by
  induction h with
  | nil => exact h'
  | whole span inside _ _ ih => exact .whole span inside ih
  | text span _ ih => exact .text span ih
  | fragment span inside _ _ ih => exact .fragment span inside ih
  | body holds _ ih => exact .body holds ih

theorem leaf (span : Span) (h : Outlined frames outlines) : Outlined (.leaf span :: frames) (.leaf span :: outlines) :=
  .whole span .nil h

theorem one (span : Span) (h : Outlined inner inner') : Outlined [.whole span inner] [.node span inner'] :=
  .whole span h .nil

/-- One node before others. -/
theorem cons {frame : Frame} {outline : Outline} (h : Outlined [frame] [outline]) (h' : Outlined frames outlines) :
    Outlined (frame :: frames) (outline :: outlines) :=
  h.append h'

theorem map {α : Type} {items : List α} {f : α → Frame} {g : α → Outline} (h : ∀ item ∈ items, Outlined [f item] [g item]) :
    Outlined (items.map f) (items.map g) := by
  induction items with
  | nil => exact .nil
  | cons item rest ih =>
    obtain ⟨hitem, hrest⟩ := List.forall_mem_cons.1 h
    exact hitem.cons (ih hrest)

/-- Where the frames lie between two offsets so do the outlines, and what is inside them lies in them. -/
theorem nested {source : List Char} {stream : List Token} {lo hi : Nat} (h : Outlined frames outlines)
    (hexact : Exact source stream lo frames hi) : ∀ o ∈ outlines, lo ≤ o.span.start ∧ o.span.stop ≤ hi ∧ o.Nested := by
  induction h generalizing stream lo hi with
  | nil => exact fun _ hmem => absurd hmem List.not_mem_nil
  | whole span _ _ ihInside ihFollowing =>
    cases hexact with
    | whole edges after inside following =>
      refine List.forall_mem_cons.2 ⟨⟨after, following.le, Outline.nested_node_iff.2 fun o hmem => ?_⟩, fun o hmem => ?_⟩
      · obtain ⟨hstart, hstop, hnested⟩ := ihInside inside o hmem
        exact ⟨Span.holds_iff.2 ⟨hstart, hstop⟩, hnested⟩
      · exact (ihFollowing following o hmem).imp_left fun hle => Nat.le_trans (Nat.le_trans after inside.le) hle
  | text span _ ih =>
    cases hexact with
    | text after le following =>
      refine List.forall_mem_cons.2 ⟨⟨after, following.le, Outline.nested_node_iff.2 nofun⟩, fun o hmem => ?_⟩
      exact (ih following o hmem).imp_left fun hle => Nat.le_trans (Nat.le_trans after le) hle
  | fragment span _ _ ihInside ihFollowing =>
    cases hexact with
    | fragment own after inside following =>
      refine List.forall_mem_cons.2 ⟨⟨after, following.le, Outline.nested_node_iff.2 fun o hmem => ?_⟩, fun o hmem => ?_⟩
      · obtain ⟨hstart, hstop, hnested⟩ := ihInside inside o hmem
        exact ⟨Span.holds_iff.2 ⟨hstart, hstop⟩, hnested⟩
      · exact (ihFollowing following o hmem).imp_left fun hle => Nat.le_trans (Nat.le_trans after inside.le) hle
  | @body body _ _ holds _ ih =>
    cases hexact with
    | whole edges after inside following =>
      refine List.forall_mem_cons.2 ⟨⟨after, following.le, Outline.nested_node_iff.2 ?_⟩, fun o hmem => ?_⟩
      · exact List.forall_mem_singleton.2 ⟨holds, Outline.nested_node_iff.2 nofun⟩
      · exact (ih following o hmem).imp_left fun hle => Nat.le_trans (Nat.le_trans after inside.le) hle

end Outlined

/-! ## Trees -/

mutual

theorem Expr.outlined : (e : Expr) → Lawful e.nodes → Outlined [e.frame] [e.outline]
  | ⟨kind, span⟩, h => .one span (kind.outlined h)

theorem ExprKind.outlined : (kind : ExprKind) → Lawful (.expr kind :: kind.nodes) → Outlined kind.frames kind.outlines
  | .int _ _, _ | .float _, _ | .bool _, _ | .name _, _ | .typeName _, _ => .nil
  | .str segments _, h => outlinedSegments segments h.later
  | .list items, h | .tuple items, h => outlinedExprs items h.later
  | .record fields, h => outlinedRecordFields fields h.later
  | .group inner, h | .attempt inner, h => inner.outlined h.later
  | .unary _ operand, h => operand.outlined h.later
  | .binary _ left right, h => (left.outlined h.later.left).cons (right.outlined h.later.right)
  | .member object member, h => (object.outlined h.later.left).cons (member.outlined h.later.right)
  | .typeAccess base member, h => (base.outlined h.later.left).cons (member.outlined h.later.right)
  | .call callee args, h => (callee.outlined h.later.left).cons (outlinedArgs args h.later.right)
  | .macroCall _ nameSpan parenthesized args body, h => by
    obtain ⟨-, hbody⟩ : (parenthesized = false → args = []) ∧ ∀ b ∈ body, b.span.holds b.inner = true := h.here
    refine .leaf nameSpan ((outlinedArgs args h.later.later).append ?_)
    cases body with
    | none => exact .nil
    | some body => exact .body (hbody body rfl) .nil
  | .fn decl, h => decl.outlined h.later
  | .conditional test body none, h => (test.outlined h.later.left.left).cons (body.outlined h.later.left.right)
  | .conditional test body (some otherwise), h =>
    (test.outlined h.later.left.left).cons ((body.outlined h.later.left.right).cons (otherwise.outlined h.later.right))
  | .selection scrutinee arms, h => (scrutinee.outlined h.later.left).cons (outlinedArms arms h.later.right)
  | .block body, h => body.outlined h.later

theorem outlinedExprs : (items : List Expr) → Lawful (exprNodes items) → Outlined (exprFrames items) (exprOutlines items)
  | [], _ => .nil
  | e :: rest, h => (e.outlined h.left).cons (outlinedExprs rest h.right)

theorem outlinedSegments : (segments : List Segment) → Lawful (segmentNodes segments) →
    Outlined (segmentFrames segments) (segmentOutlines segments)
  | [], _ => .nil
  | .text _ span :: rest, h => .text span (outlinedSegments rest h)
  | .escape _ _ span :: rest, h => .text span (outlinedSegments rest h.later)
  | .fragment e span :: rest, h => .fragment span (e.outlined h.left) (outlinedSegments rest h.right)

theorem outlinedArgs : (args : List Arg) → Lawful (argNodes args) → Outlined (argFrames args) (argOutlines args)
  | [], _ => .nil
  | ⟨_, value, span⟩ :: rest, h => .whole span (value.outlined h.left.right) (outlinedArgs rest h.right)

theorem outlinedRecordFields : (fields : List RecordField) → Lawful (recordFieldNodes fields) →
    Outlined (recordFieldFrames fields) (recordFieldOutlines fields)
  | [], _ => .nil
  | ⟨_, some value, span⟩ :: rest, h => .whole span (value.outlined h.later.left) (outlinedRecordFields rest h.later.right)
  | ⟨_, none, span⟩ :: rest, h => .leaf span (outlinedRecordFields rest h.later.right)

theorem outlinedArms : (arms : List Arm) → Lawful (armNodes arms) → Outlined (armFrames arms) (armOutlines arms)
  | [], _ => .nil
  | ⟨pattern, body, span⟩ :: rest, h =>
    .whole span ((pattern.outlined h.left.left).cons (body.outlined h.left.right)) (outlinedArms rest h.right)

theorem Pattern.outlined : (pattern : Pattern) → Lawful pattern.nodes → Outlined [pattern.frame] [pattern.outline]
  | .value e, h => e.outlined h
  | .type type, h => type.outlined h

theorem TypeExpr.outlined : (t : TypeExpr) → Lawful t.nodes → Outlined [t.frame] [t.outline]
  | ⟨kind, span⟩, h => .one span (kind.outlined h)

theorem TypeKind.outlined : (kind : TypeKind) → Lawful (.type kind :: kind.nodes) → Outlined kind.frames kind.outlines
  | .builtin _, _ | .name _, _ | .typeName _, _ => .nil
  | .literal e, h => e.outlined h.later
  | .call _ calleeSpan args, h => .leaf calleeSpan (outlinedTypeArgs args h.later.later)
  | .tuple items, h => outlinedTypes items h.later
  | .group inner, h => inner.outlined h.later
  | .binary _ left right, h => (left.outlined h.later.left).cons (right.outlined h.later.right)

theorem outlinedTypes : (items : List TypeExpr) → Lawful (typeNodes items) → Outlined (typeFrames items) (typeOutlines items)
  | [], _ => .nil
  | type :: rest, h => (type.outlined h.left).cons (outlinedTypes rest h.right)

theorem outlinedOptionalType : (type : Option TypeExpr) → Lawful (optionalTypeNodes type) →
    Outlined (optionalTypeFrames type) (optionalTypeOutlines type)
  | none, _ => .nil
  | some type, h => type.outlined h

theorem outlinedTypeArgs : (args : List TypeArg) → Lawful (typeArgNodes args) →
    Outlined (typeArgFrames args) (typeArgOutlines args)
  | [], _ => .nil
  | ⟨_, value, span⟩ :: rest, h => .whole span (value.outlined h.left.right) (outlinedTypeArgs rest h.right)

theorem outlinedParams : (params : List Param) → Lawful (paramNodes params) →
    Outlined (paramFrames params) (paramOutlines params)
  | [], _ => .nil
  | ⟨_, type, span⟩ :: rest, h => .whole span (outlinedOptionalType type h.later.left) (outlinedParams rest h.later.right)

theorem FnDecl.outlined : (decl : FnDecl) → Lawful decl.nodes → Outlined [decl.frame] [decl.outline]
  | ⟨_, name, params, result, body, span⟩, h => by
    have hname : Outlined (name.toList.map fun name => .leaf name.span) (name.toList.map fun name => .leaf name.span) :=
      .map fun name _ => .leaf name.span .nil
    exact .one span (((hname.append (outlinedParams params h.left.left.right)).append
      (outlinedOptionalType result h.left.right)).append (body.outlined h.right))

theorem Block.outlined : (body : Block) → Lawful body.nodes → Outlined [body.frame] [body.outline]
  | ⟨statements, span⟩, h => .one span (outlinedStatements statements h)

theorem outlinedStatements : (statements : List Statement) → Lawful (statementNodes statements) →
    Outlined (statementFrames statements) (statementOutlines statements)
  | [], _ => .nil
  | ⟨kind, span⟩ :: rest, h => .whole span (kind.outlined h.left) (outlinedStatements rest h.right)

theorem StatementKind.outlined : (kind : StatementKind) → Lawful (.statement kind :: kind.nodes) →
    Outlined kind.frames kind.outlines
  | .binding _ nameSpan type value, h =>
    .leaf nameSpan ((outlinedOptionalType type h.later.later.left).append (value.outlined h.later.later.right))
  | .assignment _ nameSpan value, h => .leaf nameSpan (value.outlined h.later.later)
  | .fn decl, h => decl.outlined h.later
  | .loop _ range body, h => (range.outlined h.later.left.right).append (body.outlined h.later.right)
  | .leave none, _ | .stop, _ | .next, _ => .nil
  | .leave (some value), h => value.outlined h.later
  | .block body, h => body.outlined h.later
  | .expr e, h => e.outlined h.later

theorem LoopRange.outlined : (range : LoopRange) → Lawful range.nodes → Outlined range.frames range.outlines
  | .endless, _ => .nil
  | .over e, h => e.outlined h
  | .between first last, h => (first.outlined h.left).cons (last.outlined h.right)

end

/-! ## Items -/

theorem TypeBody.outlined (body : TypeBody) (h : Lawful body.nodes) : Outlined body.frames body.outlines := by
  cases body with
  | synonym type => exact type.outlined h
  | fields fs =>
    refine .map fun f hmem => .one f.span (f.type.outlined ?_)
    exact AllNodes.later fun n hn => h n (List.mem_flatMap.2 ⟨f, hmem, hn⟩)
  | constructors cs =>
    refine .map fun c hmem => .one c.span (outlinedParams c.params ?_)
    exact AllNodes.later fun n hn => h n (List.mem_flatMap.2 ⟨c, hmem, hn⟩)

theorem Impl.outlined (decl : Impl) (h : Lawful decl.nodes) : Outlined decl.frames decl.outlines := by
  refine (outlinedOptionalType decl.traitType h.left.left).append ((decl.selfType.outlined h.left.right).cons ?_)
  exact .map fun decl' hmem => decl'.outlined fun n hn => h.right n (List.mem_flatMap.2 ⟨decl', hmem, hn⟩)

theorem ItemKind.outlined (kind : ItemKind) (h : Lawful kind.nodes) : Outlined kind.frames kind.outlines := by
  cases kind with
  | imports decl => exact .map fun name _ => .leaf name.span .nil
  | fn decl => exact decl.outlined h
  | type decl =>
    exact .leaf decl.nameSpan ((outlinedParams decl.params h.later.left).append (decl.body.outlined h.later.right))
  | binding name nameSpan declared value =>
    exact .leaf nameSpan ((outlinedOptionalType declared h.later.left).append (value.outlined h.later.right))
  | assignment name nameSpan value => exact .leaf nameSpan (value.outlined h.later)
  | impl decl => exact decl.outlined h

theorem Program.outlined (program : Program) (h : Lawful program.nodes) :
    Outlined (program.items.map Item.frame) (program.items.map Item.outline) :=
  .map fun item hmem => .one item.span (item.kind.outlined fun n hn => h n (List.mem_flatMap.2 ⟨item, hmem, hn⟩))

end JuiceSyntax
