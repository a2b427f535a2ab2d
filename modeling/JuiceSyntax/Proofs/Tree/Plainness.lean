/-
  The words in the S-expression of a tree can be read from its text, if its nodes are lawful
  (`Item.plain`).
-/
import JuiceSyntax.Proofs.Tree.Words

namespace JuiceSyntax

open Sexpr (word quote node tagged labelled typed AllPlain Plain)

instance (text : String) : Decidable (word text).Plain := inferInstanceAs (Decidable (Unbroken text))

namespace Sexpr

variable {items items' : List Sexpr} {item : Sexpr} {text : String}

theorem plain_word (h : WordText text) : (word text).Plain := h.unbroken

theorem plain_tagged {tag : String} (h : Unbroken tag) (h' : AllPlain items) : (tagged tag items).Plain := ⟨h, h'⟩

theorem allPlain_append (h : AllPlain items) (h' : AllPlain items') : AllPlain (items ++ items') := by
  rw [allPlain_iff] at h h' ⊢
  exact List.forall_mem_append.2 ⟨h, h'⟩

theorem allPlain_one (h : item.Plain) : AllPlain [item] := ⟨h, trivial⟩

theorem allPlain_map {α : Type} {f : α → Sexpr} {as : List α} (h : ∀ a ∈ as, (f a).Plain) : AllPlain (as.map f) := by
  rw [allPlain_iff]
  intro s hs
  obtain ⟨a, ha, rfl⟩ := List.mem_map.1 hs
  exact h a ha

end Sexpr

open Sexpr

/-- A name with a bang after it is a word as well. -/
theorem WordText.unbroken_bang {text : String} (h : WordText text) : Unbroken (text ++ "!") := by
  constructor
  · rw [String.toList_append]
    exact List.append_ne_nil_of_left_ne_nil h.ne_nil _
  · rw [String.toList_append]
    exact List.forall_mem_append.2 ⟨h.unbroken.within, List.forall_mem_singleton.2 rfl⟩

theorem FnName.unbroken_written {name : FnName} (h : NameText name.text) : Unbroken name.written := by
  unfold FnName.written
  split
  · exact h.word.unbroken_bang
  · exact h.word.unbroken

theorem UnaryOp.unbroken_symbol (op : UnaryOp) : Unbroken op.symbol := by cases op <;> decide

theorem BinaryOp.unbroken_symbol (op : BinaryOp) : Unbroken op.symbol := by cases op <;> decide

theorem TypeOp.unbroken_symbol (op : TypeOp) : Unbroken op.symbol := by cases op <;> decide

theorem BuiltinType.unbroken_name (type : BuiltinType) : Unbroken type.name := by cases type <;> decide

theorem plain_labelled {label : Option String} {item : Sexpr} (h : Lawful (label.toList.map .word)) (h' : item.Plain) :
    (labelled label item).Plain := by
  cases label with
  | none => exact h'
  | some label => exact ⟨by decide, plain_word h.here, allPlain_one h'⟩

theorem plain_typed {name : String} {type : Option Sexpr} (h : WordText name) (h' : AllPlain type.toList) :
    (typed name type).Plain := by
  cases type with
  | none => exact plain_word h
  | some type => exact ⟨by decide, plain_word h, h'⟩

theorem plain_binding {name : String} {type : Option Sexpr} {value : Sexpr} (h : WordText name) (htype : AllPlain type.toList)
    (hvalue : value.Plain) : (bindingSexpr name type value).Plain := by
  cases type with
  | none => exact ⟨by decide, plain_word h, allPlain_one hvalue⟩
  | some type => exact ⟨by decide, plain_word h, htype.1, allPlain_one hvalue⟩

mutual

theorem Expr.plain : (e : Expr) → Lawful e.nodes → e.sexpr.Plain
  | ⟨kind, _⟩, h => kind.plain h

theorem ExprKind.plain : (kind : ExprKind) → Lawful (.expr kind :: kind.nodes) → kind.sexpr.Plain
  | .int value radix, _ => plain_word (integerText_word value radix)
  | .float value, _ => floatText_unbroken value
  | .bool true, _ => show Unbroken "true" by decide
  | .bool false, _ => show Unbroken "false" by decide
  | .str segments .inline, h => ⟨show Unbroken "str" by decide, plainSegments segments h.later⟩
  | .str segments (.lines _), h => ⟨show Unbroken "mstr" by decide, plainSegments segments h.later⟩
  | .name text, h => by
    have hname : NameText text := h.here
    exact plain_word hname.word
  | .typeName text, h => by
    have hname : TypeText text := h.here
    exact plain_word hname.word
  | .list items, h => ⟨by decide, plainExprs items h.later⟩
  | .record fields, h => ⟨by decide, plainRecordFields fields h.later⟩
  | .tuple items, h => ⟨by decide, plainExprs items h.later⟩
  | .group inner, h => ⟨by decide, allPlain_one (inner.plain h.later)⟩
  | .unary op operand, h => ⟨op.unbroken_symbol, allPlain_one (operand.plain h.later)⟩
  | .binary op left right, h => ⟨op.unbroken_symbol, left.plain h.later.left, allPlain_one (right.plain h.later.right)⟩
  | .attempt inner, h => ⟨by decide, allPlain_one (inner.plain h.later)⟩
  | .member object member, h => ⟨by decide, object.plain h.later.left, allPlain_one (member.plain h.later.right)⟩
  | .typeAccess base member, h => ⟨by decide, base.plain h.later.left, allPlain_one (member.plain h.later.right)⟩
  | .call callee args, h => ⟨by decide, callee.plain h.later.left, plainArgs args h.later.right⟩
  | .macroCall name _ parenthesized args body, h => by
    have hargs := plainArgs args h.later.later
    refine ⟨by decide, plain_word h.later.here, allPlain_append ?_ ?_⟩
    · cases parenthesized with
      | false => trivial
      | true => exact allPlain_one (plain_tagged (by decide) hargs)
    · cases body with
      | none => trivial
      | some body => exact allPlain_one ⟨by decide, trivial, trivial⟩
  | .fn decl, h => decl.plain h.later
  | .conditional test body none, h =>
    ⟨by decide, test.plain h.later.left.left, body.plain h.later.left.right, trivial⟩
  | .conditional test body (some otherwise), h =>
    ⟨by decide, test.plain h.later.left.left, body.plain h.later.left.right, allPlain_one (otherwise.plain h.later.right)⟩
  | .selection scrutinee arms, h => ⟨by decide, scrutinee.plain h.later.left, plainArms arms h.later.right⟩
  | .block body, h => body.plain h.later

theorem plainExprs : (items : List Expr) → Lawful (exprNodes items) → AllPlain (exprSexprs items)
  | [], _ => trivial
  | e :: rest, h => ⟨e.plain h.left, plainExprs rest h.right⟩

theorem plainSegments : (segments : List Segment) → Lawful (segmentNodes segments) → AllPlain (segmentSexprs segments)
  | [], _ => trivial
  | .text _ _ :: rest, h => ⟨⟨by decide, trivial, trivial⟩, plainSegments rest h⟩
  | .escape _ _ _ :: rest, h => ⟨⟨by decide, trivial, trivial⟩, plainSegments rest h.later⟩
  | .fragment e _ :: rest, h => ⟨⟨by decide, allPlain_one (e.plain h.left)⟩, plainSegments rest h.right⟩

theorem plainArgs : (args : List Arg) → Lawful (argNodes args) → AllPlain (argSexprs args)
  | [], _ => trivial
  | ⟨_, value, _⟩ :: rest, h => ⟨plain_labelled h.left.left (value.plain h.left.right), plainArgs rest h.right⟩

theorem plainRecordFields : (fields : List RecordField) → Lawful (recordFieldNodes fields) →
    AllPlain (recordFieldSexprs fields)
  | [], _ => trivial
  | ⟨_, some value, _⟩ :: rest, h =>
    ⟨⟨by decide, plain_word h.here, allPlain_one (value.plain h.later.left)⟩, plainRecordFields rest h.later.right⟩
  | ⟨_, none, _⟩ :: rest, h => ⟨plain_word h.here, plainRecordFields rest h.later.right⟩

theorem plainArms : (arms : List Arm) → Lawful (armNodes arms) → AllPlain (armSexprs arms)
  | [], _ => trivial
  | ⟨pattern, body, _⟩ :: rest, h =>
    ⟨⟨by decide, pattern.plain h.left.left, allPlain_one (body.plain h.left.right)⟩, plainArms rest h.right⟩

theorem Pattern.plain : (pattern : Pattern) → Lawful pattern.nodes → pattern.sexpr.Plain
  | .value e, h => e.plain h
  | .type type, h => ⟨by decide, allPlain_one (type.plain h)⟩

theorem TypeExpr.plain : (t : TypeExpr) → Lawful t.nodes → t.sexpr.Plain
  | ⟨kind, _⟩, h => kind.plain h

theorem TypeKind.plain : (kind : TypeKind) → Lawful (.type kind :: kind.nodes) → kind.sexpr.Plain
  | .builtin type, _ => type.unbroken_name
  | .name text, h => by
    obtain ⟨hname, -⟩ : NameText text ∧ BuiltinType.ofName? text = none := h.here
    exact plain_word hname.word
  | .typeName text, h => by
    have hname : TypeText text := h.here
    exact plain_word hname.word
  | .literal e, h => e.plain h.later
  | .call _ _ args, h => ⟨by decide, plain_word h.later.here, plainTypeArgs args h.later.later⟩
  | .tuple items, h => ⟨by decide, plainTypes items h.later⟩
  | .group inner, h => ⟨by decide, allPlain_one (inner.plain h.later)⟩
  | .binary op left right, h => ⟨op.unbroken_symbol, left.plain h.later.left, allPlain_one (right.plain h.later.right)⟩

theorem plainTypes : (types : List TypeExpr) → Lawful (typeNodes types) → AllPlain (typeSexprs types)
  | [], _ => trivial
  | type :: rest, h => ⟨type.plain h.left, plainTypes rest h.right⟩

theorem plainOptionalType : (type : Option TypeExpr) → Lawful (optionalTypeNodes type) →
    AllPlain (optionalTypeSexpr type).toList
  | none, _ => trivial
  | some type, h => allPlain_one (type.plain h)

theorem plainTypeArgs : (args : List TypeArg) → Lawful (typeArgNodes args) → AllPlain (typeArgSexprs args)
  | [], _ => trivial
  | ⟨_, value, _⟩ :: rest, h => ⟨plain_labelled h.left.left (value.plain h.left.right), plainTypeArgs rest h.right⟩

theorem plainParams : (params : List Param) → Lawful (paramNodes params) → AllPlain (paramSexprs params)
  | [], _ => trivial
  | ⟨_, type, _⟩ :: rest, h => ⟨plain_typed h.here (plainOptionalType type h.later.left), plainParams rest h.later.right⟩

theorem FnDecl.plain : (decl : FnDecl) → Lawful decl.nodes → decl.sexpr.Plain
  | ⟨isStatic, name, params, result, body, _⟩, h => by
    have hparams := plainParams params h.left.left.right
    have hresult := plainOptionalType result h.left.right
    have hbody := body.plain h.right
    refine ⟨by decide, allPlain_append (allPlain_append (allPlain_append (allPlain_append ?_ ?_) ?_) ?_) (allPlain_one hbody)⟩
    · cases isStatic with
      | false => trivial
      | true => exact allPlain_one (show Unbroken "static" by decide)
    · cases name with
      | none => trivial
      | some name => exact allPlain_one (FnName.unbroken_written h.left.left.left.here)
    · exact allPlain_one (plain_tagged (by decide) hparams)
    · cases result with
      | none => trivial
      | some type => exact allPlain_one (plain_tagged (by decide) hresult)

theorem Block.plain : (body : Block) → Lawful body.nodes → body.sexpr.Plain
  | ⟨statements, _⟩, h => ⟨by decide, plainStatements statements h⟩

theorem plainStatements : (statements : List Statement) → Lawful (statementNodes statements) →
    AllPlain (statementSexprs statements)
  | [], _ => trivial
  | ⟨kind, _⟩ :: rest, h => ⟨kind.plain h.left, plainStatements rest h.right⟩

theorem StatementKind.plain : (kind : StatementKind) → Lawful (.statement kind :: kind.nodes) → kind.sexpr.Plain
  | .binding _ _ type value, h =>
    plain_binding h.later.here (plainOptionalType type h.later.later.left) (value.plain h.later.later.right)
  | .assignment _ _ value, h => ⟨by decide, plain_word h.later.here, allPlain_one (value.plain h.later.later)⟩
  | .fn decl, h => decl.plain h.later
  | .loop none range body, h =>
    ⟨by decide, allPlain_append (range.plain h.later.left.right) (allPlain_one (body.plain h.later.right))⟩
  | .loop (some _) range body, h =>
    ⟨by decide, plain_word h.later.left.left.here,
      allPlain_append (range.plain h.later.left.right) (allPlain_one (body.plain h.later.right))⟩
  | .leave none, _ => ⟨by decide, trivial⟩
  | .leave (some value), h => ⟨by decide, allPlain_one (value.plain h.later)⟩
  | .stop, _ => ⟨by decide, trivial⟩
  | .next, _ => ⟨by decide, trivial⟩
  | .block body, h => body.plain h.later
  | .expr e, h => e.plain h.later

theorem LoopRange.plain : (range : LoopRange) → Lawful range.nodes → AllPlain range.sexprs
  | .endless, _ => trivial
  | .over e, h => allPlain_one (e.plain h)
  | .between first last, h => allPlain_one ⟨by decide, first.plain h.left, allPlain_one (last.plain h.right)⟩

end

/-! ## Items -/

theorem Exposed.plain {name : Exposed} (h : WordText name.name) : name.sexpr.Plain := by
  unfold Exposed.sexpr
  split
  · exact h.unbroken_bang
  · exact h.unbroken

theorem Import.plain (decl : Import) (h : Lawful decl.nodes) : decl.sexpr.Plain := by
  obtain ⟨foreign, relative, path, renamed, exposed⟩ := decl
  have hpath : ∀ text ∈ path, WordText text := fun text hmem => h.left.left (.word text) (List.mem_map_of_mem hmem)
  have hrenamed : Lawful (renamed.toList.map .word) := h.left.right
  have hexposed : ∀ name ∈ exposed, WordText name.name := fun name hmem =>
    h.right (.word name.name) (List.mem_map.2 ⟨name, hmem, rfl⟩)
  refine ⟨by decide, allPlain_append (allPlain_append (allPlain_append (allPlain_append ?_ ?_) ?_) ?_) ?_⟩
  · cases foreign with
    | false => trivial
    | true => exact allPlain_one (by decide)
  · cases relative with
    | false => trivial
    | true => exact allPlain_one (by decide)
  · exact allPlain_one (plain_tagged (by decide) (allPlain_map fun text hmem => plain_word (hpath text hmem)))
  · cases renamed with
    | none => trivial
    | some text => exact allPlain_one (plain_tagged (by decide) (allPlain_one (plain_word hrenamed.here)))
  · split
    · trivial
    · exact allPlain_one (plain_tagged (by decide) (allPlain_map fun name hmem => Exposed.plain (hexposed name hmem)))

theorem TypeBody.plain (body : TypeBody) (h : Lawful body.nodes) : body.sexpr.Plain := by
  cases body with
  | synonym type => exact type.plain h
  | fields fs =>
    refine ⟨by decide, allPlain_map fun f hmem => ?_⟩
    have hfield : Lawful f.nodes := fun n hn => h n (List.mem_flatMap.2 ⟨f, hmem, hn⟩)
    exact plain_typed hfield.here (allPlain_one (f.type.plain hfield.later))
  | constructors cs =>
    refine ⟨by decide, allPlain_map fun c hmem => ?_⟩
    have hconstructor : Lawful c.nodes := fun n hn => h n (List.mem_flatMap.2 ⟨c, hmem, hn⟩)
    exact ⟨plain_word hconstructor.here, plainParams c.params hconstructor.later⟩

theorem TypeDecl.plain (decl : TypeDecl) (h : Lawful decl.nodes) : decl.sexpr.Plain := by
  have hbody := allPlain_one (decl.body.plain h.right)
  refine ⟨by decide, allPlain_append (allPlain_append (allPlain_one (plain_word h.here)) ?_) hbody⟩
  split
  · trivial
  · exact allPlain_one (plain_tagged (by decide) (plainParams decl.params h.left.later))

theorem Impl.plain (decl : Impl) (h : Lawful decl.nodes) : decl.sexpr.Plain := by
  obtain ⟨traitType, selfType, fns⟩ := decl
  have hself := selfType.plain h.left.right
  refine ⟨by decide, allPlain_append ?_ (allPlain_map fun decl hmem => decl.plain fun n hn => h.right n ?_)⟩
  · cases traitType with
    | none => exact allPlain_one hself
    | some type => exact ⟨type.plain h.left.left, allPlain_one (plain_tagged (by decide) (allPlain_one hself))⟩
  · exact List.mem_flatMap.2 ⟨decl, hmem, hn⟩

theorem ItemKind.plain (kind : ItemKind) (h : Lawful kind.nodes) : kind.sexpr.Plain := by
  cases kind with
  | imports decl => exact decl.plain h
  | fn decl => exact decl.plain h
  | type decl => exact decl.plain h
  | binding name span type value => exact plain_binding h.here (plainOptionalType type h.left.later) (value.plain h.right)
  | assignment name span value => exact ⟨by decide, plain_word h.here, allPlain_one (value.plain h.later)⟩
  | impl decl => exact decl.plain h

theorem Item.plain (item : Item) (h : Lawful item.kind.nodes) : item.sexpr.Plain := by
  unfold Item.sexpr
  split
  · exact plain_tagged (by decide) (allPlain_one (item.kind.plain h))
  · exact item.kind.plain h

end JuiceSyntax
