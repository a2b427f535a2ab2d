/-
  How types are written. `Written n phrase kinds` says that a phrase of the type grammar is written
  by tokens of these kinds, with types nested in parentheses at most `n` deep. The spans in the phrase are
  free, and so is what can be written in more than one way: the kind of name before the parenthesis
  of a call, the words that can be labels, and the comma after the last argument or the last item
  of a tuple.

  `Written.begins`, `Written.unlabelled`: what a type begins with, by which one token tells an empty
  list from a type, and two tell a label from a type.
-/
import JuiceSyntax.Proofs.Grammar.Consuming
import JuiceSyntax.Proofs.Tree.Leaves
import JuiceSyntax.Proofs.Tree.Moving

namespace JuiceSyntax

open Reader Grammar

/-! ## The grammar -/

/-- The segments of a string are its pieces but for the markers of the indentation; none of them
is a fragment. -/
inductive SegmentsWritten : List Segment → List Piece → Prop where
  | nil : SegmentsWritten [] []
  | text {segments : List Segment} {pieces : List Piece} (text : String) (span span' : Span)
      (rest : SegmentsWritten segments pieces) :
      SegmentsWritten (.text text span :: segments) (.text text span' :: pieces)
  | escape {segments : List Segment} {pieces : List Piece} (value : Char) (raw : String) (span span' : Span)
      (rest : SegmentsWritten segments pieces) :
      SegmentsWritten (.escape value raw span :: segments) (.escape value raw span' :: pieces)
  | indent {segments : List Segment} {pieces : List Piece} (span : Span) (rest : SegmentsWritten segments pieces) :
      SegmentsWritten segments (.indent span :: pieces)

inductive LayoutWritten : Layout → Bool → List Piece → Prop where
  | inline (pieces : List Piece) : LayoutWritten .inline false pieces
  | lines {markers : List Span} {pieces : List Piece} (marked : markers.length = (indentSpans pieces).length) :
      LayoutWritten (.lines markers) true pieces

/-- A literal of one token. -/
inductive LiteralWritten : ExprKind → Kind → Prop where
  | int (value : UInt64) (radix : Radix) : LiteralWritten (.int value radix) (.int value radix)
  | float (value : Float) : LiteralWritten (.float value) (.float value)
  | bool (value : Bool) : LiteralWritten (.bool value) (.bool value)
  | str {segments : List Segment} {layout : Layout} {multiline : Bool} {pieces : List Piece}
      (parts : SegmentsWritten segments pieces) (laid : LayoutWritten layout multiline pieces) :
      LiteralWritten (.str segments layout) (.str multiline pieces)

/-- A name of either kind, as it stands before the parenthesis of a call. -/
inductive CalleeWritten (text : String) : Kind → Prop where
  | name : CalleeWritten text (.name text)
  | typeName : CalleeWritten text (.typeName text)

/-- What stands before the colon of a label. -/
inductive LabelWritten : String → Kind → Prop where
  | name (text : String) : LabelWritten text (.name text)
  | typeName (text : String) : LabelWritten text (.typeName text)
  | ofWord : LabelWritten "of" (.word .ofWord)
  | asWord : LabelWritten "as" (.word .asWord)

/-- What the grammar of types can be asked for. -/
inductive TypePhrase where
  | type (type : TypeExpr)
  /-- A type that is an operand as it stands. -/
  | atom (type : TypeExpr)
  | arg (arg : TypeArg)
  /-- What is between the parentheses of a call. -/
  | args (args : List TypeArg)
  /-- What follows the first comma of a tuple. -/
  | items (types : List TypeExpr)

inductive Written : Nat → TypePhrase → List Kind → Prop where
  | builtin {n : Nat} (type : BuiltinType) (span : Span) :
      Written n (.atom ⟨.builtin type, span⟩) [.name type.name]
  | name {n : Nat} {text : String} (other : BuiltinType.ofName? text = none) (span : Span) :
      Written n (.atom ⟨.name text, span⟩) [.name text]
  | typeName {n : Nat} (text : String) (span : Span) :
      Written n (.atom ⟨.typeName text, span⟩) [.typeName text]
  | literal {n : Nat} {value : Expr} {kind : Kind} (written : LiteralWritten value.kind kind) (span : Span) :
      Written n (.atom ⟨.literal value, span⟩) [kind]
  | call {n : Nat} {callee : String} {head : Kind} {args : List TypeArg} {kinds : List Kind}
      (named : CalleeWritten callee head) (inner : Written n (.args args) kinds) (calleeSpan span : Span) :
      Written n (.atom ⟨.call callee calleeSpan args, span⟩)
        (head :: .mark .lParen :: (kinds ++ [.mark .rParen]))
  | group {n : Nat} {type : TypeExpr} {kinds : List Kind} (inner : Written n (.type type) kinds) (span : Span) :
      Written (n + 1) (.atom ⟨.group type, span⟩) (.mark .lParen :: (kinds ++ [.mark .rParen]))
  | tuple {n : Nat} {first : TypeExpr} {rest : List TypeExpr} {kinds kinds' : List Kind}
      (head : Written n (.type first) kinds) (more : rest ≠ []) (tail : Written (n + 1) (.items rest) kinds')
      (span : Span) :
      Written (n + 1) (.atom ⟨.tuple (first :: rest), span⟩)
        (.mark .lParen :: (kinds ++ .mark .comma :: (kinds' ++ [.mark .rParen])))
  | atom {n : Nat} {type : TypeExpr} {kinds : List Kind} (alone : Written n (.atom type) kinds) :
      Written n (.type type) kinds
  | binary {n : Nat} {left right : TypeExpr} {kinds kinds' : List Kind} (op : TypeOp)
      (front : Written n (.type left) kinds) (back : Written n (.atom right) kinds') (span : Span) :
      Written n (.type ⟨.binary op left right, span⟩) (kinds ++ .mark op.mark :: kinds')
  | plain {n : Nat} {value : TypeExpr} {kinds : List Kind} (written : Written n (.type value) kinds) (span : Span) :
      Written (n + 1) (.arg ⟨none, value, span⟩) kinds
  | labelled {n : Nat} {label : String} {kind : Kind} {value : TypeExpr} {kinds : List Kind}
      (named : LabelWritten label kind) (written : Written n (.type value) kinds) (span : Span) :
      Written (n + 1) (.arg ⟨some label, value, span⟩) (kind :: .mark .colon :: kinds)
  | noArgs {n : Nat} : Written n (.args []) []
  | lastArg {n : Nat} {arg : TypeArg} {kinds : List Kind} (last : Written n (.arg arg) kinds) :
      Written n (.args [arg]) kinds
  | nextArg {n : Nat} {arg : TypeArg} {rest : List TypeArg} {kinds kinds' : List Kind}
      (first : Written n (.arg arg) kinds) (others : Written n (.args rest) kinds') :
      Written n (.args (arg :: rest)) (kinds ++ .mark .comma :: kinds')
  | noItems {n : Nat} : Written n (.items []) []
  | lastItem {n : Nat} {type : TypeExpr} {kinds : List Kind} (last : Written n (.type type) kinds) :
      Written (n + 1) (.items [type]) kinds
  | nextItem {n : Nat} {type : TypeExpr} {rest : List TypeExpr} {kinds kinds' : List Kind}
      (first : Written n (.type type) kinds) (others : Written (n + 1) (.items rest) kinds') :
      Written (n + 1) (.items (type :: rest)) (kinds ++ .mark .comma :: kinds')

theorem LiteralWritten.undone {value : ExprKind} {kind : Kind} (h : LiteralWritten value kind) : kind.isDone = false := by
  cases h <;> rfl

theorem CalleeWritten.undone {text : String} {kind : Kind} (h : CalleeWritten text kind) : kind.isDone = false := by
  cases h <;> rfl

theorem LabelWritten.undone {text : String} {kind : Kind} (h : LabelWritten text kind) : kind.isDone = false := by
  cases h <;> rfl

theorem Written.midway {n : Nat} {phrase : TypePhrase} {kinds : List Kind} (h : Written n phrase kinds) :
    Midway kinds := by
  induction h with
  | builtin | name | typeName => exact .cons rfl .nil
  | literal written => exact .cons written.undone .nil
  | call named _ _ _ ih => exact .cons named.undone (.mark _ (ih.append (.mark _ .nil)))
  | group _ _ ih => exact .mark _ (ih.append (.mark _ .nil))
  | tuple _ _ _ _ ih ih' => exact .mark _ (ih.append (.mark _ (ih'.append (.mark _ .nil))))
  | atom _ ih | plain _ _ ih | lastArg _ ih | lastItem _ ih => exact ih
  | binary op _ _ _ ih ih' => exact ih.append (.mark _ ih')
  | labelled named _ _ ih => exact .cons named.undone (.mark _ ih)
  | noArgs | noItems => exact .nil
  | nextArg _ _ ih ih' | nextItem _ _ ih ih' => exact ih.append (.mark _ ih')

theorem Written.kinds_skipped {n : Nat} {phrase : TypePhrase} {kinds more : List Kind} (h : Written n phrase kinds)
    {s : State} (hs : s.cursor.kinds = kinds ++ more) : (s.skipped kinds.length).cursor.kinds = more :=
  Cursor.kinds_skip hs h.midway

/-! ## Without places -/

/-- The type without its places. -/
def TypeExpr.unplaced (type : TypeExpr) : TypeExpr := type.moved fun _ => 0

def TypeArg.unplaced (arg : TypeArg) : TypeArg := arg.moved fun _ => 0

section

variable (span : Span)

theorem TypeExpr.unplaced_literal (value : ExprKind) (valueSpan : Span) :
    TypeExpr.unplaced ⟨.literal ⟨value, valueSpan⟩, span⟩ = ⟨.literal ⟨value.moved fun _ => 0, .point 0⟩, .point 0⟩ :=
  rfl

theorem TypeExpr.unplaced_call (callee : String) (calleeSpan : Span) (args : List TypeArg) :
    TypeExpr.unplaced ⟨.call callee calleeSpan args, span⟩ =
      ⟨.call callee (.point 0) (args.map (·.unplaced)), .point 0⟩ := by
  simp only [unplaced, TypeExpr.moved, TypeKind.moved, movedTypeArgs_eq_map]
  rfl

theorem TypeExpr.unplaced_group (inner : TypeExpr) :
    TypeExpr.unplaced ⟨.group inner, span⟩ = ⟨.group inner.unplaced, .point 0⟩ := rfl

theorem TypeExpr.unplaced_tuple (items : List TypeExpr) :
    TypeExpr.unplaced ⟨.tuple items, span⟩ = ⟨.tuple (items.map (·.unplaced)), .point 0⟩ := by
  simp only [unplaced, TypeExpr.moved, TypeKind.moved, movedTypes_eq_map]
  rfl

theorem TypeExpr.unplaced_binary (op : TypeOp) (left right : TypeExpr) :
    TypeExpr.unplaced ⟨.binary op left right, span⟩ = ⟨.binary op left.unplaced right.unplaced, .point 0⟩ := rfl

theorem TypeArg.unplaced_mk (label : Option String) (value : TypeExpr) :
    TypeArg.unplaced ⟨label, value, span⟩ = ⟨label, value.unplaced, .point 0⟩ := rfl

end

/-! ## Beginnings -/

section

variable {kind : Kind}

/-- What a token is as a label. -/
def labelOf? : Kind → Option String
  | .name text | .typeName text => some text
  | .word .ofWord => some "of"
  | .word .asWord => some "as"
  | _ => none

theorem LabelWritten.labelOf? {label : String} (h : LabelWritten label kind) : labelOf? kind = some label := by
  cases h <;> rfl

theorem labelWritten_of_some {label : String} (h : labelOf? kind = some label) : LabelWritten label kind := by
  unfold JuiceSyntax.labelOf? at h
  split at h
  · cases h
    exact .name _
  · cases h
    exact .typeName _
  · cases h
    exact .ofWord
  · cases h
    exact .asWord
  · cases h

/-- Types and arguments, of which lists are made. -/
def TypePhrase.IsOne : TypePhrase → Prop
  | type _ | atom _ | arg _ => True
  | args _ | items _ => False

theorem LiteralWritten.not_rParen {value : ExprKind} (h : LiteralWritten value kind) : kind.isMark .rParen = false := by
  cases h <;> rfl

theorem CalleeWritten.not_rParen {text : String} (h : CalleeWritten text kind) : kind.isMark .rParen = false := by
  cases h <;> rfl

theorem LabelWritten.not_rParen {label : String} (h : LabelWritten label kind) : kind.isMark .rParen = false := by
  cases h <;> rfl

/-- No type and no argument begins with a closing parenthesis. -/
theorem Written.begins {n : Nat} {phrase : TypePhrase} {kinds : List Kind} (h : Written n phrase kinds)
    (one : phrase.IsOne) : ∃ kind rest, kinds = kind :: rest ∧ kind.isMark .rParen = false := by
  induction h with
  | builtin | name | typeName => exact ⟨_, _, rfl, rfl⟩
  | literal written => exact ⟨_, _, rfl, written.not_rParen⟩
  | call named => exact ⟨_, _, rfl, named.not_rParen⟩
  | group | tuple => exact ⟨_, _, rfl, rfl⟩
  | atom _ ih | plain _ _ ih => exact ih trivial
  | binary op _ _ _ ih _ =>
    obtain ⟨kind, rest, rfl, hkind⟩ := ih trivial
    exact ⟨kind, _, rfl, hkind⟩
  | labelled named => exact ⟨_, _, rfl, named.not_rParen⟩
  | noArgs | lastArg | nextArg | noItems | lastItem | nextItem => exact one.elim

theorem Written.items_begin {n : Nat} {types : List TypeExpr} {kinds : List Kind} (h : Written n (.items types) kinds)
    (more : types ≠ []) : ∃ kind rest, kinds = kind :: rest ∧ kind.isMark .rParen = false := by
  cases h with
  | noItems => exact absurd rfl more
  | lastItem last => exact last.begins trivial
  | nextItem first _ =>
    obtain ⟨kind, rest, rfl, hkind⟩ := first.begins trivial
    exact ⟨kind, _, rfl, hkind⟩

def TypePhrase.IsType : TypePhrase → Prop
  | type _ | atom _ => True
  | arg _ | args _ | items _ => False

theorem TypeOp.isMark_mark (op : TypeOp) {mark : Mark} (h : mark ≠ .pipe ∧ mark ≠ .amp) :
    (Kind.mark op.mark).isMark mark = false := by
  cases op with
  | union => simpa [Kind.isMark, TypeOp.mark] using h.1
  | intersection => simpa [Kind.isMark, TypeOp.mark] using h.2

/-- A type does not begin with a label and a colon. -/
theorem Written.unlabelled {n : Nat} {phrase : TypePhrase} {kinds : List Kind} (h : Written n phrase kinds)
    (hphrase : phrase.IsType) {next : Kind} {more : List Kind} (hnext : next.isMark .colon = false) :
    ∃ first second rest, kinds ++ next :: more = first :: second :: rest ∧
      (labelOf? first = none ∨ second.isMark .colon = false) := by
  induction h generalizing next more with
  | builtin | name | typeName | literal => exact ⟨_, _, _, rfl, .inr hnext⟩
  | call => exact ⟨_, _, _, rfl, .inr rfl⟩
  | group inner | tuple inner =>
    obtain ⟨first, rest, rfl, -⟩ := inner.begins trivial
    exact ⟨_, _, _, rfl, .inl rfl⟩
  | atom _ ih => exact ih trivial hnext
  | binary op _ _ _ ih _ =>
    rw [List.append_assoc]
    exact ih trivial (op.isMark_mark (by decide))
  | plain | labelled | noArgs | lastArg | nextArg | noItems | lastItem | nextItem => exact hphrase.elim

end

end JuiceSyntax
