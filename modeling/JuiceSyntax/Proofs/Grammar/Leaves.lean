/-
  The leaves of a tree are those of the tokens it was read from: one lemma for each production,
  by the rules for steps. Where a production looks at a token before it consumes it, what it has
  seen is kept as the place where the rest begins.

  `readItems_leaves`: for a program without faults its items have the leaves of its tokens.
-/
import JuiceSyntax.Proofs.Grammar.Keeping

namespace JuiceSyntax

open Reader Grammar

variable {L : Level} {p : Cursor → Prop} {α : Type}

namespace Grammar

open Keeps

/-! ## Literals -/

theorem keeps_fragment (hL : L.Keeps) {tokens : List Token} (htokens : Regular tokens) (span : Span) :
    Aside L (fragment tokens span) Expr.leaves (tokenLeaves tokens) := by
  unfold fragment
  split
  · exact ⟨fun hr => (nomatch hr), fun hr => (nomatch hr)⟩
  · exact (hL.expr .value).whole htokens _ _

theorem keeps_segments (hL : L.Keeps) {pieces : List Piece} (h : RegularPieces pieces) :
    Aside L (segments pieces) segmentParts (pieceParts pieces) := by
  induction pieces with
  | nil => exact .pure rfl
  | cons piece rest ih =>
    have hrest := ih h.tail
    cases piece with
    | text text span =>
      rw [segments, pieceParts]
      refine .bind (f := (.text text :: ·)) hrest fun _ => ?_
      exact .pure rfl
    | escape value raw span =>
      rw [segments, pieceParts]
      refine .bind (f := (.escape value raw :: ·)) hrest fun _ => ?_
      exact .pure rfl
    | fragment tokens span =>
      rw [segments, pieceParts]
      refine .bind (f := (.fragment · :: pieceParts rest)) (keeps_fragment hL h.fragment span) fun e => ?_
      refine .bind (f := (.fragment e.leaves :: ·)) hrest fun _ => ?_
      exact .pure rfl
    | indent span => exact hrest

/-- A reader that has added no fault has found none. -/
theorem clear_of_composed {r : Reader α} (hr : Composed (fun _ => True) r) (hL : L.Grows) {s t : State} {a : α}
    (hread : r L s = .ok a t) (ht : t.Clear) : s.Clear := by
  have hgrows := hr.grows inherited_true hL s trivial
  rw [hread] at hgrows
  exact hgrows.clear ht

theorem keeps_stringLiteral (hL : L.Keeps) {multiline : Bool} {pieces : List Piece}
    (h : ∀ c, p c → c.kind = .str multiline pieces) : Keeps L p [] (stringLiteral multiline pieces) Expr.leaves where
  clear := clear_of_composed (composed_stringLiteral fun _ _ _ _ _ _ => trivial) hL.grows
  keeps {s a t} hp hs hr ht := by
    obtain ⟨token, u, hadvance, hr⟩ := ok_of_bind hr
    obtain ⟨segs, v, hsegments, hr⟩ := ok_of_bind hr
    cases hr
    have hpieces : RegularPieces pieces := by
      cases hrest : s.cursor.rest with
      | nil =>
        have hkind := h _ hp
        simp [Cursor.kind, Cursor.current, hrest] at hkind
      | cons token rest =>
        rw [hrest] at hs
        have hkind : token.kind = .str multiline pieces := by rw [← Cursor.kind_of_rest hrest, h _ hp]
        exact hs.pieces hkind
    obtain ⟨hcursor, hview⟩ := (keeps_segments hL hpieces).keeps hsegments ht
    have hu := (keeps_segments hL hpieces).clear hsegments ht
    obtain ⟨tokens, hrest, hleaves⟩ := (Keeps.advanceAt h).keeps hp hs hadvance hu
    refine ⟨tokens, by rw [hrest, hcursor], ?_⟩
    rw [← hleaves, Expr.leaves, ExprKind.leaves, hview]
    cases multiline <;> rfl

theorem keeps_listLiteral (hL : L.Keeps) : Keeps L p [] listLiteral Expr.leaves :=
  .next (.needMark _ rfl) fun _ => .bind (.separated _ (hL.expr _)) fun items => .next (.needMark _ rfl) fun _ =>
    .pure (exprLeaves_eq_flatMap items)

theorem keeps_atom {kind : Kind} (h : ∀ c, p c → c.kind = kind) {content : ExprKind} (heq : content.leaves = kind.leaves) :
    Keeps L p [] (atom content) Expr.leaves :=
  .bind (.advanceAt h) fun _ => .pure heq

/-! ## Functions and parameters -/

/-- A name that was read says itself. -/
def namedLeaves (named : String × Span) : List Leaf := [.name named.1]

theorem keeps_name : Keeps L p [] name namedLeaves := by
  refine .onKind fun kind => ?_
  split
  · exact .bind (.advanceAt fun _ hc => hc.2) fun _ => .pure rfl
  · exact .failUnexpected _

theorem keeps_anyName : Keeps L p [] anyName namedLeaves := by
  refine .onKind fun kind => ?_
  split
  · exact .bind (.advanceAt fun _ hc => hc.2) fun _ => .pure rfl
  · exact .bind (.advanceAt fun _ hc => hc.2) fun _ => .pure rfl
  · exact .failUnexpected _

theorem keeps_param (hL : L.Keeps) {named : Reader (String × Span)} (h : Keeps L p [] named namedLeaves) :
    Keeps L p [] (param named) Param.leaves :=
  .bind h fun _ => .next (.takeMark _ rfl) fun _ => .ite (.bind hL.type fun _ => .pure rfl) (.pure rfl)

theorem keeps_params (hL : L.Keeps) {named : Reader (String × Span)}
    (h : Keeps L (fun _ => True) [] named namedLeaves) : Keeps L p [] (params named) paramLeaves :=
  .next (.needMark _ rfl) fun _ => .bind (.separated _ (keeps_param hL h)) fun items => .next (.needMark _ rfl) fun _ =>
    .pure (paramLeaves_eq_flatMap items)

theorem keeps_fnName : Keeps L p [] fnName fun title => title.toList.flatMap FnName.leaves := by
  refine .onKind fun kind => ?_
  split
  · exact .bind (.advanceAt fun _ hc => hc.2) fun _ => .pure rfl
  · exact .bind (.advanceAt fun _ hc => hc.2) fun _ => .pure rfl
  · exact .pure rfl

theorem keeps_fnDecl (hL : L.Keeps) : Keeps L p [] fnDecl FnDecl.leaves :=
  .look .here fun _ => .next (.takeWord _) fun _ => .next (.needWord _) fun _ => .bind keeps_fnName fun _ =>
    .look (.atMark _) fun _ => .iteBind (keeps_params hL keeps_name) (.pure rfl) fun _ =>
    .next (.takeMark _ rfl) fun _ => .iteBind (v := optionalTypeLeaves) (.map _ hL.type fun _ => rfl) (.pure rfl) fun _ =>
    .bind hL.block fun _ => .look (.spanFrom _) fun _ => .pure rfl

/-! ## Labels -/

theorem labelLeaves_name {text : String} (h : isLabelWord text = false) : labelLeaves (some text) = [.name text] := by
  rw [labelLeaves, h, if_neg (by decide)]

/-- The name at the cursor is no word that can be a label. -/
theorem isLabelWord_of_kind {c : Cursor} (hc : Regular c.rest) {text : String}
    (h : c.kind = .name text ∨ c.kind = .typeName text) : isLabelWord text = false := by
  cases hrest : c.rest with
  | nil => simp [Cursor.kind, Cursor.current, hrest] at h
  | cons token rest =>
    rw [hrest] at hc
    refine hc.here.name text ?_
    rw [Cursor.kind_of_rest hrest] at h
    exact h

/-- A label that is a name says itself, and one that is a word says nothing. -/
theorem keeps_argLabel : Keeps L p [] argLabel labelLeaves := by
  refine .onKind fun kind => .onPeek 1 fun second => ?_
  have labeled {label : String} {kind : Kind} {q : Cursor → Prop}
      (hq : ∀ c, q c → c.kind = kind ∧ c.peek 1 = .mark .colon) (hk : kind.isDone = false)
      (h : ∀ c : Cursor, q c → Regular c.rest → labelLeaves (some label) = kind.leaves) :
      Keeps L q [] (JuiceSyntax.skip 2 >>= fun _ => Pure.pure (some label)) labelLeaves := by
    have skipped : Keeps L q [] (JuiceSyntax.skip 2 >>= fun _ => Pure.pure (some label)) fun _ => kind.leaves :=
      .bind (.skipTwo hq hk) fun _ => .pure (List.append_nil _).symm
    exact skipped.given h fun hlabel => .bind (.skipTwo hq hk) fun _ => .pure (hlabel.trans (List.append_nil _).symm)
  split
  · rename_i label hlabel
    cases kind with
    | name text =>
      cases hlabel
      exact labeled (fun c hc => ⟨hc.1.2, hc.2⟩) rfl fun c hc hregular =>
        labelLeaves_name (isLabelWord_of_kind hregular (.inl hc.1.2))
    | typeName text =>
      cases hlabel
      exact labeled (fun c hc => ⟨hc.1.2, hc.2⟩) rfl fun c hc hregular =>
        labelLeaves_name (isLabelWord_of_kind hregular (.inr hc.1.2))
    | word w =>
      cases w with
      | ofWord =>
        cases hlabel
        exact labeled (fun c hc => ⟨hc.1.2, hc.2⟩) rfl fun _ _ _ => rfl
      | asWord =>
        cases hlabel
        exact labeled (fun c hc => ⟨hc.1.2, hc.2⟩) rfl fun _ _ _ => rfl
      | _ => cases hlabel
    | _ => cases hlabel
  · exact .pure rfl

/-! ## Types -/

theorem keeps_typeArg (hL : L.Keeps) : Keeps L p [] typeArg TypeArg.leaves :=
  .look .here fun _ => .bind keeps_argLabel fun _ => .bind hL.type fun _ => .pure rfl

theorem keeps_typeCall (hL : L.Keeps) (callee : String) (calleeSpan : Span) :
    Keeps L p [.name callee] (typeCall callee calleeSpan) TypeExpr.leaves :=
  .next (.needMark _ rfl) fun _ => .bind (.separated _ (keeps_typeArg hL)) fun args => .next (.needMark _ rfl) fun _ =>
    .pure (congrArg (Leaf.name callee :: ·) (typeArgLeaves_eq_flatMap args))

theorem keeps_typeParens (hL : L.Keeps) : Keeps L p [] typeParens TypeExpr.leaves := by
  unfold typeParens
  refine .next (.needMark _ rfl) fun _ => .look (.atMark _) fun _ => .ite (.failAdvisedThen _ _) ?_
  refine .bind hL.type fun first => .next (.takeMark _ rfl) fun _ => ?_
  refine .ite (.look (.atMark _) fun _ => .ite ?_ ?_) (.next (.needMark _ rfl) fun _ => .pure rfl)
  · exact .never (.after fun _ => .record fun _ => ⟨_, rfl⟩)
  · refine .bind (.separated _ hL.type) fun rest => .next (.needMark _ rfl) fun _ => .pure ?_
    exact congrArg (first.leaves ++ ·) (typeLeaves_eq_flatMap rest)

theorem keeps_typeOfName (hL : L.Keeps) {text : String} {kind : Kind} {content : TypeKind}
    (h : ∀ c, p c → c.kind = kind) (hk : kind.leaves = [.name text]) (hcontent : content.leaves = [.name text]) :
    Keeps L p [] (typeOfName text content) TypeExpr.leaves := by
  refine .bind (.advanceAt h) fun _ => .look (.atMark _) fun _ => ?_
  rw [hk]
  exact .ite (keeps_typeCall hL _ _) (.pure hcontent)

theorem keeps_literalType {literal : Reader Expr} (h : Keeps L p [] literal Expr.leaves) :
    Keeps L p [] (literalType literal) TypeExpr.leaves :=
  .bind h fun _ => .pure rfl

/-- The name of a type that is built in stays as it was written. -/
theorem leaves_ofName (text : String) :
    ((BuiltinType.ofName? text).elim (TypeKind.name text) .builtin).leaves = [.name text] := by
  cases h : BuiltinType.ofName? text with
  | none => rfl
  | some b =>
    have hname := List.find?_some h
    rw [Option.elim_some, TypeKind.leaves, eq_of_beq hname]

theorem keeps_typeAtom (hL : L.Keeps) : Keeps L p [] typeAtom TypeExpr.leaves := by
  refine .onKind fun kind => ?_
  split
  · exact keeps_typeOfName hL (fun _ hc => hc.2) rfl (leaves_ofName _)
  · exact keeps_typeOfName hL (fun _ hc => hc.2) rfl rfl
  · exact keeps_literalType (keeps_atom (fun _ hc => hc.2) rfl)
  · exact keeps_literalType (keeps_atom (fun _ hc => hc.2) rfl)
  · exact keeps_literalType (keeps_atom (fun _ hc => hc.2) rfl)
  · exact keeps_literalType (keeps_stringLiteral hL fun _ hc => hc.2)
  · exact keeps_literalType (keeps_listLiteral hL)
  · exact keeps_typeParens hL
  · exact .failUnexpected _

theorem keeps_typeRestUpTo (hL : L.Keeps) (left : TypeExpr) (fuel : Nat) :
    Keeps L p left.leaves (typeRestUpTo left fuel) TypeExpr.leaves := by
  induction fuel generalizing left p with
  | zero => exact .pure rfl
  | succ fuel ih =>
    refine .onKind fun kind => ?_
    split
    · rename_i op hop
      refine .bind (.advanceAt fun _ hc => hc.2) fun _ => .bind (keeps_typeAtom hL) fun right => (ih _).cast ?_
      rw [TypeOp.leaves_of_ofKind? hop, List.append_assoc]
      rfl
    · exact .pure rfl

theorem keeps_typeExpr (hL : L.Keeps) : Keeps L p [] typeExpr TypeExpr.leaves :=
  .bind (keeps_typeAtom hL) fun _ => .look .tokensLeft fun _ => keeps_typeRestUpTo hL _ _

/-! ## Arguments, macros and parentheses -/

theorem keeps_arg (hL : L.Keeps) : Keeps L p [] arg Arg.leaves :=
  .look .here fun _ => .bind keeps_argLabel fun _ => .bind (hL.expr _) fun _ => .pure rfl

theorem keeps_args (hL : L.Keeps) : Keeps L p [] args fun result => argLeaves result.1 :=
  .next (.needMark _ rfl) fun _ => .bind (.separated _ (keeps_arg hL)) fun items => .next (.needMark _ rfl) fun _ =>
    .pure (argLeaves_eq_flatMap items)

/-- The tokens before the brace that closes a group end at that brace or at the end. -/
theorem head_drop_innerLength (depth : Nat) (tokens : List Token) {token : Token} {rest : List Token}
    (h : tokens.drop (innerLength depth tokens) = token :: rest) :
    token.kind.isDone = true ∨ token.kind.isMark .rBrace = true := by
  fun_induction innerLength depth tokens with
  | case1 => cases h
  | case2 depth first rest' hdone =>
    cases h
    exact .inl hdone
  | case4 first rest' hdone hl hr =>
    cases h
    exact .inr hr
  | _ => simp_all

theorem undone_take_innerLength (depth : Nat) (tokens : List Token) : Undone (tokens.take (innerLength depth tokens)) := by
  fun_induction innerLength depth tokens <;> simp_all [Undone]

theorem innerLength_le (depth : Nat) (tokens : List Token) : innerLength depth tokens ≤ tokens.length := by
  fun_induction innerLength depth tokens <;> simp <;> omega

theorem rest_skip_innerLength (c : Cursor) :
    (c.skip (innerLength 0 c.rest)).rest = c.rest.drop (innerLength 0 c.rest) := by
  have hlen : (c.rest.take (innerLength 0 c.rest)).length = innerLength 0 c.rest := by
    rw [List.length_take, Nat.min_eq_left (innerLength_le _ _)]
  rw [Cursor.rest_skip (List.take_append_drop _ _).symm (undone_take_innerLength 0 c.rest) (Nat.le_of_eq hlen.symm)]
  rw [List.drop_eq_nil_of_le (Nat.le_of_eq hlen), List.nil_append]

/-- The tokens between the braces, and the brace that closes them. -/
theorem keeps_macroBody : Keeps L p [] macroBody MacroBody.leaves := by
  refine .next (.needMark _ rfl) fun opening => .onCursor fun c => ?_
  have inner : Keeps L (fun c' => True ∧ c' = c) [] (JuiceSyntax.skip (innerLength 0 c.rest))
      fun _ => tokenLeaves (c.rest.take (innerLength 0 c.rest)) := by
    refine ⟨fun hr ht => ?_, fun {s a t} hp _ hr _ => ?_⟩
    · cases hr
      exact ⟨ht.faults, ht.halted⟩
    · cases hr
      obtain ⟨-, rfl⟩ := hp
      refine ⟨s.cursor.rest.take (innerLength 0 s.cursor.rest), ?_, rfl⟩
      dsimp only
      rw [rest_skip_innerLength, List.take_append_drop]
  have landed {s t : State} (hs : True ∧ s.cursor = c) (hr : JuiceSyntax.skip (innerLength 0 c.rest) L s = .ok () t) :
      t.cursor.rest = c.rest.drop (innerLength 0 c.rest) := by
    cases hr
    rw [← hs.2]
    exact rest_skip_innerLength s.cursor
  have closing (c' : Cursor) (hc : c'.rest = c.rest.drop (innerLength 0 c.rest) ∧ c'.atEnd = false) :
      c'.kind = .mark .rBrace := by
    obtain ⟨hrest, hend⟩ := hc
    cases hdrop : c.rest.drop (innerLength 0 c.rest) with
    | nil => simp [Cursor.atEnd, Cursor.kind, Cursor.current, hrest, hdrop, Kind.isDone] at hend
    | cons token rest =>
      have hkind := Cursor.kind_of_rest (hrest.trans hdrop)
      rw [Cursor.atEnd, hkind] at hend
      obtain hdone | hr := head_drop_innerLength _ _ hdrop
      · exact absurd (hdone.symm.trans hend) (by decide)
      · rw [hkind, eq_of_isMark hr]
  refine .bindTo (q := fun _ c' => c'.rest = c.rest.drop (innerLength 0 c.rest)) inner landed fun _ => ?_
  refine .lookAt (f := Cursor.atEnd) (fun _ => rfl) fun ended => ?_
  split
  · exact .look .here fun _ => .throwThen _
  · rename_i hended
    refine .bind (.advanceAt fun c' hc => closing c' ⟨hc.1, hc.2.trans (by simpa using hended)⟩) fun _ => ?_
    exact .next (.noteBody _) fun _ => .look (.sourceText _) fun _ => .pure (List.append_nil _).symm

theorem keeps_macroCall (hL : L.Keeps) {text : String} (h : ∀ c, p c → c.kind = .macroName text) (position : Position) :
    Keeps L p [] (macroCall text position) Expr.leaves := by
  refine .bind (.advanceAt h) fun _ => .look (.atMark _) fun _ =>
    .iteBind (keeps_args hL) (.pure rfl) fun _ => .look (.atMark _) fun _ => .ite ?_ ?_
  · exact .bind keeps_macroBody fun body => .pure (by simp [Expr.leaves, ExprKind.leaves, Kind.leaves])
  · exact .ite (.pure (by simp [Expr.leaves, ExprKind.leaves, Kind.leaves])) (.failUnexpected _)

theorem keeps_parens (hL : L.Keeps) : Keeps L p [] parens Expr.leaves := by
  unfold parens
  refine .next (.needMark _ rfl) fun _ => .look (.atMark _) fun _ => .ite (.failAdvisedThen _ _) ?_
  refine .bind (hL.expr _) fun first => .next (.takeMark _ rfl) fun _ => ?_
  refine .ite (.look (.atMark _) fun _ => .ite ?_ ?_) (.next (.needMark _ rfl) fun _ => .pure rfl)
  · exact .never (.after fun _ => .record fun _ => ⟨_, rfl⟩)
  · refine .bind (.separated _ (hL.expr _)) fun rest => .next (.needMark _ rfl) fun _ => .pure ?_
    exact congrArg (first.leaves ++ ·) (exprLeaves_eq_flatMap rest)

/-! ## Braces -/

theorem keeps_blockExpr (hL : L.Keeps) : Keeps L p [] blockExpr Expr.leaves := .bind hL.block fun _ => .pure rfl

theorem keeps_unresolvable : Keeps L p [] unresolvable Expr.leaves :=
  .never (.after fun _ => .after fun _ => .after fun _ => .after fun _ => .record fun _ => ⟨_, rfl⟩)

/-- A brace tried as one form and then as something else. -/
theorem keeps_tryBrace_else (form : BraceForm) {r otherwise : Reader Expr} (hgrows : ∀ s, Grows s (Ending.state (r L s)))
    (h : Keeps L p [] r Expr.leaves) (ho : Keeps L (fun _ => True) [] otherwise Expr.leaves) :
    Keeps L p [] (do
      if let some e ← tryBrace form r then
        return e
      otherwise) Expr.leaves := by
  refine .bind (.tryBrace hgrows h) fun found => ?_
  cases found with
  | some e => exact .pure rfl
  | none => exact ho

theorem keeps_tryRecord_else (hL : L.Keeps) {otherwise : Reader Expr}
    (h : Keeps L (fun _ => True) [] otherwise Expr.leaves) :
    Keeps L p [] (do
      if let some e ← tryRecord then
        return e
      otherwise) Expr.leaves :=
  keeps_tryBrace_else .record (fun s => hL.grows.record s trivial) hL.record h

theorem keeps_tryBlock_else (hL : L.Keeps) {otherwise : Reader Expr}
    (h : Keeps L (fun _ => True) [] otherwise Expr.leaves) :
    Keeps L p [] (do
      if let some e ← tryBlock then
        return e
      otherwise) Expr.leaves :=
  keeps_tryBrace_else .block (fun s => composed_blockExpr.grows inherited_true hL.grows s trivial) (keeps_blockExpr hL) h

theorem keeps_braceValue (hL : L.Keeps) : Keeps L p [] braceValue Expr.leaves :=
  .look .cursor fun _ => .ite (keeps_tryRecord_else hL (keeps_tryBlock_else hL keeps_unresolvable)) (keeps_blockExpr hL)

theorem keeps_armBody (hL : L.Keeps) : Keeps L p [] armBody Expr.leaves := by
  refine .look (.atMark _) fun _ => .ite ?_ (.failThen _)
  exact keeps_tryBlock_else hL
    (.look .cursor fun _ => .ite (keeps_tryRecord_else hL keeps_unresolvable) (keeps_blockExpr hL))

/-! ## Control flow -/

def Branch.leaves (branch : Branch) : List Leaf := branch.test.leaves ++ branch.body.leaves

theorem leaves_toExpr (branch : Branch) (otherwise : Option Expr) :
    (branch.toExpr otherwise).leaves = branch.leaves ++ optionalExprLeaves otherwise := rfl

theorem keeps_branch (hL : L.Keeps) : Keeps L p [] branch Branch.leaves :=
  .next (.needWord _) fun _ => .bind (hL.expr _) fun _ => .bind hL.block fun _ => .pure rfl

theorem keeps_elseBranchesUpTo (hL : L.Keeps) (fuel : Nat) :
    Keeps L p [] (elseBranchesUpTo fuel) fun result =>
      result.1.flatMap Branch.leaves ++ optionalExprLeaves result.2 := by
  induction fuel generalizing p with
  | zero => exact .pure rfl
  | succ fuel ih =>
    refine .next (.takeWord _) fun _ => .ite (.look .kind fun _ => .ite ?_ ?_) (.pure rfl)
    · exact .bind (keeps_branch hL) fun _ => .bind ih fun _ => .pure (List.append_assoc _ _ _)
    · exact .bind (keeps_blockExpr hL) fun _ => .pure rfl

/-- Branches folded into one conditional keep their order. -/
theorem optionalExprLeaves_foldr (branches : List Branch) (last : Option Expr) :
    optionalExprLeaves (branches.foldr (fun b otherwise => some (b.toExpr otherwise)) last) =
      branches.flatMap Branch.leaves ++ optionalExprLeaves last := by
  induction branches with
  | nil => rfl
  | cons branch rest ih =>
    rw [List.foldr_cons, optionalExprLeaves, leaves_toExpr, ih, List.flatMap_cons, List.append_assoc]

theorem keeps_conditional (hL : L.Keeps) : Keeps L p [] conditional Expr.leaves :=
  .bind (keeps_branch hL) fun first => .look .tokensLeft fun _ => .bind (keeps_elseBranchesUpTo hL _) fun others =>
    .pure (congrArg (first.leaves ++ ·) (optionalExprLeaves_foldr others.1 others.2))

theorem keeps_pattern (hL : L.Keeps) : Keeps L p [] pattern Pattern.leaves := by
  have value : Keeps L p [] (do
      let value ← expr .head
      unless ← Reader.atMark .arrow do
        Reader.failUnexpected (.mark .arrow)
      return value) Expr.leaves :=
    .bind (hL.expr _) fun _ => .look (.atMark _) fun _ => .ite (.pure rfl) (.failThen _)
  have composed : Composed (fun _ => True) (do
      let value ← expr .head
      unless ← Reader.atMark .arrow do
        Reader.failUnexpected (.mark .arrow)
      return value) :=
    .bind (.expr _) fun _ => .bind (.atMark _) fun _ => .unlessBind (.failUnexpected _) fun _ => .pure _
  refine .bind (.speculate (fun s => composed.grows inherited_true hL.grows s trivial) value) fun found => ?_
  cases found with
  | some value => exact .pure rfl
  | none => exact .bind hL.type fun _ => .pure rfl

theorem keeps_arm (hL : L.Keeps) : Keeps L p [] arm Arm.leaves :=
  .bind (keeps_pattern hL) fun _ => .next (.needMark _ rfl) fun _ => .bind (keeps_armBody hL) fun _ => .pure rfl

theorem keeps_selection (hL : L.Keeps) : Keeps L p [] selection Expr.leaves := by
  refine .next (.needWord _) fun _ => .bind (hL.expr _) fun scrutinee => .next (.needMark _ rfl) fun _ =>
    .bind (.recovering (keeps_arm hL) _ _) fun arms => .next (.needMark _ rfl) fun _ => .pure ?_
  exact congrArg (scrutinee.leaves ++ ·) (armLeaves_eq_flatMap arms)

/-! ## Operands and chains -/

theorem keeps_primary (hL : L.Keeps) (position : Position) : Keeps L p [] (primary position) Expr.leaves := by
  refine .onKind fun kind => ?_
  split
  · exact keeps_atom (fun _ hc => hc.2) rfl
  · exact keeps_atom (fun _ hc => hc.2) rfl
  · exact keeps_atom (fun _ hc => hc.2) rfl
  · exact keeps_atom (fun _ hc => hc.2) rfl
  · exact keeps_atom (fun _ hc => hc.2) rfl
  · exact keeps_stringLiteral hL fun _ hc => hc.2
  · exact keeps_macroCall hL (fun _ hc => hc.2) _
  · exact keeps_listLiteral hL
  · exact keeps_parens hL
  · cases position with
    | statement => exact keeps_blockExpr hL
    | value => exact keeps_braceValue hL
    | head => exact .failUnexpected _
  · exact .bind (keeps_fnDecl hL) fun _ => .pure rfl
  · exact .bind (keeps_fnDecl hL) fun _ => .pure rfl
  · exact keeps_conditional hL
  · exact keeps_selection hL
  · exact .look .here fun _ => .throw
  · exact .look .here fun _ => .throw
  · exact .failUnexpected _

theorem keeps_accessesUpTo (hL : L.Keeps) (position : Position) (base : Expr) (fuel : Nat) :
    Keeps L p base.leaves (accessesUpTo position base fuel) Expr.leaves := by
  induction fuel generalizing base p with
  | zero => exact .pure rfl
  | succ fuel ih =>
    exact .next (.takeMark _ rfl) fun _ => .ite (.bind (keeps_primary hL _) fun _ => (ih _).cast rfl) (.pure rfl)

theorem keeps_onceAttempted (e : Expr) {next : Unit → Reader Expr} (h : Keeps L p e.leaves (next ()) Expr.leaves) :
    Keeps L p e.leaves (onceAttempted e next) Expr.leaves := by
  unfold onceAttempted
  split
  · exact .failAdvisedThen _ _
  · exact h

theorem keeps_attemptOf {e : Expr} (h : ∀ c, p c → c.kind = .mark .question) :
    Keeps L p e.leaves (attemptOf e) Expr.leaves :=
  keeps_onceAttempted e (.ite (.bind (.advanceAt h) fun _ => .pure rfl) (.failAdvisedThen _ _))

theorem keeps_postfixUpTo (hL : L.Keeps) (position : Position) (e : Expr) (fuel : Nat) :
    Keeps L p e.leaves (postfixUpTo position e fuel) Expr.leaves := by
  induction fuel generalizing e p with
  | zero => exact .pure rfl
  | succ fuel ih =>
    refine .onKind fun kind => ?_
    split
    · exact .bind (keeps_args hL) fun _ => (ih _).cast rfl
    · refine .next (.passAt (fun _ hc => hc.2) rfl) fun _ => .bind (keeps_primary hL _) fun first => .look .tokensLeft fun _ => ?_
      exact (keeps_accessesUpTo hL _ _ _).extend fun member => (ih _).cast rfl
    · exact .next (.passAt (fun _ hc => hc.2) rfl) fun _ => .bind (keeps_primary hL _) fun _ => (ih _).cast rfl
    · change Keeps L _ ([] ++ e.leaves) _ _
      exact (keeps_attemptOf fun _ hc => hc.2).extend fun inner => ih inner
    · exact .pure rfl

theorem keeps_postfixExpr (hL : L.Keeps) (position : Position) : Keeps L p [] (postfixExpr position) Expr.leaves :=
  .bind (keeps_primary hL _) fun _ => .look .tokensLeft fun _ => keeps_postfixUpTo hL _ _ _

theorem keeps_unaryExpr (hL : L.Keeps) (position : Position) : Keeps L p [] (unaryExpr position) Expr.leaves := by
  refine .onKind fun kind => ?_
  split
  · rename_i op hop
    refine .bind (.advanceAt fun _ hc => hc.2) fun _ => .bind (hL.operand _) fun inner => .pure ?_
    rw [UnaryOp.leaves_of_ofKind? hop]
    rfl
  · exact keeps_postfixExpr hL _

/-- An operator and the operand after it. -/
def linkLeaves (link : BinaryOp × Expr) : List Leaf := .operator link.1.mark :: link.2.leaves

theorem keeps_chainUpTo (hL : L.Keeps) (level : Nat) (position : Position) (fuel : Nat) :
    Keeps L p [] (chainUpTo level position fuel) fun rest => rest.flatMap linkLeaves := by
  induction fuel generalizing p with
  | zero => exact .pure rfl
  | succ fuel ih =>
    refine .onKind fun kind => ?_
    split
    · rename_i op hop
      refine .bind (.advanceAt fun _ hc => hc.2) fun _ => .bind (keeps_unaryExpr hL _) fun _ => .bind ih fun _ => .pure ?_
      rw [BinaryOp.leaves_of_ofKind? (Option.filter_eq_some_iff.1 hop).1]
      rfl
    · exact .pure rfl

/-- An operand that waits, and its operator. -/
def waitingLeaves (waiting : Expr × BinaryOp) : List Leaf := waiting.1.leaves ++ [.operator waiting.2.mark]

/-- Joining an operand to those that wait for it keeps the order. -/
theorem leaves_settle (level : Nat) (waiting : List (Expr × BinaryOp)) (right : Expr) :
    (settle level waiting right).1.reverse.flatMap waitingLeaves ++ (settle level waiting right).2.leaves =
      waiting.reverse.flatMap waitingLeaves ++ right.leaves := by
  induction waiting generalizing right with
  | nil => rfl
  | cons w waiting ih =>
    unfold settle
    split
    · rw [ih]
      simp [binaryExpr, waitingLeaves, Expr.leaves, ExprKind.leaves]
    · rfl

theorem leaves_climb (waiting : List (Expr × BinaryOp)) (last : Expr) (rest : List (BinaryOp × Expr)) :
    (climb waiting last rest).leaves =
      waiting.reverse.flatMap waitingLeaves ++ last.leaves ++ rest.flatMap linkLeaves := by
  induction rest generalizing waiting last with
  | nil =>
    have h := leaves_settle 0 waiting last
    rw [settle_zero] at h
    rw [climb, List.flatMap_nil, List.append_nil]
    exact h
  | cons next rest ih =>
    obtain ⟨op, e⟩ := next
    have h := leaves_settle op.level waiting last
    simp only [climb]
    rw [ih, List.reverse_cons, List.flatMap_append, List.flatMap_cons, ← h]
    simp [waitingLeaves, linkLeaves]

theorem keeps_chain (hL : L.Keeps) (level : Nat) (position : Position) :
    Keeps L p [] (chain level position) Expr.leaves :=
  .bind (keeps_unaryExpr hL _) fun first => .look .tokensLeft fun _ => .bind (keeps_chainUpTo hL _ _ _) fun rest =>
    .pure (leaves_climb [] first rest)

/-! ## Records -/

theorem keeps_fieldEnd (field : RecordField) : Keeps L p field.leaves (fieldEnd field) RecordField.leaves := by
  refine .next (.takeMark _ rfl) fun _ => .ite (.pure rfl) (.look .kind fun _ => ?_)
  split
  · exact .pure rfl
  · exact .pure rfl
  · exact .failThen _

theorem keeps_recordField (hL : L.Keeps) : Keeps L p [] recordField RecordField.leaves := by
  refine .bind keeps_name fun _ => .next (.takeMark _ rfl) fun _ => ?_
  exact .ite (.bind (hL.expr _) fun _ => .known ((keeps_fieldEnd _).cast rfl)) (.known ((keeps_fieldEnd _).cast rfl))

theorem keeps_recordFieldsUpTo (hL : L.Keeps) (fuel : Nat) :
    Keeps L p [] (recordFieldsUpTo fuel) fun fields => fields.flatMap RecordField.leaves := by
  induction fuel generalizing p with
  | zero => exact .pure rfl
  | succ fuel ih =>
    exact .look (.atMark _) fun _ => .ite (.pure rfl) (.bind (keeps_recordField hL) fun _ => .bind ih fun _ => .pure rfl)

/-- The fields end before a closing brace or at the end of the tokens. -/
theorem recordFieldsUpTo_ends (hL : L.Grows) {fuel : Nat} {s t : State} {fields : List RecordField}
    (h : s.cursor.left ≤ fuel) (hr : recordFieldsUpTo fuel L s = .ok fields t) :
    t.cursor.rest = [] ∨ t.cursor.kind = .mark .rBrace := by
  induction fuel generalizing s fields with
  | zero =>
    have hnil : s.cursor.rest = [] := List.length_eq_zero_iff.1 (s.cursor.left_eq.symm.trans (Nat.le_zero.1 h))
    cases hr
    exact .inl hnil
  | succ fuel ih =>
    rw [recordFieldsUpTo, bind_apply, atMark_apply, Ending.andThen_ok] at hr
    split at hr
    · rename_i hclose
      cases hr
      exact .inr (eq_of_isMark hclose)
    · obtain ⟨first, u, hfirst, hr⟩ := ok_of_bind hr
      obtain ⟨rest, v, hrest, hr⟩ := ok_of_bind hr
      cases hr
      have hlt := takes_recordField hL s first u hfirst
      exact ih (by omega) hrest

theorem keeps_recordExpr (hL : L.Keeps) : Keeps L p [] recordExpr Expr.leaves := by
  refine .next (.needMark _ rfl) fun _ => .lookAt (f := Cursor.left) (fun _ => rfl) fun left => ?_
  refine .bindTo (q := fun _ c => c.rest = [] ∨ c.kind = .mark .rBrace) (keeps_recordFieldsUpTo hL left)
    (fun hp hr => recordFieldsUpTo_ends hL.grows (Nat.le_of_eq hp.2) hr) fun fields => ?_
  have silent (c : Cursor) (hc : c.rest = [] ∨ c.kind = .mark .rBrace) : c.kind.leaves = [] := by
    obtain hnil | hclose := hc
    · simp only [Cursor.kind, Cursor.current, hnil, List.headD_nil]
      rfl
    · rw [hclose]
      rfl
  exact .next (.pass silent) fun _ => .pure (recordFieldLeaves_eq_flatMap fields)

/-! ## Statements and blocks -/

def Binding.leaves (binding : Binding) : List Leaf :=
  .name binding.name :: optionalTypeLeaves binding.type ++ binding.value.leaves

theorem keeps_binding (hL : L.Keeps) : Keeps L p [] binding Binding.leaves := by
  refine .bind keeps_name fun _ => .next (.takeMark _ rfl) fun _ => .ite ?_ ?_
  · exact .bind hL.type fun _ => .next (.takeMark _ rfl) fun _ => .ite
      (.known (.bind (hL.expr _) fun _ => .pure rfl)) (.failThen _)
  · exact .next (.needMark _ rfl) fun _ => .known (.bind (hL.expr _) fun _ => .pure rfl)

theorem keeps_assignment (hL : L.Keeps) :
    Keeps L p [] assignment fun binding => .name binding.name :: binding.value.leaves :=
  .bind keeps_name fun _ => .next (.needMark _ rfl) fun _ => .bind (hL.expr _) fun _ => .pure rfl

theorem keeps_loop (hL : L.Keeps) : Keeps L p [] loop StatementKind.leaves := by
  unfold loop
  refine .next (.needWord _) fun _ => .look (.atMark _) fun _ => .ite (.bind hL.block fun _ => .pure rfl) ?_
  have ranged {q : Cursor → Prop} (element : Option String) : Keeps L q (element.toList.map .name) (do
      let first ← expr .head
      let range ← if ← Reader.takeMark .dotDot then .between first <$> expr .head else pure (.over first)
      return StatementKind.loop element range (← block)) StatementKind.leaves := by
    refine .bind (hL.expr _) fun first => .next (.takeMark _ rfl) fun _ => .ite ?_ ?_
    · have between : Keeps L (fun _ => True) first.leaves (LoopRange.between first <$> expr .head) LoopRange.leaves :=
        .map _ (hL.expr _) fun _ => rfl
      exact between.extend fun _ => .bind hL.block fun _ => .pure rfl
    · exact .known (.bind hL.block fun _ => .pure rfl)
  refine .onKind fun kind => .onPeek 1 fun second => ?_
  split
  · refine .bind (.skipTwo (fun _ hc => ⟨hc.1.2, hc.2⟩) rfl) fun _ => .known ((ranged _).cast rfl)
  · exact .known (ranged none)

theorem keeps_leave (hL : L.Keeps) (h : ∀ c, p c → c.kind = .word .returnWord) :
    Keeps L p [] leave StatementKind.leaves :=
  .bind (.advanceAt h) fun _ => .look .cursor fun _ => .ite (.bind (hL.expr _) fun _ => .pure rfl) (.pure rfl)

theorem keeps_statementKind (hL : L.Keeps) : Keeps L p [] statementKind StatementKind.leaves := by
  refine .onKind fun kind => ?_
  split
  · exact keeps_leave hL fun _ hc => hc.2
  · exact .bind (.advanceAt fun _ hc => hc.2) fun _ => .pure rfl
  · exact .bind (.advanceAt fun _ hc => hc.2) fun _ => .pure rfl
  · exact keeps_loop hL
  · exact .bind (keeps_fnDecl hL) fun _ => .pure rfl
  · exact .bind (keeps_fnDecl hL) fun _ => .pure rfl
  · exact .bind hL.block fun _ => .pure rfl
  · exact .look .here fun _ => .throw
  · exact .look .here fun _ => .throw
  · exact .failAdvised _ _
  · exact .failAdvised _ _
  · exact .failAdvised _ _
  · exact .failAdvised _ _
  · exact .failAdvised _ _
  · refine .look .cursor fun _ => .ite (.bind (keeps_binding hL) fun _ => .pure rfl) ?_
    exact .ite (.bind (keeps_assignment hL) fun _ => .pure rfl) (.bind (hL.expr _) fun _ => .pure rfl)
  · exact .look (.peek 1) fun _ => .ite (.failAdvised _ _) (.bind (hL.expr _) fun _ => .pure rfl)
  · exact .bind (hL.expr _) fun _ => .pure rfl

theorem keeps_statement (hL : L.Keeps) : Keeps L p [] statement Statement.leaves :=
  .look .here fun _ => .bind (keeps_statementKind hL) fun _ => .look (.spanFrom _) fun _ => .pure rfl

/-- At the end of the tokens the missing brace shows. -/
theorem keeps_blockBody (hL : L.Keeps) : Keeps L p [] blockBody Block.leaves := by
  refine .next (.needMark _ rfl) fun _ => .bind (.recovering (keeps_statement hL) _ _) fun statements => ?_
  refine .lookAt (f := fun c => c.kind.isMark .rBrace) (fun _ => rfl) fun closed => ?_
  split
  · rename_i hclosed
    refine .next (.passAt (fun _ hc => eq_of_isMark (hc.2.trans hclosed)) rfl) fun _ => .pure ?_
    exact statementLeaves_eq_flatMap statements
  · refine .look .here fun _ => .look .kind fun _ => .look .atEnd fun _ => .look .halted fun _ => .ite ?_ .throw
    exact .never (.record fun _ => ⟨_, rfl⟩)

/-! ## Items -/

theorem keeps_pathRestUpTo (fuel : Nat) : Keeps L p [] (pathRestUpTo fuel) fun path => path.map .name := by
  induction fuel generalizing p with
  | zero => exact .pure rfl
  | succ fuel ih =>
    exact .next (.takeMark _ rfl) fun _ => .ite (.bind keeps_anyName fun _ => .bind ih fun _ => .pure rfl) (.pure rfl)

theorem keeps_exposed : Keeps L p [] exposed Exposed.leaves := by
  refine .onKind fun kind => ?_
  split
  · exact .bind (.advanceAt fun _ hc => hc.2) fun _ => .pure rfl
  · exact .bind (.advanceAt fun _ hc => hc.2) fun _ => .pure rfl
  · exact .bind (.advanceAt fun _ hc => hc.2) fun _ => .pure rfl
  · exact .failUnexpected _

theorem keeps_importDecl : Keeps L p [] importDecl Import.leaves := by
  refine .next (.takeWord _) fun _ => .next (.needWord _) fun _ => .next (.takeMark _ rfl) fun _ =>
    .bind keeps_anyName fun _ => .look .tokensLeft fun _ => .bind (keeps_pathRestUpTo _) fun _ =>
    .next (.takeWord _) fun _ => .iteBind (v := fun renamed => renamed.toList.map .name)
      (.map _ keeps_anyName fun _ => rfl) (.pure rfl) fun renamed => ?_
  refine .next (.takeMark _ rfl) fun _ => .ite ?_ (.known (.pure ?_))
  · exact .bind (.separated _ keeps_exposed) fun _ => .next (.needMark _ rfl) fun _ => .known (.pure rfl)
  · simp [Import.leaves, namedLeaves]

def Member.leaves : Member → List Leaf
  | .field f => f.leaves
  | .constructor c => c.leaves

theorem keeps_member (hL : L.Keeps) : Keeps L p [] member Member.leaves := by
  refine .onCursor fun c => ?_
  have field {text : String} {kind : Kind} (hkind : c.kind = kind ∧ c.peek 1 = .mark .colon)
      (hdone : kind.isDone = false) (hleaves : kind.leaves = [.name text]) (span : Span) :
      Keeps L (fun c' => p c' ∧ c' = c) [] (do
        skip 2
        let declared ← type
        return .field ⟨text, declared, span.cover declared.span⟩) Member.leaves := by
    refine .bind (.skipTwo (fun c' hc => hc.2 ▸ hkind) hdone) fun _ => .bind hL.type fun _ => .pure ?_
    rw [hleaves]
    rfl
  dsimp only
  split
  · rename_i hk hp
    exact field ⟨hk, hp⟩ rfl rfl _
  · rename_i hk hp
    exact field ⟨hk, hp⟩ rfl rfl _
  · rename_i text hk _
    exact .bind (.advanceAt fun c' hc => hc.2 ▸ hk) fun _ => .look (.atMark _) fun _ =>
      .iteBind (keeps_params hL keeps_name) (.pure rfl) fun _ => .look (.spanFrom _) fun _ => .pure rfl
  · exact .failAdvised _ _

def optionalBodyLeaves : Option TypeBody → List Leaf
  | none => []
  | some body => body.leaves

theorem keeps_addMember {body : Option TypeBody} (h : OfMembers body) (member : Member) :
    Keeps L p (optionalBodyLeaves body ++ member.leaves) (addMember body member) optionalBodyLeaves := by
  have added (fs : List Field) (f : Field) :
      (TypeBody.fields (fs ++ [f])).leaves = (TypeBody.fields fs).leaves ++ f.leaves := by
    simp [TypeBody.leaves]
  have added' (cs : List Constructor) (c : Constructor) :
      (TypeBody.constructors (cs ++ [c])).leaves = (TypeBody.constructors cs).leaves ++ c.leaves := by
    simp [TypeBody.leaves]
  match body, member with
  | some (.fields fs), .field f => exact .pure (added fs f)
  | some (.constructors cs), .constructor c => exact .pure (added' cs c)
  | some (.fields _), .constructor _ => exact .never (.record fun _ => ⟨_, rfl⟩)
  | some (.constructors _), .field _ => exact .never (.record fun _ => ⟨_, rfl⟩)
  | none, .field f => exact .pure (added [] f)
  | none, .constructor c => exact .pure (added' [] c)
  | some (.synonym type), _ => exact absurd rfl (h type)

theorem keeps_membersUpTo (hL : L.Keeps) {body : Option TypeBody} (h : OfMembers body) (fuel : Nat) :
    Keeps L p (optionalBodyLeaves body) (membersUpTo body fuel) optionalBodyLeaves := by
  induction fuel generalizing body p with
  | zero => exact .pure rfl
  | succ fuel ih =>
    refine .look (.atMark _) fun _ => .ite (.pure rfl) (.bind (keeps_member hL) fun member => ?_)
    change Keeps L _ ([] ++ _) _ _
    exact (keeps_addMember h member).extendOf (q := fun _ _ => True) (fun _ _ => trivial) fun body' s t hr =>
      .next (.takeMark .comma rfl) fun _ => ih (addMember_ofMembers hr)

theorem keeps_members (hL : L.Keeps) : Keeps L p [] members TypeBody.leaves := by
  refine .next (.needMark _ rfl) fun _ => .look .tokensLeft fun _ => ?_
  refine .bind ((keeps_membersUpTo hL ofMembers_none _).cast rfl) fun body => .next (.needMark _ rfl) fun _ => .pure ?_
  cases body <;> rfl

theorem keeps_declaredType (keyword : Bool) : Keeps L p [] (declaredType keyword) namedLeaves := by
  refine .ite keeps_anyName (.onKind fun kind => ?_)
  split
  · exact .bind (.advanceAt fun _ hc => hc.2) fun _ => .pure rfl
  · exact .failUnexpected _

theorem keeps_typeDecl (hL : L.Keeps) : Keeps L p [] typeDecl TypeDecl.leaves :=
  .next (.takeWord _) fun _ => .bind (keeps_declaredType _) fun _ => .look (.atMark _) fun _ =>
    .iteBind (keeps_params hL keeps_anyName) (.pure rfl) fun _ => .next (.needMark _ rfl) fun _ =>
    .look (.atMark _) fun _ => .iteBind (keeps_members hL) (.map _ hL.type fun _ => rfl) fun _ => .pure rfl

theorem keeps_implFn (hL : L.Keeps) : Keeps L p [] implFn FnDecl.leaves := by
  refine .onKind fun kind => ?_
  split
  · exact keeps_fnDecl hL
  · exact keeps_fnDecl hL
  · exact .failUnexpected _

theorem keeps_implDecl (hL : L.Keeps) : Keeps L p [] implDecl Impl.leaves := by
  refine .next (.needWord _) fun _ => .bind hL.type fun _ => .next (.takeWord _) fun _ => .ite ?_ ?_
  · exact .bind hL.type fun _ => .known (.next (.needMark _ rfl) fun _ =>
      .bind (.recovering (keeps_implFn hL) _ _) fun _ => .next (.needMark _ rfl) fun _ => .pure rfl)
  · exact .known (.next (.needMark _ rfl) fun _ =>
      .bind (.recovering (keeps_implFn hL) _ _) fun _ => .next (.needMark _ rfl) fun _ => .pure rfl)

theorem keeps_itemKind (hL : L.Keeps) : Keeps L p [] itemKind ItemKind.leaves := by
  refine .look .cursor fun c => ?_
  split
  · exact .bind keeps_importDecl fun _ => .pure rfl
  · exact .bind keeps_importDecl fun _ => .pure rfl
  · exact .bind (keeps_fnDecl hL) fun _ => .pure rfl
  · exact .bind (keeps_fnDecl hL) fun _ => .pure rfl
  · exact .bind (keeps_typeDecl hL) fun _ => .pure rfl
  · exact .bind (keeps_implDecl hL) fun _ => .pure rfl
  · exact .throw
  · exact .throw
  · refine .ite (.bind (keeps_binding hL) fun _ => .pure rfl) ?_
    exact .ite (.bind (keeps_assignment hL) fun _ => .pure rfl) .throw
  · exact .ite (.bind (keeps_typeDecl hL) fun _ => .pure rfl) (.failUnexpected _)

theorem keeps_item (hL : L.Keeps) : Keeps L p [] item Item.leaves := by
  unfold item
  refine .look .here fun _ => .next (.takeWord _) fun _ => .look .cursor fun _ => .ite (.throwThen _) ?_
  exact .bind (keeps_itemKind hL) fun _ => .look (.spanFrom _) fun _ => .pure rfl

end Grammar

/-! ## Programs -/

theorem tooDeep_keeps {setting : Setting} {r : Reader α} {view : α → List Leaf}
    (h : r (level setting 0) = tooDeep setting.options.maxDepth) : Keeps (level setting 0) p [] r view :=
  .never fun s a t hr => by
    rw [h] at hr
    cases hr

theorem level_keeps (setting : Setting) (n : Nat) : (level setting n).Keeps := by
  induction n with
  | zero => exact ⟨level_grows setting 0, fun _ => tooDeep_keeps rfl, fun _ => tooDeep_keeps rfl, tooDeep_keeps rfl,
      tooDeep_keeps rfl, tooDeep_keeps rfl⟩
  | succ n ih =>
    have lift {β : Type} {q : Cursor → Prop} {r r' : Reader β} {view : β → List Leaf}
        (h : Keeps (level setting n) q [] r view) (heq : r' (level setting (n + 1)) = r (level setting n)) :
        Keeps (level setting (n + 1)) q [] r' view := by
      refine ⟨?_, ?_⟩
      · rw [heq]
        exact h.clear
      · rw [heq]
        exact h.keeps
    exact ⟨level_grows setting (n + 1), fun position => lift (keeps_chain ih 1 position) rfl,
      fun position => lift (keeps_chain ih operandLevel position) rfl, lift (keeps_blockBody ih) rfl,
      lift (keeps_typeExpr ih) rfl, lift (keeps_recordExpr ih) rfl⟩

/-- A reading without faults has come to the end, and nothing has halted it. -/
theorem readItems_clear {setting : Setting} {tokens : List Token} (h : (readItems setting tokens).faults = []) :
    ∃ t, itemsEnding setting tokens = .ok (readItems setting tokens).value t ∧ t.Clear ∧ t.cursor.atEnd = true := by
  rw [readItems_eq] at h ⊢
  obtain ⟨items, t, hread⟩ := itemsEnding_ok setting tokens
  have hlevel := level_grows setting setting.options.maxDepth
  have hgrows := composed_items.grows inherited_true hlevel (.ofTokens tokens) trivial
  rw [itemsEnding] at hread
  rw [hread, Ending.state_ok] at hgrows
  rw [itemsEnding, hread] at h ⊢
  have hclear : t.Clear := hgrows.clear_of_faults rfl h
  exact ⟨t, rfl, hclear,
    (itemsUpTo_ends hlevel (Nat.le_refl _) hread).resolve_left (by rw [hclear.halted]; decide)⟩

/-- The items of a regular token list without faults have its leaves. -/
theorem flatMap_leaves_readItems {setting : Setting} {tokens : List Token} (hregular : Regular tokens)
    (h : (readItems setting tokens).faults = []) :
    (readItems setting tokens).value.flatMap Item.leaves = tokenLeaves tokens := by
  obtain ⟨t, hread, hclear, hend⟩ := readItems_clear h
  have hlevel := level_keeps setting setting.options.maxDepth
  obtain ⟨consumed, hrest, hview⟩ :=
    ((keeps_item hlevel).recovering (p := fun _ => True) _ _).keeps trivial hregular hread hclear
  have hrest : tokens = consumed ++ t.cursor.rest := hrest
  have hlast : Regular t.cursor.rest := by
    rw [hrest] at hregular
    exact hregular.suffix
  rw [hview, List.nil_append, hrest, tokenLeaves_append, tokenLeaves_of_atEnd hlast hend, List.append_nil]

/-- Whatever is written stands in the tree of a program without faults, once, and in its place. -/
theorem readItems_leaves (setting : Setting) (source : String)
    (h : (readItems setting (lex source).tokens).faults = []) :
    (readItems setting (lex source).tokens).value.flatMap Item.leaves = tokenLeaves (lex source).tokens :=
  flatMap_leaves_readItems (lex_regular source) h

/-- The arm is tried as a block before it is read as a record, and the label is a word. -/
theorem readItems_leaves_arm :
    (readItems (.ofSource "f := match x \x7b 1 -> \x7b a = g(of: \"$\x7b-x\x7d\"), b \x7d \x7d" .standard)
        (lex "f := match x \x7b 1 -> \x7b a = g(of: \"$\x7b-x\x7d\"), b \x7d \x7d").tokens).faults = [] ∧
      (readItems (.ofSource "f := match x \x7b 1 -> \x7b a = g(of: \"$\x7b-x\x7d\"), b \x7d \x7d" .standard)
          (lex "f := match x \x7b 1 -> \x7b a = g(of: \"$\x7b-x\x7d\"), b \x7d \x7d").tokens).value.flatMap Item.leaves =
        tokenLeaves (lex "f := match x \x7b 1 -> \x7b a = g(of: \"$\x7b-x\x7d\"), b \x7d \x7d").tokens := by
  have hclean : (readItems (.ofSource "f := match x \x7b 1 -> \x7b a = g(of: \"$\x7b-x\x7d\"), b \x7d \x7d" .standard)
      (lex "f := match x \x7b 1 -> \x7b a = g(of: \"$\x7b-x\x7d\"), b \x7d \x7d").tokens).faults = [] :=
    List.isEmpty_iff.1 (by decide +kernel)
  exact ⟨hclean, readItems_leaves _ _ hclean⟩

end JuiceSyntax
