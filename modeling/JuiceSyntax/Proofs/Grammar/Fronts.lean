/-
  What stands in front of bodies and arms, in all that is read. If something holds of all that is read as a
  head, and something of all that is read as a pattern before an arrow, then every node that the productions
  of the grammar make has such heads and patterns: one lemma for each production, by the rules for steps.

  `level_fronts`: so do the readers of a level, if it holds of heads and patterns at every level.
-/
import JuiceSyntax.Proofs.Grammar.Giving
import JuiceSyntax.Proofs.Grammar.Lawful
import JuiceSyntax.Proofs.Tree.Heads

namespace JuiceSyntax

open Reader Grammar

/-- All heads and patterns of these nodes are as they should be. -/
abbrev Fronts (head : Expr → Prop) (choice : Pattern → Prop) (nodes : List Node) : Prop :=
  AllNodes (Node.Fronted head choice) nodes

variable {cond : State → Prop} {head : Expr → Prop} {choice : Pattern → Prop} {L : Level} {α : Type}

/-- A node without heads and patterns, and those after it. -/
theorem Fronts.plain {node : Node} {nodes : List Node} (h : node.heads = []) (h' : node.patterns = [])
    (hnodes : Fronts head choice nodes) : Fronts head choice (node :: nodes) :=
  .cons (.plain h h') hnodes

/-- An expression that has neither. -/
theorem Fronts.expr {kind : ExprKind} {span : Span} (h : (Node.expr kind).heads = []) (h' : (Node.expr kind).patterns = [])
    (hnodes : Fronts head choice kind.nodes) : Fronts head choice (Expr.nodes ⟨kind, span⟩) :=
  .plain h h' hnodes

theorem Fronts.word {text : String} {nodes : List Node} (h : Fronts head choice nodes) :
    Fronts head choice (.word text :: nodes) :=
  .plain rfl rfl h

theorem Fronts.type {kind : TypeKind} {nodes : List Node} (h : Fronts head choice nodes) :
    Fronts head choice (.type kind :: nodes) :=
  .plain rfl rfl h

/-- A statement that is no loop. -/
theorem Fronts.statement {kind : StatementKind} (h : (Node.statement kind).heads = [])
    (h' : (Node.statement kind).patterns = []) (hnodes : Fronts head choice kind.nodes) :
    Fronts head choice (.statement kind :: kind.nodes) :=
  .plain h h' hnodes

/-- Words have neither. -/
theorem Fronts.words (words : List String) : Fronts head choice (words.map .word) := by
  intro node hnode
  obtain ⟨text, -, rfl⟩ := List.mem_map.1 hnode
  exact .plain rfl rfl

/-- The readers of a level give trees with such heads and patterns, and give such heads and patterns. -/
structure Level.Fronts (cond : State → Prop) (head : Expr → Prop) (choice : Pattern → Prop) (L : Level) : Prop where
  lasts : L.Lasts cond
  expr : ∀ position, Gives cond L (Reader.expr position) fun e => JuiceSyntax.Fronts head choice e.nodes
  operand : ∀ position, Gives cond L (Reader.operand position) fun e => JuiceSyntax.Fronts head choice e.nodes
  block : Gives cond L Reader.block fun b => JuiceSyntax.Fronts head choice b.nodes
  type : Gives cond L Reader.type fun t => JuiceSyntax.Fronts head choice t.nodes
  record : Gives cond L Reader.recordLiteral fun e => JuiceSyntax.Fronts head choice e.nodes
  head : Gives cond L (Reader.expr .head) head
  choice : ∀ {s t p}, Grammar.pattern L s = .ok p t → t.cursor.kind.isMark .arrow = true → cond t → choice p

namespace Grammar

/-! ## Literals -/

theorem fronts_fragment (hL : L.Fronts cond head choice) (tokens : List Token) (span : Span) :
    Gives cond L (fragment tokens span) fun e => Fronts head choice e.nodes := by
  unfold fragment
  refine .ite (fun _ => .throwThen _) fun _ => .withTokens hL.lasts (.bind (hL.expr .value) fun e => .look .atEnd fun _ => ?_)
  exact .ite (fun _ => .pure id) fun _ => .failAdvisedThen _ _

theorem fronts_segments (hL : L.Fronts cond head choice) (pieces : List Piece) :
    Gives cond L (segments pieces) fun segs => Fronts head choice (segmentNodes segs) := by
  induction pieces with
  | nil => exact .pure .nil
  | cons piece rest ih =>
    cases piece with
    | text text span => exact .bind ih fun _ => .pure id
    | escape value raw span => exact .bind ih fun _ => .pure (.plain rfl rfl)
    | fragment tokens span =>
      exact .bind (fronts_fragment hL tokens span) fun _ => .bind ih fun _ => .pure fun hsegs he => .append he hsegs
    | indent span => exact ih

theorem fronts_stringLiteral (hL : L.Fronts cond head choice) (multiline : Bool) (pieces : List Piece) :
    Gives cond L (stringLiteral multiline pieces) fun e => Fronts head choice e.nodes :=
  .step hL.lasts .advance fun _ => .bind (fronts_segments hL pieces) fun _ => .pure fun hsegs => .expr rfl rfl hsegs

theorem fronts_listLiteral (hL : L.Fronts cond head choice) :
    Gives cond L listLiteral fun e => Fronts head choice e.nodes :=
  .step hL.lasts (.needMark _) fun _ => .bind (.separated hL.lasts _ (hL.expr _)) fun _ =>
    .step hL.lasts (.needMark _) fun _ => .pure fun hitems => .expr rfl rfl (.exprs hitems)

theorem fronts_atom (hL : L.Lasts cond) {kind : ExprKind} {post : Expr → Prop} (h : ∀ span, post ⟨kind, span⟩) :
    Gives cond L (atom kind) post :=
  .step hL .advance fun _ => .pure (h _)

/-! ## Functions and parameters -/

theorem fronts_param (hL : L.Fronts cond head choice) {named : Reader (String × Span)} (h : Composed (fun _ => True) named) :
    Gives cond L (param named) fun param => Fronts head choice param.nodes :=
  .step hL.lasts h fun _ => .step hL.lasts (.takeMark _) fun _ =>
    .ite (fun _ => .bind hL.type fun _ => .pure .word) fun _ => .pure (.word .nil)

theorem fronts_params (hL : L.Fronts cond head choice) {named : Reader (String × Span)} (h : Composed (fun _ => True) named) :
    Gives cond L (params named) fun items => Fronts head choice (paramNodes items) :=
  .step hL.lasts (.needMark _) fun _ => .bind (.separated hL.lasts _ (fronts_param hL h)) fun _ =>
    .step hL.lasts (.needMark _) fun _ => .pure .params

theorem fronts_fnDecl (hL : L.Fronts cond head choice) :
    Gives cond L fnDecl fun decl => Fronts head choice decl.nodes := by
  have named (name : Option FnName) : Fronts head choice (name.toList.map .title) := by
    cases name with
    | none => exact .nil
    | some name => exact .plain rfl rfl .nil
  refine .look .here fun _ => .step hL.lasts (.takeWord _) fun _ => .step hL.lasts (.needWord _) fun _ =>
    .step hL.lasts composed_fnName fun _ => .look (.atMark _) fun _ => ?_
  refine .iteBind (fronts_params hL composed_name) (.pure .nil) fun _ => .step hL.lasts (.takeMark _) fun _ => ?_
  have typed : Gives cond L (some <$> type) fun type => Fronts head choice (optionalTypeNodes type) :=
    .map _ hL.type fun _ => id
  refine .iteBind typed (.pure .nil) fun _ => .bind hL.block fun _ => .look (.spanFrom _) fun _ => ?_
  exact .pure fun hbody hresult hitems => (((named _).append hitems).append hresult).append hbody

/-! ## Types -/

theorem fronts_typeArg (hL : L.Fronts cond head choice) :
    Gives cond L typeArg fun arg => Fronts head choice arg.nodes :=
  .look .here fun _ => .step hL.lasts composed_argLabel fun _ => .bind hL.type fun _ => .pure fun htype => .append (Fronts.words _) htype

theorem fronts_typeCall (hL : L.Fronts cond head choice) (callee : String) (calleeSpan : Span) :
    Gives cond L (typeCall callee calleeSpan) fun t => Fronts head choice t.nodes :=
  .step hL.lasts (.needMark _) fun _ => .bind (.separated hL.lasts _ (fronts_typeArg hL)) fun _ =>
    .step hL.lasts (.needMark _) fun _ => .pure fun hargs => .type (.word (.typeArgs hargs))

theorem fronts_typeParens (hL : L.Fronts cond head choice) :
    Gives cond L typeParens fun t => Fronts head choice t.nodes := by
  unfold typeParens
  refine .step hL.lasts (.needMark _) fun _ => .look (.atMark _) fun _ => .ite (fun _ => .failAdvisedThen _ _) fun _ => ?_
  refine .bind hL.type fun first => .step hL.lasts (.takeMark _) fun _ => .ite (fun _ => .look (.atMark _) fun _ => ?_) fun _ => ?_
  · refine .ite (fun _ => ?_) fun _ => .bind (.separated hL.lasts _ hL.type) fun _ => .step hL.lasts (.needMark _) fun _ => ?_
    · exact .step hL.lasts .advance fun _ => .step hL.lasts (.record _ ⟨rfl, rfl⟩) fun _ => .pure .type
    · exact .pure fun hrest hfirst => .type (.append hfirst (.types hrest))
  · exact .step hL.lasts (.needMark _) fun _ => .pure .type

theorem fronts_typeOfName (hL : L.Fronts cond head choice) (text : String) {kind : TypeKind}
    (hkind : Fronts head choice kind.nodes) : Gives cond L (typeOfName text kind) fun t => Fronts head choice t.nodes :=
  .step hL.lasts .advance fun _ => .look (.atMark _) fun _ => .ite (fun _ => fronts_typeCall hL _ _) fun _ => .pure (.type hkind)

theorem fronts_literalType {literal : Reader Expr} (h : Gives cond L literal fun e => Fronts head choice e.nodes) :
    Gives cond L (literalType literal) fun t => Fronts head choice t.nodes :=
  .bind h fun _ => .pure .type

theorem fronts_typeAtom (hL : L.Fronts cond head choice) :
    Gives cond L typeAtom fun t => Fronts head choice t.nodes := by
  refine .look .kind fun kind => ?_
  split
  · refine fronts_typeOfName hL _ ?_
    cases BuiltinType.ofName? _ with
    | none => exact .nil
    | some type => exact .nil
  · exact fronts_typeOfName hL _ .nil
  · exact fronts_literalType (fronts_atom hL.lasts fun _ => .expr rfl rfl .nil)
  · exact fronts_literalType (fronts_atom hL.lasts fun _ => .expr rfl rfl .nil)
  · exact fronts_literalType (fronts_atom hL.lasts fun _ => .expr rfl rfl .nil)
  · exact fronts_literalType (fronts_stringLiteral hL _ _)
  · exact fronts_literalType (fronts_listLiteral hL)
  · exact fronts_typeParens hL
  · exact .failUnexpected _

theorem fronts_typeRestUpTo (hL : L.Fronts cond head choice) (left : TypeExpr) (fuel : Nat) :
    Gives cond L (typeRestUpTo left fuel) fun t => Fronts head choice left.nodes → Fronts head choice t.nodes := by
  induction fuel generalizing left with
  | zero => exact .pure id
  | succ fuel ih =>
    refine .look .kind fun kind => ?_
    split
    · refine .step hL.lasts .advance fun _ => .bind (fronts_typeAtom hL) fun _ => ?_
      exact (ih _).imp fun _ h hright hleft => h (.type (.append hleft hright))
    · exact .pure id

theorem fronts_typeExpr (hL : L.Fronts cond head choice) :
    Gives cond L typeExpr fun t => Fronts head choice t.nodes :=
  .bind (fronts_typeAtom hL) fun _ => .look .tokensLeft fun _ => fronts_typeRestUpTo hL _ _

/-! ## Arguments, macros and parentheses -/

theorem fronts_args (hL : L.Fronts cond head choice) :
    Gives cond L args fun result => Fronts head choice (argNodes result.1) := by
  have one : Gives cond L arg fun arg => Fronts head choice arg.nodes :=
    .look .here fun _ => .step hL.lasts composed_argLabel fun _ => .bind (hL.expr _) fun _ =>
      .pure fun he => .append (Fronts.words _) he
  exact .step hL.lasts (.needMark _) fun _ => .bind (.separated hL.lasts _ one) fun _ =>
    .step hL.lasts (.needMark _) fun _ => .pure .args

theorem fronts_macroCall (hL : L.Fronts cond head choice) (text : String) (position : Position) :
    Gives cond L (macroCall text position) fun e => Fronts head choice e.nodes := by
  refine .step hL.lasts .advance fun _ => .look (.atMark _) fun parenthesized => ?_
  have called (span : Span) (result : List Arg × Span) : Gives cond L (do
      if (← atMark .lBrace) && position != .head then
        let body ← macroBody
        return ⟨.macroCall text span parenthesized result.1 (some body), span.cover body.span⟩
      else if parenthesized then
        return ⟨.macroCall text span true result.1 none, span.cover result.2⟩
      else
        failUnexpected .macroArguments) fun e : Expr => Fronts head choice (argNodes result.1) → Fronts head choice e.nodes := by
    refine .look (.atMark _) fun _ => .ite (fun _ => .step hL.lasts composed_macroBody fun _ => ?_) fun _ => .ite (fun _ => ?_) fun _ => ?_
    · exact .pure fun hargs => .expr rfl rfl (.word hargs)
    · exact .pure fun hargs => .expr rfl rfl (.word hargs)
    · exact .failUnexpected _
  refine .ite (fun _ => .bind (fronts_args hL) fun result => called _ result) fun _ => .known ?_
  exact (called _ ([], _)).imp fun _ h => h .nil

theorem fronts_parens (hL : L.Fronts cond head choice) :
    Gives cond L parens fun e => Fronts head choice e.nodes := by
  unfold parens
  refine .step hL.lasts (.needMark _) fun _ => .look (.atMark _) fun _ => .ite (fun _ => .failAdvisedThen _ _) fun _ => ?_
  refine .bind (hL.expr _) fun first => .step hL.lasts (.takeMark _) fun _ => .ite (fun _ => .look (.atMark _) fun _ => ?_) fun _ => ?_
  · refine .ite (fun _ => ?_) fun _ => .bind (.separated hL.lasts _ (hL.expr _)) fun _ => .step hL.lasts (.needMark _) fun _ => ?_
    · refine .step hL.lasts .advance fun _ => .step hL.lasts (.record _ ⟨rfl, rfl⟩) fun _ => .pure fun hfirst => ?_
      exact .expr rfl rfl hfirst
    · exact .pure fun hrest hfirst => .expr rfl rfl (.append hfirst (.exprs hrest))
  · exact .step hL.lasts (.needMark _) fun _ => .pure fun hfirst => .expr rfl rfl hfirst

/-! ## Braces -/

theorem fronts_blockExpr (hL : L.Fronts cond head choice) :
    Gives cond L blockExpr fun e => Fronts head choice e.nodes :=
  .bind hL.block fun _ => .pure fun hbody => .expr rfl rfl hbody

theorem fronts_unresolvable (hL : L.Lasts cond) : Gives cond L unresolvable fun e => Fronts head choice e.nodes := by
  unfold unresolvable
  exact .look .here fun _ => .look .cursor fun _ => .step hL (.skip _) fun _ => .look (.spanFrom _) fun _ =>
    .step hL (.record _ ⟨rfl, rfl⟩) fun _ => .pure (.expr rfl rfl .nil)

/-- A brace tried as one form and then as something else. -/
theorem fronts_tryBrace_else (hL : L.Lasts cond) (form : BraceForm) {otherwise : Reader Expr}
    (hr : Composed (fun _ => True) form.reader) (h : Gives cond L form.reader fun e => Fronts head choice e.nodes)
    (ho : Gives cond L otherwise fun e => Fronts head choice e.nodes) : Gives cond L (do
      if let some e ← tryBrace form form.reader then
        return e
      otherwise) fun e => Fronts head choice e.nodes := by
  refine .bind (.tryBrace hL hr h) fun found => ?_
  cases found with
  | some e => exact .pure fun hfound => hfound e rfl
  | none => exact ho.imp fun _ he _ => he

theorem fronts_tryRecord_else (hL : L.Fronts cond head choice) {otherwise : Reader Expr}
    (ho : Gives cond L otherwise fun e => Fronts head choice e.nodes) : Gives cond L (do
      if let some e ← tryRecord then
        return e
      otherwise) fun e => Fronts head choice e.nodes :=
  fronts_tryBrace_else hL.lasts .record .recordLiteral hL.record ho

theorem fronts_tryBlock_else (hL : L.Fronts cond head choice) {otherwise : Reader Expr}
    (ho : Gives cond L otherwise fun e => Fronts head choice e.nodes) : Gives cond L (do
      if let some e ← tryBlock then
        return e
      otherwise) fun e => Fronts head choice e.nodes :=
  fronts_tryBrace_else hL.lasts .block composed_blockExpr (fronts_blockExpr hL) ho

theorem fronts_braceValue (hL : L.Fronts cond head choice) :
    Gives cond L braceValue fun e => Fronts head choice e.nodes := by
  refine .look .cursor fun _ => .ite (fun _ => ?_) fun _ => fronts_blockExpr hL
  exact fronts_tryRecord_else hL (fronts_tryBlock_else hL (fronts_unresolvable hL.lasts))

theorem fronts_armBody (hL : L.Fronts cond head choice) :
    Gives cond L armBody fun e => Fronts head choice e.nodes := by
  refine .look (.atMark _) fun _ => .ite (fun _ => fronts_tryBlock_else hL (.look .cursor fun _ => ?_)) fun _ => .failThen _
  exact .ite (fun _ => fronts_tryRecord_else hL (fronts_unresolvable hL.lasts)) fun _ => fronts_blockExpr hL

/-! ## Control flow -/

/-- A branch with a head of its own. -/
structure Branch.Fronted (head : Expr → Prop) (choice : Pattern → Prop) (branch : Branch) : Prop where
  nodes : Fronts head choice branch.nodes
  test : head branch.test

theorem fronts_branch (hL : L.Fronts cond head choice) :
    Gives cond L branch (Branch.Fronted head choice) :=
  .step hL.lasts (.needWord _) fun _ => .bind ((hL.expr _).and hL.head) fun _ => .bind hL.block fun _ =>
    .pure fun hbody htest => ⟨.append htest.1 hbody, htest.2⟩

theorem fronts_elseBranchesUpTo (hL : L.Fronts cond head choice) (fuel : Nat) :
    Gives cond L (elseBranchesUpTo fuel) fun result =>
      (∀ branch ∈ result.1, branch.Fronted head choice) ∧ Fronts head choice (optionalExprNodes result.2) := by
  induction fuel with
  | zero => exact .pure ⟨List.forall_mem_nil _, .nil⟩
  | succ fuel ih =>
    refine .step hL.lasts (.takeWord _) fun _ => .ite (fun _ => .look .kind fun _ => .ite (fun _ => ?_) fun _ => ?_) fun _ => ?_
    · refine .bind (fronts_branch hL) fun _ => .bind ih fun _ => .pure fun hrest hfirst => ?_
      exact ⟨List.forall_mem_cons.2 ⟨hfirst, hrest.1⟩, hrest.2⟩
    · exact .bind (fronts_blockExpr hL) fun _ => .pure fun hlast => ⟨List.forall_mem_nil _, hlast⟩
    · exact .pure ⟨List.forall_mem_nil _, .nil⟩

theorem fronts_toExpr {branch : Branch} (h : branch.Fronted head choice) {otherwise : Option Expr}
    (ho : Fronts head choice (optionalExprNodes otherwise)) : Fronts head choice (branch.toExpr otherwise).nodes :=
  .cons (.conditional h.test _ _) (.append h.nodes ho)

theorem fronts_foldr {branches : List Branch} (h : ∀ branch ∈ branches, branch.Fronted head choice) {last : Option Expr}
    (hlast : Fronts head choice (optionalExprNodes last)) :
    Fronts head choice (optionalExprNodes (branches.foldr (fun b otherwise => some (b.toExpr otherwise)) last)) := by
  induction branches with
  | nil => exact hlast
  | cons branch rest ih =>
    obtain ⟨hbranch, hrest⟩ := List.forall_mem_cons.1 h
    exact fronts_toExpr hbranch (ih hrest)

theorem fronts_conditional (hL : L.Fronts cond head choice) :
    Gives cond L conditional fun e => Fronts head choice e.nodes :=
  .bind (fronts_branch hL) fun _ => .look .tokensLeft fun _ => .bind (fronts_elseBranchesUpTo hL _) fun _ =>
    .pure fun hothers hfirst => fronts_toExpr hfirst (fronts_foldr hothers.1 hothers.2)

/-- The value of a pattern, up to the arrow. -/
def patternValue : Reader Expr := do
  let value ← expr .head
  unless ← atMark .arrow do
    failUnexpected (.mark .arrow)
  return value

theorem composed_patternValue : Composed (fun _ => True) patternValue :=
  .bind (.expr _) fun _ => .bind (.atMark _) fun _ => .unlessBind (.failUnexpected _) fun _ => .pure _

/-- What is known of a head is known of the value. -/
theorem gives_patternValue {post : Expr → Prop} (h : Gives cond L (expr .head) post) : Gives cond L patternValue post :=
  .bind h fun _ => .look (.atMark _) fun _ => .ite (fun _ => .pure id) fun _ => .failThen _

theorem pattern_eq : pattern = (do
    match ← speculate patternValue with
    | some value => return .value value
    | none => return .type (← type)) := rfl

theorem fronts_pattern (hL : L.Fronts cond head choice) :
    Gives cond L pattern fun pattern => Fronts head choice pattern.nodes := by
  rw [pattern_eq]
  refine .bind (.speculate hL.lasts composed_patternValue (gives_patternValue (hL.expr _))) fun found => ?_
  cases found with
  | some value => exact .pure fun hfound => hfound value rfl
  | none => exact .bind hL.type fun _ => .pure fun htype _ => htype

/-- A pattern is followed by an arrow. -/
theorem fronts_arm (hL : L.Fronts cond head choice) :
    Gives cond L arm fun arm => Fronts head choice arm.nodes ∧ choice arm.pattern := by
  have rest (left : Pattern) : Gives cond L (do
      let _ ← Reader.needMark .arrow
      let right ← armBody
      return (⟨left, right, left.span.cover right.span⟩ : Arm)) fun arm =>
        Fronts head choice left.nodes → Fronts head choice arm.nodes :=
    .step hL.lasts (.needMark _) fun _ => .bind (fronts_armBody hL) fun _ => .pure fun hbody hleft => .append hleft hbody
  refine ⟨fun hr ht => ?_, fun {s a t} hr ht => ?_⟩
  · obtain ⟨left, u, hleft, hrest⟩ := ok_of_bind hr
    exact (fronts_pattern hL).before hleft ((rest left).before hrest ht)
  · obtain ⟨left, u, hleft, hrest⟩ := ok_of_bind hr
    have hu := (rest left).before hrest ht
    refine ⟨(rest left).gives hrest ht ((fronts_pattern hL).gives hleft hu), ?_⟩
    obtain ⟨closing, v, hmark, hbody⟩ := ok_of_bind hrest
    have harrow : u.cursor.kind.isMark .arrow = true := by
      rw [needMark_apply] at hmark
      split at hmark
      · assumption
      · cases hmark
    obtain ⟨right, w, -, hw⟩ := ok_of_bind hbody
    cases hw
    exact hL.choice hleft harrow hu

theorem fronts_selection (hL : L.Fronts cond head choice) :
    Gives cond L selection fun e => Fronts head choice e.nodes := by
  refine .step hL.lasts (.needWord _) fun _ => .bind ((hL.expr _).and hL.head) fun _ => .step hL.lasts (.needMark _) fun _ => ?_
  refine .bind (.recovering hL.lasts composed_arm (fronts_arm hL) _ _) fun _ => .step hL.lasts (.needMark _) fun _ => ?_
  refine .pure fun harms hscrutinee => .cons (.selection hscrutinee.2 fun arm hmem => (harms arm hmem).2) ?_
  exact .append hscrutinee.1 (.arms fun arm hmem => (harms arm hmem).1)

/-! ## Operands and chains -/

theorem fronts_primary (hL : L.Fronts cond head choice) (position : Position) :
    Gives cond L (primary position) fun e => Fronts head choice e.nodes := by
  have fnExpr : Gives cond L (do
      let decl ← fnDecl
      return ⟨.fn decl, decl.span⟩) fun e : Expr => Fronts head choice e.nodes :=
    .bind (fronts_fnDecl hL) fun _ => .pure fun hdecl => .expr rfl rfl hdecl
  refine .look .kind fun kind => ?_
  split
  · exact fronts_atom hL.lasts fun _ => .expr rfl rfl .nil
  · exact fronts_atom hL.lasts fun _ => .expr rfl rfl .nil
  · exact fronts_atom hL.lasts fun _ => .expr rfl rfl .nil
  · exact fronts_atom hL.lasts fun _ => .expr rfl rfl .nil
  · exact fronts_atom hL.lasts fun _ => .expr rfl rfl .nil
  · exact fronts_stringLiteral hL _ _
  · exact fronts_macroCall hL _ _
  · exact fronts_listLiteral hL
  · exact fronts_parens hL
  · cases position with
    | statement => exact fronts_blockExpr hL
    | value => exact fronts_braceValue hL
    | head => exact .failUnexpected _
  · exact fnExpr
  · exact fnExpr
  · exact fronts_conditional hL
  · exact fronts_selection hL
  · exact .look .here fun _ => .throw
  · exact .look .here fun _ => .throw
  · exact .failUnexpected _

theorem fronts_accessesUpTo (hL : L.Fronts cond head choice) (position : Position) (base : Expr) (fuel : Nat) :
    Gives cond L (accessesUpTo position base fuel) fun e => Fronts head choice base.nodes → Fronts head choice e.nodes := by
  induction fuel generalizing base with
  | zero => exact .pure id
  | succ fuel ih =>
    refine .step hL.lasts (.takeMark _) fun _ => .ite (fun _ => .bind (fronts_primary hL _) fun _ => ?_) fun _ => .pure id
    exact (ih _).imp fun _ h hmember hbase => h (.expr rfl rfl (.append hbase hmember))

theorem fronts_attemptOf (hL : L.Lasts cond) (e : Expr) :
    Gives cond L (attemptOf e) fun result => Fronts head choice e.nodes → Fronts head choice result.nodes := by
  have once {next : Unit → Reader Expr} {post : Expr → Prop} (hnext : Gives cond L (next ()) post) :
      Gives cond L (onceAttempted e next) post := by
    unfold onceAttempted
    split
    · exact .failAdvisedThen _ _
    · exact hnext
  exact once (.ite (fun _ => .step hL .advance fun _ => .pure fun he => .expr rfl rfl he) fun _ => .failAdvisedThen _ _)

theorem fronts_postfixUpTo (hL : L.Fronts cond head choice) (position : Position) (e : Expr) (fuel : Nat) :
    Gives cond L (postfixUpTo position e fuel) fun result => Fronts head choice e.nodes → Fronts head choice result.nodes := by
  induction fuel generalizing e with
  | zero => exact .pure id
  | succ fuel ih =>
    refine .look .kind fun kind => ?_
    split
    · refine .bind (fronts_args hL) fun _ => (ih _).imp fun _ h hargs he => h (.expr rfl rfl ?_)
      exact .append he hargs
    · refine .step hL.lasts .advance fun _ => .bind (fronts_primary hL _) fun _ => .look .tokensLeft fun _ => ?_
      refine .bind (fronts_accessesUpTo hL _ _ _) fun _ => (ih _).imp fun _ h hmember hfirst he => h (.expr rfl rfl ?_)
      exact .append he (hmember hfirst)
    · refine .step hL.lasts .advance fun _ => .bind (fronts_primary hL _) fun _ => (ih _).imp fun _ h hmember he => ?_
      exact h (.expr rfl rfl (.append he hmember))
    · exact .bind (fronts_attemptOf hL.lasts e) fun _ => (ih _).imp fun _ h hinner he => h (hinner he)
    · exact .pure id

theorem fronts_unaryExpr (hL : L.Fronts cond head choice) (position : Position) :
    Gives cond L (unaryExpr position) fun e => Fronts head choice e.nodes := by
  refine .look .kind fun kind => ?_
  split
  · exact .step hL.lasts .advance fun _ => .bind (hL.operand _) fun _ => .pure fun hinner => .expr rfl rfl hinner
  · exact .bind (fronts_primary hL _) fun _ => .look .tokensLeft fun _ => fronts_postfixUpTo hL _ _ _

theorem fronts_chainUpTo (hL : L.Fronts cond head choice) (least : Nat) (position : Position) (fuel : Nat) :
    Gives cond L (chainUpTo least position fuel) fun links => ∀ link ∈ links, Fronts head choice link.2.nodes := by
  induction fuel with
  | zero => exact .pure (List.forall_mem_nil _)
  | succ fuel ih =>
    refine .look .kind fun kind => ?_
    split
    · exact .step hL.lasts .advance fun _ => .bind (fronts_unaryExpr hL _) fun _ => .bind ih fun _ =>
        .pure fun hrest hnext => List.forall_mem_cons.2 ⟨hnext, hrest⟩
    · exact .pure (List.forall_mem_nil _)

theorem fronts_chain (hL : L.Fronts cond head choice) (least : Nat) (position : Position) :
    Gives cond L (chain least position) fun e => Fronts head choice e.nodes := by
  have hjoin (op : BinaryOp) (left right : Expr) (hleft : Fronts head choice left.nodes)
      (hright : Fronts head choice right.nodes) : Fronts head choice (binaryExpr op left right).nodes :=
    .expr rfl rfl (.append hleft hright)
  refine .bind (fronts_unaryExpr hL _) fun _ => .look .tokensLeft fun _ => .bind (fronts_chainUpTo hL _ _ _) fun _ => ?_
  exact .pure fun hrest hfirst => climb_all hjoin (List.forall_mem_nil _) hfirst hrest

/-! ## Records -/

theorem fronts_recordField (hL : L.Fronts cond head choice) :
    Gives cond L recordField fun field => Fronts head choice field.nodes := by
  have ending (field : RecordField) :
      Gives cond L (fieldEnd field) fun result => Fronts head choice field.nodes → Fronts head choice result.nodes := by
    refine .step hL.lasts (.takeMark _) fun _ => .ite (fun _ => .pure id) fun _ => .look .kind fun _ => ?_
    split
    · exact .pure id
    · exact .pure id
    · exact .failThen _
  refine .step hL.lasts composed_name fun _ => .step hL.lasts (.takeMark _) fun _ => .ite (fun _ => ?_) fun _ => ?_
  · exact .bind (hL.expr _) fun _ => .known ((ending _).imp fun _ h hvalue => h (.word hvalue))
  · exact .known ((ending _).imp fun _ h => h (.word .nil))

theorem fronts_recordExpr (hL : L.Fronts cond head choice) :
    Gives cond L recordExpr fun e => Fronts head choice e.nodes := by
  have fieldsUpTo (fuel : Nat) :
      Gives cond L (recordFieldsUpTo fuel) fun fields => ∀ field ∈ fields, Fronts head choice field.nodes := by
    induction fuel with
    | zero => exact .pure (List.forall_mem_nil _)
    | succ fuel ih =>
      refine .look (.atMark _) fun _ => .ite (fun _ => .pure (List.forall_mem_nil _)) fun _ => ?_
      exact .bind (fronts_recordField hL) fun _ => .bind ih fun _ => .pure fun hrest hfirst =>
        List.forall_mem_cons.2 ⟨hfirst, hrest⟩
  exact .step hL.lasts (.needMark _) fun _ => .look .tokensLeft fun _ => .bind (fieldsUpTo _) fun _ =>
    .step hL.lasts .advance fun _ => .pure fun hfields => .expr rfl rfl (.recordFields hfields)

/-! ## Statements and blocks -/

theorem fronts_binding (hL : L.Fronts cond head choice) :
    Gives cond L binding fun binding => Fronts head choice binding.nodes := by
  refine .step hL.lasts composed_name fun _ => .step hL.lasts (.takeMark _) fun _ => .ite (fun _ => ?_) fun _ => ?_
  · refine .bind hL.type fun _ => .step hL.lasts (.takeMark _) fun _ => .ite (fun _ => .known ?_) fun _ => .failThen _
    exact .bind (hL.expr _) fun _ => .pure fun hvalue htype => .append (Fronts.word htype) hvalue
  · exact .step hL.lasts (.needMark _) fun _ => .known (.bind (hL.expr _) fun _ => .pure fun hvalue => .word hvalue)

theorem fronts_assignment (hL : L.Fronts cond head choice) :
    Gives cond L assignment fun binding => Fronts head choice binding.value.nodes :=
  .step hL.lasts composed_name fun _ => .step hL.lasts (.needMark _) fun _ => .bind (hL.expr _) fun _ => .pure id

/-- Nothing is in front of an endless loop. -/
theorem fronts_loop (hL : L.Fronts cond head choice) :
    Gives cond L loop fun kind => Fronts head choice (.statement kind :: kind.nodes) := by
  unfold loop
  refine .step hL.lasts (.needWord _) fun _ => .look (.atMark _) fun _ => .ite (fun _ => ?_) fun _ => ?_
  · exact .bind hL.block fun _ => .pure fun hbody => .statement rfl rfl hbody
  have headed : Gives cond L (expr .head) fun e => Fronts head choice e.nodes ∧ head e := (hL.expr _).and hL.head
  have ranged (element : Option String) : Gives cond L (do
      let first ← expr .head
      let range ← if ← Reader.takeMark .dotDot then .between first <$> expr .head else pure (.over first)
      return StatementKind.loop element range (← block)) fun kind => Fronts head choice (.statement kind :: kind.nodes) := by
    refine .bind headed fun first => .step hL.lasts (.takeMark _) fun _ => ?_
    have between : Gives cond L (LoopRange.between first <$> expr .head) fun range =>
        (Fronts head choice first.nodes ∧ head first) → Fronts head choice range.nodes ∧ ∀ e ∈ range.heads, head e :=
      .map _ headed fun last hlast hfirst =>
        ⟨.append hfirst.1 hlast.1, List.forall_mem_cons.2 ⟨hfirst.2, List.forall_mem_singleton.2 hlast.2⟩⟩
    refine .iteBind between (.pure fun hfirst => ⟨hfirst.1, List.forall_mem_singleton.2 hfirst.2⟩) fun range => ?_
    refine .bind hL.block fun _ => .pure fun hbody hrange hfirst => .cons (.loop (hrange hfirst).2 _ _) ?_
    exact .append (.append (Fronts.words _) (hrange hfirst).1) hbody
  refine .look .kind fun kind => .look (.peek 1) fun second => ?_
  split
  · exact .step hL.lasts (.skip 2) fun _ => .known (ranged _)
  · exact .known (ranged _)

theorem fronts_leave (hL : L.Fronts cond head choice) :
    Gives cond L leave fun kind => Fronts head choice (.statement kind :: kind.nodes) :=
  .step hL.lasts .advance fun _ => .look .cursor fun _ =>
    .ite (fun _ => .bind (hL.expr _) fun _ => .pure fun hvalue => .statement rfl rfl hvalue) fun _ => .pure (.statement rfl rfl .nil)

theorem fronts_statementKind (hL : L.Fronts cond head choice) :
    Gives cond L statementKind fun kind => Fronts head choice (.statement kind :: kind.nodes) := by
  have standing : Gives cond L (do return StatementKind.expr (← expr .statement)) fun kind =>
      Fronts head choice (.statement kind :: kind.nodes) :=
    .bind (hL.expr _) fun _ => .pure fun he => .statement rfl rfl he
  have fnStatement : Gives cond L (do return StatementKind.fn (← fnDecl)) fun kind =>
      Fronts head choice (.statement kind :: kind.nodes) :=
    .bind (fronts_fnDecl hL) fun _ => .pure fun hdecl => .statement rfl rfl hdecl
  refine .look .kind fun kind => ?_
  split
  · exact fronts_leave hL
  · exact .step hL.lasts .advance fun _ => .pure (.statement rfl rfl .nil)
  · exact .step hL.lasts .advance fun _ => .pure (.statement rfl rfl .nil)
  · exact fronts_loop hL
  · exact fnStatement
  · exact fnStatement
  · exact .bind hL.block fun _ => .pure fun hbody => .statement rfl rfl hbody
  · exact .look .here fun _ => .throw
  · exact .look .here fun _ => .throw
  · exact .failAdvised _ _
  · exact .failAdvised _ _
  · exact .failAdvised _ _
  · exact .failAdvised _ _
  · exact .failAdvised _ _
  · refine .look .cursor fun _ => .ite (fun _ => ?_) fun _ => .ite (fun _ => ?_) fun _ => standing
    · exact .bind (fronts_binding hL) fun _ => .pure fun hbinding => .statement rfl rfl hbinding
    · exact .bind (fronts_assignment hL) fun _ => .pure fun hbinding => .statement rfl rfl (.word hbinding)
  · exact .look (.peek 1) fun _ => .ite (fun _ => .failAdvised _ _) fun _ => standing
  · exact standing

theorem fronts_statement (hL : L.Fronts cond head choice) :
    Gives cond L statement fun statement => Fronts head choice statement.nodes :=
  .look .here fun _ => .bind (fronts_statementKind hL) fun _ => .look (.spanFrom _) fun _ => .pure id

theorem fronts_blockBody (hL : L.Fronts cond head choice) :
    Gives cond L blockBody fun block => Fronts head choice block.nodes := by
  refine .step hL.lasts (.needMark _) fun _ => .bind (.recovering hL.lasts composed_statement (fronts_statement hL) _ _) fun _ => ?_
  refine .look (.atMark _) fun _ => .ite (fun _ => .step hL.lasts .advance fun _ => .pure .statements) fun _ => ?_
  refine .look .here fun _ => .look .kind fun _ => .look .atEnd fun _ => .look .halted fun _ => .ite (fun _ => ?_) fun _ => .throw
  exact .step hL.lasts (.record _ ⟨rfl, rfl⟩) fun _ => .look .here fun _ => .pure .statements

/-! ## Items -/

theorem fronts_importDecl (hL : L.Lasts cond) : Gives cond L importDecl fun decl => Fronts head choice decl.nodes := by
  refine (Gives.any hL composed_importDecl).imp fun decl _ => ?_
  refine AllNodes.append (.append (Fronts.words _) (Fronts.words _)) fun node hnode => ?_
  obtain ⟨exposed, -, rfl⟩ := List.mem_map.1 hnode
  exact .plain rfl rfl

theorem fronts_member (hL : L.Fronts cond head choice) :
    Gives cond L member fun member => Fronts head choice member.nodes := by
  have field (text : String) (span : Span) : Gives cond L (do
      let declared ← type
      return Member.field ⟨text, declared, span.cover declared.span⟩) fun member => Fronts head choice member.nodes :=
    .bind hL.type fun _ => .pure fun htype => .word htype
  refine .look .cursor fun c => ?_
  dsimp only
  split
  · exact .step hL.lasts (.skip 2) fun _ => field _ _
  · exact .step hL.lasts (.skip 2) fun _ => field _ _
  · refine .step hL.lasts .advance fun _ => .look (.atMark _) fun _ => .iteBind (fronts_params hL composed_name) (.pure .nil) fun _ => ?_
    exact .look (.spanFrom _) fun _ => .pure fun hitems => .word hitems
  · exact .failAdvised _ _

theorem fronts_addMember (hL : L.Lasts cond) (body : Option TypeBody) (member : Member) :
    Gives cond L (addMember body member) fun result => Fronts head choice member.nodes →
      Fronts head choice (optionalBodyNodes body) → Fronts head choice (optionalBodyNodes result) := by
  have added {β : Type} {f : β → List Node} {items : List β} {item : β} (hitem : Fronts head choice (f item))
      (hitems : Fronts head choice (items.flatMap f)) : Fronts head choice ((items ++ [item]).flatMap f) := by
    rw [List.flatMap_append, List.flatMap_singleton]
    exact .append hitems hitem
  unfold addMember
  split
  · exact .pure (added (f := Field.nodes))
  · exact .pure (added (f := Constructor.nodes))
  · exact .step hL (.record _ ⟨rfl, rfl⟩) fun _ => .pure fun _ => id
  · exact .step hL (.record _ ⟨rfl, rfl⟩) fun _ => .pure fun _ => id
  · exact .pure fun hmember _ => .append hmember .nil
  · exact .pure fun hmember _ => .append hmember .nil

theorem fronts_members (hL : L.Fronts cond head choice) :
    Gives cond L members fun body => Fronts head choice body.nodes := by
  have membersUpTo (body : Option TypeBody) (fuel : Nat) : Gives cond L (membersUpTo body fuel) fun result =>
      Fronts head choice (optionalBodyNodes body) → Fronts head choice (optionalBodyNodes result) := by
    induction fuel generalizing body with
    | zero => exact .pure id
    | succ fuel ih =>
      refine .look (.atMark _) fun _ => .ite (fun _ => .pure id) fun _ => .bind (fronts_member hL) fun _ => ?_
      have hadd (member : Member) : Gives cond L (addMember body member) fun result => Fronts head choice member.nodes →
          Fronts head choice (optionalBodyNodes body) → Fronts head choice (optionalBodyNodes result) :=
        fronts_addMember hL.lasts body member
      refine .bind (hadd _) fun _ => .step hL.lasts (.takeMark _) fun _ => ?_
      exact (ih _).imp fun _ h hadded hmember hbody => h (hadded hmember hbody)
  refine .step hL.lasts (.needMark _) fun _ => .look .tokensLeft fun _ => .bind (membersUpTo none _) fun body => ?_
  refine .step hL.lasts (.needMark _) fun _ => .pure fun h => ?_
  cases body with
  | none => exact .nil
  | some body => exact h .nil

theorem fronts_typeDecl (hL : L.Fronts cond head choice) :
    Gives cond L typeDecl fun decl => Fronts head choice decl.nodes := by
  have synonym : Gives cond L (TypeBody.synonym <$> type) fun body => Fronts head choice body.nodes := .map _ hL.type fun _ => id
  refine .step hL.lasts (.takeWord _) fun _ => .step hL.lasts (composed_declaredType _) fun _ => .look (.atMark _) fun _ => ?_
  refine .iteBind (fronts_params hL composed_anyName) (.pure .nil) fun _ => .step hL.lasts (.needMark _) fun _ => ?_
  refine .look (.atMark _) fun _ => .iteBind (fronts_members hL) synonym fun _ => ?_
  exact .pure fun hbody hitems => .append (Fronts.word hitems) hbody

theorem fronts_implDecl (hL : L.Fronts cond head choice) :
    Gives cond L implDecl fun decl => Fronts head choice decl.nodes := by
  have one : Gives cond L implFn fun decl => Fronts head choice decl.nodes := by
    refine .look .kind fun kind => ?_
    split
    · exact fronts_fnDecl hL
    · exact fronts_fnDecl hL
    · exact .failUnexpected _
  have fns (traitType : Option TypeExpr) (selfType : TypeExpr) : Gives cond L (do
      let _ ← Reader.needMark .lBrace
      let fns ← JuiceSyntax.recovering .fn (·.isMark .rBrace) implFn
      let _ ← Reader.needMark .rBrace
      return (⟨traitType, selfType, fns⟩ : Impl)) fun decl =>
        Fronts head choice selfType.nodes → Fronts head choice (optionalTypeNodes traitType) → Fronts head choice decl.nodes :=
    .step hL.lasts (.needMark _) fun _ => .bind (.recovering hL.lasts composed_implFn one _ _) fun _ =>
      .step hL.lasts (.needMark _) fun _ => .pure fun hfns hself htrait => .append (.append htrait hself) (.flatMap hfns)
  refine .step hL.lasts (.needWord _) fun _ => .bind hL.type fun first => .step hL.lasts (.takeWord _) fun _ => .ite (fun _ => ?_) fun _ => ?_
  · exact .bind hL.type fun second => .known (fns (some first) second)
  · exact .known ((fns none first).imp fun _ h hself => h hself .nil)

theorem fronts_itemKind (hL : L.Fronts cond head choice) :
    Gives cond L itemKind fun kind => Fronts head choice kind.nodes := by
  refine .look .cursor fun c => ?_
  split
  · exact .bind (fronts_importDecl hL.lasts) fun _ => .pure id
  · exact .bind (fronts_importDecl hL.lasts) fun _ => .pure id
  · exact .bind (fronts_fnDecl hL) fun _ => .pure id
  · exact .bind (fronts_fnDecl hL) fun _ => .pure id
  · exact .bind (fronts_typeDecl hL) fun _ => .pure id
  · exact .bind (fronts_implDecl hL) fun _ => .pure id
  · exact .throw
  · exact .throw
  · refine .ite (fun _ => .bind (fronts_binding hL) fun _ => .pure id) fun _ => .ite (fun _ => ?_) fun _ => .throw
    exact .bind (fronts_assignment hL) fun _ => .pure .word
  · exact .ite (fun _ => .bind (fronts_typeDecl hL) fun _ => .pure id) fun _ => .failUnexpected _

theorem fronts_item (hL : L.Fronts cond head choice) :
    Gives cond L item fun item => Fronts head choice item.kind.nodes := by
  unfold item
  refine .look .here fun _ => .step hL.lasts (.takeWord _) fun _ => .look .cursor fun _ => .ite (fun _ => .throwThen _) fun _ => ?_
  exact .bind (fronts_itemKind hL) fun _ => .look (.spanFrom _) fun _ => .pure id

theorem fronts_items (hL : L.Fronts cond head choice) :
    Gives cond L items fun items => ∀ item ∈ items, Fronts head choice item.kind.nodes :=
  .recovering hL.lasts composed_item (fronts_item hL) _ _

end Grammar

/-! ## Levels -/

theorem level_fronts {setting : Setting} (hlasts : ∀ n, (level setting n).Lasts cond)
    (hhead : ∀ n, Gives cond (level setting n) (expr .head) head)
    (hchoice : ∀ {n s t p}, pattern (level setting n) s = .ok p t → t.cursor.kind.isMark .arrow = true → cond t → choice p)
    (n : Nat) : (level setting n).Fronts cond head choice := by
  induction n with
  | zero =>
    exact ⟨hlasts 0, fun _ => .never nofun, fun _ => .never nofun, .never nofun, .never nofun, .never nofun, hhead 0, hchoice⟩
  | succ n ih =>
    have lift {β : Type} {r r' : Reader β} {post : β → Prop} (h : Gives cond (level setting n) r post)
        (heq : r' (level setting (n + 1)) = r (level setting n)) : Gives cond (level setting (n + 1)) r' post :=
      ⟨fun hr => h.before (heq ▸ hr), fun hr => h.gives (heq ▸ hr)⟩
    exact ⟨hlasts (n + 1), fun position => lift (fronts_chain ih 1 position) rfl,
      fun position => lift (fronts_chain ih operandLevel position) rfl, lift (fronts_blockBody ih) rfl,
      lift (fronts_typeExpr ih) rfl, lift (fronts_recordExpr ih) rfl, hhead (n + 1), hchoice⟩

/-! ## Readings -/

variable {setting : Setting} {tokens : List Token}

theorem readItems_fronts (hL : (level setting setting.options.maxDepth).Fronts cond head choice)
    (h : cond (Ending.state (itemsEnding setting tokens))) :
    ∀ item ∈ (readItems setting tokens).value, Fronts head choice item.kind.nodes := by
  obtain ⟨items, t, hread⟩ := itemsEnding_ok setting tokens
  rw [readItems_eq]
  rw [hread] at h ⊢
  exact (fronts_items hL).gives hread h

end JuiceSyntax
