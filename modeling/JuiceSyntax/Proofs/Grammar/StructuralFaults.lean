/-
  Structural faults are reported once, however often their place is read: one lemma for each production, by
  the rules for steps. A structural fault is that of a whole, recorded after those of its parts, and it begins
  with the first token of the whole: a parenthesis (`reports_parensOf`), or the name of a member that does not
  fit the others (`reports_added`). The parts begin behind that token.

  `structural_faults_once`: no two structural faults of a document have the same span.
-/
import JuiceSyntax.Proofs.Grammar.Closing
import JuiceSyntax.Proofs.Grammar.Fitting
import JuiceSyntax.Proofs.Grammar.Reporting
import JuiceSyntax.Proofs.Grammar.TypeReading

namespace JuiceSyntax

open Reader Grammar

variable {source : String} {L : Level} {p : Cursor → Prop} {α β : Type}

/-! ## Where types begin -/

namespace Grammar

variable {lo : Nat}

theorem onward_atom (hL : L.Grows) (kind : ExprKind) : Onward lo L (atom kind) (·.span.start) :=
  .bind hL .advance .advance fun _ htoken => .pure htoken

theorem onward_stringLiteral (hL : L.Grows) (multiline : Bool) (pieces : List Piece) :
    Onward lo L (stringLiteral multiline pieces) (·.span.start) :=
  .bind hL .advance .advance fun _ htoken => .step hL (composed_segments fun _ _ _ => trivial) fun _ => .pure htoken

theorem onward_listLiteral (hL : L.Grows) : Onward lo L listLiteral (·.span.start) :=
  .bind hL (.needMark _) (.needMark _) fun _ hopening => .step hL (.separated _ (.expr _)) fun _ =>
    .bind hL (.needMark _) (.needMark _) fun _ hclosing => .pure (Span.le_start_cover hopening hclosing)

theorem onward_literalType (hL : L.Grows) {literal : Reader Expr} (hr : Composed (fun _ => True) literal)
    (h : Onward lo L literal (·.span.start)) : Onward lo L (literalType literal) (·.span.start) :=
  .bind hL hr h fun _ hvalue => .pure hvalue

theorem onward_typeCall (hL : L.Grows) (callee : String) {calleeSpan : Span} (h : lo ≤ calleeSpan.start) :
    Onward lo L (typeCall callee calleeSpan) (·.span.start) :=
  .step hL (.needMark _) fun _ => .step hL (.separated _ composed_typeArg) fun _ =>
    .bind hL (.needMark _) (.needMark _) fun _ hclosing => .pure (Span.le_start_cover h hclosing)

theorem onward_typeOfName (hL : L.Grows) (text : String) (kind : TypeKind) :
    Onward lo L (typeOfName text kind) (·.span.start) :=
  .bind hL .advance .advance fun _ htoken => .step hL (.atMark _) fun _ =>
    .ite (onward_typeCall hL _ htoken) (.pure htoken)

theorem onward_typeParens (hL : L.Grows) : Onward lo L typeParens (·.span.start) := by
  unfold typeParens
  refine .bind hL (.needMark _) (.needMark _) fun _ hopening => .step hL (.atMark _) fun _ => .ite ?_ ?_
  · exact ⟨fun _ hr => nomatch hr⟩
  · refine .step hL .type fun _ => .step hL (.takeMark _) fun _ => .ite (.step hL (.atMark _) fun _ => .ite ?_ ?_) ?_
    · exact .bind hL .advance .advance fun _ hclosing => .step hL (.record _ ⟨rfl, rfl⟩) fun _ =>
        .pure (Span.le_start_cover hopening hclosing)
    · exact .step hL (.separated _ .type) fun _ => .bind hL (.needMark _) (.needMark _) fun _ hclosing =>
        .pure (Span.le_start_cover hopening hclosing)
    · exact .bind hL (.needMark _) (.needMark _) fun _ hclosing => .pure (Span.le_start_cover hopening hclosing)

theorem onward_typeAtom (hL : L.Grows) : Onward lo L typeAtom (·.span.start) := by
  refine .step hL .kind fun kind => ?_
  split
  · exact onward_typeOfName hL _ _
  · exact onward_typeOfName hL _ _
  · exact onward_literalType hL (composed_atom _) (onward_atom hL _)
  · exact onward_literalType hL (composed_atom _) (onward_atom hL _)
  · exact onward_literalType hL (composed_atom _) (onward_atom hL _)
  · exact onward_literalType hL (composed_stringLiteral fun _ _ _ _ _ _ => trivial) (onward_stringLiteral hL _ _)
  · exact onward_literalType hL composed_listLiteral (onward_listLiteral hL)
  · exact onward_typeParens hL
  · exact .failUnexpected _

theorem onward_typeRestUpTo (hL : L.Grows) {left : TypeExpr} (h : lo ≤ left.span.start) (fuel : Nat) :
    Onward lo L (typeRestUpTo left fuel) (·.span.start) := by
  induction fuel generalizing left with
  | zero => exact .pure h
  | succ fuel ih =>
    refine .step hL .kind fun _ => ?_
    split
    · exact .step hL .advance fun _ => .bind hL (composed_typeAtom inherited_true) (onward_typeAtom hL) fun _ hright =>
        ih (Span.le_start_cover h hright)
    · exact .pure h

theorem onward_typeExpr (hL : L.Grows) : Onward lo L typeExpr (·.span.start) :=
  .bind hL (composed_typeAtom inherited_true) (onward_typeAtom hL) fun _ hfirst => .step hL .tokensLeft fun _ =>
    onward_typeRestUpTo hL hfirst _

end Grammar

/-! ## Tokens of a document -/

/-- The last token consumed begins no earlier than the one that was consumed first. -/
theorem Sited.le_previous {c : Cursor} (h : Sited source c.rest) (mid : c.atEnd = false) (n : Nat) :
    c.span.start ≤ (c.advance.skip n).previous.start := by
  refine Cursor.le_previous_skip (c := c.advance) (fun span hspan => ?_) (h.late 1) n
  rw [(Cursor.advance_of_mid mid).2.1] at hspan
  cases hspan
  exact Nat.le_refl _

/-- The pieces of a string at the cursor lie in its token, and the tokens of each fragment in that. -/
theorem Sited.string {c : Cursor} (h : Sited source c.rest) {multiline : Bool} {pieces : List Piece}
    (hkind : c.kind = .str multiline pieces) :
    Lined c.span.start pieces c.span.stop ∧
      ∀ tokens span, .fragment tokens span ∈ pieces → Sited source tokens ∧ Laid span.start tokens span.stop := by
  have hmid : c.atEnd = false := by rw [Cursor.atEnd, hkind]; rfl
  obtain ⟨stream, hstream, hsub⟩ := h.drawn
  have hmem : c.current ∈ stream := hsub (Cursor.rest_of_mid hmid ▸ List.mem_cons_self)
  obtain ⟨levels, before, text, after, hstands⟩ := hstream.stands
  refine ⟨hstands.lined hmem hkind, fun tokens span hpiece => ?_⟩
  obtain ⟨-, hlaid⟩ := hstands.fragmentOf hmem hkind hpiece
  exact ⟨⟨(Stream.fragment hstream hmem hkind hpiece).drawn, _, _, hlaid⟩, hlaid⟩

/-! ## Strings -/

/-- What is reported here lies between the two offsets, and the cursor stays. -/
def ReportedAside (lo : Nat) (s t : State) (hi : Nat) : Prop := ReportedIn lo s t hi ∧ t.cursor = s.cursor

theorem ReportedAside.mono {lo lo' hi hi' : Nat} {s t : State} (h : ReportedAside lo s t hi) (hlo : lo' ≤ lo)
    (hhi : hi ≤ hi') : ReportedAside lo' s t hi' :=
  ⟨h.1.mono hlo hhi, h.2⟩

theorem ReportedAside.trans {lo mid hi : Nat} {s t u : State} (h : ReportedAside lo s t mid)
    (h' : ReportedAside mid t u hi) : ReportedAside lo s u hi :=
  ⟨h.1.trans h'.1, h'.2.trans h.2⟩

theorem Ending.Leaves.placed {s : State} {tokens : List Token} {lo hi : Nat} {ending : Ending α}
    (h : Ending.Leaves (Reported { s with cursor := .ofTokens tokens }) ending) (hlaid : Laid lo tokens hi) :
    Ending.Leaves (ReportedAside lo s · hi) (Ending.placed s.cursor ending) := by
  cases ending with
  | ok a t => exact ⟨Reported.inTokens h hlaid, rfl⟩
  | error fault t => exact ⟨⟨h.1.inTokens hlaid, rfl⟩, h.2⟩

namespace Grammar

theorem fragment_leaves (hL : L.Reports source) {tokens : List Token} {span : Span} (htokens : Sited source tokens)
    (hlaid : Laid span.start tokens span.stop) (s : State) :
    Ending.Leaves (ReportedAside span.start s · span.stop) (fragment tokens span L s) := by
  unfold fragment
  split
  · exact ⟨⟨.quiet (.refl s) rfl hlaid.le, rfl⟩, rfl⟩
  · have hinner : Reports source L (fun _ => True) (do
        let inner ← expr .value
        unless ← Reader.atEnd do
          Reader.failAdvised .fragmentEnd .oneExpressionInFragment
        return inner) :=
      .bind (hL.expr _) fun _ => .bind (.look .atEnd) fun _ => .unlessBind (.failAdvised _ _) fun _ => .pure _
    have hread := hinner.reports (s := { s with cursor := .ofTokens tokens }) trivial htokens
    change Ending.Leaves _ (withTokens tokens _ L s)
    rw [withTokens_apply]
    exact hread.placed hlaid

/-- The fragments of a string lie one behind another. -/
theorem segments_leaves (hL : L.Reports source) {pieces : List Piece} {lo hi : Nat} (hlined : Lined lo pieces hi)
    (hfragments : ∀ tokens span, .fragment tokens span ∈ pieces →
      Sited source tokens ∧ Laid span.start tokens span.stop) (s : State) :
    Ending.Leaves (ReportedAside lo s · hi) (segments pieces L s) := by
  induction hlined generalizing s with
  | nil le => exact ⟨.quiet (.refl s) rfl le, rfl⟩
  | @cons lo hi piece rest after le following ih =>
    have hrest (s : State) := ih (fun tokens span hmem => hfragments tokens span (List.mem_cons_of_mem _ hmem)) s
    have hbehind : lo ≤ piece.span.stop := after.trans le
    have hmono (t : State) (ht : ReportedAside piece.span.stop s t hi) : ReportedAside lo s t hi :=
      ht.mono hbehind (Nat.le_refl _)
    cases piece with
    | text text span =>
      rw [segments, bind_apply]
      exact (hrest s).andThen hmono fun _ => hmono
    | escape value raw span =>
      rw [segments, bind_apply]
      exact (hrest s).andThen hmono fun _ => hmono
    | indent span => exact (hrest s).imp hmono
    | fragment tokens span =>
      obtain ⟨htokens, hlaid⟩ := hfragments tokens span List.mem_cons_self
      have hle : span.stop ≤ hi := following.le
      rw [segments, bind_apply]
      refine (fragment_leaves hL htokens hlaid s).andThen (fun t ht => ht.mono after hle) fun inner t ht => ?_
      have hboth (u : State) (hu : ReportedAside span.stop t u hi) : ReportedAside lo s u hi :=
        (ht.mono after (Nat.le_refl _)).trans hu
      rw [bind_apply]
      exact (hrest t).andThen hboth fun _ => hboth

theorem reports_stringLiteral (hL : L.Reports source) {multiline : Bool} {pieces : List Piece}
    (hp : ∀ c, p c → c.kind = .str multiline pieces) : Reports source L p (stringLiteral multiline pieces) where
  reports {s} hs hsited := by
    have hkind := hp _ hs
    obtain ⟨hlined, hfragments⟩ := hsited.string hkind
    have hnext := hsited.next (by rw [Cursor.atEnd, hkind]; rfl)
    have hread (t : State) (ht : ReportedAside s.cursor.span.start (s.skipped 1) t s.cursor.span.stop) :
        Reported s t := by
      rw [Reported, ht.2]
      exact ((ReportedIn.skipped s 1 _).trans ht.1).mono (Nat.le_refl _) hnext.2
    rw [stringLiteral, bind_apply, advance_apply, Ending.andThen_ok, bind_apply]
    exact (segments_leaves hL hlined hfragments (s.skipped 1)).andThen hread fun _ => hread

/-! ## Parentheses -/

theorem leaves_closed {s t : State} (h : Reported s t) (ht : Sited source t.cursor.rest) (result : Span → α) :
    Ending.Leaves (Reported s) (closed t result) := by
  unfold closed
  split
  · exact h.trans (Reported.skipped ht 1)
  · exact ⟨h, rfl⟩

section

variable (wanted : Wanted) (advice : Advice) {item : Reader α} (group : α → Span → β) (tuple : List α → Span → β)

/-- Without an opening parenthesis, or where it is closed at once, nothing is read. -/
theorem parensOf_begins_or_fails (item : Reader α) (s : State) :
    (s.cursor.kind.isMark .lParen = true ∧ (s.skipped 1).cursor.kind.isMark .rParen = false) ∨
      ∃ fault n, fault.isStructural = false ∧ parensOf wanted advice item group tuple L s = .error fault (s.skipped n) := by
  cases hopen : s.cursor.kind.isMark .lParen with
  | false =>
    refine .inr ⟨.ofCause s.cursor.span (.missing (.mark .lParen) s.cursor.kind none), 0, rfl, ?_⟩
    simp only [parensOf, bind_apply, needMark_apply, hopen, Bool.false_eq_true, if_false, Ending.andThen_error]
    rfl
  | true =>
    cases hempty : (s.skipped 1).cursor.kind.isMark .rParen with
    | false => exact .inl ⟨rfl, rfl⟩
    | true =>
      have hempty' : s.cursor.advance.kind.isMark .rParen = true := hempty
      let cause : Cause := .unexpected wanted (s.skipped 1).cursor.kind (some advice)
      refine .inr ⟨.ofCause (s.skipped 1).cursor.span cause, 1, rfl, ?_⟩
      simp only [parensOf, bind_apply, needMark_apply, hopen, if_true, Ending.andThen_ok, atMark_apply, choose_apply,
        hempty']
      rfl

/-- The fault that a tuple has one element begins with its parenthesis. -/
theorem reports_parensOf (h : ∀ {q}, Reports source L q item) :
    Reports source L p (parensOf wanted advice item group tuple) where
  reports {s} _ hs := by
    obtain ⟨hopen, hempty⟩ | ⟨fault, n, hfault, heq⟩ := parensOf_begins_or_fails wanted advice group tuple item s
    · have hopened : Reported s (s.skipped 1) := .skipped hs 1
      have hs' : Sited source (s.skipped 1).cursor.rest := inherited_sited.advance hs
      rw [parensOf_apply hopen hempty]
      refine ((h (q := fun _ => True)).reports trivial hs').andThen (fun t ht => hopened.trans ht) fun first t ht => ?_
      have ht' : Sited source t.cursor.rest := inherited_sited.grows ht.toGrows hs'
      have hread : Reported s t := hopened.trans ht
      split
      · have hcomma : Sited source (t.skipped 1).cursor.rest := inherited_sited.advance ht'
        have hread' : Reported s (t.skipped 1) := hread.trans (Reported.skipped ht' 1)
        split
        · have hboth : Reported (s.skipped 1) (t.skipped 2) := ht.trans (Reported.skipped ht' 2)
          obtain ⟨new, -, honce⟩ := hread'.once
          exact hboth.enclose hs (isDone_of_isMark hopen) L.options (Nat.min_eq_left honce.le)
        · have hmore : Reports source L (fun _ => True) (separatedUpTo .rParen item (t.skipped 1).cursor.left) :=
            .separatedUpTo .rParen h _
          refine (hmore.reports trivial hcomma).andThen (fun u hu => hread'.trans hu) fun rest u hu => ?_
          exact leaves_closed (hread'.trans hu) (inherited_sited.grows hu.toGrows hcomma) _
      · exact leaves_closed hread ht' _
    · rw [heq]
      exact ⟨.skipped hs n, hfault⟩

end

/-! ## Literals and parameters -/

theorem reports_atom (kind : ExprKind) : Reports source L p (atom kind) := .bind .advance fun _ => .pure _

theorem reports_listLiteral (hL : L.Reports source) : Reports source L p listLiteral :=
  .bind (.needMark _) fun _ => .bind (.separated _ (hL.expr _)) fun _ => .bind (.needMark _) fun _ => .pure _

theorem reports_argLabel : Reports source L p argLabel := by
  refine .bind (.look .kind) fun _ => .bind (.look (.peek 1)) fun _ => ?_
  split
  · exact .bind (.skip 2) fun _ => .pure _
  · exact .pure _

theorem reports_name : Reports source L p name := by
  refine .bind (.look .kind) fun _ => ?_
  split
  · exact .bind .advance fun _ => .pure _
  · exact .failUnexpected _

theorem reports_anyName : Reports source L p anyName := by
  refine .bind (.look .kind) fun _ => ?_
  split
  · exact .bind .advance fun _ => .pure _
  · exact .bind .advance fun _ => .pure _
  · exact .failUnexpected _

theorem reports_param (hL : L.Reports source) {named : Reader (String × Span)} (h : Reports source L p named) :
    Reports source L p (param named) :=
  .bind h fun _ => .bind (.takeMark _) fun _ => .ite (.bind hL.type fun _ => .pure _) (.pure _)

theorem reports_params (hL : L.Reports source) {named : Reader (String × Span)}
    (h : ∀ {q}, Reports source L q named) : Reports source L p (params named) :=
  .bind (.needMark _) fun _ => .bind (.separated _ (reports_param hL h)) fun _ => .bind (.needMark _) fun _ => .pure _

theorem reports_fnName : Reports source L p fnName := by
  refine .bind (.look .kind) fun _ => ?_
  split
  · exact .bind .advance fun _ => .pure _
  · exact .bind .advance fun _ => .pure _
  · exact .pure _

theorem reports_fnDecl (hL : L.Reports source) : Reports source L p fnDecl :=
  .bind (.look .here) fun _ => .bind (.takeWord _) fun _ => .bind (.needWord _) fun _ =>
    .bind reports_fnName fun _ => .bind (.look (.atMark _)) fun _ =>
    .iteBind (reports_params hL reports_name) (.pure _) fun _ => .bind (.takeMark _) fun _ =>
    .iteBind (.map _ hL.type) (.pure _) fun _ => .bind hL.block fun _ => .bind (.look (.spanFrom _)) fun _ => .pure _

/-! ## Types -/

theorem reports_typeArg (hL : L.Reports source) : Reports source L p typeArg :=
  .bind (.look .here) fun _ => .bind reports_argLabel fun _ => .bind hL.type fun _ => .pure _

theorem reports_typeCall (hL : L.Reports source) (callee : String) (calleeSpan : Span) :
    Reports source L p (typeCall callee calleeSpan) :=
  .bind (.needMark _) fun _ => .bind (.separated _ (reports_typeArg hL)) fun _ => .bind (.needMark _) fun _ => .pure _

theorem reports_typeParens (hL : L.Reports source) : Reports source L p typeParens :=
  typeParens_eq ▸ reports_parensOf _ _ _ _ hL.type

theorem reports_typeOfName (hL : L.Reports source) (text : String) (kind : TypeKind) :
    Reports source L p (typeOfName text kind) :=
  .bind .advance fun _ => .bind (.look (.atMark _)) fun _ => .ite (reports_typeCall hL _ _) (.pure _)

theorem reports_literalType {literal : Reader Expr} (h : Reports source L p literal) :
    Reports source L p (literalType literal) :=
  .bind h fun _ => .pure _

theorem reports_typeAtom (hL : L.Reports source) : Reports source L p typeAtom := by
  refine .onKind fun kind => ?_
  split
  · exact reports_typeOfName hL _ _
  · exact reports_typeOfName hL _ _
  · exact reports_literalType (reports_atom _)
  · exact reports_literalType (reports_atom _)
  · exact reports_literalType (reports_atom _)
  · exact reports_literalType (reports_stringLiteral hL fun _ hc => hc.2)
  · exact reports_literalType (reports_listLiteral hL)
  · exact reports_typeParens hL
  · exact .failUnexpected _

theorem reports_typeRestUpTo (hL : L.Reports source) (left : TypeExpr) (fuel : Nat) :
    Reports source L p (typeRestUpTo left fuel) := by
  induction fuel generalizing left p with
  | zero => exact .pure _
  | succ fuel ih =>
    refine .bind (.look .kind) fun _ => ?_
    split
    · exact .bind .advance fun _ => .bind (reports_typeAtom hL) fun _ => ih _
    · exact .pure _

theorem reports_typeExpr (hL : L.Reports source) : Reports source L p typeExpr :=
  .bind (reports_typeAtom hL) fun _ => .bind (.look .tokensLeft) fun _ => reports_typeRestUpTo hL _ _

/-! ## Arguments and macros -/

theorem reports_arg (hL : L.Reports source) : Reports source L p arg :=
  .bind (.look .here) fun _ => .bind reports_argLabel fun _ => .bind (hL.expr _) fun _ => .pure _

theorem reports_args (hL : L.Reports source) : Reports source L p args :=
  .bind (.needMark _) fun _ => .bind (.separated _ (reports_arg hL)) fun _ => .bind (.needMark _) fun _ => .pure _

theorem reports_macroBody : Reports source L p macroBody := by
  unfold macroBody
  refine .bind (.needMark _) fun _ => .bind (.look .cursor) fun _ => .bind (.skip _) fun _ =>
    .bind (.look .atEnd) fun _ => .ite (.bind (.look .here) fun _ => .throwThen rfl) ?_
  exact .bind .advance fun _ => .bind (.noteBody _) fun _ => .bind (.look (.sourceText _)) fun _ => .pure _

theorem reports_macroCall (hL : L.Reports source) (text : String) (position : Position) :
    Reports source L p (macroCall text position) := by
  refine .bind .advance fun _ => .bind (.look (.atMark _)) fun _ => .iteBind (reports_args hL) (.pure _) fun _ => ?_
  refine .bind (.look (.atMark _)) fun _ => .ite (.bind reports_macroBody fun _ => .pure _) ?_
  exact .ite (.pure _) (.failUnexpected _)

theorem reports_parens (hL : L.Reports source) : Reports source L p parens :=
  parens_eq ▸ reports_parensOf _ _ _ _ (hL.expr _)

/-! ## Braces -/

theorem reports_blockExpr (hL : L.Reports source) : Reports source L p blockExpr := .bind hL.block fun _ => .pure _

theorem reports_unresolvable : Reports source L p unresolvable :=
  .bind (.look .here) fun _ => .bind (.look .cursor) fun _ => .bind (.skip _) fun _ =>
    .bind (.look (.spanFrom _)) fun _ => .bind (.record rfl) fun _ => .pure _

/-- A brace tried as one form and then as something else. -/
theorem reports_tryBrace_else (form : BraceForm) {r otherwise : Reader Expr} (h : Reports source L p r)
    (ho : ∀ {q}, Reports source L q otherwise) :
    Reports source L p (do
      if let some e ← tryBrace form r then
        return e
      otherwise) := by
  refine .bind (.tryBrace form h) fun found => ?_
  cases found with
  | some e => exact .pure _
  | none => exact ho

theorem reports_braceValue (hL : L.Reports source) : Reports source L p braceValue := by
  refine .bind (.look .cursor) fun _ => .ite ?_ (reports_blockExpr hL)
  exact reports_tryBrace_else .record hL.record
    (reports_tryBrace_else .block (reports_blockExpr hL) reports_unresolvable)

theorem reports_armBody (hL : L.Reports source) : Reports source L p armBody := by
  refine .bind (.look (.atMark _)) fun _ => .unlessBind (.failUnexpected _) fun _ => ?_
  refine reports_tryBrace_else .block (reports_blockExpr hL) (.bind (.look .cursor) fun _ => ?_)
  refine .ite ?_ (reports_blockExpr hL)
  exact reports_tryBrace_else .record hL.record reports_unresolvable

/-! ## Control flow -/

theorem reports_branch (hL : L.Reports source) : Reports source L p branch :=
  .bind (.needWord _) fun _ => .bind (hL.expr _) fun _ => .bind hL.block fun _ => .pure _

theorem reports_elseBranchesUpTo (hL : L.Reports source) (fuel : Nat) :
    Reports source L p (elseBranchesUpTo fuel) := by
  induction fuel generalizing p with
  | zero => exact .pure _
  | succ fuel ih =>
    refine .bind (.takeWord _) fun _ => .ite (.bind (.look .kind) fun _ => .ite ?_ ?_) (.pure _)
    · exact .bind (reports_branch hL) fun _ => .bind ih fun _ => .pure _
    · exact .bind (reports_blockExpr hL) fun _ => .pure _

theorem reports_conditional (hL : L.Reports source) : Reports source L p conditional :=
  .bind (reports_branch hL) fun _ => .bind (.look .tokensLeft) fun _ => .bind (reports_elseBranchesUpTo hL _) fun _ =>
    .pure _

theorem reports_pattern (hL : L.Reports source) : Reports source L p pattern := by
  refine .bind (.speculate (.bind (hL.expr _) fun _ => .bind (.look (.atMark _)) fun _ => ?_)) fun found => ?_
  · exact .unlessBind (.failUnexpected _) fun _ => .pure _
  · cases found with
    | some value => exact .pure _
    | none => exact .bind hL.type fun _ => .pure _

theorem reports_arm (hL : L.Reports source) : Reports source L p arm :=
  .bind (reports_pattern hL) fun _ => .bind (.needMark _) fun _ => .bind (reports_armBody hL) fun _ => .pure _

theorem reports_selection (hL : L.Reports source) : Reports source L p selection :=
  .bind (.needWord _) fun _ => .bind (hL.expr _) fun _ => .bind (.needMark _) fun _ =>
    .bind (.recovering (reports_arm hL) _ _) fun _ => .bind (.needMark _) fun _ => .pure _

/-! ## Operands and chains -/

theorem reports_primary (hL : L.Reports source) (position : Position) : Reports source L p (primary position) := by
  refine .onKind fun kind => ?_
  split
  · exact reports_atom _
  · exact reports_atom _
  · exact reports_atom _
  · exact reports_atom _
  · exact reports_atom _
  · exact reports_stringLiteral hL fun _ hc => hc.2
  · exact reports_macroCall hL _ _
  · exact reports_listLiteral hL
  · exact reports_parens hL
  · cases position with
    | statement => exact reports_blockExpr hL
    | value => exact reports_braceValue hL
    | head => exact .failUnexpected _
  · exact .bind (reports_fnDecl hL) fun _ => .pure _
  · exact .bind (reports_fnDecl hL) fun _ => .pure _
  · exact reports_conditional hL
  · exact reports_selection hL
  · exact .bind (.look .here) fun _ => .throw rfl
  · exact .bind (.look .here) fun _ => .throw rfl
  · exact .failUnexpected _

theorem reports_accessesUpTo (hL : L.Reports source) (position : Position) (base : Expr) (fuel : Nat) :
    Reports source L p (accessesUpTo position base fuel) := by
  induction fuel generalizing base p with
  | zero => exact .pure _
  | succ fuel ih =>
    exact .bind (.takeMark _) fun _ => .ite (.bind (reports_primary hL _) fun _ => ih _) (.pure _)

theorem reports_onceAttempted (e : Expr) {next : Unit → Reader Expr} (h : ∀ {q} a, Reports source L q (next a)) :
    Reports source L p (onceAttempted e next) := by
  unfold onceAttempted
  split
  · exact .bind (.failAdvised _ _) h
  · exact h ()

theorem reports_attemptOf (e : Expr) : Reports source L p (attemptOf e) :=
  reports_onceAttempted e fun _ => .unlessBind (.failAdvised _ _) fun _ => .bind .advance fun _ => .pure _

theorem reports_postfixUpTo (hL : L.Reports source) (position : Position) (e : Expr) (fuel : Nat) :
    Reports source L p (postfixUpTo position e fuel) := by
  induction fuel generalizing e p with
  | zero => exact .pure _
  | succ fuel ih =>
    refine .bind (.look .kind) fun _ => ?_
    split
    · exact .bind (reports_args hL) fun _ => ih _
    · exact .bind .advance fun _ => .bind (reports_primary hL _) fun _ => .bind (.look .tokensLeft) fun _ =>
        .bind (reports_accessesUpTo hL _ _ _) fun _ => ih _
    · exact .bind .advance fun _ => .bind (reports_primary hL _) fun _ => ih _
    · exact .bind (reports_attemptOf _) fun _ => ih _
    · exact .pure _

theorem reports_postfixExpr (hL : L.Reports source) (position : Position) :
    Reports source L p (postfixExpr position) :=
  .bind (reports_primary hL _) fun _ => .bind (.look .tokensLeft) fun _ => reports_postfixUpTo hL _ _ _

theorem reports_unaryExpr (hL : L.Reports source) (position : Position) : Reports source L p (unaryExpr position) := by
  refine .bind (.look .kind) fun _ => ?_
  split
  · exact .bind .advance fun _ => .bind (hL.operand _) fun _ => .pure _
  · exact reports_postfixExpr hL _

theorem reports_chainUpTo (hL : L.Reports source) (level : Nat) (position : Position) (fuel : Nat) :
    Reports source L p (chainUpTo level position fuel) := by
  induction fuel generalizing p with
  | zero => exact .pure _
  | succ fuel ih =>
    refine .bind (.look .kind) fun _ => ?_
    split
    · exact .bind .advance fun _ => .bind (reports_unaryExpr hL _) fun _ => .bind ih fun _ => .pure _
    · exact .pure _

theorem reports_chain (hL : L.Reports source) (level : Nat) (position : Position) :
    Reports source L p (chain level position) :=
  .bind (reports_unaryExpr hL _) fun _ => .bind (.look .tokensLeft) fun _ => .bind (reports_chainUpTo hL _ _ _) fun _ =>
    .pure _

/-! ## Records -/

theorem reports_fieldEnd (field : RecordField) : Reports source L p (fieldEnd field) := by
  refine .bind (.takeMark _) fun _ => .ite (.pure _) (.bind (.look .kind) fun _ => ?_)
  split
  · exact .pure _
  · exact .pure _
  · exact .bind (.failUnexpected _) fun _ => .pure _

theorem reports_recordField (hL : L.Reports source) : Reports source L p recordField :=
  .bind reports_name fun _ => .bind (.takeMark _) fun _ =>
    .ite (.bind (hL.expr _) fun _ => reports_fieldEnd _) (reports_fieldEnd _)

theorem reports_recordFieldsUpTo (hL : L.Reports source) (fuel : Nat) : Reports source L p (recordFieldsUpTo fuel) := by
  induction fuel generalizing p with
  | zero => exact .pure _
  | succ fuel ih =>
    exact .bind (.look (.atMark _)) fun _ => .ite (.pure _) (.bind (reports_recordField hL) fun _ => .bind ih fun _ =>
      .pure _)

theorem reports_recordExpr (hL : L.Reports source) : Reports source L p recordExpr :=
  .bind (.needMark _) fun _ => .bind (.look .tokensLeft) fun _ => .bind (reports_recordFieldsUpTo hL _) fun _ =>
    .bind .advance fun _ => .pure _

/-! ## Statements and blocks -/

theorem reports_binding (hL : L.Reports source) : Reports source L p binding := by
  refine .bind reports_name fun _ => .bind (.takeMark _) fun _ => .ite ?_ ?_
  · exact .bind hL.type fun _ => .bind (.takeMark _) fun _ => .unlessBind (.failUnexpected _) fun _ =>
      .bind (.pure _) fun _ => .bind (hL.expr _) fun _ => .pure _
  · exact .bind (.needMark _) fun _ => .bind (.pure _) fun _ => .bind (hL.expr _) fun _ => .pure _

theorem reports_assignment (hL : L.Reports source) : Reports source L p assignment :=
  .bind reports_name fun _ => .bind (.needMark _) fun _ => .bind (hL.expr _) fun _ => .pure _

theorem reports_loopRest (hL : L.Reports source) : Reports source L p loopRest := by
  unfold loopRest
  refine .bind (.look (.atMark _)) fun _ => .ite (.bind hL.block fun _ => .pure _) ?_
  have ranged (element : Option String) : Reports source L (fun _ => True) (do
      let first ← expr .head
      let range ← if ← takeMark .dotDot then .between first <$> expr .head else pure (.over first)
      return StatementKind.loop element range (← block)) :=
    .bind (hL.expr _) fun _ => .bind (.takeMark _) fun _ => .iteBind (.map _ (hL.expr _)) (.pure _) fun _ =>
      .bind hL.block fun _ => .pure _
  refine .bind (.look .kind) fun _ => .bind (.look (.peek 1)) fun _ => ?_
  split
  · exact .bind (.skip 2) fun _ => .bind (.pure _) fun _ => ranged _
  · exact .bind (.pure _) fun _ => ranged _

theorem reports_loop (hL : L.Reports source) : Reports source L p loop :=
  .bind (.needWord _) fun _ => reports_loopRest hL

theorem reports_leave (hL : L.Reports source) : Reports source L p leave :=
  .bind .advance fun _ => .bind (.look .cursor) fun _ => .ite (.bind (hL.expr _) fun _ => .pure _) (.pure _)

theorem reports_statementKind (hL : L.Reports source) : Reports source L p statementKind := by
  refine .bind (.look .kind) fun _ => ?_
  split
  · exact reports_leave hL
  · exact .bind .advance fun _ => .pure _
  · exact .bind .advance fun _ => .pure _
  · exact reports_loop hL
  · exact .bind (reports_fnDecl hL) fun _ => .pure _
  · exact .bind (reports_fnDecl hL) fun _ => .pure _
  · exact .bind hL.block fun _ => .pure _
  · exact .bind (.look .here) fun _ => .throw rfl
  · exact .bind (.look .here) fun _ => .throw rfl
  · exact .failAdvised _ _
  · exact .failAdvised _ _
  · exact .failAdvised _ _
  · exact .failAdvised _ _
  · exact .failAdvised _ _
  · refine .bind (.look .cursor) fun _ => .ite (.bind (reports_binding hL) fun _ => .pure _) ?_
    exact .ite (.bind (reports_assignment hL) fun _ => .pure _) (.bind (hL.expr _) fun _ => .pure _)
  · exact .bind (.look (.peek 1)) fun _ => .ite (.failAdvised _ _) (.bind (hL.expr _) fun _ => .pure _)
  · exact .bind (hL.expr _) fun _ => .pure _

theorem reports_statement (hL : L.Reports source) : Reports source L p statement :=
  .bind (.look .here) fun _ => .bind (reports_statementKind hL) fun _ => .bind (.look (.spanFrom _)) fun _ => .pure _

theorem reports_blockEnd (opening : Span) (statements : List Statement) :
    Reports source L p (blockEnd opening statements) := by
  refine .bind (.look (.atMark _)) fun _ => .ite (.bind .advance fun _ => .pure _) ?_
  refine .bind (.look .here) fun _ => .bind (.look .kind) fun _ => .bind (.look .atEnd) fun _ =>
    .bind (.look .halted) fun _ => .ite ?_ (.throw rfl)
  exact .bind (.record rfl) fun _ => .bind (.look .here) fun _ => .pure _

theorem reports_blockBody (hL : L.Reports source) : Reports source L p blockBody :=
  .bind (.needMark _) fun _ => .bind (.recovering (reports_statement hL) _ _) fun _ => reports_blockEnd _ _

/-! ## Imports -/

theorem reports_pathRestUpTo (fuel : Nat) : Reports source L p (pathRestUpTo fuel) := by
  induction fuel generalizing p with
  | zero => exact .pure _
  | succ fuel ih =>
    exact .bind (.takeMark _) fun _ => .ite (.bind reports_anyName fun _ => .bind ih fun _ => .pure _) (.pure _)

theorem reports_exposed : Reports source L p exposed := by
  refine .bind (.look .kind) fun _ => ?_
  split
  · exact .bind .advance fun _ => .pure _
  · exact .bind .advance fun _ => .pure _
  · exact .bind .advance fun _ => .pure _
  · exact .failUnexpected _

theorem reports_importDecl : Reports source L p importDecl := by
  refine .bind (.takeWord _) fun _ => .bind (.needWord _) fun _ => .bind (.takeMark _) fun _ =>
    .bind reports_anyName fun _ => .bind (.look .tokensLeft) fun _ => .bind (reports_pathRestUpTo _) fun _ =>
    .bind (.takeWord _) fun _ => .iteBind (.map _ reports_anyName) (.pure _) fun _ => .bind (.takeMark _) fun _ =>
    .ite ?_ (.bind (.pure _) fun _ => .pure _)
  exact .bind (.separated _ reports_exposed) fun _ => .bind (.needMark _) fun _ => .bind (.pure _) fun _ => .pure _

/-! ## Members -/

/-- Where a member stands. -/
def Member.span : Member → Span
  | .field f => f.span
  | .constructor c => c.span

/-- The ending of a member that begins with the token at the cursor of `s`. -/
def OfMember (s : State) : Ending Member → Prop
  | .ok m t => s.cursor.atEnd = false ∧ m.span.start = s.cursor.span.start ∧ Reported (s.skipped 1) t
  | .error fault t => Reported s t ∧ fault.isStructural = false

structure ReadsMember (source : String) (L : Level) (c : Cursor) (r : Reader Member) : Prop where
  reads : ∀ {s}, s.cursor = c → Sited source s.cursor.rest → OfMember s (r L s)

theorem readsMember_field (hL : L.Reports source) {c : Cursor} (mid : c.atEnd = false) (text : String) :
    ReadsMember source L c do
      JuiceSyntax.skip 2
      let declared ← type
      return Member.field ⟨text, declared, c.span.cover declared.span⟩ where
  reads {s} hc hs := by
    subst hc
    have hs' : Sited source (s.skipped 1).cursor.rest := inherited_sited.advance hs
    have hs'' : Sited source (s.skipped 2).cursor.rest := inherited_sited.skip hs 2
    have htype := (hL.type (p := fun _ => True)).reports trivial hs''
    have hskip : JuiceSyntax.skip 2 L s = .ok () (s.skipped 2) := rfl
    rw [bind_apply, hskip, Ending.andThen_ok, bind_apply]
    cases hread : Reader.type L (s.skipped 2) with
    | error fault t =>
      rw [hread] at htype
      exact ⟨(Reported.skipped hs 2).trans htype.1, htype.2⟩
    | ok declared t =>
      rw [hread] at htype
      have hstart : s.cursor.span.start ≤ declared.span.start := (hL.onward _).onward (hs.late 2) hread
      exact ⟨mid, Nat.min_eq_left hstart, (Reported.skipped hs' 1).trans htype⟩

theorem readsMember_constructor (hL : L.Reports source) {c : Cursor} (mid : c.atEnd = false) (text : String) :
    ReadsMember source L c do
      let _ ← Reader.advance
      let items ← if ← Reader.atMark .lParen then params name else pure []
      return Member.constructor ⟨text, items, ← Reader.spanFrom c.span⟩ where
  reads {s} hc hs := by
    subst hc
    have hs' : Sited source (s.skipped 1).cursor.rest := inherited_sited.advance hs
    have hmember (items : List Param) (t : State) (ht : Reported (s.skipped 1) t) :
        OfMember s (.ok (.constructor ⟨text, items, s.cursor.span.cover t.cursor.previous⟩) t) := by
      obtain ⟨n, hn⟩ := ht.cursor
      have hprevious : s.cursor.span.start ≤ t.cursor.previous.start := hn ▸ hs.le_previous mid n
      exact ⟨mid, Nat.min_eq_left hprevious, ht⟩
    rw [bind_apply, advance_apply, Ending.andThen_ok, bind_apply, atMark_apply, Ending.andThen_ok, choose_apply]
    split
    · have hparams : Ending.Leaves (Reported (s.skipped 1)) (params name L { s with cursor := s.cursor.advance }) :=
        (reports_params (p := fun _ => True) hL reports_name).reports (s := s.skipped 1) trivial hs'
      rw [bind_apply]
      cases hread : params name L { s with cursor := s.cursor.advance } with
      | error fault t =>
        rw [hread] at hparams
        exact ⟨(Reported.skipped hs 1).trans hparams.1, hparams.2⟩
      | ok items t =>
        rw [hread] at hparams
        exact hmember items t hparams
    · exact hmember [] _ (.refl _)

theorem ReadsMember.onCursor {k : Cursor → Reader Member} (h : ∀ c, ReadsMember source L c (k c)) (c : Cursor) :
    ReadsMember source L c (Reader.cursor >>= k) :=
  ⟨fun _ hs => (h _).reads rfl hs⟩

theorem readsMember_member (hL : L.Reports source) (c : Cursor) : ReadsMember source L c member := by
  refine .onCursor (fun c => ?_) c
  have named {kind : Kind} (hkind : c.kind = kind) (hmid : kind.isDone = false) : c.atEnd = false := by
    rw [Cursor.atEnd, hkind, hmid]
  dsimp only
  split
  · rename_i hkind _
    exact readsMember_field hL (named hkind rfl) _
  · rename_i hkind _
    exact readsMember_field hL (named hkind rfl) _
  · rename_i hkind _
    exact readsMember_constructor hL (named hkind rfl) _
  · exact ⟨fun _ _ => ⟨.refl _, rfl⟩⟩

/-- A member that does not fit is what a fault is recorded of. -/
theorem addMember_apply (L : Level) (body : Option TypeBody) (m : Member) (s : State) :
    ∃ body', addMember body m L s = .ok body' s ∨
      ∃ fieldsFirst, addMember body m L s =
        .ok body' (s.withFault L.options (.ofCause m.span (.mixedMembers fieldsFirst))) := by
  unfold addMember
  split
  · exact ⟨_, .inl rfl⟩
  · exact ⟨_, .inl rfl⟩
  · exact ⟨_, .inr ⟨true, by rw [bind_apply, record_apply]; rfl⟩⟩
  · exact ⟨_, .inr ⟨false, by rw [bind_apply, record_apply]; rfl⟩⟩
  · exact ⟨_, .inl rfl⟩
  · exact ⟨_, .inl rfl⟩

/-- The fault that a member does not fit begins with its name. -/
theorem reports_added (hL : L.Reports source) (body : Option TypeBody) :
    Reports source L p (member >>= fun m => addMember body m) where
  reports {s} _ hs := by
    have hmember := (readsMember_member hL s.cursor).reads rfl hs
    rw [bind_apply]
    cases hread : member L s with
    | error fault t =>
      rw [hread] at hmember
      exact hmember
    | ok m t =>
      rw [hread] at hmember
      obtain ⟨mid, hstart, ht⟩ := hmember
      rw [Ending.andThen_ok]
      obtain ⟨body', hadd | ⟨fieldsFirst, hadd⟩⟩ := addMember_apply L body m t
      · rw [hadd]
        exact (Reported.skipped hs 1).trans ht
      · rw [hadd]
        exact ht.enclose hs mid L.options hstart

/-! ## Items -/

theorem reports_membersUpTo (hL : L.Reports source) (body : Option TypeBody) (fuel : Nat) :
    Reports source L p (membersUpTo body fuel) := by
  induction fuel generalizing body p with
  | zero => exact .pure _
  | succ fuel ih =>
    refine .bind (.look (.atMark _)) fun _ => .ite (.pure _) ?_
    rw [← bind_assoc]
    exact .bind (reports_added hL body) fun _ => .bind (.takeMark _) fun _ => ih _

theorem reports_members (hL : L.Reports source) : Reports source L p members :=
  .bind (.needMark _) fun _ => .bind (.look .tokensLeft) fun _ => .bind (reports_membersUpTo hL _ _) fun _ =>
    .bind (.needMark _) fun _ => .pure _

theorem reports_declaredType (keyword : Bool) : Reports source L p (declaredType keyword) := by
  refine .ite reports_anyName (.bind (.look .kind) fun _ => ?_)
  split
  · exact .bind .advance fun _ => .pure _
  · exact .failUnexpected _

theorem reports_typeDecl (hL : L.Reports source) : Reports source L p typeDecl :=
  .bind (.takeWord _) fun _ => .bind (reports_declaredType _) fun _ => .bind (.look (.atMark _)) fun _ =>
    .iteBind (reports_params hL reports_anyName) (.pure _) fun _ => .bind (.needMark _) fun _ =>
    .bind (.look (.atMark _)) fun _ => .iteBind (reports_members hL) (.map _ hL.type) fun _ => .pure _

theorem reports_implFn (hL : L.Reports source) : Reports source L p implFn := by
  refine .bind (.look .kind) fun _ => ?_
  split
  · exact reports_fnDecl hL
  · exact reports_fnDecl hL
  · exact .failUnexpected _

theorem reports_implDecl (hL : L.Reports source) : Reports source L p implDecl := by
  have rest (types : Option TypeExpr × TypeExpr) : Reports source L (fun _ => True) (do
      let _ ← Reader.needMark .lBrace
      let fns ← JuiceSyntax.recovering .fn (·.isMark .rBrace) implFn
      let _ ← Reader.needMark .rBrace
      return (⟨types.1, types.2, fns⟩ : Impl)) :=
    .bind (.needMark _) fun _ => .bind (.recovering (reports_implFn hL) _ _) fun _ => .bind (.needMark _) fun _ =>
      .pure _
  refine .bind (.needWord _) fun _ => .bind hL.type fun _ => .bind (.takeWord _) fun _ => .ite ?_ ?_
  · exact .bind hL.type fun _ => .bind (.pure _) rest
  · exact .bind (.pure _) rest

theorem reports_itemKind (hL : L.Reports source) : Reports source L p itemKind := by
  refine .bind (.look .cursor) fun c => ?_
  split
  · exact .bind reports_importDecl fun _ => .pure _
  · exact .bind reports_importDecl fun _ => .pure _
  · exact .bind (reports_fnDecl hL) fun _ => .pure _
  · exact .bind (reports_fnDecl hL) fun _ => .pure _
  · exact .bind (reports_typeDecl hL) fun _ => .pure _
  · exact .bind (reports_implDecl hL) fun _ => .pure _
  · exact .throw rfl
  · exact .throw rfl
  · refine .ite (.bind (reports_binding hL) fun _ => .pure _) ?_
    exact .ite (.bind (reports_assignment hL) fun _ => .pure _) (.throw rfl)
  · exact .ite (.bind (reports_typeDecl hL) fun _ => .pure _) (.failUnexpected _)

theorem reports_item (hL : L.Reports source) : Reports source L p item :=
  .bind (.look .here) fun _ => .bind (.takeWord _) fun _ => .bind (.look .cursor) fun _ =>
    .whenBind (.throw rfl) fun _ => .bind (reports_itemKind hL) fun _ => .bind (.look (.spanFrom _)) fun _ => .pure _

end Grammar

/-! ## Readings -/

theorem level_type_onward (setting : Setting) (n lo : Nat) :
    Onward lo (level setting n) Reader.type (·.span.start) := by
  cases n with
  | zero => exact ⟨fun _ hr => nomatch hr⟩
  | succ n => exact ⟨(onward_typeExpr (level_grows setting n)).onward⟩

theorem level_reports (source : String) (setting : Setting) (n : Nat) : (level setting n).Reports source := by
  induction n with
  | zero =>
    have refused {α : Type} {p : Cursor → Prop} {r : Reader α}
        (h : ∀ s, r (level setting 0) s = tooDeep setting.options.maxDepth s) : Reports source (level setting 0) p r :=
      .step fun s => .inr ⟨_, rfl, h s⟩
    exact ⟨fun _ => refused fun _ => rfl, fun _ => refused fun _ => rfl, refused fun _ => rfl, refused fun _ => rfl,
      refused fun _ => rfl, level_type_onward setting 0⟩
  | succ n ih =>
    exact ⟨fun position => ⟨(reports_chain ih 1 position).reports⟩,
      fun position => ⟨(reports_chain ih operandLevel position).reports⟩, ⟨(reports_blockBody ih).reports⟩,
      ⟨(reports_typeExpr ih).reports⟩, ⟨(reports_recordExpr ih).reports⟩, level_type_onward setting (n + 1)⟩

theorem sited_lex (source : String) : Sited source (lex source).tokens := ⟨Stream.whole.drawn, lex_laid source⟩

theorem reports_wholeExpr (hL : L.Reports source) : Reports source L p wholeExpr where
  reports {s} _ hs := by
    have hexpr : Ending.Leaves (Reported s) (L.expr .value s) :=
      (hL.expr (p := fun _ => True) .value).reports trivial hs
    rw [wholeExpr_apply]
    cases hread : L.expr .value s with
    | error fault t =>
      rw [hread] at hexpr
      exact hexpr.1.mild L.options hexpr.2
    | ok e t =>
      rw [hread] at hexpr
      dsimp only
      split
      · exact hexpr
      · exact Reported.mild hexpr L.options rfl

/-- Different faults begin at different offsets, so their spans are different. -/
theorem Reported.nodup {tokens : List Token} {t : State} (h : Reported (.ofTokens tokens) t) :
    ((t.faults.filter (·.isStructural)).map (·.span)).Nodup := by
  obtain ⟨new, hnew, honce⟩ := h.once
  have hfaults : t.faults = new := hnew
  have hstarts : (((new.filter (·.isStructural)).map (·.span)).map Span.start).Nodup := by
    rw [List.map_map]
    exact honce.distinct
  rw [hfaults]
  exact List.Pairwise.of_map Span.start (fun _ _ hne heq => hne (congrArg _ heq)) hstarts

theorem itemsEnding_reported (source : String) (setting : Setting) {tokens : List Token} (h : Sited source tokens) :
    Reported (.ofTokens tokens) (Ending.state (itemsEnding setting tokens)) := by
  have hitems : Reports source (level setting setting.options.maxDepth) (fun _ => True) items :=
    .recovering (reports_item (level_reports source setting _)) _ _
  exact (hitems.reports (s := .ofTokens tokens) trivial h).state

theorem readExpr_reported (source : String) (setting : Setting) {tokens : List Token} (h : Sited source tokens) :
    ∃ t, (readExpr setting tokens).faults = t.faults ∧ Reported (.ofTokens tokens) t := by
  have hexpr := reports_wholeExpr (p := fun _ => True) (level_reports source setting setting.options.maxDepth)
  refine ⟨_, ?_, (hexpr.reports (s := .ofTokens tokens) trivial h).state⟩
  unfold readExpr Reader.run
  cases wholeExpr (level setting setting.options.maxDepth) (.ofTokens tokens) <;> rfl

/-- No two structural faults of a document have the same span, however often a text was read. -/
theorem structural_faults_once (source : String) (options : Options) :
    (((Document.read source options).faults.filter (·.isStructural)).map (·.span)).Nodup ∧
      (((ExprDocument.read source).faults.filter (·.isStructural)).map (·.span)).Nodup := by
  constructor
  · unfold Document.read
    dsimp only
    split
    · exact .nil
    · dsimp only
      rw [readItems_eq, Ending.faults_reading]
      exact (itemsEnding_reported source _ (sited_lex source)).nodup
  · obtain ⟨t, hfaults, ht⟩ := readExpr_reported source (.ofSource source .standard) (sited_lex source)
    unfold ExprDocument.read
    dsimp only
    rw [hfaults]
    exact ht.nodup

/-- The pattern is no value up to the arrow, so it is read once more as a type. -/
example : (ExprDocument.read "match x \x7b (a,) | int -> \x7b y = (b,) \x7d \x7d").faults.map (·.span) =
    [⟨10, 14⟩, ⟨30, 34⟩] := by decide +kernel

end JuiceSyntax
