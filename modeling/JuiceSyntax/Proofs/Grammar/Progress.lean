/-
  Progress of a reading. A statement, an arm and an item take a token of the list
  (`takes_statement`, `takes_arm`, `takes_item`), and recovery passes one if the item that failed
  took none (`left_resumed`). So every turn of a loop over such items takes a token or halts the
  reading, and the number of turns that the loop is allowed does not matter, once it is no less than
  the number of tokens left (`recoveringUpTo_congr`).
-/
import JuiceSyntax.Proofs.Grammar.Balance
import JuiceSyntax.Proofs.Grammar.Growth

namespace JuiceSyntax

open Reader Grammar

/-! ## Tokens left -/

theorem Cursor.pos_add_left_advance (c : Cursor) : c.advance.pos + c.advance.left = c.pos + c.left := by
  cases hend : c.atEnd with
  | true => rw [Cursor.advance_of_atEnd hend]
  | false =>
    have hleft := Cursor.left_advance hend
    have hpos := (Cursor.advance_of_mid hend).1
    omega

theorem Cursor.pos_add_left_skip (c : Cursor) (n : Nat) : (c.skip n).pos + (c.skip n).left = c.pos + c.left := by
  induction n generalizing c with
  | zero => rfl
  | succ n ih =>
    have hadvance := c.pos_add_left_advance
    have hskip := ih c.advance
    rw [Cursor.skip]
    omega

theorem Cursor.left_advance_le (c : Cursor) : c.advance.left ≤ c.left := by
  cases hend : c.atEnd with
  | true => exact Nat.le_of_eq (congrArg Cursor.left (Cursor.advance_of_atEnd hend))
  | false =>
    have := Cursor.left_advance hend
    omega

theorem Cursor.left_skip_le (c : Cursor) (n : Nat) : (c.skip n).left ≤ c.left := by
  induction n generalizing c with
  | zero => exact Nat.le_refl _
  | succ n ih => exact Nat.le_trans (ih c.advance) c.left_advance_le

theorem Cursor.left_skip_lt {c : Cursor} (h : c.atEnd = false) {n : Nat} (hn : 0 < n) : (c.skip n).left < c.left := by
  obtain ⟨n, rfl⟩ : ∃ k, n = k + 1 := ⟨n - 1, by omega⟩
  have hadvance := Cursor.left_advance h
  have hskip := c.advance.left_skip_le n
  rw [Cursor.skip]
  omega

theorem Grows.left_le {s t : State} (h : Grows s t) : t.cursor.left ≤ s.cursor.left := by
  obtain ⟨n, hn⟩ := h.cursor
  rw [hn]
  exact s.cursor.left_skip_le n

/-! ## Readers that take a token -/

/-- With a result the reader takes a token. -/
def Takes (L : Level) {α : Type} (r : Reader α) : Prop :=
  ∀ s a t, r L s = .ok a t → t.cursor.left < s.cursor.left

namespace Takes

variable {L : Level} {α β : Type}

theorem throw (fault : Fault) : Takes L (throw fault : Reader α) := fun _ _ _ hr => nomatch hr

theorem cursor {k : Cursor → Reader α} (h : ∀ c, Takes L (k c)) : Takes L (Reader.cursor >>= k) :=
  fun s a t hr => h s.cursor s a t hr

theorem ite {c : Prop} [Decidable c] {r r' : Reader α} (h : Takes L r) (h' : Takes L r') :
    Takes L (if c then r else r') := by
  split
  · exact h
  · exact h'

/-- What follows a reader only goes forward. -/
theorem first (hL : L.Grows) {r : Reader α} {k : α → Reader β} (h : Takes L r)
    (h' : ∀ a, Composed (fun _ => True) (k a)) : Takes L (r >>= k) := by
  intro s b u hr
  rw [bind_apply] at hr
  cases hfirst : r L s with
  | error fault t =>
    rw [hfirst] at hr
    cases hr
  | ok a t =>
    have hgrows := (h' a).grows inherited_true hL t trivial
    rw [hfirst, Ending.andThen_ok] at hr
    rw [hr] at hgrows
    exact Nat.lt_of_le_of_lt hgrows.left_le (h s a t hfirst)

theorem later (hL : L.Grows) {r : Reader α} {k : α → Reader β} (h : Composed (fun _ => True) r)
    (h' : ∀ a, Takes L (k a)) : Takes L (r >>= k) := by
  intro s b u hr
  rw [bind_apply] at hr
  have hgrows := h.grows inherited_true hL s trivial
  cases hfirst : r L s with
  | error fault t =>
    rw [hfirst] at hr
    cases hr
  | ok a t =>
    rw [hfirst] at hr hgrows
    exact Nat.lt_of_lt_of_le (h' a t b u hr) hgrows.left_le

/-- A check that fails, or nothing, and what follows. -/
theorem whenBind {c : Prop} [Decidable c] {r : Reader Unit} {k : Unit → Reader β} (hL : L.Grows)
    (h : Composed (fun _ => True) r) (h' : ∀ a, Takes L (k a)) : Takes L (if c then r >>= k else k ()) :=
  .ite (.later hL h h') (h' ())

/-- A token that is consumed on sight of its kind. -/
theorem onKind {k : Kind → Reader α}
    (h : ∀ kind s a t, s.cursor.kind = kind → k kind L s = .ok a t → t.cursor.left < s.cursor.left) :
    Takes L (Reader.kind >>= k) :=
  fun s a t hr => h s.cursor.kind s a t rfl hr

end Takes

section

variable {L : Level}

theorem left_advance_of_kind {c : Cursor} {kind : Kind} (h : c.kind = kind) (hk : kind.isDone = false) :
    c.advance.left < c.left := by
  have hend : c.atEnd = false := by rw [Cursor.atEnd, h, hk]
  have := Cursor.left_advance hend
  omega

theorem takes_failUnexpected {α : Type} (wanted : Wanted) : Takes L (failUnexpected wanted : Reader α) :=
  fun _ _ _ hr => nomatch hr

theorem isDone_of_isWord {w : Keyword} {kind : Kind} (h : kind.isWord w = true) : kind.isDone = false := by
  cases kind with
  | done => exact absurd h Bool.false_ne_true
  | _ => rfl

theorem takes_needWord (w : Keyword) : Takes L (needWord w) := by
  intro s a t hr
  rw [needWord_apply] at hr
  split at hr
  · rename_i hw
    cases hr
    exact left_advance_of_kind rfl (isDone_of_isWord hw)
  · cases hr

theorem takes_name : Takes L name := by
  refine .onKind fun kind s a t hkind hr => ?_
  split at hr
  · cases hr
    exact left_advance_of_kind hkind rfl
  · cases hr

theorem takes_anyName : Takes L anyName := by
  refine .onKind fun kind s a t hkind hr => ?_
  split at hr
  · cases hr
    exact left_advance_of_kind hkind rfl
  · cases hr
    exact left_advance_of_kind hkind rfl
  · cases hr

theorem takes_declaredType (keyword : Bool) : Takes L (declaredType keyword) := by
  refine .ite takes_anyName (.onKind fun kind s a t hkind hr => ?_)
  split at hr
  · cases hr
    exact left_advance_of_kind hkind rfl
  · cases hr

end

/-! ## Items -/

section

variable {L : Level} (hL : L.Grows)

include hL

theorem takes_importDecl : Takes L importDecl :=
  .later hL (.takeWord _) fun foreign => .first hL (takes_needWord _) fun _ => composed_importPath foreign

theorem takes_fnDecl : Takes L fnDecl :=
  .later hL .here fun _ => .later hL (.takeWord _) fun _ => .first hL (takes_needWord _) fun _ =>
    .bind composed_fnName fun _ => .bind (.atMark _) fun _ =>
    .iteBind (composed_params composed_name) (.pure _) fun _ => .bind (.takeMark _) fun _ =>
    .iteBind (.map _ .type) (.pure _) fun _ => .bind .block fun _ => .bind (.spanFrom _) fun _ => .pure _

theorem takes_typeDecl : Takes L typeDecl :=
  .later hL (.takeWord _) fun _ => .first hL (takes_declaredType _) fun _ => .bind (.atMark _) fun _ =>
    .iteBind (composed_params composed_anyName) (.pure _) fun _ => .bind (.needMark _) fun _ =>
    .bind (.atMark _) fun _ => .iteBind composed_members (.map _ .type) fun _ => .pure _

theorem takes_implDecl : Takes L implDecl :=
  .first hL (takes_needWord _) fun _ => .bind .type fun _ => .bind (.takeWord _) fun _ =>
    .chooseBind .type (fun _ => .pure _) (.pure _) fun _ => .bind (.needMark _) fun _ =>
    .bind (.recovering _ _ composed_implFn) fun _ => .bind (.needMark _) fun _ => .pure _

theorem takes_binding : Takes L binding := by
  refine .first hL takes_name fun _ => .bind (.takeMark _) fun _ => .ite ?_ ?_
  · exact .bind .type fun _ => .bind (.takeMark _) fun _ => .unlessBind (.failUnexpected _) fun _ =>
      .bind (.pure _) fun _ => .bind (.expr _) fun _ => .pure _
  · exact .bind (.needMark _) fun _ => .bind (.pure _) fun _ => .bind (.expr _) fun _ => .pure _

theorem takes_assignment : Takes L assignment :=
  .first hL takes_name fun _ => .bind (.needMark _) fun _ => .bind (.expr _) fun _ => .pure _

theorem takes_recordField : Takes L recordField := by
  refine .first hL takes_name fun _ => .bind (.takeMark _) fun _ =>
    .chooseBind (.expr _) (fun _ => .pure _) (.pure _) fun _ => .bind (.takeMark _) fun _ => .ite (.pure _) ?_
  refine .bind .kind fun _ => ?_
  split
  · exact .pure _
  · exact .pure _
  · exact .bind (.failUnexpected _) fun _ => .pure _

theorem takes_itemKind : Takes L itemKind := by
  refine .cursor fun c => ?_
  split
  · exact .first hL (takes_importDecl hL) fun _ => .pure _
  · exact .first hL (takes_importDecl hL) fun _ => .pure _
  · exact .first hL (takes_fnDecl hL) fun _ => .pure _
  · exact .first hL (takes_fnDecl hL) fun _ => .pure _
  · exact .first hL (takes_typeDecl hL) fun _ => .pure _
  · exact .first hL (takes_implDecl hL) fun _ => .pure _
  · exact .throw _
  · exact .throw _
  · refine .ite (.first hL (takes_binding hL) fun _ => .pure _) ?_
    exact .ite (.first hL (takes_assignment hL) fun _ => .pure _) (.throw _)
  · exact .ite (.first hL (takes_typeDecl hL) fun _ => .pure _) (takes_failUnexpected _)

/-- An item takes a token. -/
theorem takes_item : Takes L item := by
  unfold item
  refine .later hL .here fun _ => .later hL (.takeWord _) fun _ => .cursor fun _ => ?_
  exact .whenBind hL (.throw _ ⟨rfl, rfl⟩) fun _ => .first hL (takes_itemKind hL) fun _ => .bind (.spanFrom _) fun _ => .pure _

end

/-! ## Statements and arms -/

/-- With a result the reader takes a token, if it begins at one of this kind. -/
def TakesAt (L : Level) (kind : Kind) {α : Type} (r : Reader α) : Prop :=
  ∀ s a t, s.cursor.kind = kind → r L s = .ok a t → t.cursor.left < s.cursor.left

/-- The readers of a level that a statement can begin with take a token. -/
structure Level.Takes (L : Level) : Prop where
  grows : L.Grows
  expr : JuiceSyntax.Takes L (Reader.expr .statement)
  block : JuiceSyntax.Takes L Reader.block

section

variable {L : Level} {α : Type}

theorem Takes.at {r : Reader α} (h : Takes L r) (kind : Kind) : TakesAt L kind r := fun s a t _ hr => h s a t hr

theorem TakesAt.advance (hL : L.Grows) {kind : Kind} (hk : kind.isDone = false) {k : Token → Reader α}
    (h : ∀ token, Composed (fun _ => True) (k token)) : TakesAt L kind (Reader.advance >>= k) := by
  intro s a t hkind hr
  rw [bind_apply, advance_apply, Ending.andThen_ok] at hr
  have hgrows := (h s.cursor.current).grows inherited_true hL { s with cursor := s.cursor.advance } trivial
  rw [hr] at hgrows
  exact Nat.lt_of_le_of_lt hgrows.left_le (left_advance_of_kind hkind hk)

theorem Takes.ofKind {k : Kind → Reader α} (h : ∀ kind, TakesAt L kind (k kind)) : Takes L (Reader.kind >>= k) :=
  .onKind fun kind s a t hkind hr => h kind s a t hkind hr

theorem takes_needMark (m : Mark) : Takes L (needMark m) := by
  intro s a t hr
  rw [needMark_apply] at hr
  split at hr
  · rename_i hm
    cases hr
    exact left_advance_of_kind rfl (isDone_of_isMark hm)
  · cases hr

theorem takes_arm (hL : L.Grows) : Takes L arm :=
  .later hL composed_pattern fun _ => .first hL (takes_needMark _) fun _ => .bind composed_armBody fun _ => .pure _

theorem takes_blockBody (hL : L.Grows) : Takes L blockBody :=
  .first hL (takes_needMark _) fun _ => .bind (.recovering _ _ composed_statement) fun _ => composed_blockEnd _ _

theorem takes_listLiteral (hL : L.Grows) : Takes L listLiteral :=
  .first hL (takes_needMark _) fun _ => .bind (.separated _ (.expr _)) fun _ => .bind (.needMark _) fun _ => .pure _

theorem takes_parens (hL : L.Grows) : Takes L parens := by
  unfold parens
  refine .first hL (takes_needMark _) fun _ => .bind (.atMark _) fun _ => ?_
  refine .whenBind (.failAdvised _ _) fun _ => .bind (.expr _) fun _ => .bind (.takeMark _) fun _ => ?_
  refine .ite (.bind (.atMark _) fun _ => .ite ?_ ?_) (.bind (.needMark _) fun _ => .pure _)
  · exact .bind .advance fun _ => .bind (.record _ ⟨rfl, rfl⟩) fun _ => .pure _
  · exact .bind (.separated _ (.expr _)) fun _ => .bind (.needMark _) fun _ => .pure _

theorem takes_branch (hL : L.Grows) : Takes L branch :=
  .first hL (takes_needWord _) fun _ => .bind (.expr _) fun _ => .bind .block fun _ => .pure _

theorem takes_selection (hL : L.Grows) : Takes L selection :=
  .first hL (takes_needWord _) fun _ => .bind (.expr _) fun _ => .bind (.needMark _) fun _ =>
    .bind (.recovering _ _ composed_arm) fun _ => .bind (.needMark _) fun _ => .pure _

theorem takesAt_atom (hL : L.Grows) {kind : Kind} (hk : kind.isDone = false) (e : ExprKind) : TakesAt L kind (atom e) :=
  .advance hL hk fun _ => .pure _

theorem takesAt_macroCall (hL : L.Grows) (text : String) (position : Position) :
    TakesAt L (.macroName text) (macroCall text position) := by
  refine .advance hL rfl fun _ => .bind (.atMark _) fun _ => .iteBind composed_args (.pure _) fun _ => ?_
  refine .bind (.atMark _) fun _ => .ite (.bind composed_macroBody fun _ => .pure _) ?_
  exact .ite (.pure _) (.failUnexpected _)

theorem takes_primary (hL : L.Takes) : Takes L (primary .statement) := by
  refine .ofKind fun kind => ?_
  split
  · exact takesAt_atom hL.grows rfl _
  · exact takesAt_atom hL.grows rfl _
  · exact takesAt_atom hL.grows rfl _
  · exact takesAt_atom hL.grows rfl _
  · exact takesAt_atom hL.grows rfl _
  · exact .advance hL.grows rfl fun _ => .bind (composed_segments fun _ _ _ => trivial) fun _ => .pure _
  · exact takesAt_macroCall hL.grows _ _
  · exact (takes_listLiteral hL.grows).at _
  · exact (takes_parens hL.grows).at _
  · exact (Takes.first hL.grows hL.block fun _ => .pure _).at _
  · exact (Takes.first hL.grows (takes_fnDecl hL.grows) fun _ => .pure _).at _
  · exact (Takes.first hL.grows (takes_fnDecl hL.grows) fun _ => .pure _).at _
  · exact (Takes.first hL.grows (takes_branch hL.grows) fun _ => .bind .tokensLeft fun _ =>
      .bind (composed_elseBranchesUpTo _) fun _ => .pure _).at _
  · exact (takes_selection hL.grows).at _
  · exact fun _ _ _ _ hr => nomatch hr
  · exact fun _ _ _ _ hr => nomatch hr
  · exact fun _ _ _ _ hr => nomatch hr

theorem takes_chain (hL : L.Takes) (level : Nat) : Takes L (chain level .statement) := by
  refine .first hL.grows (.ofKind fun kind => ?_) fun _ => .bind .tokensLeft fun _ =>
    .bind (composed_chainUpTo inherited_true _ _ _) fun _ => .pure _
  split
  · rename_i op hop
    have hk : kind.isDone = false := by
      cases kind with
      | done => cases hop
      | _ => rfl
    exact .advance hL.grows hk fun _ => .bind (.operand _) fun _ => .pure _
  · exact (Takes.first hL.grows (takes_primary hL) fun _ => .bind .tokensLeft fun _ =>
      composed_postfixUpTo inherited_true _ _ _).at _

theorem takes_loop (hL : L.Grows) : Takes L loop := by
  unfold loop
  refine .first hL (takes_needWord _) fun _ => .bind (.atMark _) fun _ => .ite (.bind .block fun _ => .pure _) ?_
  have ranged (element : Option String) : Composed (fun _ => True) (do
      let first ← expr .head
      let range ← if ← takeMark .dotDot then .between first <$> expr .head else pure (.over first)
      return StatementKind.loop element range (← block)) :=
    .bind (.expr _) fun _ => .bind (.takeMark _) fun _ => .iteBind (.map _ (.expr _)) (.pure _) fun _ =>
      .bind .block fun _ => .pure _
  refine .bind .kind fun _ => .bind (.peek 1) fun _ => ?_
  split
  · exact .bind (.skip 2) fun _ => .bind (.pure _) fun _ => ranged _
  · exact .bind (.pure _) fun _ => ranged _

theorem takesAt_leave (hL : L.Grows) : TakesAt L (.word .returnWord) leave := by
  refine .advance hL rfl fun _ => .cursor (fun c c' h => ?_) fun _ _ => .ite (.bind (.expr _) fun _ => .pure _) (.pure _)
  have hk : c.kind = c'.kind := by simp only [Cursor.kind, Cursor.current, h]
  rw [hk, startsDeclaration_congr h, startsAssignment_congr h]

theorem takes_statementKind (hL : L.Takes) : Takes L statementKind := by
  refine .ofKind fun kind => ?_
  have ofExpr : Takes L (do return StatementKind.expr (← expr .statement)) := .first hL.grows hL.expr fun _ => .pure _
  split
  · exact takesAt_leave hL.grows
  · exact .advance hL.grows rfl fun _ => .pure _
  · exact .advance hL.grows rfl fun _ => .pure _
  · exact (takes_loop hL.grows).at _
  · exact (Takes.first hL.grows (takes_fnDecl hL.grows) fun _ => .pure _).at _
  · exact (Takes.first hL.grows (takes_fnDecl hL.grows) fun _ => .pure _).at _
  · exact (Takes.first hL.grows hL.block fun _ => .pure _).at _
  · exact fun _ _ _ _ hr => nomatch hr
  · exact fun _ _ _ _ hr => nomatch hr
  · exact fun _ _ _ _ hr => nomatch hr
  · exact fun _ _ _ _ hr => nomatch hr
  · exact fun _ _ _ _ hr => nomatch hr
  · exact fun _ _ _ _ hr => nomatch hr
  · exact fun _ _ _ _ hr => nomatch hr
  · refine Takes.at (.cursor fun _ => .ite (.first hL.grows (takes_binding hL.grows) fun _ => .pure _) ?_) _
    exact .ite (.first hL.grows (takes_assignment hL.grows) fun _ => .pure _) ofExpr
  · refine Takes.at (.later hL.grows (.peek 1) fun _ => .ite ?_ ofExpr) _
    exact fun _ _ _ hr => nomatch hr
  · exact ofExpr.at _

/-- A statement takes a token. -/
theorem takes_statement (hL : L.Takes) : Takes L statement :=
  .later hL.grows .here fun _ => .first hL.grows (takes_statementKind hL) fun _ => .bind (.spanFrom _) fun _ => .pure _

theorem level_takes (setting : Setting) (n : Nat) : (level setting n).Takes := by
  induction n with
  | zero => exact ⟨level_grows setting 0, (fun _ _ _ hr => nomatch hr), (fun _ _ _ hr => nomatch hr)⟩
  | succ n ih => exact ⟨level_grows setting (n + 1), takes_chain ih 1, takes_blockBody ih.grows⟩

end

/-! ## Turns -/

theorem Resume.distance_item_pos {c : Cursor} (h : c.kind.isMark .rBrace = true) :
    0 < Resume.item.distance 0 c.rest := by
  cases hrest : c.rest with
  | nil => simp [Cursor.kind, Cursor.current, hrest, Kind.isMark] at h
  | cons token rest =>
    have hr : token.kind.isMark .rBrace = true := by simpa [Cursor.kind, Cursor.current, hrest] using h
    have hl := isMark_of_ne hr .lBrace (by decide)
    simp only [Resume.distance, isDone_of_isMark hr, hl, hr, Resume.item, Bool.false_eq_true, if_false, if_true]
    exact Nat.succ_pos _

/-- Recovery passes a token if the turn that failed took none, also at a closing brace if such braces are
passed. -/
theorem left_resumeFrom {start here : Cursor} {resume : Resume} (hend : start.atEnd = false)
    (hbrace : start.kind.isMark .rBrace = true → 0 < resume.distance 0 start.rest) (h : ∃ n, here = start.skip n) :
    (resumeFrom start resume here).left < start.left := by
  obtain ⟨n, rfl⟩ := h
  have hmoved (c : Cursor) : (c.skip (resume.distance 0 c.rest)).left ≤ c.left := c.left_skip_le _
  unfold resumeFrom
  dsimp only
  cases n with
  | zero =>
    rw [Cursor.skip, beq_self_eq_true, hend, Bool.not_false, Bool.true_and, Bool.true_and]
    cases hr : start.kind.isMark .rBrace with
    | true =>
      rw [Bool.not_true, if_neg (by decide)]
      exact Cursor.left_skip_lt hend (hbrace hr)
    | false =>
      rw [Bool.not_false, if_pos rfl]
      have := Cursor.left_advance hend
      have := hmoved start.advance
      omega
  | succ n =>
    have hskip : (start.skip (n + 1)).left < start.left := Cursor.left_skip_lt hend (Nat.succ_pos n)
    have := Cursor.left_advance_le (start.skip (n + 1))
    split
    · have := hmoved (start.skip (n + 1)).advance
      omega
    · have := hmoved (start.skip (n + 1))
      omega

variable {L : Level}

/-- A turn that failed has passed a token, or the reading is halted. -/
theorem left_resumed {s t : State} {resume : Resume} (hend : s.cursor.atEnd = false)
    (hbrace : s.cursor.kind.isMark .rBrace = true → 0 < resume.distance 0 s.cursor.rest) (h : Grows s t)
    (fault : Fault) :
    (t.resumed L.options s.cursor resume fault).halted = true ∨
      (t.resumed L.options s.cursor resume fault).cursor.left < s.cursor.left := by
  obtain ⟨hh, heq⟩ | ⟨-, -, -, -, heq⟩ := resumed_cases L.options s.cursor resume fault t
  · rw [heq]
    exact .inl hh
  · rw [heq]
    exact .inr (left_resumeFrom hend hbrace h.cursor)

theorem Cursor.atEnd_of_left {c : Cursor} (h : c.left = 0) : c.atEnd = true := by
  rw [c.left_eq] at h
  simp only [Cursor.atEnd, Cursor.kind, Cursor.current, List.length_eq_zero_iff.1 h]
  rfl

/-- Items that are read before the others. -/
def Ending.after (items : List Item) (ending : Ending (List Item)) : Ending (List Item) :=
  Ending.andThen ending fun others => .ok (items ++ others)

theorem Ending.after_nil (ending : Ending (List Item)) : Ending.after [] ending = ending := by
  cases ending <;> rfl

theorem Ending.after_after (items items' : List Item) (ending : Ending (List Item)) :
    Ending.after items (Ending.after items' ending) = Ending.after (items ++ items') ending := by
  cases ending with
  | ok others s => exact congrArg (EStateM.Result.ok · s) (List.append_assoc items items' others).symm
  | error fault s => rfl

theorem Ending.state_after (items : List Item) (ending : Ending (List Item)) :
    Ending.state (Ending.after items ending) = Ending.state ending := by
  cases ending <;> rfl

section

variable {α : Type} {resume : Resume} {ends : Kind → Bool} {reader : Reader α}

theorem recoveringUpTo_of_ended {s : State} (h : (ends s.cursor.kind || s.cursor.atEnd || s.halted) = true) (fuel : Nat) :
    recoveringUpTo resume ends reader fuel L s = .ok [] s := by
  cases fuel with
  | zero => rfl
  | succ fuel => rw [recoveringUpTo_succ, if_pos h]

/-- As many turns as there are tokens left are enough, if at a closing brace the loop ends or
recovery passes it. -/
theorem recoveringUpTo_congr (hgrows : ∀ s, Grows s (Ending.state (reader L s))) (htakes : Takes L reader)
    (hbrace : ∀ c : Cursor, ends c.kind = false → c.kind.isMark .rBrace = true → 0 < resume.distance 0 c.rest)
    {fuel fuel' : Nat} {s : State} (h : s.cursor.left ≤ fuel) (h' : s.cursor.left ≤ fuel') :
    recoveringUpTo resume ends reader fuel L s = recoveringUpTo resume ends reader fuel' L s := by
  have hended {s : State} (h : s.cursor.left ≤ 0) : (ends s.cursor.kind || s.cursor.atEnd || s.halted) = true := by
    rw [Cursor.atEnd_of_left (Nat.le_zero.1 h), Bool.or_true, Bool.true_or]
  induction fuel generalizing fuel' s with
  | zero =>
    have hturn := hended h
    rw [recoveringUpTo_of_ended hturn, recoveringUpTo_of_ended hturn]
  | succ fuel ih =>
    cases fuel' with
    | zero =>
      have hturn := hended h'
      rw [recoveringUpTo_of_ended hturn, recoveringUpTo_of_ended hturn]
    | succ fuel' =>
      rw [recoveringUpTo_succ, recoveringUpTo_succ]
      split
      · rfl
      rename_i hturn
      rw [Bool.not_eq_true, Bool.or_assoc, Bool.or_eq_false_iff, Bool.or_eq_false_iff] at hturn
      obtain ⟨hgoes, hend, -⟩ := hturn
      have hnext {t : State} (hlt : t.cursor.left < s.cursor.left) :
          recoveringUpTo resume ends reader fuel L t = recoveringUpTo resume ends reader fuel' L t :=
        ih (by omega) (by omega)
      have hread := hgrows s
      cases hfirst : reader L s with
      | ok first t =>
        simp only [Ending.caught, Ending.andThen_ok, turned, hnext (htakes s first t hfirst)]
      | error fault t =>
        rw [hfirst, Ending.state_error] at hread
        simp only [Ending.caught, Ending.andThen_ok, turned]
        obtain hhalt | hlt := left_resumed hend (hbrace s.cursor hgoes) hread fault (L := L)
        · rw [recoveringUpTo_of_ended (by rw [hhalt, Bool.or_true]), recoveringUpTo_of_ended (by rw [hhalt, Bool.or_true])]
        · exact hnext hlt

end

/-- The loop over items, with some number of turns allowed. -/
def itemsUpTo (L : Level) (fuel : Nat) (s : State) : Ending (List Item) :=
  recoveringUpTo .item (fun _ => false) item fuel L s

theorem itemsUpTo_of_ended {s : State} (h : s.cursor.atEnd = true ∨ s.halted = true) (fuel : Nat) :
    itemsUpTo L fuel s = .ok [] s :=
  recoveringUpTo_of_ended (by simpa using h) fuel

/-- The loop from a place where it is not at an end. -/
theorem itemsUpTo_succ {s : State} (hmid : s.cursor.atEnd = false) (hgoes : s.halted = false) (fuel : Nat) :
    itemsUpTo L (fuel + 1) s =
      Ending.andThen (Ending.caught (item L s)) (turned L.options s.cursor .item (itemsUpTo L fuel)) := by
  have hturn : ¬(false || s.cursor.atEnd || s.halted) = true := by rw [hmid, hgoes]; decide
  rw [itemsUpTo, recoveringUpTo_succ, if_neg hturn]
  rfl

theorem itemsUpTo_ok {s t : State} {first : Item} (hmid : s.cursor.atEnd = false) (hgoes : s.halted = false)
    (h : item L s = .ok first t) (fuel : Nat) :
    itemsUpTo L (fuel + 1) s = Ending.after [first] (itemsUpTo L fuel t) := by
  rw [itemsUpTo_succ hmid hgoes, h]
  rfl

theorem itemsUpTo_error {s t : State} {fault : Fault} (hmid : s.cursor.atEnd = false) (hgoes : s.halted = false)
    (h : item L s = .error fault t) (fuel : Nat) :
    itemsUpTo L (fuel + 1) s = itemsUpTo L fuel (t.resumed L.options s.cursor .item fault) := by
  rw [itemsUpTo_succ hmid hgoes, h]
  rfl

/-- As many turns as there are tokens left are enough. -/
theorem itemsUpTo_congr (hL : L.Grows) {fuel fuel' : Nat} {s : State} (h : s.cursor.left ≤ fuel)
    (h' : s.cursor.left ≤ fuel') : itemsUpTo L fuel s = itemsUpTo L fuel' s :=
  recoveringUpTo_congr (fun s => composed_item.grows inherited_true hL s trivial) (takes_item hL)
    (fun _ _ => Resume.distance_item_pos) h h'

/-- The loop over items ends halted or where the tokens do. -/
theorem itemsUpTo_ends (hL : L.Grows) {fuel : Nat} {s t : State} {items : List Item} (h : s.cursor.left ≤ fuel)
    (hr : itemsUpTo L fuel s = .ok items t) : t.halted = true ∨ t.cursor.atEnd = true := by
  induction fuel generalizing s items with
  | zero =>
    have hended := Cursor.atEnd_of_left (Nat.le_zero.1 h)
    rw [itemsUpTo_of_ended (.inl hended)] at hr
    cases hr
    exact .inr hended
  | succ fuel ih =>
    by_cases hended : s.cursor.atEnd = true ∨ s.halted = true
    · rw [itemsUpTo_of_ended hended] at hr
      cases hr
      exact hended.symm
    obtain ⟨hend, hhalted⟩ : s.cursor.atEnd = false ∧ s.halted = false := by simpa using hended
    have hgrows := composed_item.grows inherited_true hL s trivial
    cases hitem : item L s with
    | ok first u =>
      have hlt := takes_item hL s first u hitem
      rw [itemsUpTo_ok hend hhalted hitem, Ending.after] at hr
      cases hrest : itemsUpTo L fuel u with
      | error fault v =>
        rw [hrest] at hr
        cases hr
      | ok rest v =>
        rw [hrest] at hr
        cases hr
        exact ih (by omega) hrest
    | error fault u =>
      rw [hitem, Ending.state_error] at hgrows
      rw [itemsUpTo_error hend hhalted hitem] at hr
      obtain hhalt | hlt := left_resumed hend Resume.distance_item_pos hgrows fault (L := L)
      · rw [itemsUpTo_of_ended (.inr hhalt)] at hr
        cases hr
        exact .inl hhalt
      · exact ih (by omega) hr

end JuiceSyntax
