/-
  What a reading sees of the tokens behind it. Of the position of the cursor only differences matter, so a reading
  that begins `n` places further on is the same one, `n` places further on (`Composed.further`). The last token
  consumed gives an empty span its place, and an expression, which begins by consuming a token or fails, never asks
  for it (`IgnoresLast`).

  `expr_elsewhere`: an expression is read alike as the first of a document and behind other tokens.
-/
import JuiceSyntax.Proofs.Grammar.Memory
import JuiceSyntax.Proofs.Grammar.Progress

namespace JuiceSyntax

open Reader Grammar

/-! ## Further on -/

def Cursor.further (n : Nat) (c : Cursor) : Cursor := { c with pos := c.pos + n }

/-- The same state with its cursor counted from elsewhere. -/
def State.further (n : Nat) (s : State) : State := { s with cursor := s.cursor.further n }

def Ending.further (n : Nat) {α : Type} : Ending α → Ending α
  | .ok a s => .ok a (s.further n)
  | .error fault s => .error fault (s.further n)

variable {n : Nat} {L : Level} {α β : Type}

theorem Cursor.advance_further (c : Cursor) : (c.further n).advance = c.advance.further n := by
  obtain ⟨pos, last, rest, left, hleft⟩ := c
  cases rest with
  | nil => rfl
  | cons token rest =>
    simp only [Cursor.further, Cursor.advance]
    split
    · rfl
    · simp only [Cursor.mk.injEq, and_true]
      omega

theorem Cursor.skip_further (c : Cursor) (m : Nat) : (c.further n).skip m = (c.skip m).further n := by
  induction m generalizing c with
  | zero => rfl
  | succ m ih => rw [Cursor.skip, Cursor.skip, c.advance_further, ih]

theorem resumeFrom_further (start : Cursor) (resume : Resume) (c : Cursor) :
    resumeFrom (start.further n) resume (c.further n) = (resumeFrom start resume c).further n := by
  have hpos : ((c.further n).pos == (start.further n).pos) = (c.pos == start.pos) := by
    show (c.pos + n == start.pos + n) = _
    rw [Bool.eq_iff_iff, beq_iff_eq, beq_iff_eq]
    omega
  have hend : (c.further n).atEnd = c.atEnd := rfl
  have hkind : (c.further n).kind = c.kind := rfl
  unfold resumeFrom
  dsimp only
  rw [hpos, hend, hkind]
  split
  · rw [c.advance_further]
    exact c.advance.skip_further _
  · exact c.skip_further _

theorem withFault_further (options : Options) (fault : Fault) (s : State) :
    (s.further n).withFault options fault = (s.withFault options fault).further n := by
  unfold State.withFault
  rw [apply_ite (State.further n), apply_ite (State.further n), apply_ite (State.further n)]
  rfl

theorem resumed_further (options : Options) (start : Cursor) (resume : Resume) (fault : Fault) (s : State) :
    (s.further n).resumed options (start.further n) resume fault = (s.resumed options start resume fault).further n := by
  rw [State.resumed, State.resumed, withFault_further]
  generalize s.withFault options fault = s
  have hcursor : resumeFrom (start.further n) resume (s.further n).cursor =
      (resumeFrom start resume s.cursor).further n := resumeFrom_further start resume s.cursor
  have hpos : ((start.further n).pos < ((resumeFrom start resume s.cursor).further n).pos) =
      (start.pos < (resumeFrom start resume s.cursor).pos) := by
    show (start.pos + n < (resumeFrom start resume s.cursor).pos + n) = _
    exact propext ⟨fun h => by omega, fun h => by omega⟩
  unfold State.recovered
  rw [apply_ite (State.further n)]
  simp only [hcursor, hpos]
  rfl

theorem speculated_further (s : State) (ending : Ending α) :
    speculated (s.further n) (Ending.further n ending) = Ending.further n (speculated s ending) := by
  have hfaults (t : State) : (t.further n).faults.drop (s.further n).faults.length = t.faults.drop s.faults.length := rfl
  cases ending with
  | ok a t =>
    rw [Ending.further, speculated_ok, speculated_ok, hfaults]
    split
    · rfl
    · split
      · rfl
      · rfl
  | error fault t =>
    rw [Ending.further, speculated_error, speculated_error, hfaults]
    split
    · rfl
    · split
      · rfl
      · rfl

theorem noted_further (form : BraceForm) (offset : Nat) (ending : Ending (Option α)) :
    noted form offset (Ending.further n ending) = Ending.further n (noted form offset ending) := by
  cases ending with
  | error fault t => rfl
  | ok found t =>
    cases found with
    | some a => rfl
    | none => cases form <;> rfl

/-- The reading goes on from wherever its positions are counted. -/
def Further (n : Nat) (L : Level) {α : Type} (r : Reader α) : Prop :=
  ∀ s : State, r L (s.further n) = Ending.further n (r L s)

structure Level.Further (n : Nat) (L : Level) : Prop where
  expr : ∀ position, JuiceSyntax.Further n L (Reader.expr position)
  operand : ∀ position, JuiceSyntax.Further n L (Reader.operand position)
  block : JuiceSyntax.Further n L Reader.block
  type : JuiceSyntax.Further n L Reader.type
  record : JuiceSyntax.Further n L Reader.recordLiteral

theorem andThen_further {ending : Ending α} {next : α → State → Ending β}
    (h : ∀ a t, next a (t.further n) = Ending.further n (next a t)) :
    Ending.andThen (Ending.further n ending) next = Ending.further n (Ending.andThen ending next) := by
  cases ending with
  | ok a t => exact h a t
  | error fault t => rfl

theorem further_recoveringUpTo {item : Reader α} (h : Further n L item) (resume : Resume) (ends : Kind → Bool) (fuel : Nat) :
    Further n L (recoveringUpTo resume ends item fuel) := by
  induction fuel with
  | zero => exact fun s => rfl
  | succ fuel ih =>
    intro s
    have hlook : (ends (s.further n).cursor.kind || (s.further n).cursor.atEnd || (s.further n).halted) =
        (ends s.cursor.kind || s.cursor.atEnd || s.halted) := rfl
    rw [recoveringUpTo_succ, recoveringUpTo_succ, hlook, h s]
    split
    · rfl
    · cases item L s with
      | ok first t =>
        show Ending.andThen (recoveringUpTo resume ends item fuel L (t.further n)) _ = _
        rw [ih t]
        exact andThen_further fun _ _ => rfl
      | error fault t =>
        show recoveringUpTo resume ends item fuel L ((t.further n).resumed L.options (s.cursor.further n) resume fault) = _
        rw [resumed_further]
        exact ih _

/-- Every step is the same further on, and so is every reader. -/
theorem Composed.further {r : Reader α} (h : Composed (fun _ => True) r) (hL : L.Further n) : Further n L r := by
  induction h with
  | pure | throw | spanFrom | halted | sourceText | noteBody => exact fun s => rfl
  | bind _ _ ih ihk =>
    intro s
    rw [bind_apply, bind_apply, ih s]
    exact andThen_further ihk
  | @cursor α k same next ih =>
    intro s
    rw [cursor_bind_apply, cursor_bind_apply, same (s.further n).cursor s.cursor rfl]
    exact ih s.cursor trivial s
  | advance =>
    intro s
    rw [advance_apply, advance_apply]
    show EStateM.Result.ok _ { s with cursor := (s.cursor.further n).advance } = _
    rw [Cursor.advance_further]
    rfl
  | skip m =>
    intro s
    show EStateM.Result.ok () { s with cursor := (s.cursor.further n).skip m } = _
    rw [Cursor.skip_further]
    rfl
  | record fault =>
    intro s
    rw [record_apply, record_apply, withFault_further]
    rfl
  | expr position => exact hL.expr position
  | operand position => exact hL.operand position
  | block => exact hL.block
  | type => exact hL.type
  | recordLiteral => exact hL.record
  | speculate _ ih =>
    intro s
    rw [speculate_apply, speculate_apply, ih s, speculated_further]
  | tryBrace form _ ih =>
    intro s
    have hspan : (s.further n).cursor.span = s.cursor.span := rfl
    have hfailed : (s.further n).failed form = s.failed form := by cases form <;> rfl
    rw [tryBrace_apply, tryBrace_apply, hspan, hfailed, ih s, speculated_further, noted_further]
    split
    · rfl
    · rfl
  | @withTokens α tokens r _ _ ih =>
    intro s
    have hsame : ({ s.further n with cursor := .ofTokens tokens } : State) = { s with cursor := .ofTokens tokens } := rfl
    rw [withTokens_apply, withTokens_apply, hsame]
    cases r L { s with cursor := .ofTokens tokens } <;> rfl
  | recovering resume ends _ ih => exact fun s => further_recoveringUpTo ih resume ends _ s

theorem level_further (n : Nat) (setting : Setting) (depth : Nat) : (level setting depth).Further n := by
  induction depth with
  | zero => exact ⟨fun _ _ => rfl, fun _ _ => rfl, fun _ => rfl, fun _ => rfl, fun _ => rfl⟩
  | succ depth ih =>
    exact ⟨fun position => (composed_chain inherited_true 1 position).further ih,
      fun position => (composed_chain inherited_true operandLevel position).further ih, composed_blockBody.further ih,
      (composed_typeExpr inherited_true).further ih, composed_recordExpr.further ih⟩

/-! ## The token before -/

theorem Cursor.kind_congr {c c' : Cursor} (h : c.rest = c'.rest) : c.kind = c'.kind := by
  simp only [Cursor.kind, Cursor.current, h]

theorem Cursor.span_congr {c c' : Cursor} (h : c.rest = c'.rest) : c.span = c'.span := by
  simp only [Cursor.span, Cursor.current, h]

/-- A speculation ends alike wherever it begins, but that it goes back there if it gives nothing. -/
theorem speculated_at (c : Cursor) (s : State) (ending : Ending α) :
    JuiceSyntax.speculated { s with cursor := c } ending = JuiceSyntax.speculated s ending ∨
      JuiceSyntax.speculated s ending = .ok none (s.rewind (Ending.state ending)) ∧
        JuiceSyntax.speculated { s with cursor := c } ending =
          .ok none { s.rewind (Ending.state ending) with cursor := c } := by
  unfold JuiceSyntax.speculated
  dsimp only
  cases ((Ending.state ending).faults.drop s.faults.length).find? (·.isFatal) with
  | some fault => exact .inl rfl
  | none =>
    cases ending with
    | ok a t =>
      dsimp only
      split
      · exact .inl rfl
      · exact .inr ⟨rfl, rfl⟩
    | error fault t =>
      dsimp only
      split
      · exact .inl rfl
      · exact .inr ⟨rfl, rfl⟩

/-- Whatever token comes before the cursor, the reader ends alike from here; where it ends in a fault without having
consumed anything, the cursor is where it was. -/
def IgnoresLast (L : Level) (s : State) {α : Type} (r : Reader α) : Prop :=
  ∀ c : Cursor, c.rest = s.cursor.rest → c.pos = s.cursor.pos →
    r L { s with cursor := c } = r L s ∨
      ∃ fault t, t.cursor = s.cursor ∧ r L s = .error fault t ∧ r L { s with cursor := c } = .error fault { t with cursor := c }

namespace IgnoresLast

variable {s : State}

theorem bind {r : Reader α} (first : IgnoresLast L s r) (k : α → Reader β) : IgnoresLast L s (r >>= k) := by
  intro c hrest hpos
  rw [bind_apply, bind_apply]
  obtain heq | ⟨fault, t, ht, heq, heq'⟩ := first c hrest hpos
  · rw [heq]
    exact .inl rfl
  · rw [heq, heq']
    exact .inr ⟨fault, t, ht, rfl, rfl⟩

theorem throw (fault : Fault) : IgnoresLast L s (MonadExcept.throw fault : Reader α) :=
  fun _ _ _ => .inr ⟨fault, s, rfl, rfl, rfl⟩

theorem cursor {k : Cursor → Reader α} (same : ∀ c c' : Cursor, c.rest = c'.rest → k c = k c')
    (next : IgnoresLast L s (k s.cursor)) : IgnoresLast L s (Reader.cursor >>= k) := by
  intro c hrest hpos
  rw [cursor_bind_apply, cursor_bind_apply, same c s.cursor hrest]
  exact next c hrest hpos

theorem here {k : Span → Reader α} (next : IgnoresLast L s (k s.cursor.span)) : IgnoresLast L s (Reader.here >>= k) :=
  .cursor (k := fun c => k c.span) (fun _ _ h => by rw [Cursor.span_congr h]) next

theorem kind {k : Kind → Reader α} (next : IgnoresLast L s (k s.cursor.kind)) : IgnoresLast L s (Reader.kind >>= k) :=
  .cursor (k := fun c => k c.kind) (fun _ _ h => by rw [Cursor.kind_congr h]) next

/-- A token that is consumed is the last one then. -/
theorem advance (hmid : s.cursor.atEnd = false) : IgnoresLast L s Reader.advance := by
  intro c hrest hpos
  have hend : c.atEnd = false := by rw [Cursor.atEnd, Cursor.kind_congr hrest, ← Cursor.atEnd, hmid]
  refine .inl ?_
  rw [advance_apply, advance_apply, Cursor.current, Cursor.current, hrest, Cursor.advance_congr hrest hpos hend]

/-- So is the last of several. -/
theorem skip (hmid : s.cursor.atEnd = false) (m : Nat) : IgnoresLast L s (JuiceSyntax.skip (m + 1)) := by
  intro c hrest hpos
  have hend : c.atEnd = false := by rw [Cursor.atEnd, Cursor.kind_congr hrest, ← Cursor.atEnd, hmid]
  refine .inl ?_
  show EStateM.Result.ok () { s with cursor := c.advance.skip m } = .ok () { s with cursor := s.cursor.advance.skip m }
  rw [Cursor.advance_congr hrest hpos hend]

theorem tooDeep (limit : Nat) : IgnoresLast L s (fun _ => JuiceSyntax.tooDeep limit : Reader α) := by
  intro c hrest _
  have hspan : c.span = s.cursor.span := Cursor.span_congr hrest
  exact .inr ⟨_, s, rfl, rfl, by rw [← hspan]; rfl⟩

theorem failUnexpected (wanted : Wanted) : IgnoresLast L s (Reader.failUnexpected wanted : Reader α) := by
  show IgnoresLast L s (Reader.here >>= fun span => Reader.kind >>= fun found =>
    MonadExcept.throw (Fault.ofCause span (.unexpected wanted found none)))
  exact .here (.kind (.throw _))

theorem needMark (m : Mark) : IgnoresLast L s (Reader.needMark m) := by
  intro c hrest hpos
  have hkind : c.kind = s.cursor.kind := Cursor.kind_congr hrest
  rw [needMark_apply, needMark_apply, hkind, Cursor.span_congr hrest]
  split
  · rename_i hmark
    rw [Cursor.advance_congr hrest hpos (isDone_of_isMark (hkind ▸ hmark))]
    exact .inl rfl
  · exact .inr ⟨_, s, rfl, rfl, rfl⟩

theorem needWord (w : Keyword) : IgnoresLast L s (Reader.needWord w) := by
  intro c hrest hpos
  have hkind : c.kind = s.cursor.kind := Cursor.kind_congr hrest
  rw [needWord_apply, needWord_apply, hkind, Cursor.span_congr hrest]
  split
  · rename_i hword
    rw [Cursor.advance_congr hrest hpos (isDone_of_isWord (hkind ▸ hword))]
    exact .inl rfl
  · exact .inr ⟨_, s, rfl, rfl, rfl⟩

theorem takeWord {w : Keyword} {k : Bool → Reader α} (next : IgnoresLast L s (k false)) :
    IgnoresLast L s (Reader.takeWord w >>= k) := by
  intro c hrest hpos
  have hkind : c.kind = s.cursor.kind := Cursor.kind_congr hrest
  rw [bind_apply, bind_apply, takeWord_apply, takeWord_apply, hkind]
  split
  · rename_i hword
    rw [Cursor.advance_congr hrest hpos (isDone_of_isWord (hkind ▸ hword))]
    exact .inl rfl
  · exact next c hrest hpos

/-- A speculation ends alike too; where it gives nothing, the cursor is where it was. -/
theorem speculated {r : Reader α} (tried : IgnoresLast L s r) {c : Cursor} (hrest : c.rest = s.cursor.rest)
    (hpos : c.pos = s.cursor.pos) :
    JuiceSyntax.speculated { s with cursor := c } (r L { s with cursor := c }) = JuiceSyntax.speculated s (r L s) ∨
      ∃ t, t.cursor = s.cursor ∧
        ((∃ fault, JuiceSyntax.speculated s (r L s) = .error fault t ∧
            JuiceSyntax.speculated { s with cursor := c } (r L { s with cursor := c }) = .error fault { t with cursor := c }) ∨
          JuiceSyntax.speculated s (r L s) = .ok none t ∧
            JuiceSyntax.speculated { s with cursor := c } (r L { s with cursor := c }) = .ok none { t with cursor := c }) := by
  obtain heq | ⟨fault, t, ht, heq, heq'⟩ := tried c hrest hpos
  · rw [heq]
    obtain hsame | ⟨hnone, hnone'⟩ := speculated_at c s (r L s)
    · exact .inl hsame
    · exact .inr ⟨s.rewind (Ending.state (r L s)), rfl, .inr ⟨hnone, hnone'⟩⟩
  · rw [heq, heq', speculated_error, speculated_error]
    refine .inr ?_
    dsimp only
    cases (t.faults.drop s.faults.length).find? (·.isFatal) with
    | some first => exact ⟨t, ht, .inl ⟨first, rfl, rfl⟩⟩
    | none =>
      dsimp only
      split
      · exact ⟨t, ht, .inl ⟨fault, rfl, rfl⟩⟩
      · exact ⟨s.rewind t, rfl, .inr ⟨rfl, rfl⟩⟩

/-- A brace tried as one form, and then something else from the same place. -/
theorem tryBrace (form : BraceForm) {r otherwise : Reader Expr} (tried : IgnoresLast L s r)
    (hother : ∀ t : State, t.cursor = s.cursor → IgnoresLast L t otherwise) :
    IgnoresLast L s
      (do
        if let some e ← Grammar.tryBrace form r then
          return e
        otherwise) := by
  intro c hrest hpos
  have hspan : c.span = s.cursor.span := Cursor.span_congr hrest
  have hfailed : ({ s with cursor := c } : State).failed form = s.failed form := by cases form <;> rfl
  have hnote (t : State) (offset : Nat) : ({ t with cursor := c } : State).noteFailed offset form =
      { t.noteFailed offset form with cursor := c } := by cases form <;> rfl
  -- Where the try gives nothing, the cursors are where they were.
  have hgiven (t : State) (ht : t.cursor = s.cursor) :
      otherwise L { t with cursor := c } = otherwise L t ∨ ∃ fault u, u.cursor = s.cursor ∧
        otherwise L t = .error fault u ∧ otherwise L { t with cursor := c } = .error fault { u with cursor := c } := by
    rw [← ht]
    exact hother t ht c (ht ▸ hrest) (ht ▸ hpos)
  rw [bind_apply, bind_apply, tryBrace_apply, tryBrace_apply, hfailed, hspan]
  split
  · exact hgiven s rfl
  · obtain heq | ⟨t, ht, ⟨fault, heq, heq'⟩ | ⟨heq, heq'⟩⟩ := tried.speculated hrest hpos
    · rw [heq]
      exact .inl rfl
    · rw [heq, heq']
      exact .inr ⟨fault, t, ht, rfl, rfl⟩
    · have hnoted := hgiven (t.noteFailed s.cursor.span.start form) (by cases form <;> exact ht)
      rw [← hnote] at hnoted
      rw [heq, heq']
      exact hnoted

end IgnoresLast

/-! ## Expressions -/

namespace Grammar

variable {setting : Setting} {depth : Nat} {s : State}

theorem ignoresLast_form (form : BraceForm) : IgnoresLast (level setting depth) s form.reader := by
  cases depth with
  | zero =>
    have hdeep : IgnoresLast (level setting 0) s (fun _ => tooDeep setting.options.maxDepth : Reader Expr) := .tooDeep _
    cases form with
    | record => exact hdeep
    | block => exact IgnoresLast.bind (r := fun _ => tooDeep setting.options.maxDepth) (.tooDeep _) _
  | succ depth =>
    intro c hrest hpos
    obtain ⟨next, hnext⟩ := reader_level form setting depth
    rw [hnext, hnext]
    exact (IgnoresLast.needMark .lBrace).bind next c hrest hpos

theorem ignoresLast_blockExpr : IgnoresLast (level setting depth) s blockExpr := ignoresLast_form .block

/-- A group that is passed over has at least its brace. -/
theorem ignoresLast_unresolvable (hbrace : s.cursor.kind.isMark .lBrace = true) :
    IgnoresLast (level setting depth) s unresolvable := by
  have hmid : s.cursor.atEnd = false := isDone_of_isMark hbrace
  obtain ⟨m, hm⟩ : ∃ m, groupLength 0 s.cursor.rest = m + 1 := by
    rw [Cursor.rest_of_mid hmid, groupLength]
    have hdone : s.cursor.current.kind.isDone = false := hmid
    have hopen : s.cursor.current.kind.isMark .lBrace = true := hbrace
    rw [hdone, hopen]
    exact ⟨_, rfl⟩
  refine .here (.cursor (fun c c' h => by rw [h]) ?_)
  rw [hm]
  exact .bind (.skip hmid m) _

theorem ignoresLast_braceValue (hbrace : s.cursor.kind.isMark .lBrace = true) :
    IgnoresLast (level setting depth) s braceValue := by
  refine .cursor (fun c c' h => by rw [looksLikeRecord_congr h]) ?_
  split
  · refine .tryBrace .record (ignoresLast_form .record) fun t ht => ?_
    refine .tryBrace .block (ignoresLast_form .block) fun u hu => ?_
    exact ignoresLast_unresolvable (by rw [hu, ht]; exact hbrace)
  · exact ignoresLast_blockExpr

variable {L : Level}

theorem ignoresLast_fnDecl : IgnoresLast L s fnDecl := .here (.takeWord (.bind (.needWord _) _))

theorem ignoresLast_conditional : IgnoresLast L s conditional := .bind (.bind (.needWord _) _) _

theorem ignoresLast_primary (position : Position) : IgnoresLast (level setting depth) s (primary position) := by
  refine .kind ?_
  cases hkind : s.cursor.kind with
  | int | float | bool | name | typeName | str | macroName =>
    have hmid : s.cursor.atEnd = false := by rw [Cursor.atEnd, hkind]; rfl
    exact .bind (.advance hmid) _
  | done => exact .failUnexpected _
  | mark m =>
    have hbrace (h : m = .lBrace) : s.cursor.kind.isMark .lBrace = true := by rw [hkind, h]; rfl
    cases m with
    | lBracket => exact .bind (.needMark _) _
    | lParen => exact .bind (.needMark _) _
    | lBrace =>
      cases position with
      | statement => exact ignoresLast_blockExpr
      | value => exact ignoresLast_braceValue (hbrace rfl)
      | head => exact .failUnexpected _
    | _ => exact .failUnexpected _
  | word w =>
    cases w with
    | fnWord | staticWord => exact ignoresLast_fnDecl.bind _
    | ifWord => exact ignoresLast_conditional
    | matchWord => exact .bind (.needWord _) _
    | loopWord | awaitWord => exact .here (.throw _)
    | _ => exact .failUnexpected _

theorem ignoresLast_unaryExpr (position : Position) : IgnoresLast (level setting depth) s (unaryExpr position) := by
  refine .kind ?_
  cases hop : UnaryOp.ofKind? s.cursor.kind with
  | none => exact (ignoresLast_primary position).bind _
  | some op =>
    have hmid : s.cursor.atEnd = false := by
      rw [Cursor.atEnd]
      cases hkind : s.cursor.kind with
      | done =>
        rw [hkind] at hop
        cases hop
      | _ => rfl
    exact .bind (.advance hmid) _

theorem ignoresLast_chain (level' : Nat) (position : Position) :
    IgnoresLast (level setting depth) s (chain level' position) :=
  (ignoresLast_unaryExpr position).bind _

end Grammar

/-! ## Elsewhere -/

/-- The first expression of a document is read alike behind other tokens, further on by as many as they are. If it is
not read here, it is not read there either. -/
theorem expr_elsewhere (setting : Setting) (depth : Nat) (position : Position) (c : Cursor) :
    (level setting depth).expr position { State.ofTokens c.rest with cursor := c } =
        Ending.further c.pos ((level setting depth).expr position (.ofTokens c.rest)) ∨
      ∃ fault t u, (level setting depth).expr position (.ofTokens c.rest) = .error fault t ∧
        (level setting depth).expr position { State.ofTokens c.rest with cursor := c } = .error fault u := by
  have hignores : IgnoresLast (level setting depth) (.ofTokens c.rest) (Reader.expr position) := by
    cases depth with
    | zero => exact (.tooDeep _ : IgnoresLast (level setting 0) _ (fun _ => tooDeep setting.options.maxDepth : Reader Expr))
    | succ depth => exact Grammar.ignoresLast_chain 1 position
  -- The cursor, counted from the first of the tokens behind it.
  have hfurther := (level_further c.pos setting depth).expr position
    { State.ofTokens c.rest with cursor := { c with pos := 0 } }
  have hhere : ({ State.ofTokens c.rest with cursor := { c with pos := 0 } } : State).further c.pos =
      { State.ofTokens c.rest with cursor := c } := by
    simp only [State.further, Cursor.further, Nat.zero_add]
  rw [hhere] at hfurther
  obtain heq | ⟨fault, t, -, heq, heq'⟩ := hignores { c with pos := 0 } rfl rfl
  · rw [heq] at hfurther
    exact .inl hfurther
  · rw [heq'] at hfurther
    exact .inr ⟨fault, t, _, heq, hfurther⟩

end JuiceSyntax
