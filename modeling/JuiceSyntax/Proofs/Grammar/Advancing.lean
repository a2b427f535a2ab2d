/-
  Every turn of a loop of the grammar ends it or takes a token.

  `Repetition.step_before`: a loop goes on further on in the tokens, or where its next turn ends it, as after a
  fault that halts the reading. `Repetition.turns_eq`: where the tokens end, as many turns as there are tokens
  left end the loop, whatever would follow them. So the bound on the turns of a reader never ends a loop.
-/
import JuiceSyntax.Proofs.Grammar.Searching
import JuiceSyntax.Proofs.Grammar.Turning

namespace JuiceSyntax

open Reader Grammar

/-! ## Token lists with an end -/

/-- The last token is the end of the tokens. -/
def EndsDone (tokens : List Token) : Prop := ∃ token ∈ tokens.getLast?, token.kind.isDone = true

namespace EndsDone

variable {c : Cursor}

theorem left_pos (h : EndsDone c.rest) : 0 < c.left := by
  obtain ⟨token, hlast, -⟩ := h
  rw [c.left_eq]
  exact List.length_pos_of_mem (List.mem_of_getLast? hlast)

theorem advance (h : EndsDone c.rest) : EndsDone c.advance.rest := by
  rw [Cursor.rest_advance]
  split
  · exact h
  rename_i hmid
  obtain ⟨token, hlast, hdone⟩ := h
  cases hrest : c.rest with
  | nil =>
    rw [hrest] at hlast
    cases hlast
  | cons first rest =>
    rw [hrest] at hlast
    cases rest with
    | nil =>
      cases hlast
      exact absurd (by simpa [Cursor.atEnd, Cursor.kind, Cursor.current, hrest] using hdone) hmid
    | cons second rest => exact ⟨token, by simpa using hlast, hdone⟩

theorem skip (h : EndsDone c.rest) (n : Nat) : EndsDone (c.skip n).rest := by
  induction n generalizing c with
  | zero => exact h
  | succ n ih => exact ih h.advance

/-- Before the end there is a token, and the end itself. -/
theorem left_of_mid (h : EndsDone c.rest) (hmid : c.atEnd = false) : 1 < c.left := by
  have := Cursor.left_advance hmid
  have := h.advance.left_pos
  omega

end EndsDone

/-! ## Taking a token -/

variable {L : Level}

theorem Composed.left_le {α : Type} {r : Reader α} (h : Composed (fun _ => True) r) (hL : L.Grows) {s t : State} {a : α}
    (hr : r L s = .ok a t) : t.cursor.left ≤ s.cursor.left := by
  have hgrows := h.grows inherited_true hL s trivial
  rw [hr] at hgrows
  exact hgrows.left_le

/-- What is read at the cursor, by its kind. -/
theorem Takes.onCursor {α : Type} {k : Cursor → Reader α} (h : ∀ c, TakesAt L c.kind (k c)) :
    Takes L (Reader.cursor >>= k) :=
  fun s a t hr => h s.cursor s a t rfl hr

namespace TakesAt

variable {α β : Type} {kind : Kind}

theorem first (hL : L.Grows) {r : Reader α} {k : α → Reader β} (h : TakesAt L kind r)
    (h' : ∀ a, Composed (fun _ => True) (k a)) : TakesAt L kind (r >>= k) := by
  intro s b u hkind hr
  obtain ⟨a, t, hfirst, hrest⟩ := ok_of_bind hr
  exact Nat.lt_of_le_of_lt ((h' a).left_le hL hrest) (h s a t hkind hfirst)

theorem skip (hk : kind.isDone = false) {n : Nat} (hn : 0 < n) : TakesAt L kind (JuiceSyntax.skip n) := by
  intro s a t hkind hr
  cases hr
  exact Cursor.left_skip_lt (by rw [Cursor.atEnd, hkind, hk]) hn

/-- A check that fails, or nothing, and what follows. -/
theorem unlessBind {c : Prop} [Decidable c] {wanted : Wanted} {advice : Advice} {k : Unit → Reader β}
    (h : TakesAt L kind (k ())) : TakesAt L kind (if c then k () else failAdvised wanted advice >>= k) := by
  split
  · exact h
  · exact fun _ _ _ _ hr => nomatch hr

theorem onceAttempted {e : Expr} {next : Unit → Reader Expr} (h : TakesAt L kind (next ())) :
    TakesAt L kind (JuiceSyntax.Grammar.onceAttempted e next) := by
  unfold Grammar.onceAttempted
  split
  · exact fun _ _ _ _ hr => nomatch hr
  · exact h

end TakesAt

/-! ## Going on further on -/

/-- Where the loop goes on after a turn that begins at a token of this kind, it is further on. -/
def MovesAt (L : Level) (kind : Kind) {β γ : Type} (r : Reader (Turn β γ)) : Prop :=
  ∀ s b f t, s.cursor.kind = kind → r L s = .ok (.on b f) t → s.cursor.Before t.cursor

/-- Where the loop goes on, it is further on. -/
def Moves (L : Level) {β γ : Type} (r : Reader (Turn β γ)) : Prop := ∀ kind, MovesAt L kind r

namespace MovesAt

variable {α β γ : Type} {kind : Kind}

theorem ends (c : γ) : MovesAt L kind (Pure.pure (.ends c) : Reader (Turn β γ)) := fun _ _ _ _ _ hr => nomatch hr

/-- A token is taken first. -/
theorem first (hL : L.Grows) {r : Reader α} {k : α → Reader (Turn β γ)} (h : TakesAt L kind r)
    (hc : Composed (fun _ => True) r) (h' : ∀ a, Composed (fun _ => True) (k a)) : MovesAt L kind (r >>= k) := by
  intro s b f t hkind hr
  have hgrows := (Composed.bind hc h').grows inherited_true hL s trivial
  rw [hr] at hgrows
  exact .of_left hgrows.cursor (h.first hL h' s _ t hkind hr)

theorem advance (hL : L.Grows) (hk : kind.isDone = false) {k : Token → Reader (Turn β γ)}
    (h' : ∀ token, Composed (fun _ => True) (k token)) : MovesAt L kind (Reader.advance >>= k) :=
  .first hL (fun _ _ _ hkind hr => by cases hr; exact left_advance_of_kind hkind hk) .advance h'

end MovesAt

namespace Moves

variable {α β γ : Type}

theorem ends (c : γ) : Moves L (Pure.pure (.ends c) : Reader (Turn β γ)) := fun _ => .ends c

theorem first (hL : L.Grows) {r : Reader α} {k : α → Reader (Turn β γ)} (h : Takes L r)
    (hc : Composed (fun _ => True) r) (h' : ∀ a, Composed (fun _ => True) (k a)) : Moves L (r >>= k) :=
  fun kind => .first hL (h.at kind) hc h'

theorem later (hL : L.Grows) {r : Reader α} {k : α → Reader (Turn β γ)} (h : Composed (fun _ => True) r)
    (h' : ∀ a, Moves L (k a)) : Moves L (r >>= k) := by
  intro kind s b f u hkind hr
  obtain ⟨a, t, hfirst, hrest⟩ := ok_of_bind hr
  have hgrows := h.grows inherited_true hL s trivial
  rw [hfirst] at hgrows
  exact (h' a _ t b f u rfl hrest).after hgrows.cursor

theorem ite {c : Prop} [Decidable c] {r r' : Reader (Turn β γ)} (h : Moves L r) (h' : Moves L r') :
    Moves L (if c then r else r') := by
  split
  · exact h
  · exact h'

/-- Where a mark is taken the loop may go on, and otherwise it ends. -/
theorem ofMark (hL : L.Grows) {m : Mark} {r : Reader (Turn β γ)} (h : Composed (fun _ => True) r) (c : γ) :
    Moves L (takeMark m >>= fun found => if found then r else Pure.pure (.ends c)) := by
  intro kind s b f u hkind hr
  rw [bind_apply, takeMark_apply] at hr
  split at hr
  · rename_i hm
    have hgrows := h.grows inherited_true hL { s with cursor := s.cursor.advance } trivial
    rw [Ending.andThen_ok, if_pos rfl] at hr
    rw [hr] at hgrows
    exact (Cursor.Before.advance (isDone_of_isMark hm)).onward hgrows.cursor
  · cases hr

theorem ofWord (hL : L.Grows) {w : Keyword} {r : Reader (Turn β γ)} (h : Composed (fun _ => True) r) (c : γ) :
    Moves L (takeWord w >>= fun found => if found then r else Pure.pure (.ends c)) := by
  intro kind s b f u hkind hr
  rw [bind_apply, takeWord_apply] at hr
  split at hr
  · rename_i hw
    have hgrows := h.grows inherited_true hL { s with cursor := s.cursor.advance } trivial
    rw [Ending.andThen_ok, if_pos rfl] at hr
    rw [hr] at hgrows
    exact (Cursor.Before.advance (isDone_of_isWord hw)).onward hgrows.cursor
  · cases hr

/-- A turn that begins by looking at the token. -/
theorem ofKind {k : Kind → Reader (Turn β γ)} (h : ∀ kind, MovesAt L kind (k kind)) : Moves L (Reader.kind >>= k) :=
  fun _ s b f t _ hr => h s.cursor.kind s b f t rfl hr

end Moves

/-! ## Turns -/

section

variable (hL : L.Grows)

include hL

theorem takes_args : Takes L args :=
  .first hL (takes_needMark _) fun _ => .bind (.separated _ composed_arg) fun _ => .bind (.needMark _) fun _ => .pure _

theorem takesAt_attemptOf {kind : Kind} (hk : kind.isDone = false) (e : Expr) : TakesAt L kind (attemptOf e) :=
  .onceAttempted (.unlessBind (.advance hL hk fun _ => .pure _))

/-- A member of a type takes a token. -/
theorem takes_member : Takes L member := by
  refine .onCursor fun c => ?_
  dsimp only
  split
  · rename_i hkind _
    exact .first hL (.skip (by rw [hkind]; rfl) (by decide)) fun _ => .bind .type fun _ => .pure _
  · rename_i hkind _
    exact .first hL (.skip (by rw [hkind]; rfl) (by decide)) fun _ => .bind .type fun _ => .pure _
  · rename_i hkind _
    exact .advance hL (by rw [hkind]; rfl) fun _ => .bind (.atMark _) fun _ =>
      .iteBind (composed_params composed_name) (.pure _) fun _ => .bind (.spanFrom _) fun _ => .pure _
  · exact fun _ _ _ _ hr => nomatch hr

theorem takes_implFn : Takes L implFn := by
  refine .ofKind fun kind => ?_
  split
  · exact (takes_fnDecl hL).at _
  · exact (takes_fnDecl hL).at _
  · exact fun _ _ _ _ hr => nomatch hr

end

theorem isDone_of_binary {kind : Kind} {op : BinaryOp} (h : BinaryOp.ofKind? kind = some op) : kind.isDone = false := by
  cases kind with
  | done => cases h
  | _ => rfl

theorem isDone_of_typeOp {kind : Kind} {op : TypeOp} (h : TypeOp.ofKind? kind = some op) : kind.isDone = false := by
  cases kind with
  | done => cases h
  | _ => rfl

namespace Recovered

variable {α : Type}

theorem composed_recovered (list : Recovered α) : Composed (fun _ => True) list.item := by
  cases list with
  | items => exact composed_item
  | statements => exact composed_statement
  | arms => exact composed_arm
  | fns => exact composed_implFn

theorem takes (hL : L.Takes) (list : Recovered α) : JuiceSyntax.Takes L list.item := by
  cases list with
  | items => exact takes_item hL.grows
  | statements => exact takes_statement hL
  | arms => exact takes_arm hL.grows
  | fns => exact takes_implFn hL.grows

/-- A list that does not end at a closing brace passes it. -/
theorem passes_brace (list : Recovered α) {c : Cursor} (hends : list.ends c.kind = false)
    (h : c.kind.isMark .rBrace = true) : 0 < list.resume.distance 0 c.rest := by
  cases list with
  | items => exact Resume.distance_item_pos h
  | statements => exact absurd (h.symm.trans hends) (by decide)
  | arms => exact absurd (h.symm.trans hends) (by decide)
  | fns => exact absurd (h.symm.trans hends) (by decide)

end Recovered

theorem Separated.composed {α : Type} (list : Separated α) : Composed (fun _ => True) list.item := by
  cases list with
  | values close => exact .expr _
  | args => exact composed_arg
  | types => exact .type
  | typeArgs => exact composed_typeArg
  | params => exact composed_param composed_name
  | typeParams => exact composed_param composed_anyName
  | exposed => exact composed_exposed

namespace Repetition

variable {β γ : Type}

theorem step_recovered {α : Type} (list : Recovered α) (L : Level) (s : State) :
    (recovered list).step () L s =
      if list.ends s.cursor.kind || s.cursor.atEnd || s.halted then .ok (.ends []) s
      else match list.item L s with
        | .ok first t => .ok (.on () (first :: ·)) t
        | .error fault t => .ok (.on () id) (t.resumed L.options s.cursor list.resume fault) := by
  simp only [step, bind_apply, cursor_apply, halted_apply, choose_apply, pure_apply, attempt_apply, Ending.andThen_ok]
  split
  · rfl
  · cases list.item L s with
    | ok first t => rfl
    | error fault t =>
      simp only [Ending.caught, Ending.andThen_ok, bind_apply, record_apply, recover_apply, pure_apply, State.resumed]

/-- Where nothing more is recorded, a list that goes on after faults ends. -/
theorem step_of_halted {α : Type} (list : Recovered α) {s : State} (h : s.halted = true) :
    (recovered list).step () L s = .ok (.ends []) s := by
  rw [step_recovered, h, Bool.or_true, if_pos rfl]

/-- What a turn of a list that goes on after faults goes on from. -/
theorem goes_recovered (hL : L.Takes) {α : Type} (list : Recovered α) {s t : State} {f : List α → List α}
    (hr : (recovered list).step () L s = .ok (.on () f) t) :
    (∃ n, t.cursor = s.cursor.skip n) ∧ s.cursor.atEnd = false ∧ (t.halted = true ∨ t.cursor.left < s.cursor.left) := by
  rw [step_recovered] at hr
  split at hr
  · cases hr
  rename_i hgoes
  obtain ⟨⟨hends, hmid⟩, -⟩ : (list.ends s.cursor.kind = false ∧ s.cursor.atEnd = false) ∧ s.halted = false := by
    simpa using hgoes
  have hgrows := list.composed_recovered.grows inherited_true hL.grows s trivial
  cases hitem : list.item L s with
  | ok first u =>
    rw [hitem] at hr hgrows
    cases hr
    exact ⟨hgrows.cursor, hmid, .inr (list.takes hL s first _ hitem)⟩
  | error fault u =>
    rw [hitem] at hr hgrows
    cases hr
    have hmoved := hgrows.trans (.resumed L.options s.cursor list.resume fault u)
    exact ⟨hmoved.cursor, hmid, left_resumed hmid (list.passes_brace hends) hgrows fault⟩

end Repetition

/-! ## The other loops -/

section

variable (hL : L.Grows)

include hL

theorem moves_separated {α : Type} (list : Separated α) : Moves L ((Repetition.separated list).step ()) :=
  .later hL (.atMark _) fun _ => .ite (.ends _) (.later hL list.composed fun _ => .ofMark hL (.pure _) _)

theorem moves_elseBranches : Moves L (Repetition.elseBranches.step ()) := by
  refine .ofWord hL (.bind .kind fun _ => .ite ?_ ?_) _
  · exact .bind composed_branch fun _ => .pure _
  · exact .bind composed_blockExpr fun _ => .pure _

theorem moves_accesses (position : Position) (base : Expr) : Moves L ((Repetition.accesses position).step base) :=
  .ofMark hL (.bind (composed_primary inherited_true _) fun _ => .pure _) _

theorem moves_postfixes (position : Position) (e : Expr) : Moves L ((Repetition.postfixes position).step e) := by
  refine .ofKind fun kind => ?_
  split
  · exact .first hL ((takes_args hL).at _) composed_args fun _ => .pure _
  · exact .advance hL rfl fun _ => .bind (composed_primary inherited_true _) fun _ => .bind .tokensLeft fun _ =>
      .bind (composed_accessesUpTo inherited_true _ _ _) fun _ => .pure _
  · exact .advance hL rfl fun _ => .bind (composed_primary inherited_true _) fun _ => .pure _
  · exact .first hL (takesAt_attemptOf hL rfl _) (composed_attemptOf _) fun _ => .pure _
  · exact .ends _

theorem moves_chain (level : Nat) (position : Position) : Moves L ((Repetition.chain level position).step ()) := by
  refine .ofKind fun kind => ?_
  split
  · rename_i op hop
    exact .advance hL (isDone_of_binary (Option.filter_eq_some_iff.1 hop).1) fun _ =>
      .bind (composed_unaryExpr inherited_true _) fun _ => .pure _
  · exact .ends _

theorem moves_typeRest (left : TypeExpr) : Moves L (Repetition.typeRest.step left) := by
  refine .ofKind fun kind => ?_
  split
  · rename_i op hop
    exact .advance hL (isDone_of_typeOp hop) fun _ => .bind (composed_typeAtom inherited_true) fun _ => .pure _
  · exact .ends _

theorem moves_recordFields : Moves L (Repetition.recordFields.step ()) :=
  .later hL (.atMark _) fun _ => .ite (.ends _)
    (.first hL (takes_recordField hL) composed_recordField fun _ => .pure _)

theorem moves_pathRest : Moves L (Repetition.pathRest.step ()) :=
  .ofMark hL (.bind composed_anyName fun _ => .pure _) _

theorem moves_members (body : Option TypeBody) : Moves L (Repetition.members.step body) :=
  .later hL (.atMark _) fun _ => .ite (.ends _) (.first hL (takes_member hL) composed_member fun _ =>
    .bind (composed_addMember _ _) fun _ => .bind (.takeMark _) fun _ => .pure _)

end

namespace Repetition

variable {β γ : Type} (loop : Repetition β γ)

/-- A loop goes on further on in the tokens, or, not having begun at their end, where its next turn ends it. -/
theorem step_before (hL : L.Takes) {b b' : β} {f : γ → γ} {s t : State} (hr : loop.step b L s = .ok (.on b' f) t) :
    s.cursor.Before t.cursor ∨
      s.cursor.atEnd = false ∧ (∃ n, t.cursor = s.cursor.skip n) ∧ ∃ c, loop.step b' L t = .ok (.ends c) t := by
  cases loop with
  | recovered list =>
    obtain ⟨hskips, hmid, hhalted | hleft⟩ := goes_recovered hL list hr
    · exact .inr ⟨hmid, hskips, [], step_of_halted list hhalted⟩
    · exact .inl (.of_left hskips hleft)
  | separated list => exact .inl (moves_separated hL.grows list _ s _ _ t rfl hr)
  | elseBranches => exact .inl (moves_elseBranches hL.grows _ s _ _ t rfl hr)
  | accesses position => exact .inl (moves_accesses hL.grows position b _ s _ _ t rfl hr)
  | postfixes position => exact .inl (moves_postfixes hL.grows position b _ s _ _ t rfl hr)
  | chain level position => exact .inl (moves_chain hL.grows level position _ s _ _ t rfl hr)
  | typeRest => exact .inl (moves_typeRest hL.grows b _ s _ _ t rfl hr)
  | recordFields => exact .inl (moves_recordFields hL.grows _ s _ _ t rfl hr)
  | pathRest => exact .inl (moves_pathRest hL.grows _ s _ _ t rfl hr)
  | members => exact .inl (moves_members hL.grows b _ s _ _ t rfl hr)

theorem turns_of_ends (otherwise : β → Reader γ) {n : Nat} (hn : 0 < n) {b : β} {c : γ} {s t : State}
    (h : loop.step b L s = .ok (.ends c) t) : loop.turns otherwise n b L s = .ok c t := by
  obtain ⟨n, rfl⟩ : ∃ k, n = k + 1 := ⟨n - 1, by omega⟩
  rw [turns, bind_apply, h]
  rfl

/-- As many turns as there are tokens left are enough, whatever would follow them. -/
theorem turns_congr (hL : L.Takes) (otherwise otherwise' : β → Reader γ) {n n' : Nat} {b : β} {s : State}
    (hends : EndsDone s.cursor.rest) (h : s.cursor.left ≤ n) (h' : s.cursor.left ≤ n') :
    loop.turns otherwise n b L s = loop.turns otherwise' n' b L s := by
  induction n generalizing n' b s with
  | zero => exact absurd hends.left_pos (by omega)
  | succ n ih =>
    obtain ⟨n', rfl⟩ : ∃ k, n' = k + 1 := ⟨n' - 1, by have := hends.left_pos; omega⟩
    rw [turns, turns, bind_apply, bind_apply]
    cases hstep : loop.step b L s with
    | error fault t => rfl
    | ok turn t =>
      rw [Ending.andThen_ok, Ending.andThen_ok]
      cases turn with
      | ends c => rfl
      | on b' f =>
        have hrest : loop.turns otherwise n b' L t = loop.turns otherwise' n' b' L t := by
          obtain hbefore | ⟨hmid, -, c, hc⟩ := loop.step_before hL hstep
          · have := hbefore.left
            obtain ⟨⟨k, hskip⟩, -⟩ := hbefore
            exact ih (hskip ▸ hends.skip k) (by omega) (by omega)
          · have := hends.left_of_mid hmid
            rw [loop.turns_of_ends otherwise (by omega) hc, loop.turns_of_ends otherwise' (by omega) hc]
        rw [Turn.go, Turn.go, bind_apply, bind_apply, hrest]

/-- As many turns as there are tokens left are what the reader makes, whatever would follow them. -/
theorem turns_eq (hL : L.Takes) (otherwise : β → Reader γ) {n : Nat} {b : β} {s : State}
    (hends : EndsDone s.cursor.rest) (h : s.cursor.left ≤ n) : loop.turns otherwise n b L s = loop.reader b L s := by
  rw [show loop.reader b L s = loop.upTo s.cursor.left b L s from rfl, upTo_eq_turns]
  exact loop.turns_congr hL otherwise (loop.upTo 0) hends h (Nat.le_refl _)

end Repetition

end JuiceSyntax
