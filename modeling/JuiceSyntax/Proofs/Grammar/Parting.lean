/-
  Two readings from one state, at levels that differ a little: a limit, or the mode. They end
  alike until they part, and a `Parting` says how they may. Once parted they need not be
  followed any more: a parting is closed under what the steps of a reader make of two endings
  (`Parting.Closed`).

  `Composed.alike_or_part`: from one state every reader ends alike at both levels, or they part.
-/
import JuiceSyntax.Proofs.Grammar.Lockstep

namespace JuiceSyntax

open Reader Grammar

/-- How two readings that began in one state may have parted, by their endings. -/
structure Parting where
  parts : {α : Type} → State → Ending α → Ending α → Prop

/-- Alike, or parted. -/
def Parting.Alike (P : Parting) {α : Type} (s : State) (ending ending' : Ending α) : Prop :=
  ending = ending' ∨ P.parts s ending ending'

/-- Every step of readers at `L` and `L'`, which keep `R` between the states before and after
them, leaves readings parted that have parted. -/
structure Parting.Closed (P : Parting) (R : State → State → Prop) (L L' : Level) : Prop where
  before : ∀ {α : Type} {s t : State} {ending ending' : Ending α}, R s t → P.parts t ending ending' →
    P.parts s ending ending'
  andThen : ∀ {α β : Type} {s : State} {ending ending' : Ending α} {next next' : α → State → Ending β},
    R s (Ending.state ending) → (∀ a t, R t (Ending.state (next a t))) → (∀ a t, R t (Ending.state (next' a t))) →
    P.parts s ending ending' → P.parts s (Ending.andThen ending next) (Ending.andThen ending' next')
  speculated : ∀ {α : Type} {s : State} {ending ending' : Ending α}, R s (Ending.state ending) →
    R s (Ending.state ending') → P.parts s ending ending' →
    P.parts s (speculated s ending) (speculated s ending')
  noted : ∀ {α : Type} {s : State} {ending ending' : Ending (Option α)} (form : BraceForm) (offset : Nat),
    P.parts s ending ending' → P.parts s (noted form offset ending) (noted form offset ending')
  placed : ∀ {α : Type} {s : State} {c d : Cursor} {ending ending' : Ending α},
    P.parts { s with cursor := d } ending ending' → P.parts s (Ending.placed c ending) (Ending.placed c ending')
  /-- A turn of a loop, and the turns after it. -/
  turn : ∀ {α : Type} {s : State} {ending ending' : Ending α} {loop loop' : State → Ending (List α)}
    (start : Cursor) (resume : Resume), R s (Ending.state ending) →
    (∀ t, R t (Ending.state (loop t))) → (∀ t, R t (Ending.state (loop' t))) → P.parts s ending ending' →
    P.parts s (Ending.andThen (Ending.caught ending) (turned L.options start resume loop))
      (Ending.andThen (Ending.caught ending') (turned L'.options start resume loop'))

section

variable {R : State → State → Prop} {L : Level} {α β : Type}

theorem next_steady (hR : Steady (fun _ => True) L.options R) {next : α → State → Ending β}
    (h : ∀ a t, R t (Ending.state (next a t))) (ending : Ending α) :
    R (Ending.state ending) (Ending.state (Ending.andThen ending next)) := by
  cases ending with
  | ok a t => exact h a t
  | error fault t => exact hR.refl t

/-- What a loop makes of a turn. -/
theorem turn_steady (hR : Steady (fun _ => True) L.options R) (start : Cursor) (resume : Resume)
    {loop : State → Ending (List α)} (h : ∀ t, R t (Ending.state (loop t))) (ending : Ending α) :
    R (Ending.state ending)
      (Ending.state (Ending.andThen (Ending.caught ending) (turned L.options start resume loop))) := by
  rw [← Ending.state_caught]
  exact next_steady hR (fun result t => turned_steady hR (fun t _ => h t) start resume result t trivial) _

end

/-- The readers of two levels part only so. -/
structure Level.Partly (P : Parting) (R : State → State → Prop) (L L' : Level) : Prop where
  source : L.source = L'.source
  remember : L.remember = L'.remember
  steady : L.Steady (fun _ => True) R
  steady' : L'.Steady (fun _ => True) R
  record : ∀ s fault, P.Alike s (.ok () (s.withFault L.options fault)) (.ok () (s.withFault L'.options fault))
  resumed : ∀ s start resume fault, P.Alike s (.ok () (s.resumed L.options start resume fault))
    (.ok () (s.resumed L'.options start resume fault))
  expr : ∀ position s, P.Alike s (L.expr position s) (L'.expr position s)
  operand : ∀ position s, P.Alike s (L.operand position s) (L'.operand position s)
  block : ∀ s, P.Alike s (L.block s) (L'.block s)
  type : ∀ s, P.Alike s (L.type s) (L'.type s)
  recordLiteral : ∀ s, P.Alike s (L.record s) (L'.record s)

namespace Parting.Alike

variable {P : Parting} {R : State → State → Prop} {L L' : Level} {α β : Type}

theorem andThen (hP : P.Closed R L L') {s : State} {ending ending' : Ending α} {k q : α → State → Ending β}
    (hs : R s (Ending.state ending)) (hnext : ∀ a t, R t (Ending.state (k a t)))
    (hnext' : ∀ a t, R t (Ending.state (q a t))) (h : P.Alike s ending ending')
    (h' : ∀ a t, P.Alike t (k a t) (q a t)) :
    P.Alike s (Ending.andThen ending k) (Ending.andThen ending' q) := by
  obtain rfl | hparts := h
  · cases ending with
    | ok a t => exact (h' a t).imp_right (hP.before hs)
    | error fault t => exact .inl rfl
  · exact .inr (hP.andThen hs hnext hnext' hparts)

/-- A turn that ended alike, and the turns after it. -/
theorem turned (hP : P.Closed R L L') (hL : L.Partly P R L') (hR : Steady (fun _ => True) L.options R)
    (start : Cursor) (resume : Resume) {loop loop' : State → Ending (List α)}
    (hloop : ∀ t, R t (Ending.state (loop t))) (hloop' : ∀ t, R t (Ending.state (loop' t)))
    (h : ∀ t, P.Alike t (loop t) (loop' t)) (result : Except Fault α) (s : State) :
    P.Alike s (turned L.options start resume loop result s) (turned L'.options start resume loop' result s) := by
  cases result with
  | ok first =>
    exact (h s).andThen hP (hloop s) (fun _ t => hR.refl t) (fun _ t => hR.refl t) fun _ _ => .inl rfl
  | error fault =>
    -- the loop as a continuation that does not look at what was read
    exact (hL.resumed s start resume fault).andThen (k := fun _ => loop) (q := fun _ => loop') hP
      (hR.resumed s start resume fault) (fun _ => hloop) (fun _ => hloop') fun _ => h

end Parting.Alike

section

variable {P : Parting} {R : State → State → Prop} {L L' : Level} {α : Type}

theorem recoveringUpTo_alike (hP : P.Closed R L L') (hL : L.Partly P R L') (hR : Steady (fun _ => True) L.options R)
    (hR' : Steady (fun _ => True) L'.options R) {item : Reader α} (hitem : ∀ s, R s (Ending.state (item L s)))
    (hitem' : ∀ s, R s (Ending.state (item L' s))) (h : ∀ s, P.Alike s (item L s) (item L' s)) (resume : Resume)
    (ends : Kind → Bool) (fuel : Nat) (s : State) :
    P.Alike s (recoveringUpTo resume ends item fuel L s) (recoveringUpTo resume ends item fuel L' s) := by
  induction fuel generalizing s with
  | zero => exact .inl rfl
  | succ fuel ih =>
    have hloop (t : State) := recoveringUpTo_steady hR (fun s _ => hitem s) resume ends fuel t trivial
    have hloop' (t : State) := recoveringUpTo_steady hR' (fun s _ => hitem' s) resume ends fuel t trivial
    rw [recoveringUpTo_succ, recoveringUpTo_succ]
    split
    · exact .inl rfl
    obtain heq | hparts := h s
    · have hcaught := hitem s
      rw [← Ending.state_caught] at hcaught
      rw [← heq]
      refine Parting.Alike.andThen hP hcaught (fun result t => ?_) (fun result t => ?_) (.inl rfl) fun result t => ?_
      · exact turned_steady hR (fun t _ => hloop t) _ resume result t trivial
      · exact turned_steady hR' (fun t _ => hloop' t) _ resume result t trivial
      · exact Parting.Alike.turned hP hL hR _ resume hloop hloop' ih result t
    · exact .inr (hP.turn _ resume (hitem s) hloop hloop' hparts)

/-- From one state every reader ends alike at both levels, or they part. -/
theorem Composed.alike_or_part {r : Reader α} (h : Composed (fun _ => True) r) (hP : P.Closed R L L')
    (hL : L.Partly P R L') (hR : Steady (fun _ => True) L.options R) (hR' : Steady (fun _ => True) L'.options R)
    (s : State) : P.Alike s (r L s) (r L' s) := by
  have hsteady {β : Type} {r : Reader β} (h : Composed (fun _ => True) r) (s : State) := h.steady hR hL.steady s trivial
  have hsteady' {β : Type} {r : Reader β} (h : Composed (fun _ => True) r) (s : State) := h.steady hR' hL.steady' s trivial
  induction h generalizing s with
  | pure => exact .inl rfl
  | bind first next ih ihk =>
    rw [bind_apply, bind_apply]
    exact (ih s).andThen hP (hsteady first s) (fun a => hsteady (next a)) (fun a => hsteady' (next a)) ihk
  | throw => exact .inl rfl
  | cursor same next ih => exact ih s.cursor trivial s
  | spanFrom => exact .inl rfl
  | halted => exact .inl rfl
  | sourceText span =>
    rw [sourceText_apply, sourceText_apply, hL.source]
    exact .inl rfl
  | advance => exact .inl rfl
  | skip => exact .inl rfl
  | noteBody => exact .inl rfl
  | record fault =>
    rw [record_apply, record_apply]
    exact hL.record s fault
  | expr position => exact hL.expr position s
  | operand position => exact hL.operand position s
  | block => exact hL.block s
  | type => exact hL.type s
  | recordLiteral => exact hL.recordLiteral s
  | speculate tried ih =>
    rw [speculate_apply, speculate_apply]
    obtain heq | hparts := ih s
    · rw [heq]
      exact .inl rfl
    · exact .inr (hP.speculated (hsteady tried s) (hsteady' tried s) hparts)
  | tryBrace form tried ih =>
    rw [tryBrace_apply, tryBrace_apply, hL.remember]
    split
    · exact .inl rfl
    · obtain heq | hparts := ih s
      · rw [heq]
        exact .inl rfl
      · exact .inr (hP.noted form _ (hP.speculated (hsteady tried s) (hsteady' tried s) hparts))
  | withTokens inner read ih =>
    rw [withTokens_apply, withTokens_apply]
    obtain heq | hparts := ih { s with cursor := .ofTokens _ }
    · rw [heq]
      exact .inl rfl
    · exact .inr (hP.placed hparts)
  | recovering resume ends turn ih =>
    rw [recovering_apply, recovering_apply]
    exact recoveringUpTo_alike hP hL hR hR' (hsteady turn) (hsteady' turn) ih resume ends _ s

end

/-- Readers of two levels, where those of the levels below part only so. -/
theorem partly_succ {P : Parting} {R : State → State → Prop} {setting setting' : Setting} {n n' : Nat}
    (hsource : setting.source = setting'.source) (hremember : setting.remember = setting'.remember)
    (hR : Steady (fun _ => True) setting.options R) (hR' : Steady (fun _ => True) setting'.options R)
    (hrecord : ∀ s fault, P.Alike s (.ok () (s.withFault setting.options fault)) (.ok () (s.withFault setting'.options fault)))
    (hresumed : ∀ s start resume fault, P.Alike s (.ok () (s.resumed setting.options start resume fault))
      (.ok () (s.resumed setting'.options start resume fault)))
    (hP : P.Closed R (level setting n) (level setting' n')) (h : (level setting n).Partly P R (level setting' n')) :
    (level setting (n + 1)).Partly P R (level setting' (n' + 1)) := by
  have below {β : Type} {r : Reader β} (hr : Composed (fun _ => True) r) (s : State) :
      P.Alike s (r (level setting n) s) (r (level setting' n') s) :=
    hr.alike_or_part hP h (hR.level n) (hR'.level n') s
  exact ⟨hsource, hremember, level_steady inherited_true hR _, level_steady inherited_true hR' _, hrecord, hresumed,
    fun position => below (composed_chain inherited_true 1 position),
    fun position => below (composed_chain inherited_true operandLevel position), below composed_blockBody,
    below (composed_typeExpr inherited_true), below composed_recordExpr⟩

end JuiceSyntax
