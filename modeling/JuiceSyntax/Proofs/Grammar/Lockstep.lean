/-
  Two readings in lockstep. `Shifted n δ s s'` relates a state to one with the same tokens ahead:
  in `s` the cursor is `n` places further on, and there are faults, macro bodies and remembered
  braces from before, by as much as `δ` says. Readers see nothing of that, but for the limit of
  faults, which may be reached in `s` only.

  `Composed.lockstep`: from two such states every reader ends alike in both, or the limit is
  reached from the first. The limits of the two readings need not be the same.
-/
import JuiceSyntax.Proofs.Grammar.Growth

namespace JuiceSyntax

open Reader Grammar

/-! ## Shifted states -/

/-- What one reading has from before that the other has not. -/
structure Shift where
  faults : List Fault
  macroBodies : List Span
  failed : BraceForm → List Nat

/-- Cursors at the same tokens, `n` places apart. -/
structure Cursor.Abreast (n : Nat) (c c' : Cursor) : Prop where
  pos : c.pos = c'.pos + n
  rest : c.rest = c'.rest

/-- They come from the same token too. -/
structure Cursor.Shifted (n : Nat) (c c' : Cursor) : Prop extends Cursor.Abreast n c c' where
  last : c.last = c'.last

structure Shifted (n : Nat) (δ : Shift) (s s' : State) : Prop where
  cursor : s.cursor.Shifted n s'.cursor
  faults : s.faults = δ.faults ++ s'.faults
  halted : s.halted = s'.halted
  macroBodies : s.macroBodies = δ.macroBodies ++ s'.macroBodies
  failedRecords : s.failedRecords = s'.failedRecords ++ δ.failed .record
  failedBlocks : s.failedBlocks = s'.failedBlocks ++ δ.failed .block

theorem Shifted.failed {n : Nat} {δ : Shift} {s s' : State} (h : Shifted n δ s s') (form : BraceForm) :
    s.failed form = s'.failed form ++ δ.failed form := by
  cases form
  · exact h.failedRecords
  · exact h.failedBlocks

/-- The cursors of shifted states may be put elsewhere. -/
theorem Shifted.at {n k : Nat} {δ : Shift} {s s' : State} (h : Shifted n δ s s') {c c' : Cursor}
    (hc : c.Shifted k c') : Shifted k δ { s with cursor := c } { s' with cursor := c' } :=
  ⟨hc, h.faults, h.halted, h.macroBodies, h.failedRecords, h.failedBlocks⟩

namespace Cursor.Abreast

variable {n : Nat} {c c' : Cursor}

theorem current (h : c.Abreast n c') : c.current = c'.current := by
  simp only [Cursor.current, h.rest]

theorem kind (h : c.Abreast n c') : c.kind = c'.kind := by
  simp only [Cursor.kind, h.current]

theorem span (h : c.Abreast n c') : c.span = c'.span := by
  simp only [Cursor.span, h.current]

theorem atEnd (h : c.Abreast n c') : c.atEnd = c'.atEnd := by
  simp only [Cursor.atEnd, h.kind]

theorem left (h : c.Abreast n c') : c.left = c'.left := by
  rw [c.left_eq, c'.left_eq, h.rest]

/-- A token that both consume is the last of both. -/
theorem advance (h : c.Abreast n c') (hend : c'.atEnd = false) : c.advance.Shifted n c'.advance := by
  obtain ⟨hpos, hlast, hrest⟩ := Cursor.advance_of_mid (h.atEnd.trans hend)
  obtain ⟨hpos', hlast', hrest'⟩ := Cursor.advance_of_mid hend
  refine ⟨⟨?_, ?_⟩, ?_⟩
  · rw [hpos, hpos', h.pos]
    omega
  · rw [hrest, hrest', h.rest]
  · rw [hlast, hlast', h.span]

end Cursor.Abreast

namespace Cursor.Shifted

variable {n : Nat} {c c' : Cursor}

theorem refl (c : Cursor) : c.Shifted 0 c := ⟨⟨rfl, rfl⟩, rfl⟩

theorem previous (h : c.Shifted n c') : c.previous = c'.previous := by
  simp only [Cursor.previous, h.last, h.span]

theorem advance (h : c.Shifted n c') : c.advance.Shifted n c'.advance := by
  cases hend : c'.atEnd with
  | true =>
    rw [Cursor.advance_of_atEnd hend, Cursor.advance_of_atEnd (h.atEnd.trans hend)]
    exact h
  | false => exact h.toAbreast.advance hend

theorem skip (h : c.Shifted n c') (m : Nat) : (c.skip m).Shifted n (c'.skip m) := by
  induction m generalizing c c' with
  | zero => exact h
  | succ m ih => exact ih h.advance

/-- Recovery compares places, and so sees no shift. -/
theorem resumeFrom {start start' : Cursor} (hstart : start.Abreast n start') (resume : Resume) (h : c.Shifted n c') :
    (JuiceSyntax.resumeFrom start resume c).Shifted n (JuiceSyntax.resumeFrom start' resume c') := by
  have hpos : (c.pos == start.pos) = (c'.pos == start'.pos) := by
    rw [h.pos, hstart.pos, Bool.eq_iff_iff, beq_iff_eq, beq_iff_eq]
    omega
  have hmoved {d d' : Cursor} (hd : d.Shifted n d') :
      (d.skip (resume.distance 0 d.rest)).Shifted n (d'.skip (resume.distance 0 d'.rest)) := by
    rw [hd.rest]
    exact hd.skip _
  unfold JuiceSyntax.resumeFrom
  dsimp only
  rw [hpos, h.atEnd, h.kind]
  split
  · exact hmoved h.advance
  · exact hmoved h

end Cursor.Shifted

/-! ## The limit -/

/-- A fault of this cause halted the reading on the way from `s` to `s'`. -/
structure StoppedBy (cause : Cause) (s s' : State) : Prop where
  halted : s'.halted = true
  fault : ∃ fault ∈ s'.faults.drop s.faults.length, fault.cause = cause

namespace StoppedBy

variable {cause : Cause} {s t u : State}

theorem before (h : Grows s t) (h' : StoppedBy cause t u) : StoppedBy cause s u := by
  obtain ⟨fault, hmem, hcause⟩ := h'.fault
  have hlen := h.faults.length_le
  refine ⟨h'.halted, fault, ?_, hcause⟩
  rw [show t.faults.length = s.faults.length + (t.faults.length - s.faults.length) by omega, ← List.drop_drop] at hmem
  exact List.mem_of_mem_drop hmem

theorem onward (h : StoppedBy cause s t) (h' : Grows t u) : StoppedBy cause s u := by
  obtain ⟨hu, hf⟩ := h'.halted h.halted
  exact ⟨hu, hf ▸ h.fault⟩

/-- A speculation does not take back a fatal fault. -/
theorem speculated (hfatal : cause.isFatal = true) {α : Type} {ending : Ending α}
    (h : StoppedBy cause s (Ending.state ending)) : StoppedBy cause s (Ending.state (speculated s ending)) := by
  obtain ⟨fault, hmem, hcause⟩ := h.fault
  have hfatal : fault.isFatal = true := by rw [Fault.isFatal, hcause, hfatal]
  unfold JuiceSyntax.speculated
  dsimp only
  cases hfound : ((Ending.state ending).faults.drop s.faults.length).find? (·.isFatal) with
  | some found => exact h
  | none => exact absurd hfatal (by simpa using List.find?_eq_none.1 hfound fault hmem)

theorem noted {α : Type} {form : BraceForm} {offset : Nat} {ending : Ending (Option α)}
    (h : StoppedBy cause s (Ending.state ending)) : StoppedBy cause s (Ending.state (noted form offset ending)) := by
  cases ending with
  | error fault t => exact h
  | ok found t =>
    cases found with
    | some a => exact h
    | none => exact h.onward (.noteFailed form offset t)

theorem placed {α : Type} {c d : Cursor} {ending : Ending α}
    (h : StoppedBy cause { s with cursor := d } (Ending.state ending)) :
    StoppedBy cause s (Ending.state (Ending.placed c ending)) := by
  rw [Ending.state_placed]
  exact ⟨h.halted, h.fault⟩

end StoppedBy

/-- The limit `m` was reached on the way from `s` to `s'`. -/
abbrev Stopped (m : Nat) (s s' : State) : Prop := StoppedBy (.tooManyFaults m) s s'

/-! ## Endings -/

/-- The same result or fault, in shifted states. -/
inductive Ending.Shifted (n : Nat) (δ : Shift) {α : Type} : Ending α → Ending α → Prop
  | ok (a : α) {s s' : State} (h : JuiceSyntax.Shifted n δ s s') : Ending.Shifted n δ (.ok a s) (.ok a s')
  | error (fault : Fault) {s s' : State} (h : JuiceSyntax.Shifted n δ s s') :
    Ending.Shifted n δ (.error fault s) (.error fault s')

/-- Endings alike, unless the limit is reached in the first of them, which began in `s`. -/
def Lockstep (m n : Nat) (δ : Shift) {α : Type} (s : State) (ending ending' : Ending α) : Prop :=
  Ending.Shifted n δ ending ending' ∨ Stopped m s (Ending.state ending)

namespace Lockstep

variable {m n : Nat} {δ : Shift} {α β : Type} {s s' t : State} {ending ending' : Ending α}

theorem before (h : Grows s t) (h' : Lockstep m n δ t ending ending') : Lockstep m n δ s ending ending' :=
  h'.imp_right (.before h)

theorem andThen {next next' : α → State → Ending β} (hs : Grows s (Ending.state ending))
    (h : Lockstep m n δ s ending ending')
    (hnext : ∀ a t, ending = .ok a t → Grows t (Ending.state (next a t)))
    (h' : ∀ a t t', ending = .ok a t → Shifted n δ t t' → Lockstep m n δ t (next a t) (next' a t')) :
    Lockstep m n δ s (Ending.andThen ending next) (Ending.andThen ending' next') := by
  obtain hshift | hstop := h
  · cases hshift with
    | ok a h => exact (h' a _ _ rfl h).before hs
    | error fault h => exact .inl (.error fault h)
  · cases ending with
    | ok a t => exact .inr (hstop.onward (hnext a t rfl))
    | error fault t => exact .inr hstop

theorem caught (h : Lockstep m n δ s ending ending') :
    Lockstep m n δ s (Ending.caught ending) (Ending.caught ending') := by
  obtain hshift | hstop := h
  · cases hshift with
    | ok a h => exact .inl (.ok _ h)
    | error fault h => exact .inl (.ok _ h)
  · exact .inr (by rwa [Ending.state_caught])

theorem placed {k : Nat} {c c' d : Cursor} (hc : c.Shifted k c')
    (h : Lockstep m n δ { s with cursor := d } ending ending') :
    Lockstep m k δ s (Ending.placed c ending) (Ending.placed c' ending') := by
  obtain hshift | hstop := h
  · cases hshift with
    | ok a h => exact .inl (.ok a (h.at hc))
    | error fault h => exact .inl (.error fault (h.at hc))
  · exact .inr hstop.placed

/-- Both speculations see the same new faults. -/
theorem speculated (hshift : JuiceSyntax.Shifted n δ s s') (hs : Grows s (Ending.state ending))
    (hs' : Grows s' (Ending.state ending')) (h : Lockstep m n δ s ending ending') :
    Lockstep m n δ s (JuiceSyntax.speculated s ending) (JuiceSyntax.speculated s' ending') := by
  obtain h | hstop := h
  · refine .inl ?_
    have hback {t t' : State} (ht : JuiceSyntax.Shifted n δ t t') (hg : Grows s t) (hg' : Grows s' t') :
        JuiceSyntax.Shifted n δ (s.rewind t) (s'.rewind t') := by
      rw [rewind_eq hg, rewind_eq hg']
      exact ⟨hshift.cursor, hshift.faults, hshift.halted, hshift.macroBodies, ht.failedRecords, ht.failedBlocks⟩
    have hrecorded {t t' : State} (ht : JuiceSyntax.Shifted n δ t t') :
        t.faults.drop s.faults.length = t'.faults.drop s'.faults.length := by
      rw [ht.faults, hshift.faults, List.length_append, List.drop_append, List.drop_of_length_le (by omega)]
      simp
    cases h with
    | ok a h =>
      rw [speculated_ok, speculated_ok, hrecorded h]
      split
      · exact .error _ h
      · split
        · exact .ok _ h
        · exact .ok _ (hback h hs hs')
    | error fault h =>
      rw [speculated_error, speculated_error, hrecorded h]
      split
      · exact .error _ h
      · split
        · exact .error _ h
        · exact .ok _ (hback h hs hs')
  · exact .inr (hstop.speculated rfl)

theorem noted {form : BraceForm} {offset : Nat} {ending ending' : Ending (Option α)}
    (h : Lockstep m n δ s ending ending') :
    Lockstep m n δ s (JuiceSyntax.noted form offset ending) (JuiceSyntax.noted form offset ending') := by
  obtain h | hstop := h
  · refine .inl ?_
    cases h with
    | error fault h => exact .error fault h
    | ok found h =>
      cases found with
      | some a => exact .ok _ h
      | none =>
        refine .ok _ ?_
        cases form
        · exact ⟨h.cursor, h.faults, h.halted, h.macroBodies, congrArg (offset :: ·) h.failedRecords, h.failedBlocks⟩
        · exact ⟨h.cursor, h.faults, h.halted, h.macroBodies, h.failedRecords, congrArg (offset :: ·) h.failedBlocks⟩
  · exact .inr hstop.noted

end Lockstep

/-! ## Readers -/

/-- The readers of two levels go in lockstep from shifted states at tokens that are `fine`. The
limit of `L` is `m`; that of `L'` is reached no sooner. -/
structure Level.Lockstep (fine : List Token → Prop) (m : Nat) (δ : Shift) (L L' : Level) : Prop where
  source : L.source = L'.source
  strict : L.options.strict = L'.options.strict
  maxFaults : L.options.maxFaults = m
  le : m ≤ δ.faults.length + L'.options.maxFaults
  remember : L.remember = L'.remember
  grows : L.Grows
  grows' : L'.Grows
  expr : ∀ position {n s s'}, Shifted n δ s s' → fine s.cursor.rest →
    JuiceSyntax.Lockstep m n δ s (L.expr position s) (L'.expr position s')
  operand : ∀ position {n s s'}, Shifted n δ s s' → fine s.cursor.rest →
    JuiceSyntax.Lockstep m n δ s (L.operand position s) (L'.operand position s')
  block : ∀ {n s s'}, Shifted n δ s s' → fine s.cursor.rest → JuiceSyntax.Lockstep m n δ s (L.block s) (L'.block s')
  type : ∀ {n s s'}, Shifted n δ s s' → fine s.cursor.rest → JuiceSyntax.Lockstep m n δ s (L.type s) (L'.type s')
  record : ∀ {n s s'}, Shifted n δ s s' → fine s.cursor.rest →
    JuiceSyntax.Lockstep m n δ s (L.record s) (L'.record s')

/-- What is remembered from before is about other braces than those ahead. -/
def Shift.Apart (δ : Shift) (fine : List Token → Prop) : Prop :=
  ∀ c : Cursor, fine c.rest → ∀ form, c.span.start ∉ δ.failed form

section

variable {fine : List Token → Prop} {m n : Nat} {δ : Shift} {L L' : Level} {α : Type}

theorem withFault_lockstep (hL : L.Lockstep fine m δ L') (fault : Fault) {s s' : State} (h : Shifted n δ s s') :
    Shifted n δ (s.withFault L.options fault) (s'.withFault L'.options fault) ∨
      Stopped m s (s.withFault L.options fault) := by
  obtain ⟨hs, heq⟩ | ⟨hs, hf, heq⟩ | ⟨-, -, -, -, heq⟩ | ⟨hs, hf, hstrict, hm, heq⟩ := withFault_cases L.options fault s
  · refine .inl ?_
    rw [heq, State.withFault, if_pos (h.halted.symm.trans hs)]
    exact h
  · refine .inl ?_
    have hf' : (fault.isFatal || L'.options.strict) = true := by simpa [hL.strict] using hf
    rw [heq, State.withFault, ← h.halted, hs, if_neg (by decide), if_pos hf']
    exact ⟨h.cursor, by rw [h.faults, List.append_assoc], rfl, h.macroBodies, h.failedRecords, h.failedBlocks⟩
  · rw [heq, hL.maxFaults]
    exact .inr ⟨rfl, .ofCause s.cursor.span (.tooManyFaults m), by simp, rfl⟩
  · refine .inl ?_
    have hf' : ¬(fault.isFatal || L'.options.strict) = true := by simp [← hL.strict, hf, hstrict]
    have hm' : ¬L'.options.maxFaults ≤ s'.faults.length + 1 := by
      have := hL.maxFaults
      have := hL.le
      have hlen : s.faults.length = δ.faults.length + s'.faults.length := by rw [h.faults, List.length_append]
      omega
    rw [heq, State.withFault, ← h.halted, hs, if_neg (by decide), if_neg hf', if_neg hm']
    exact ⟨h.cursor, by rw [h.faults, List.append_assoc], rfl, h.macroBodies, h.failedRecords, h.failedBlocks⟩

theorem passed_shifted {start start' c c' : Cursor} (hstart : start.Abreast n start')
    (h : c.Shifted n c') (fault : Fault) : fault.passed start c = fault.passed start' c' := by
  have hpos : (start.pos < c.pos) = (start'.pos < c'.pos) := by
    rw [h.pos, hstart.pos]
    exact propext ⟨fun hlt => by omega, fun hlt => by omega⟩
  simp only [Fault.passed, hpos, hstart.span, h.previous]

/-- A failed turn that reaches the limit stays halted; else both readings resume alike. -/
theorem resumed_lockstep (hL : L.Lockstep fine m δ L') {start start' : Cursor} (hstart : start.Abreast n start')
    (resume : Resume) (fault : Fault) {s s' : State} (h : Shifted n δ s s') :
    Shifted n δ (s.resumed L.options start resume fault) (s'.resumed L'.options start' resume fault) ∨
      Stopped m s (s.resumed L.options start resume fault) := by
  obtain hshift | hstop := withFault_lockstep hL fault h
  · refine .inl ?_
    by_cases hh : (s.withFault L.options fault).halted = true
    · have hh' : (s'.withFault L'.options fault).halted = true := hshift.halted.symm.trans hh
      rw [State.resumed, State.recovered, if_pos hh, State.resumed, State.recovered, if_pos hh']
      exact hshift
    · have hh' : ¬(s'.withFault L'.options fault).halted = true := fun hc => hh (hshift.halted.trans hc)
      obtain ⟨hc, -⟩ | ⟨-, -, -, -, heq⟩ := resumed_cases L.options start resume fault s
      · exact absurd hc hh
      obtain ⟨hc, -⟩ | ⟨-, -, -, -, heq'⟩ := resumed_cases L'.options start' resume fault s'
      · exact absurd hc hh'
      have hcursor := Cursor.Shifted.resumeFrom hstart resume h.cursor
      rw [heq, heq']
      refine ⟨hcursor, ?_, h.halted, h.macroBodies, h.failedRecords, h.failedBlocks⟩
      rw [h.faults, List.append_assoc, passed_shifted hstart hcursor]
  · refine .inr ?_
    rw [State.resumed, State.recovered, if_pos hstop.halted]
    exact hstop

theorem turned_lockstep (hf : Inherited fine) (hL : L.Lockstep fine m δ L') {loop loop' : State → Ending (List α)}
    (hgrows : ∀ s, fine s.cursor.rest → Grows s (Ending.state (loop s)))
    (h : ∀ s s', Shifted n δ s s' → fine s.cursor.rest → Lockstep m n δ s (loop s) (loop' s'))
    {start start' : Cursor} (hstart : start.Abreast n start') (resume : Resume) (result : Except Fault α)
    {s s' : State} (hs : Shifted n δ s s') (hfine : fine s.cursor.rest) :
    Lockstep m n δ s (turned L.options start resume loop result s) (turned L'.options start' resume loop' result s') := by
  cases result with
  | ok first =>
    exact (h s s' hs hfine).andThen (hgrows s hfine) (fun _ t _ => .refl t) fun _ _ _ _ ht => .inl (.ok _ ht)
  | error fault =>
    have hresumed := Grows.resumed L.options start resume fault s
    have hfine' := hf.grows hresumed hfine
    obtain hshift | hstop := resumed_lockstep hL hstart resume fault hs
    · exact (h _ _ hshift hfine').before hresumed
    · exact .inr (hstop.onward (hgrows _ hfine'))

theorem recoveringUpTo_lockstep (hf : Inherited fine) (hL : L.Lockstep fine m δ L') {item : Reader α}
    (hgrows : ∀ s, fine s.cursor.rest → Grows s (Ending.state (item L s)))
    (h : ∀ s s', Shifted n δ s s' → fine s.cursor.rest → Lockstep m n δ s (item L s) (item L' s'))
    (resume : Resume) (ends : Kind → Bool) (fuel : Nat) {s s' : State} (hs : Shifted n δ s s')
    (hfine : fine s.cursor.rest) :
    Lockstep m n δ s (recoveringUpTo resume ends item fuel L s) (recoveringUpTo resume ends item fuel L' s') := by
  induction fuel generalizing s s' with
  | zero => exact .inl (.ok [] hs)
  | succ fuel ih =>
    have hsteady := grows_steady hf L.options
    have hloop := recoveringUpTo_steady hsteady hgrows resume ends fuel
    rw [recoveringUpTo_succ, recoveringUpTo_succ, hs.cursor.kind, hs.cursor.atEnd, hs.halted]
    split
    · exact .inl (.ok [] hs)
    have hitem := hgrows s hfine
    rw [← Ending.state_caught] at hitem
    refine (h s s' hs hfine).caught.andThen hitem (fun result t ht => ?_) fun result t t' ht hshift => ?_
    · rw [ht] at hitem
      exact turned_steady hsteady hloop _ resume result t (hf.grows hitem hfine)
    · rw [ht] at hitem
      exact turned_lockstep hf hL hloop (fun _ _ => ih) hs.cursor.toAbreast resume result hshift (hf.grows hitem hfine)

/-- Readers see the same in both, as long as what is remembered is about other braces or not asked for. -/
theorem Composed.lockstep {r : Reader α} (h : Composed fine r) (hf : Inherited fine) (hapart : L.remember = true → δ.Apart fine)
    (hL : L.Lockstep fine m δ L') {s s' : State} (hs : Shifted n δ s s') (hfine : fine s.cursor.rest) :
    Lockstep m n δ s (r L s) (r L' s') := by
  have hgrows {β : Type} {r : Reader β} (h : Composed fine r) := h.grows hf hL.grows
  have hgrows' {β : Type} {r : Reader β} (h : Composed fine r) := h.grows hf hL.grows'
  induction h generalizing n s s' with
  | pure a => exact .inl (.ok a hs)
  | bind first next ih ihk =>
    rw [bind_apply, bind_apply]
    have hfirst := hgrows first s hfine
    refine (ih hs hfine).andThen hfirst (fun a t ht => ?_) fun a t t' ht hshift => ?_
    · rw [ht] at hfirst
      exact hgrows (next a) t (hf.grows hfirst hfine)
    · rw [ht] at hfirst
      exact ihk a hshift (hf.grows hfirst hfine)
  | throw fault => exact .inl (.error fault hs)
  | cursor same next ih =>
    rw [cursor_bind_apply, cursor_bind_apply, same s'.cursor s.cursor hs.cursor.rest.symm]
    exact ih s.cursor hfine hs hfine
  | spanFrom start =>
    rw [spanFrom_apply, spanFrom_apply, hs.cursor.previous]
    exact .inl (.ok _ hs)
  | halted =>
    rw [halted_apply, halted_apply, hs.halted]
    exact .inl (.ok _ hs)
  | sourceText span =>
    rw [sourceText_apply, sourceText_apply, hL.source]
    exact .inl (.ok _ hs)
  | advance =>
    rw [advance_apply, advance_apply, hs.cursor.current]
    exact .inl (.ok _ (hs.at hs.cursor.advance))
  | skip k => exact .inl (.ok () (hs.at (hs.cursor.skip k)))
  | noteBody inner =>
    refine .inl (.ok () ⟨hs.cursor, hs.faults, hs.halted, ?_, hs.failedRecords, hs.failedBlocks⟩)
    simp only [hs.macroBodies, List.append_assoc]
  | record fault =>
    rw [record_apply, record_apply]
    exact (withFault_lockstep hL fault hs).imp_left (.ok ())
  | expr position => exact hL.expr position hs hfine
  | operand position => exact hL.operand position hs hfine
  | block => exact hL.block hs hfine
  | type => exact hL.type hs hfine
  | recordLiteral => exact hL.record hs hfine
  | speculate tried ih =>
    rw [speculate_apply, speculate_apply]
    exact (ih hs hfine).speculated hs (hgrows tried s hfine) (hgrows' tried s' (hs.cursor.rest ▸ hfine))
  | tryBrace form tried ih =>
    have hsame : (L.remember && (s.failed form).contains s.cursor.span.start) =
        (L'.remember && (s'.failed form).contains s'.cursor.span.start) := by
      rw [← hL.remember]
      cases hremember : L.remember with
      | false => rfl
      | true =>
        have hnew : s.cursor.span.start ∉ δ.failed form := hapart hremember s.cursor hfine form
        rw [hs.failed form, ← hs.cursor.span, Bool.eq_iff_iff, Bool.true_and, Bool.true_and, List.contains_iff_mem,
          List.contains_iff_mem, List.mem_append]
        exact ⟨fun h => h.resolve_right hnew, .inl⟩
    rw [tryBrace_apply, tryBrace_apply, hsame, ← hs.cursor.span]
    split
    · exact .inl (.ok none hs)
    · exact ((ih hs hfine).speculated hs (hgrows tried s hfine) (hgrows' tried s' (hs.cursor.rest ▸ hfine))).noted
  | withTokens inner read ih =>
    rw [withTokens_apply, withTokens_apply]
    exact (ih (hs.at (Cursor.Shifted.refl _)) inner).placed hs.cursor
  | recovering resume ends turn ih =>
    rw [recovering_apply, recovering_apply, hs.cursor.left]
    exact recoveringUpTo_lockstep hf hL (hgrows turn) (fun _ _ => ih) resume ends _ hs hfine

end

/-- Settings that differ in the limit of faults, which what was there before may make up for. -/
structure Setting.Lockstep (δ : Shift) (setting setting' : Setting) : Prop where
  source : setting.source = setting'.source
  strict : setting.options.strict = setting'.options.strict
  maxDepth : setting.options.maxDepth = setting'.options.maxDepth
  remember : setting.remember = setting'.remember
  le : setting.options.maxFaults ≤ δ.faults.length + setting'.options.maxFaults

theorem level_lockstep {fine : List Token → Prop} {δ : Shift} {setting setting' : Setting} (hf : Inherited fine)
    (hapart : setting.remember = true → δ.Apart fine) (h : setting.Lockstep δ setting') (n : Nat) :
    (level setting n).Lockstep fine setting.options.maxFaults δ (level setting' n) := by
  have hgrows := level_grows setting
  have hgrows' := level_grows setting'
  have hapart' (n : Nat) (h : (level setting n).remember = true) : δ.Apart fine := hapart (remember_level setting n ▸ h)
  induction n with
  | zero =>
    have deep {α : Type} {k : Nat} {s s' : State} (hs : Shifted k δ s s') :
        Lockstep setting.options.maxFaults k δ s (tooDeep setting.options.maxDepth s : Ending α)
          (tooDeep setting'.options.maxDepth s') := by
      unfold tooDeep
      rw [h.maxDepth, hs.cursor.span]
      exact .inl (.error _ hs)
    exact ⟨h.source, h.strict, rfl, h.le, h.remember, hgrows 0, hgrows' 0, fun _ _ _ _ hs _ => deep hs,
      fun _ _ _ _ hs _ => deep hs, fun hs _ => deep hs, fun hs _ => deep hs, fun hs _ => deep hs⟩
  | succ n ih =>
    exact ⟨h.source, h.strict, rfl, h.le, h.remember, hgrows (n + 1), hgrows' (n + 1),
      fun position _ _ _ => (composed_chain hf 1 position).lockstep hf (hapart' n) ih,
      fun position _ _ _ => (composed_chain hf operandLevel position).lockstep hf (hapart' n) ih,
      composed_blockBody.lockstep hf (hapart' n) ih, (composed_typeExpr hf).lockstep hf (hapart' n) ih,
      composed_recordExpr.lockstep hf (hapart' n) ih⟩

end JuiceSyntax
