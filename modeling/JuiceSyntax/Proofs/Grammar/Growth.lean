/-
  What a reading does to the state, whatever it reads. `Steady` says of a relation between
  states that every step keeps it; then every reader does (`Composed.steady`, `level_steady`).

  `Grows s s'` is such a relation: the cursor of `s'` is that of `s` or further on in the same
  tokens, faults, macro bodies and remembered braces are only added, and once halted no fault is
  added any more. So a speculation that is given up leaves everything as it was, but for the
  braces remembered (`rewind_eq`).
-/
import JuiceSyntax.Proofs.Grammar.Composition
import JuiceSyntax.Proofs.Grammar.Ending

namespace JuiceSyntax

open Reader Grammar

/-! ## Levels -/

theorem source_level (setting : Setting) (n : Nat) : (level setting n).source = setting.source := by
  cases n <;> rfl

theorem options_level (setting : Setting) (n : Nat) : (level setting n).options = setting.options := by
  cases n <;> rfl

theorem remember_level (setting : Setting) (n : Nat) : (level setting n).remember = setting.remember := by
  cases n <;> rfl

/-! ## Cursors -/

theorem Cursor.skip_add (c : Cursor) (m n : Nat) : c.skip (m + n) = (c.skip m).skip n := by
  induction m generalizing c with
  | zero => rw [Nat.zero_add]; rfl
  | succ m ih => rw [Nat.succ_add]; exact ih c.advance

/-- Any token but the end is consumed. -/
theorem Cursor.advance_of_mid {c : Cursor} (h : c.atEnd = false) :
    c.advance.pos = c.pos + 1 ∧ c.advance.last = some c.span ∧ c.advance.rest = c.rest.tail := by
  unfold Cursor.advance
  split
  · rename_i hr
    simp [Cursor.atEnd, Cursor.kind, Cursor.current, hr, Kind.isDone] at h
  · rename_i token rest hr
    have hk : token.kind.isDone = false := by simpa [Cursor.atEnd, Cursor.kind, Cursor.current, hr] using h
    rw [hk, if_neg (by decide)]
    simp [Cursor.span, Cursor.current, hr]

theorem Cursor.rest_of_mid {c : Cursor} (h : c.atEnd = false) : c.rest = c.current :: c.advance.rest := by
  have hrest := (Cursor.advance_of_mid h).2.2
  cases hc : c.rest with
  | nil => simp [Cursor.atEnd, Cursor.kind, Cursor.current, hc, Kind.isDone] at h
  | cons token rest => rw [hrest, Cursor.current, hc, List.headD_cons, List.tail_cons]

theorem resumeFrom_eq_skip (start : Cursor) (resume : Resume) (here : Cursor) :
    ∃ n, resumeFrom start resume here = here.skip n := by
  unfold resumeFrom
  dsimp only
  split
  · exact ⟨_ + 1, rfl⟩
  · exact ⟨_, rfl⟩

/-! ## One fault more -/

theorem noteSkipped_append (span : Span) (faults : List Fault) (fault : Fault) :
    noteSkipped span (faults ++ [fault]) = faults ++ [{ fault with skipped := fault.skipped.or (some span) }] := by
  induction faults with
  | nil => rfl
  | cons first rest ih =>
    cases rest with
    | nil => rfl
    | cons second rest =>
      simp only [List.cons_append] at ih ⊢
      simp only [noteSkipped, ih]

/-- What is recorded of a fault: nothing, or the fault and a fatal end, or the fault alone. -/
theorem withFault_cases (options : Options) (fault : Fault) (s : State) :
    (s.halted = true ∧ s.withFault options fault = s) ∨
    (s.halted = false ∧ (fault.isFatal = true ∨ options.strict = true) ∧
      s.withFault options fault = { s with faults := s.faults ++ [fault], halted := true }) ∨
    (s.halted = false ∧ fault.isFatal = false ∧ options.strict = false ∧
      options.maxFaults ≤ s.faults.length + 1 ∧
      s.withFault options fault =
        { s with
          faults := s.faults ++ [fault] ++ [.ofCause s.cursor.span (.tooManyFaults options.maxFaults)]
          halted := true }) ∨
    (s.halted = false ∧ fault.isFatal = false ∧ options.strict = false ∧
      s.faults.length + 1 < options.maxFaults ∧
      s.withFault options fault = { s with faults := s.faults ++ [fault] }) := by
  unfold State.withFault
  by_cases hs : s.halted = true
  · exact .inl ⟨hs, if_pos hs⟩
  rw [if_neg hs]
  have hs' : s.halted = false := by simpa using hs
  by_cases hf : (fault.isFatal || options.strict) = true
  · rw [if_pos hf]
    exact .inr (.inl ⟨hs', by simpa using hf, rfl⟩)
  rw [if_neg hf]
  obtain ⟨hfatal, hstrict⟩ : fault.isFatal = false ∧ options.strict = false := by simpa using hf
  by_cases hm : options.maxFaults ≤ s.faults.length + 1
  · exact .inr (.inr (.inl ⟨hs', hfatal, hstrict, hm, if_pos hm⟩))
  · exact .inr (.inr (.inr ⟨hs', hfatal, hstrict, by omega, if_neg hm⟩))

theorem cursor_withFault (options : Options) (fault : Fault) (s : State) :
    (s.withFault options fault).cursor = s.cursor := by
  obtain ⟨-, h⟩ | ⟨-, -, h⟩ | ⟨-, -, -, -, h⟩ | ⟨-, -, -, -, h⟩ := withFault_cases options fault s
  all_goals rw [h]

/-- The fault of a turn that began at `start`, with the text that was passed to `here`. -/
def Fault.passed (fault : Fault) (start here : Cursor) : Fault :=
  if start.pos < here.pos then { fault with skipped := fault.skipped.or (some (start.span.cover here.previous)) }
  else fault

/-- After a failed turn the reading is halted, or it goes on with the fault at the end of the
list. -/
theorem resumed_cases (options : Options) (start : Cursor) (resume : Resume) (fault : Fault) (s : State) :
    ((s.withFault options fault).halted = true ∧ s.resumed options start resume fault = s.withFault options fault) ∨
    (s.halted = false ∧ fault.isFatal = false ∧ options.strict = false ∧ s.faults.length + 1 < options.maxFaults ∧
      s.resumed options start resume fault =
        { s with
          cursor := resumeFrom start resume s.cursor
          faults := s.faults ++ [fault.passed start (resumeFrom start resume s.cursor)] }) := by
  unfold State.resumed
  by_cases hs : (s.withFault options fault).halted = true
  · exact .inl ⟨hs, if_pos hs⟩
  refine .inr ?_
  obtain ⟨h, h'⟩ | ⟨-, -, h'⟩ | ⟨-, -, -, -, h'⟩ | ⟨hl, hf, hstrict, hm, h'⟩ := withFault_cases options fault s
  · rw [h'] at hs
    exact absurd h hs
  · rw [h'] at hs
    exact absurd rfl hs
  · rw [h'] at hs
    exact absurd rfl hs
  · refine ⟨hl, hf, hstrict, hm, ?_⟩
    rw [State.recovered, if_neg hs, h']
    dsimp only
    rw [noteSkipped_append]
    unfold Fault.passed
    split
    · rfl
    · rfl

/-- Unless the reading is halted, a fault that is recorded is kept. -/
theorem length_lt_withFault (options : Options) (fault : Fault) {s : State} (hs : s.halted = false) :
    s.faults.length < (s.withFault options fault).faults.length := by
  obtain ⟨h, -⟩ | ⟨-, -, h⟩ | ⟨-, -, -, -, h⟩ | ⟨-, -, -, -, h⟩ := withFault_cases options fault s
  · exact absurd (hs.symm.trans h) (by decide)
  all_goals
    rw [h]
    simp

theorem length_lt_resumed (options : Options) (start : Cursor) (resume : Resume) (fault : Fault) {s : State}
    (hs : s.halted = false) : s.faults.length < (s.resumed options start resume fault).faults.length := by
  obtain ⟨-, h⟩ | ⟨-, -, -, -, h⟩ := resumed_cases options start resume fault s
  · rw [h]
    exact length_lt_withFault options fault hs
  · rw [h]
    simp

/-! ## Growth -/

theorem failed_suffix {s s' : State} (hr : s.failedRecords <:+ s'.failedRecords)
    (hb : s.failedBlocks <:+ s'.failedBlocks) (form : BraceForm) : s.failed form <:+ s'.failed form := by
  cases form
  · exact hr
  · exact hb

structure Grows (s s' : State) : Prop where
  cursor : ∃ n, s'.cursor = s.cursor.skip n
  faults : s.faults <+: s'.faults
  macroBodies : s.macroBodies <+: s'.macroBodies
  memo : ∀ form, s.failed form <:+ s'.failed form
  halted : s.halted = true → s'.halted = true ∧ s'.faults = s.faults
  /-- A reading is halted by a fault. -/
  halting : s'.halted = true → s.halted = true ∨ s.faults.length < s'.faults.length

namespace Grows

theorem refl (s : State) : Grows s s :=
  ⟨⟨0, rfl⟩, List.prefix_refl _, List.prefix_refl _, fun _ => List.suffix_refl _, fun h => ⟨h, rfl⟩, .inl⟩

theorem trans {s t u : State} (h : Grows s t) (h' : Grows t u) : Grows s u where
  cursor := by
    obtain ⟨m, hm⟩ := h.cursor
    obtain ⟨n, hn⟩ := h'.cursor
    exact ⟨m + n, by rw [hn, hm, Cursor.skip_add]⟩
  faults := h.faults.trans h'.faults
  macroBodies := h.macroBodies.trans h'.macroBodies
  memo form := (h.memo form).trans (h'.memo form)
  halted hs := by
    obtain ⟨ht, hf⟩ := h.halted hs
    obtain ⟨hu, hf'⟩ := h'.halted ht
    exact ⟨hu, hf'.trans hf⟩
  halting hu := by
    have hle := h'.faults.length_le
    obtain ht | hlt := h'.halting hu
    · obtain hs | hlt := h.halting ht
      · exact .inl hs
      · exact .inr (by omega)
    · have := h.faults.length_le
      exact .inr (by omega)

theorem skip (s : State) (n : Nat) : Grows s { s with cursor := s.cursor.skip n } :=
  ⟨⟨n, rfl⟩, List.prefix_refl _, List.prefix_refl _, failed_suffix (List.suffix_refl _) (List.suffix_refl _),
    fun h => ⟨h, rfl⟩, .inl⟩

theorem withFault (options : Options) (fault : Fault) (s : State) : Grows s (s.withFault options fault) := by
  obtain ⟨-, h'⟩ | ⟨hs, -, h'⟩ | ⟨hs, -, -, -, h'⟩ | ⟨hs, -, -, -, h'⟩ := withFault_cases options fault s
  · rw [h']
    exact refl s
  all_goals
    rw [h']
    refine ⟨⟨0, rfl⟩, ?_, List.prefix_refl _, failed_suffix (List.suffix_refl _) (List.suffix_refl _),
      fun h => absurd (hs.symm.trans h) (by decide), fun _ => .inr (by simp)⟩
    simp only [List.append_assoc]
    exact List.prefix_append _ _

theorem resumed (options : Options) (start : Cursor) (resume : Resume) (fault : Fault) (s : State) :
    Grows s (s.resumed options start resume fault) := by
  obtain ⟨-, h'⟩ | ⟨hs, -, -, -, h'⟩ := resumed_cases options start resume fault s
  · rw [h']
    exact withFault options fault s
  · rw [h']
    exact ⟨resumeFrom_eq_skip _ _ _, List.prefix_append _ _, List.prefix_refl _,
      failed_suffix (List.suffix_refl _) (List.suffix_refl _), fun h => absurd (hs.symm.trans h) (by decide),
      fun _ => .inr (by simp)⟩

theorem noteFailed (form : BraceForm) (offset : Nat) (s : State) : Grows s (s.noteFailed offset form) := by
  cases form
  · exact ⟨⟨0, rfl⟩, List.prefix_refl _, List.prefix_refl _,
      failed_suffix (List.suffix_cons _ _) (List.suffix_refl _), fun h => ⟨h, rfl⟩, .inl⟩
  · exact ⟨⟨0, rfl⟩, List.prefix_refl _, List.prefix_refl _,
      failed_suffix (List.suffix_refl _) (List.suffix_cons _ _), fun h => ⟨h, rfl⟩, .inl⟩

end Grows

/-! ## Giving up -/

/-- What is given up leaves no trace but the braces remembered. -/
theorem rewind_eq {before after : State} (h : Grows before after) :
    before.rewind after =
      { before with failedRecords := after.failedRecords, failedBlocks := after.failedBlocks } := by
  rw [State.rewind, ← List.prefix_iff_eq_take.1 h.faults, ← List.prefix_iff_eq_take.1 h.macroBodies]

theorem Grows.rewind {before after : State} (h : Grows before after) : Grows before (before.rewind after) := by
  rw [rewind_eq h]
  exact ⟨⟨0, rfl⟩, List.prefix_refl _, List.prefix_refl _, failed_suffix (h.memo .record) (h.memo .block),
    fun hs => ⟨hs, rfl⟩, .inl⟩

/-- How a speculation ends, by how the reader in it did: kept, given up, or ended for good. -/
theorem speculated_cases {α : Type} (before : State) (ending : Ending α) :
    (∃ fault, fault.isFatal = true ∧
      speculated before ending = .error fault (Ending.state ending)) ∨
    (∃ a s, ending = .ok a s ∧ (s.faults.drop before.faults.length).all (·.isStructural) = true ∧
      speculated before ending = .ok (some a) s) ∨
    speculated before ending = .ok none (before.rewind (Ending.state ending)) := by
  unfold speculated
  dsimp only
  cases hfound : ((Ending.state ending).faults.drop before.faults.length).find? (·.isFatal) with
  | some fault => exact .inl ⟨fault, List.find?_some hfound, rfl⟩
  | none =>
    cases ending with
    | ok a s =>
      by_cases hall : (s.faults.drop before.faults.length).all (·.isStructural) = true
      · exact .inr (.inl ⟨a, s, rfl, hall, if_pos hall⟩)
      · exact .inr (.inr (if_neg hall))
    | error fault s =>
      by_cases hfatal : fault.isFatal = true
      · exact .inl ⟨fault, hfatal, if_pos hfatal⟩
      · exact .inr (.inr (if_neg hfatal))

/-- Growth while another token list is read. -/
theorem Grows.inTokens {s s' : State} {c : Cursor} (h : Grows { s with cursor := c } s') :
    Grows s { s' with cursor := s.cursor } :=
  ⟨⟨0, rfl⟩, h.faults, h.macroBodies, failed_suffix (h.memo .record) (h.memo .block), h.halted, h.halting⟩

/-! ## Relations that every step keeps -/

/-- Every step keeps `R` between the states before and after it, on token lists that are
`fine`. -/
structure Steady (fine : List Token → Prop) (options : Options) (R : State → State → Prop) : Prop where
  refl : ∀ s, R s s
  trans : ∀ {s t u}, R s t → R t u → R s u
  skip : ∀ s n, R s { s with cursor := s.cursor.skip n }
  noteBody : ∀ s inner, R s { s with macroBodies := s.macroBodies ++ [inner] }
  withFault : ∀ s fault, R s (s.withFault options fault)
  resumed : ∀ s start resume fault, R s (s.resumed options start resume fault)
  rewind : ∀ {s t}, R s t → R s (s.rewind t)
  noteFailed : ∀ s form, fine s.cursor.rest → R s (s.noteFailed s.cursor.span.start form)
  inTokens : ∀ {s t tokens}, fine tokens → R { s with cursor := .ofTokens tokens } t → R s { t with cursor := s.cursor }
  fine : ∀ {s t}, R s t → fine s.cursor.rest → fine t.cursor.rest

/-- The readers of a level keep it. -/
structure Level.Steady (fine : List Token → Prop) (R : State → State → Prop) (L : Level) : Prop where
  expr : ∀ position s, fine s.cursor.rest → R s (Ending.state (L.expr position s))
  operand : ∀ position s, fine s.cursor.rest → R s (Ending.state (L.operand position s))
  block : ∀ s, fine s.cursor.rest → R s (Ending.state (L.block s))
  type : ∀ s, fine s.cursor.rest → R s (Ending.state (L.type s))
  record : ∀ s, fine s.cursor.rest → R s (Ending.state (L.record s))

section

variable {fine : List Token → Prop} {L : Level} {R : State → State → Prop} {α β : Type}

theorem Steady.andThen (hR : Steady fine L.options R) {s : State} {ending : Ending α} {next : α → State → Ending β}
    (h : R s (Ending.state ending)) (hs : fine s.cursor.rest)
    (h' : ∀ a t, fine t.cursor.rest → R t (Ending.state (next a t))) :
    R s (Ending.state (Ending.andThen ending next)) := by
  cases ending with
  | ok a t => exact hR.trans h (h' a t (hR.fine h hs))
  | error fault t => exact h

theorem Steady.speculated (hR : Steady fine L.options R) {s : State} {ending : Ending α}
    (h : R s (Ending.state ending)) : R s (Ending.state (speculated s ending)) := by
  obtain ⟨fault, -, hs⟩ | ⟨a, t, rfl, -, hs⟩ | hs := speculated_cases s ending
  · rw [hs]
    exact h
  · rw [hs]
    exact h
  · rw [hs]
    exact hR.rewind h

/-- The brace is remembered where the cursor is again. -/
theorem Steady.noted (hR : Steady fine L.options R) (form : BraceForm) {s : State} {ending : Ending α}
    (h : R s (Ending.state ending)) (hs : fine s.cursor.rest) :
    R s (Ending.state (noted form s.cursor.span.start (JuiceSyntax.speculated s ending))) := by
  obtain ⟨fault, -, heq⟩ | ⟨a, t, rfl, -, heq⟩ | heq := speculated_cases s ending
  · rw [heq]
    exact h
  · rw [heq]
    exact h
  · rw [heq]
    exact hR.trans (hR.rewind h) (hR.noteFailed _ form hs)

theorem turned_steady (hR : Steady fine L.options R) {loop : State → Ending (List α)}
    (h : ∀ s, fine s.cursor.rest → R s (Ending.state (loop s))) (start : Cursor) (resume : Resume)
    (result : Except Fault α) (s : State) (hs : fine s.cursor.rest) :
    R s (Ending.state (turned L.options start resume loop result s)) := by
  cases result with
  | ok first => exact hR.andThen (h s hs) hs fun _ t _ => hR.refl t
  | error fault =>
    have hresumed := hR.resumed s start resume fault
    exact hR.trans hresumed (h _ (hR.fine hresumed hs))

theorem recoveringUpTo_steady (hR : Steady fine L.options R) {item : Reader α}
    (h : ∀ s, fine s.cursor.rest → R s (Ending.state (item L s))) (resume : Resume) (ends : Kind → Bool) (fuel : Nat)
    (s : State) (hs : fine s.cursor.rest) : R s (Ending.state (recoveringUpTo resume ends item fuel L s)) := by
  induction fuel generalizing s with
  | zero => exact hR.refl s
  | succ fuel ih =>
    rw [recoveringUpTo_succ]
    split
    · exact hR.refl s
    · have hitem := h s hs
      rw [← Ending.state_caught] at hitem
      exact hR.andThen hitem hs (turned_steady hR ih _ _)

theorem Composed.steady {r : Reader α} (h : Composed fine r) (hR : Steady fine L.options R) (hL : L.Steady fine R)
    (s : State) (hs : fine s.cursor.rest) : R s (Ending.state (r L s)) := by
  induction h generalizing s with
  | pure => exact hR.refl s
  | bind _ _ ih ihk =>
    rw [bind_apply]
    exact hR.andThen (ih s hs) hs ihk
  | throw => exact hR.refl s
  | cursor same next ih => exact ih s.cursor hs s hs
  | spanFrom => exact hR.refl s
  | halted => exact hR.refl s
  | sourceText => exact hR.refl s
  | advance => exact hR.skip s 1
  | skip n => exact hR.skip s n
  | noteBody inner => exact hR.noteBody s inner
  | record fault =>
    rw [record_apply]
    exact hR.withFault s fault
  | expr position => exact hL.expr position s hs
  | operand position => exact hL.operand position s hs
  | block => exact hL.block s hs
  | type => exact hL.type s hs
  | recordLiteral => exact hL.record s hs
  | speculate _ ih =>
    rw [speculate_apply]
    exact hR.speculated (ih s hs)
  | tryBrace form _ ih =>
    rw [tryBrace_apply]
    split
    · exact hR.refl s
    · exact hR.noted form (ih s hs) hs
  | withTokens inner _ ih =>
    rw [withTokens_apply, Ending.state_placed]
    exact hR.inTokens inner (ih _ inner)
  | recovering resume ends _ ih =>
    rw [recovering_apply]
    exact recoveringUpTo_steady hR ih resume ends _ s hs

end

theorem Steady.level {fine : List Token → Prop} {setting : Setting} {R : State → State → Prop}
    (hR : Steady fine setting.options R) (n : Nat) : Steady fine (level setting n).options R := by
  rwa [options_level]

theorem level_steady {fine : List Token → Prop} (hf : Inherited fine) {setting : Setting}
    {R : State → State → Prop} (hR : Steady fine setting.options R) (n : Nat) : (level setting n).Steady fine R := by
  induction n with
  | zero => exact ⟨fun _ s _ => hR.refl s, fun _ s _ => hR.refl s, fun s _ => hR.refl s, fun s _ => hR.refl s,
      fun s _ => hR.refl s⟩
  | succ n ih =>
    have hR' := hR.level n
    exact ⟨fun position => (composed_chain hf 1 position).steady hR' ih,
      fun position => (composed_chain hf operandLevel position).steady hR' ih, composed_blockBody.steady hR' ih,
      (composed_typeExpr hf).steady hR' ih, composed_recordExpr.steady hR' ih⟩

/-- So does every reader at a level. -/
theorem Composed.steady_level {α : Type} {fine : List Token → Prop} {r : Reader α} (h : Composed fine r)
    (hf : Inherited fine) {setting : Setting} {R : State → State → Prop} (hR : Steady fine setting.options R) (n : Nat)
    (s : State) (hs : fine s.cursor.rest) : R s (Ending.state (r (level setting n) s)) :=
  h.steady (hR.level n) (level_steady hf hR n) s hs

/-! ## Growth of readings -/

theorem Inherited.skip {fine : List Token → Prop} (hf : Inherited fine) {c : Cursor} (h : fine c.rest) (n : Nat) :
    fine (c.skip n).rest := by
  induction n generalizing c with
  | zero => exact h
  | succ n ih => exact ih (hf.advance h)

theorem Inherited.grows {fine : List Token → Prop} (hf : Inherited fine) {s t : State} (h : Grows s t)
    (hs : fine s.cursor.rest) : fine t.cursor.rest := by
  obtain ⟨n, hn⟩ := h.cursor
  rw [hn]
  exact hf.skip hs n

theorem grows_steady {fine : List Token → Prop} (hf : Inherited fine) (options : Options) :
    Steady fine options Grows where
  refl := .refl
  trans := .trans
  skip := .skip
  noteBody _ _ := ⟨⟨0, rfl⟩, List.prefix_refl _, List.prefix_append _ _,
    failed_suffix (List.suffix_refl _) (List.suffix_refl _), fun h => ⟨h, rfl⟩, .inl⟩
  withFault s fault := .withFault options fault s
  resumed s start resume fault := .resumed options start resume fault s
  rewind := .rewind
  noteFailed s form _ := .noteFailed form _ s
  inTokens _ := .inTokens
  fine := hf.grows

/-- The readers of a level only go forward. -/
abbrev Level.Grows (L : Level) : Prop := L.Steady (fun _ => True) JuiceSyntax.Grows

theorem level_grows (setting : Setting) (n : Nat) : (level setting n).Grows :=
  level_steady inherited_true (grows_steady inherited_true _) n

theorem Level.Steady.mono {fine fine' : List Token → Prop} {R : State → State → Prop} {L : Level}
    (h : L.Steady fine R) (hle : ∀ tokens, fine' tokens → fine tokens) : L.Steady fine' R :=
  ⟨fun position s hs => h.expr position s (hle _ hs), fun position s hs => h.operand position s (hle _ hs),
    fun s hs => h.block s (hle _ hs), fun s hs => h.type s (hle _ hs), fun s hs => h.record s (hle _ hs)⟩

theorem Composed.grows {α : Type} {fine : List Token → Prop} (hf : Inherited fine) {r : Reader α}
    (h : Composed fine r) {L : Level} (hL : L.Grows) (s : State) (hs : fine s.cursor.rest) :
    Grows s (Ending.state (r L s)) :=
  h.steady (grows_steady hf L.options) (hL.mono fun _ _ => trivial) s hs

end JuiceSyntax
