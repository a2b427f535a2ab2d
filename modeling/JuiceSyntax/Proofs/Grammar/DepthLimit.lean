/-
  The limit of depth. Two readings of the same tokens with different limits of depth go on alike
  until the lower one is met. Its fault is fatal: no speculation takes it back and no recovery
  passes over it, so the reading with the lower limit reports it (`read_deeper`).

  A program that is clean at one limit is read alike at a lower one, or the last of its faults
  there is that the nesting is too deep (`clean_shallower`). It need not be the only one: where a
  speculation meets the limit, the faults that it had recorded by then stay
  (`shallow_arm_leaks`). They count towards the limit of faults, so there are none of them if
  the program is clean with no more than one fault allowed.
-/
import JuiceSyntax.Proofs.Grammar.FaultCount
import JuiceSyntax.Proofs.Grammar.FaultLimit
import JuiceSyntax.Proofs.Grammar.Parting

namespace JuiceSyntax

open Reader Grammar

/-! ## The limit is met -/

/-- The fault of the limit ends a reading that is not halted, or it was recorded and halted it. -/
inductive Ending.Sunk (limit : Nat) (s : State) {α : Type} : Ending α → Prop
  | thrown {fault : Fault} {t : State} (cause : fault.cause = .nestingTooDeep limit) (goes : t.halted = false) :
    Ending.Sunk limit s (.error fault t)
  | stopped {ending : Ending α} (h : StoppedBy (.nestingTooDeep limit) s (Ending.state ending)) :
    Ending.Sunk limit s ending

/-- The first reading met the limit, or both are halted. -/
def sinking (limit : Nat) : Parting where
  parts s ending ending' :=
    Ending.Sunk limit s ending ∨ (Ending.state ending).halted = true ∧ (Ending.state ending').halted = true

section

variable {α β : Type} {limit : Nat} {s t : State} {ending ending' : Ending α}

theorem isFatal_of_cause {fault : Fault} (h : fault.cause = .nestingTooDeep limit) : fault.isFatal = true := by
  rw [Fault.isFatal, h]
  rfl

/-- A halt is not taken back. -/
theorem halted_speculated (hs : GoesToFatal s (Ending.state ending)) (h : (Ending.state ending).halted = true) :
    (Ending.state (speculated s ending)).halted = true := by
  cases hhalted : s.halted with
  | true =>
    obtain ⟨fault, -, heq⟩ | ⟨a, u, rfl, -, heq⟩ | heq := speculated_cases s ending
    · rw [heq]
      exact h
    · rw [heq]
      exact h
    · rw [heq]
      exact hhalted
  | false =>
    obtain ⟨fault, hmem, hfatal⟩ := hs.2.exists_of_halted hhalted h
    unfold speculated
    dsimp only
    cases hfound : ((Ending.state ending).faults.drop s.faults.length).find? (·.isFatal) with
    | some found => exact h
    | none => exact absurd hfatal (by simpa using List.find?_eq_none.1 hfound fault hmem)

theorem halted_noted {ending : Ending (Option α)} (form : BraceForm) (offset : Nat)
    (h : (Ending.state ending).halted = true) : (Ending.state (noted form offset ending)).halted = true := by
  cases ending with
  | error fault t => exact h
  | ok found t =>
    cases found with
    | some a => exact h
    | none => exact ((Grows.noteFailed form offset t).halted h).1

/-- A fatal fault halts the turn that it ends. -/
theorem resumed_of_isFatal (options : Options) (start : Cursor) (resume : Resume) {fault : Fault}
    (hs : s.halted = false) (hfatal : fault.isFatal = true) :
    s.resumed options start resume fault = { s with faults := s.faults ++ [fault], halted := true } := by
  obtain ⟨-, heq⟩ | ⟨-, hmild, -⟩ := resumed_cases options start resume fault s
  · rw [heq, State.withFault, hs, hfatal]
    rfl
  · exact absurd (hfatal.symm.trans hmild) (by decide)

namespace Ending.Sunk

theorem before (hs : GoesToFatal s t) (h : Ending.Sunk limit t ending) : Ending.Sunk limit s ending := by
  cases h with
  | thrown cause goes => exact .thrown cause goes
  | stopped h => exact .stopped (h.before hs.1)

theorem andThen {L : Level} (hR : Steady (fun _ => True) L.options GoesToFatal) {next : α → State → Ending β}
    (hnext : ∀ a t, GoesToFatal t (Ending.state (next a t))) (h : Ending.Sunk limit s ending) :
    Ending.Sunk limit s (Ending.andThen ending next) := by
  cases h with
  | thrown cause goes => exact .thrown cause goes
  | stopped h => exact .stopped (h.onward (next_steady hR hnext ending).1)

/-- The fault of the limit ends a speculation for good. -/
theorem speculated (hs : GoesToFatal s (Ending.state ending)) (h : Ending.Sunk limit s ending) :
    Ending.Sunk limit s (speculated s ending) := by
  cases h with
  | @thrown fault t cause goes =>
    have hnone : (t.faults.drop s.faults.length).find? (·.isFatal) = none := hs.2.find?_of_goes goes
    rw [speculated_error, hnone, isFatal_of_cause cause]
    exact .thrown cause goes
  | stopped h => exact .stopped (h.speculated rfl)

theorem noted {ending : Ending (Option α)} (form : BraceForm) (offset : Nat) (h : Ending.Sunk limit s ending) :
    Ending.Sunk limit s (noted form offset ending) := by
  cases h with
  | thrown cause goes => exact .thrown cause goes
  | stopped h => exact .stopped h.noted

theorem placed {c d : Cursor} (h : Ending.Sunk limit { s with cursor := d } ending) :
    Ending.Sunk limit s (Ending.placed c ending) := by
  cases h with
  | thrown cause goes => exact .thrown cause goes
  | stopped h => exact .stopped h.placed

/-- The turn records the fault, which ends the loop. -/
theorem turn {L : Level} (hR : Steady (fun _ => True) L.options GoesToFatal) (start : Cursor) (resume : Resume)
    {loop : State → Ending (List α)} (hs : GoesToFatal s (Ending.state ending))
    (hloop : ∀ t, GoesToFatal t (Ending.state (loop t))) (h : Ending.Sunk limit s ending) :
    Ending.Sunk limit s (Ending.andThen (Ending.caught ending) (turned L.options start resume loop)) := by
  refine .stopped ?_
  cases h with
  | stopped h => exact h.onward (turn_steady hR start resume hloop ending).1
  | @thrown fault t cause goes =>
    have hresumed : StoppedBy (.nestingTooDeep limit) t (t.resumed L.options start resume fault) := by
      rw [resumed_of_isFatal L.options start resume goes (isFatal_of_cause cause)]
      exact ⟨rfl, fault, by simp, cause⟩
    exact (hresumed.onward (hloop _).1).before hs.1

end Ending.Sunk

/-! ## Readers -/

variable {L L' : Level}

/-- No step of a reader brings readings together again that this limit has parted. -/
theorem sinking_closed (hR : Steady (fun _ => True) L.options GoesToFatal)
    (hR' : Steady (fun _ => True) L'.options GoesToFatal) : (sinking limit).Closed GoesToFatal L L' where
  before hs h := h.imp_left (.before hs)
  andThen _ hnext hnext' h := by
    obtain hsunk | ⟨hh, hh'⟩ := h
    · exact .inl (hsunk.andThen hR hnext)
    · exact .inr ⟨((next_steady hR hnext _).1.halted hh).1, ((next_steady hR' hnext' _).1.halted hh').1⟩
  speculated hs hs' h := by
    obtain hsunk | ⟨hh, hh'⟩ := h
    · exact .inl (hsunk.speculated hs)
    · exact .inr ⟨halted_speculated hs hh, halted_speculated hs' hh'⟩
  noted form offset h := by
    obtain hsunk | ⟨hh, hh'⟩ := h
    · exact .inl (hsunk.noted form offset)
    · exact .inr ⟨halted_noted form offset hh, halted_noted form offset hh'⟩
  placed h := by
    obtain hsunk | ⟨hh, hh'⟩ := h
    · exact .inl hsunk.placed
    · exact .inr ⟨by rwa [Ending.state_placed], by rwa [Ending.state_placed]⟩
  turn start resume hs hloop hloop' h := by
    obtain hsunk | ⟨hh, hh'⟩ := h
    · exact .inl (hsunk.turn hR start resume hs hloop)
    · exact .inr ⟨((turn_steady hR start resume hloop _).1.halted hh).1,
        ((turn_steady hR' start resume hloop' _).1.halted hh').1⟩

end

/-! ## Levels -/

section

variable {options : Options} {d d' : Nat}

/-- A reader below which there is no level meets the limit, unless its reading is halted. -/
theorem tooDeep_alike {α : Type} {s : State} {ending : Ending α} (h : Grows s (Ending.state ending)) :
    (sinking d).Alike s (tooDeep d s) ending := by
  cases hs : s.halted with
  | false => exact .inr (.inl (.thrown rfl hs))
  | true => exact .inr (.inr ⟨hs, (h.halted hs).1⟩)

/-- A level is like one with at least as many levels below it, up to the limit. -/
theorem level_sinking (source : String) (hstrict : options.strict = false) {n n' : Nat} (h : n ≤ n') :
    (level (.ofSource source (options.withMaxDepth d)) n).Partly (sinking d) GoesToFatal
      (level (.ofSource source (options.withMaxDepth d')) n') := by
  have hR (depth : Nat) : Steady (fun _ => True) (options.withMaxDepth depth) GoesToFatal :=
    fatalLast_steady inherited_true hstrict
  have hlevel (depth k : Nat) := level_goesToFatal (.ofSource source (options.withMaxDepth depth)) hstrict k
  induction n generalizing n' with
  | zero =>
    obtain ⟨hexpr, hoperand, hblock, htype, hrecord⟩ := hlevel d' n'
    refine ⟨?_, ?_, hlevel d 0, hlevel d' n', fun _ _ => ?_, fun _ _ _ _ => ?_,
      fun position s => tooDeep_alike (hexpr position s trivial).1,
      fun position s => tooDeep_alike (hoperand position s trivial).1, fun s => tooDeep_alike (hblock s trivial).1,
      fun s => tooDeep_alike (htype s trivial).1, fun s => tooDeep_alike (hrecord s trivial).1⟩
    · rw [source_level, source_level]
      rfl
    · rw [remember_level, remember_level]
      rfl
    all_goals
      rw [options_level, options_level]
      exact .inl rfl
  | succ n ih =>
    obtain ⟨n', rfl⟩ : ∃ k, n' = k + 1 := ⟨n' - 1, by omega⟩
    exact partly_succ rfl rfl (hR d) (hR d') (fun _ _ => .inl rfl) (fun _ _ _ _ => .inl rfl)
      (sinking_closed ((hR d).level n) ((hR d').level n')) (ih (by omega))

/-! ## Programs -/

/-- The fault that stopped a reading is its last one. -/
theorem StoppedBy.last {cause : Cause} {options : Options} {s t : State} (h : StoppedBy cause s t)
    (htally : Tallying options t) (hfatal : cause.isFatal = true) (hcause : cause ≠ .tooManyFaults options.maxFaults) :
    ∃ leaked fault, t.faults = leaked ++ [fault] ∧ fault.cause = cause ∧ Mild leaked ∧
      leaked.length < max options.maxFaults 1 := by
  obtain ⟨hhalted, fault, hmem, hfault⟩ := h
  cases htally with
  | goes halted => exact absurd (hhalted.symm.trans halted) (by decide)
  | halts leaked last faults halted mild behind =>
    have hmem : fault ∈ leaked ++ [last] := faults ▸ List.mem_of_mem_drop hmem
    have heq : fault = last := by
      refine List.mem_singleton.1 ((List.mem_append.1 hmem).resolve_left fun hleaked => ?_)
      have hmild := mild fault hleaked
      rw [Fault.isFatal, hfault, hfatal] at hmild
      exact absurd hmild (by decide)
    subst heq
    refine ⟨leaked, fault, faults, hfault, mild, ?_⟩
    obtain ⟨-, hcount⟩ | ⟨hlimit, -⟩ := behind
    · exact hcount
    · exact absurd (hfault.symm.trans hlimit) hcause

variable (options)

/-- A lower limit changes nothing of a program, or it is met, or both readings are halted. -/
theorem itemsEnding_sinking (source : String) (tokens : List Token) (hstrict : options.strict = false) (h : d ≤ d') :
    (sinking d).Alike (.ofTokens tokens) (itemsEnding (.ofSource source (options.withMaxDepth d)) tokens)
      (itemsEnding (.ofSource source (options.withMaxDepth d')) tokens) := by
  have hR (depth : Nat) : Steady (fun _ => True) (options.withMaxDepth depth) GoesToFatal :=
    fatalLast_steady inherited_true hstrict
  exact composed_items.alike_or_part (sinking_closed ((hR d).level d) ((hR d').level d'))
    (level_sinking source hstrict h) ((hR d).level d) ((hR d').level d') _

/-- A lower limit changes nothing of a program, or its fault is the last one there, or both
readings have a fatal fault. -/
theorem readItems_depths (source : String) (tokens : List Token) (hstrict : options.strict = false) (h : d ≤ d') :
    readItems (.ofSource source (options.withMaxDepth d)) tokens =
        readItems (.ofSource source (options.withMaxDepth d')) tokens ∨
      (∃ leaked fault, (readItems (.ofSource source (options.withMaxDepth d)) tokens).faults = leaked ++ [fault] ∧
        fault.cause = .nestingTooDeep d ∧ Mild leaked ∧ leaked.length < max options.maxFaults 1) ∨
      (∃ fault ∈ (readItems (.ofSource source (options.withMaxDepth d)) tokens).faults, fault.isFatal = true) ∧
        ∃ fault ∈ (readItems (.ofSource source (options.withMaxDepth d')) tokens).faults, fault.isFatal = true := by
  have hlast (depth : Nat) : FatalLast (.ofTokens tokens)
      (Ending.state (itemsEnding (.ofSource source (options.withMaxDepth depth)) tokens)) :=
    itemsEnding_fatalLast hstrict tokens
  simp only [readItems_eq, Ending.faults_reading]
  obtain heq | hsunk | ⟨hh, hh'⟩ := itemsEnding_sinking options source tokens hstrict h
  · exact .inl (congrArg _ heq)
  · refine .inr (.inl ?_)
    have htally := itemsEnding_tallying (.ofSource source (options.withMaxDepth d)) tokens
    obtain ⟨items, s, hread⟩ := itemsEnding_ok (.ofSource source (options.withMaxDepth d)) tokens
    rw [hread] at hsunk htally ⊢
    cases hsunk with
    | stopped h =>
      have hlast := h.last htally rfl nofun
      exact hlast
  · exact .inr (.inr ⟨(hlast d).exists_of_halted rfl hh, (hlast d').exists_of_halted rfl hh'⟩)

/-- A program that has no fatal fault at one limit is read alike at every higher one. -/
theorem read_deeper (source : String) (hstrict : options.strict = false) (h : d ≤ d')
    (hmild : ∀ fault ∈ (Document.read source (options.withMaxDepth d)).faults, fault.isFatal = false) :
    readItems (.ofSource source (options.withMaxDepth d')) (lex source).tokens =
        readItems (.ofSource source (options.withMaxDepth d)) (lex source).tokens ∧
      Document.read source (options.withMaxDepth d') = Document.read source (options.withMaxDepth d) := by
  have hread (depth : Nat) : Document.read source (options.withMaxDepth depth) =
      .ofReading source (readItems (.ofSource source (options.withMaxDepth depth)) (lex source).tokens) :=
    read_eq source hstrict
  have heq : readItems (.ofSource source (options.withMaxDepth d)) (lex source).tokens =
      readItems (.ofSource source (options.withMaxDepth d')) (lex source).tokens := by
    rw [hread d, Document.faults_ofReading] at hmild
    obtain heq | ⟨leaked, fault, hfaults, hcause, -⟩ | ⟨⟨fault, hmem, hfatal⟩, -⟩ :=
      readItems_depths options source (lex source).tokens hstrict h
    · exact heq
    · have hmem : fault ∈ (readItems (.ofSource source (options.withMaxDepth d)) (lex source).tokens).faults := by
        rw [hfaults]
        exact List.mem_append_right _ List.mem_cons_self
      exact absurd ((isFatal_of_cause hcause).symm.trans (hmild fault hmem)) (by decide)
    · exact absurd (hfatal.symm.trans (hmild fault hmem)) (by decide)
  rw [hread d, hread d', heq]
  exact ⟨rfl, rfl⟩

/-- A syntax fault stays where it is, and so does the depth that the arms reach. -/
theorem read_deeper_arm :
    (∀ fault ∈ (Document.read "fn f() { x := ) match x { 1 -> { a, b = (1) } } }"
        (Options.standard.withMaxDepth 5)).faults, fault.isFatal = false) ∧
      readItems (.ofSource "fn f() { x := ) match x { 1 -> { a, b = (1) } } }"
          (Options.standard.withMaxDepth 256))
          (lex "fn f() { x := ) match x { 1 -> { a, b = (1) } } }").tokens =
        readItems (.ofSource "fn f() { x := ) match x { 1 -> { a, b = (1) } } }"
          (Options.standard.withMaxDepth 5))
          (lex "fn f() { x := ) match x { 1 -> { a, b = (1) } } }").tokens ∧
      Document.read "fn f() { x := ) match x { 1 -> { a, b = (1) } } }"
          (Options.standard.withMaxDepth 256) =
        Document.read "fn f() { x := ) match x { 1 -> { a, b = (1) } } }"
          (Options.standard.withMaxDepth 5) := by
  have hmild : ∀ fault ∈ (Document.read "fn f() { x := ) match x { 1 -> { a, b = (1) } } }"
      (Options.standard.withMaxDepth 5)).faults, fault.isFatal = false := by decide +kernel
  exact ⟨hmild, read_deeper _ _ rfl (by decide) hmild⟩

/-- A program that does not reach its limit of faults is read alike at every higher one. -/
theorem readItems_room (source : String) (tokens : List Token) {m M : Nat} (hM : m ≤ M)
    (hroom : ∀ fault ∈ (readItems (.ofSource source (options.withMaxFaults m)) tokens).faults,
      fault.cause ≠ .tooManyFaults (max m 1)) :
    readItems (.ofSource source (options.withMaxFaults M)) tokens =
      readItems (.ofSource source (options.withMaxFaults m)) tokens := by
  obtain heq | ⟨fault, hmem, hcause⟩ := readItems_limited options source tokens hM
  · exact heq.symm
  · exact absurd hcause (hroom fault hmem)

/-- A program that is clean is read alike at a lower limit of depth, or the last of its faults
there is that of the limit. Those before it are fewer than `m`, where it is clean at the limit
`m` of faults already. -/
theorem clean_shallower (source : String) (hstrict : options.strict = false) {m M : Nat} (h : d ≤ d') (hm : 0 < m)
    (hM : m ≤ M) (hclean : (Document.read source ((options.withMaxFaults m).withMaxDepth d')).faults = []) :
    Document.read source ((options.withMaxFaults M).withMaxDepth d) =
        Document.read source ((options.withMaxFaults M).withMaxDepth d') ∨
      ∃ leaked fault, (Document.read source ((options.withMaxFaults M).withMaxDepth d)).faults = leaked ++ [fault] ∧
        fault.cause = .nestingTooDeep d ∧ Mild leaked ∧ leaked.length < m := by
  have hread (n depth : Nat) : Document.read source ((options.withMaxFaults n).withMaxDepth depth) =
      .ofReading source
        (readItems (.ofSource source ((options.withMaxFaults n).withMaxDepth depth)) (lex source).tokens) :=
    read_eq source hstrict
  rw [hread m d', Document.faults_ofReading] at hclean
  rw [hread M d, hread M d', Document.faults_ofReading]
  generalize (lex source).tokens = tokens at hclean ⊢
  have hclean : (readItems (.ofSource source ((options.withMaxFaults m).withMaxDepth d')) tokens).faults = [] := hclean
  have hroom (depth : Nat) := readItems_room (options.withMaxDepth depth) source tokens hM
  have hdeep := hroom d' fun fault hmem => absurd (hclean ▸ hmem) List.not_mem_nil
  obtain heq | ⟨leaked, fault, hfaults, hcause, hmild, hlt⟩ | ⟨-, fault, hmem, -⟩ :=
    readItems_depths (options.withMaxFaults m) source tokens hstrict h
  · have hshallow := hroom d fun fault hmem => by
      have hmem : fault ∈ (readItems (.ofSource source ((options.withMaxFaults m).withMaxDepth d)) tokens).faults := hmem
      rw [heq, hclean] at hmem
      exact absurd hmem List.not_mem_nil
    exact .inl (congrArg _ (hshallow.trans (heq.trans hdeep.symm)))
  · have hshallow := hroom d fun other hmem hother => by
      have hmem : other ∈ leaked ++ [fault] := hfaults ▸ hmem
      obtain hmem | hmem := List.mem_append.1 hmem
      · have hmild := hmild other hmem
        rw [Fault.isFatal, hother] at hmild
        exact Bool.noConfusion hmild
      · rw [List.mem_singleton.1 hmem, hcause] at hother
        cases hother
    have hlt : leaked.length < max (max m 1) 1 := hlt
    exact .inr ⟨leaked, fault, (congrArg Reading.faults hshallow).trans hfaults, hcause, hmild, by omega⟩
  · exact absurd (hclean ▸ hmem) List.not_mem_nil

/-- The body of the arm is tried as a block first. That fails at the comma, but only after the
limit is met, and so its fault is kept. -/
theorem shallow_arm_leaks :
    (Document.read "fn f() \x7b match x \x7b 1 -> \x7b a, b = (1) \x7d \x7d \x7d" (Options.standard.withMaxDepth 5)).isClean = true ∧
      (Document.read "fn f() \x7b match x \x7b 1 -> \x7b a, b = (1) \x7d \x7d \x7d"
        (Options.standard.withMaxDepth 4)).faults.map (·.isFatal) = [false, true] := by
  decide +kernel

theorem clean_shallower_arm :
    (Document.read "fn f() \x7b match x \x7b 1 -> \x7b a, b = (1) \x7d \x7d \x7d"
        ((Options.standard.withMaxFaults 2).withMaxDepth 5)).faults = [] ∧
      (Document.read "fn f() \x7b match x \x7b 1 -> \x7b a, b = (1) \x7d \x7d \x7d"
            ((Options.standard.withMaxFaults 20).withMaxDepth 4) =
          Document.read "fn f() \x7b match x \x7b 1 -> \x7b a, b = (1) \x7d \x7d \x7d"
            ((Options.standard.withMaxFaults 20).withMaxDepth 5) ∨
        ∃ leaked fault, (Document.read "fn f() \x7b match x \x7b 1 -> \x7b a, b = (1) \x7d \x7d \x7d"
            ((Options.standard.withMaxFaults 20).withMaxDepth 4)).faults = leaked ++ [fault] ∧
          fault.cause = .nestingTooDeep 4 ∧ Mild leaked ∧ leaked.length < 2) := by
  have hclean : (Document.read "fn f() \x7b match x \x7b 1 -> \x7b a, b = (1) \x7d \x7d \x7d"
      ((Options.standard.withMaxFaults 2).withMaxDepth 5)).faults = [] := List.isEmpty_iff.1 (by decide +kernel)
  exact ⟨hclean, clean_shallower _ _ rfl (by decide) (by decide) (by decide) hclean⟩

end

end JuiceSyntax
