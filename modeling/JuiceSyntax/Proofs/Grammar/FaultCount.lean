/-
  The shape of a list of faults, in both modes. A reading records mild faults, as long as there is
  room for them; the fault that halts it is the last. `Tallying options s` says so of what `s` has
  recorded, and tells the two ways in which a reading is halted apart: the limit fault stands
  behind as many others as the limit allows, and any other fault behind fewer.

  The limit fault is the only one that a step records of its own accord. A speculation may throw
  it again, and only a reading that it has halted does (`Ending.Tallying`); so it is never
  recorded a second time. What a speculation gives up goes together with the halt.

  `faults_shape`: programs and expressions end with such a list.
-/
import JuiceSyntax.Proofs.Grammar.FatalFault

namespace JuiceSyntax

open Reader Grammar

/-- The fault that ends a reading with too many faults. -/
def Fault.IsLimit (fault : Fault) : Prop := ∃ n, fault.cause = .tooManyFaults n

theorem Fault.IsLimit.isFatal {fault : Fault} (h : fault.IsLimit) : fault.isFatal = true := by
  obtain ⟨n, hn⟩ := h
  rw [Fault.isFatal, hn]
  rfl

theorem Fault.Fresh.not_isLimit {fault : Fault} (h : fault.Fresh) : ¬fault.IsLimit := fun hlimit =>
  absurd (hlimit.isFatal.symm.trans h.mild) (by decide)

/-- How many faults stand before the one that halted the reading. -/
def Fault.StandsBehind (options : Options) (fault : Fault) (front : List Fault) : Prop :=
  (¬fault.IsLimit ∧ front.length < max options.maxFaults 1) ∨
    (fault.cause = .tooManyFaults options.maxFaults ∧ front.length = max options.maxFaults 1)

/-- There is room for another fault, or the last one has halted the reading. In strict mode it is
the only one. -/
inductive Tallying (options : Options) (s : State) : Prop
  | goes (halted : s.halted = false) (mild : Mild s.faults) (room : s.faults.length < max options.maxFaults 1)
    (strict : options.strict = true → s.faults = [])
  | halts (front : List Fault) (last : Fault) (faults : s.faults = front ++ [last]) (halted : s.halted = true)
    (mild : Mild front) (behind : last.StandsBehind options front) (strict : options.strict = true → front = [])

namespace Tallying

variable {options : Options} {s t : State}

theorem of_same (h : Tallying options s) (hf : t.faults = s.faults) (hh : t.halted = s.halted) : Tallying options t := by
  cases h with
  | goes halted mild room strict => exact .goes (hh.trans halted) (hf ▸ mild) (hf ▸ room) fun h => hf.trans (strict h)
  | halts front last faults halted mild behind strict =>
    exact .halts front last (hf.trans faults) (hh.trans halted) mild behind strict

/-- What may be recorded: a limit fault only where nothing is recorded any more. -/
theorem withFault (h : Tallying options s) {fault : Fault} (hlimit : fault.IsLimit → s.halted = true) :
    Tallying options (s.withFault options fault) := by
  obtain ⟨-, heq⟩ | ⟨hs, -, heq⟩ | ⟨hs, hmild, hstrict, hm, heq⟩ | ⟨hs, hmild, hstrict, hm, heq⟩ :=
    withFault_cases options fault s
  · rwa [heq]
  all_goals
    cases h with
    | halts front last faults halted => exact absurd (hs.symm.trans halted) (by decide)
    | goes halted mild room strict => ?_
    rw [heq]
  · have hother : ¬fault.IsLimit := fun h => absurd (hs.symm.trans (hlimit h)) (by decide)
    exact .halts s.faults fault rfl rfl mild (.inl ⟨hother, room⟩) strict
  · refine .halts (s.faults ++ [fault]) _ rfl rfl (mild.append (mild_singleton hmild)) (.inr ⟨rfl, ?_⟩)
      fun h => absurd (hstrict.symm.trans h) (by decide)
    rw [List.length_append, List.length_singleton]
    omega
  · refine .goes hs (mild.append (mild_singleton hmild)) ?_ fun h => absurd (hstrict.symm.trans h) (by decide)
    rw [List.length_append, List.length_singleton]
    omega

/-- The text that recovery notes on a fault does not count. -/
theorem resumed (h : Tallying options s) {fault : Fault} (hlimit : fault.IsLimit → s.halted = true) (start : Cursor)
    (resume : Resume) : Tallying options (s.resumed options start resume fault) := by
  obtain ⟨-, heq⟩ | ⟨hs, hmild, hstrict, hm, heq⟩ := resumed_cases options start resume fault s
  · rw [heq]
    exact h.withFault hlimit
  · cases h with
    | halts front last faults halted => exact absurd (hs.symm.trans halted) (by decide)
    | goes halted mild room strict =>
      have hpassed : (fault.passed start (resumeFrom start resume s.cursor)).isFatal = false := by
        unfold Fault.passed
        split <;> exact hmild
      rw [heq]
      refine .goes hs (mild.append (mild_singleton hpassed)) ?_ fun h => absurd (hstrict.symm.trans h) (by decide)
      rw [List.length_append, List.length_singleton]
      omega

/-- A fatal fault that is recorded has halted the reading. -/
theorem halted_of_mem (h : Tallying options s) {fault : Fault} (hmem : fault ∈ s.faults) (hfatal : fault.isFatal = true) :
    s.halted = true := by
  cases h with
  | goes halted mild room strict => exact absurd (hfatal.symm.trans (mild fault hmem)) (by decide)
  | halts front last faults halted => exact halted

/-- In strict mode there is at most one fault, whatever the limit is. -/
theorem length_le_one (h : Tallying options s) (hstrict : options.strict = true) : s.faults.length ≤ 1 := by
  cases h with
  | goes halted mild room strict => rw [strict hstrict]; exact Nat.zero_le 1
  | halts front last faults halted mild behind strict => rw [faults, strict hstrict]; exact Nat.le_refl 1

end Tallying

/-! ## Readers -/

/-- A reading with such a list; if it ends in a limit fault, that has halted it. -/
structure Ending.Tallying (options : Options) {α : Type} (ending : Ending α) : Prop where
  state : JuiceSyntax.Tallying options (Ending.state ending)
  thrown : ∀ {fault t}, ending = .error fault t → fault.IsLimit → t.halted = true

namespace Ending.Tallying

variable {options : Options} {α β : Type}

theorem ok {a : α} {s : State} (h : JuiceSyntax.Tallying options s) : Ending.Tallying options (.ok a s : Ending α) :=
  ⟨h, fun heq => nomatch heq⟩

theorem error {fault : Fault} {s : State} (h : JuiceSyntax.Tallying options s) (hlimit : fault.IsLimit → s.halted = true) :
    Ending.Tallying options (.error fault s : Ending α) :=
  ⟨h, fun heq => by cases heq; exact hlimit⟩

theorem andThen {ending : Ending α} {next : α → State → Ending β} (h : Ending.Tallying options ending)
    (h' : ∀ a t, JuiceSyntax.Tallying options t → Ending.Tallying options (next a t)) :
    Ending.Tallying options (Ending.andThen ending next) := by
  cases ending with
  | ok a t => exact h' a t h.state
  | error fault t => exact .error h.state (h.thrown rfl)

theorem speculated {s : State} {ending : Ending α} (hs : JuiceSyntax.Tallying options s)
    (hgrows : Grows s (Ending.state ending)) (h : Ending.Tallying options ending) :
    Ending.Tallying options (speculated s ending) := by
  have hrewind : JuiceSyntax.Tallying options (s.rewind (Ending.state ending)) := by
    rw [rewind_eq hgrows]
    exact hs.of_same rfl rfl
  unfold JuiceSyntax.speculated
  dsimp only
  cases hfound : ((Ending.state ending).faults.drop s.faults.length).find? (·.isFatal) with
  | some fault =>
    have hmem := List.mem_of_mem_drop (List.mem_of_find?_eq_some hfound)
    exact .error h.state fun _ => h.state.halted_of_mem hmem (List.find?_some hfound)
  | none =>
    cases ending with
    | ok a t =>
      dsimp only
      split
      · exact .ok h.state
      · exact .ok hrewind
    | error fault t =>
      dsimp only
      split
      · exact .error h.state (h.thrown rfl)
      · exact .ok hrewind

theorem noted (form : BraceForm) (offset : Nat) {ending : Ending (Option α)} (h : Ending.Tallying options ending) :
    Ending.Tallying options (noted form offset ending) := by
  cases ending with
  | error fault t => exact h
  | ok found t =>
    cases found with
    | some a => exact h
    | none => exact .ok (by cases form <;> exact h.state.of_same rfl rfl)

theorem placed (c : Cursor) {ending : Ending α} (h : Ending.Tallying options ending) :
    Ending.Tallying options (Ending.placed c ending) := by
  cases ending with
  | ok a t => exact .ok (h.state.of_same rfl rfl)
  | error fault t =>
    have hlimit : fault.IsLimit → t.halted = true := h.thrown rfl
    exact .error (h.state.of_same rfl rfl) hlimit

end Ending.Tallying

/-- A reader that keeps the shape. -/
def Tallies (L : Level) {α : Type} (r : Reader α) : Prop :=
  ∀ s, Tallying L.options s → Ending.Tallying L.options (r L s)

structure Level.Tallies (L : Level) : Prop where
  grows : L.Grows
  expr : ∀ position, JuiceSyntax.Tallies L (Reader.expr position)
  operand : ∀ position, JuiceSyntax.Tallies L (Reader.operand position)
  block : JuiceSyntax.Tallies L Reader.block
  type : JuiceSyntax.Tallies L Reader.type
  record : JuiceSyntax.Tallies L Reader.recordLiteral

section

variable {L : Level} {α : Type}

theorem recoveringUpTo_tallies {item : Reader α} (h : Tallies L item) (resume : Resume) (ends : Kind → Bool) (fuel : Nat) :
    Tallies L (recoveringUpTo resume ends item fuel) := by
  induction fuel with
  | zero => exact fun s hs => .ok hs
  | succ fuel ih =>
    intro s hs
    rw [recoveringUpTo_succ]
    split
    · exact .ok hs
    · have hitem := h s hs
      cases hread : item L s with
      | ok first t =>
        rw [hread] at hitem
        exact (ih t hitem.state).andThen fun _ _ ht => .ok ht
      | error fault t =>
        rw [hread] at hitem
        exact ih _ (hitem.state.resumed (hitem.thrown rfl) s.cursor resume)

/-- The shape is kept by every step, and so by every reader. -/
theorem Composed.tallies {r : Reader α} (h : Composed (fun _ => True) r) (hL : L.Tallies) : Tallies L r := by
  induction h with
  | pure => exact fun s hs => .ok hs
  | bind _ _ ih ihk =>
    intro s hs
    rw [bind_apply]
    exact (ih s hs).andThen ihk
  | throw fault fresh => exact fun s hs => .error hs fun hlimit => absurd hlimit fresh.not_isLimit
  | cursor same next ih => exact fun s hs => ih s.cursor trivial s hs
  | spanFrom | halted | sourceText => exact fun s hs => .ok hs
  | advance | skip | noteBody => exact fun s hs => .ok (hs.of_same rfl rfl)
  | record fault fresh =>
    intro s hs
    rw [record_apply]
    exact .ok (hs.withFault fun hlimit => absurd hlimit fresh.not_isLimit)
  | expr position => exact hL.expr position
  | operand position => exact hL.operand position
  | block => exact hL.block
  | type => exact hL.type
  | recordLiteral => exact hL.record
  | speculate tried ih =>
    intro s hs
    rw [speculate_apply]
    exact .speculated hs (tried.grows inherited_true hL.grows s trivial) (ih s hs)
  | tryBrace form tried ih =>
    intro s hs
    rw [tryBrace_apply]
    split
    · exact .ok hs
    · exact .noted form _ (.speculated hs (tried.grows inherited_true hL.grows s trivial) (ih s hs))
  | withTokens _ _ ih =>
    intro s hs
    rw [withTokens_apply]
    exact .placed _ (ih _ (hs.of_same rfl rfl))
  | recovering resume ends _ ih => exact fun s hs => recoveringUpTo_tallies ih resume ends _ s hs

end

/-- The fault of the depth limit ends a reading as it stands. -/
theorem tooDeep_tallies (options : Options) {α : Type} (limit : Nat) (s : State) (hs : Tallying options s) :
    Ending.Tallying options (tooDeep limit s : Ending α) :=
  .error hs fun ⟨_, hlimit⟩ => nomatch hlimit

theorem level_tallies (setting : Setting) (n : Nat) : (level setting n).Tallies := by
  induction n with
  | zero =>
    have deep {α : Type} := tooDeep_tallies setting.options (α := α) setting.options.maxDepth
    exact ⟨level_grows setting 0, fun _ => deep, fun _ => deep, deep, deep, deep⟩
  | succ n ih =>
    have below {β : Type} {r : Reader β} (hr : Composed (fun _ => True) r) (s : State)
        (hs : Tallying (level setting (n + 1)).options s) :
        Ending.Tallying (level setting (n + 1)).options (r (level setting n) s) := by
      rw [options_level] at hs ⊢
      have htallies := hr.tallies ih s
      rw [options_level] at htallies
      exact htallies hs
    exact ⟨level_grows setting (n + 1), fun position => below (composed_chain inherited_true 1 position),
      fun position => below (composed_chain inherited_true operandLevel position), below composed_blockBody,
      below (composed_typeExpr inherited_true), below composed_recordExpr⟩

/-! ## Whole readings -/

/-- Nothing is recorded where a reading begins. -/
theorem tallying_ofTokens (options : Options) (tokens : List Token) : Tallying options (.ofTokens tokens) :=
  .goes rfl mild_nil (by show 0 < max options.maxFaults 1; omega) fun _ => rfl

theorem itemsEnding_tallying (setting : Setting) (tokens : List Token) :
    Tallying setting.options (Ending.state (itemsEnding setting tokens)) := by
  have h := (composed_items.tallies (level_tallies setting setting.options.maxDepth) (.ofTokens tokens)
    (tallying_ofTokens _ tokens)).state
  rwa [options_level] at h

theorem wholeExpr_tallies {L : Level} (hL : L.Tallies) : Tallies L wholeExpr := by
  intro s hs
  have hread : Ending.Tallying L.options (L.expr .value s) := hL.expr .value s hs
  rw [wholeExpr_apply]
  cases hends : L.expr .value s with
  | ok e t =>
    rw [hends] at hread
    dsimp only
    split
    · exact .ok hread.state
    · exact .ok (hread.state.withFault fun ⟨_, hlimit⟩ => nomatch hlimit)
  | error fault t =>
    rw [hends] at hread
    exact .ok (hread.state.withFault (hread.thrown rfl))

theorem readExpr_tallying (setting : Setting) (tokens : List Token) :
    ∃ s, (readExpr setting tokens).faults = s.faults ∧ Tallying setting.options s := by
  have h := wholeExpr_tallies (level_tallies setting setting.options.maxDepth) (.ofTokens tokens)
    (tallying_ofTokens _ tokens)
  rw [options_level] at h
  refine ⟨_, ?_, h.state⟩
  unfold readExpr Reader.run
  cases wholeExpr (level setting setting.options.maxDepth) (.ofTokens tokens) <;> rfl

/-- What the faults of a reading look like, read from its list alone. -/
structure FaultShape (options : Options) (faults : List Fault) : Prop where
  /-- Behind a fatal fault there is none. -/
  fatal_last : ∀ {front fault back}, faults = front ++ fault :: back → fault.isFatal = true → back = []
  /-- The limit fault names the limit, and as many faults stand before it. -/
  limit : ∀ {front fault back n}, faults = front ++ fault :: back → fault.cause = .tooManyFaults n →
    n = options.maxFaults ∧ front.length = options.maxFaults
  bounded : (∀ fault ∈ faults, ¬fault.IsLimit) → faults.length ≤ options.maxFaults
  strict : options.strict = true → faults.length ≤ 1

theorem Tallying.shape {options : Options} {s : State} (h : Tallying options s) (hpos : 1 ≤ options.maxFaults) :
    FaultShape options s.faults := by
  have hmax : max options.maxFaults 1 = options.maxFaults := Nat.max_eq_left hpos
  have hone := h.length_le_one
  cases h with
  | goes halted mild room strict =>
    rw [hmax] at room
    have absent {front back : List Fault} {fault : Fault} (hsplit : s.faults = front ++ fault :: back) :
        fault.isFatal = false :=
      mild fault (hsplit ▸ List.mem_append_right _ List.mem_cons_self)
    refine ⟨fun hsplit hfatal => absurd (hfatal.symm.trans (absent hsplit)) (by decide), fun hsplit hcause => ?_,
      fun _ => Nat.le_of_lt room, hone⟩
    exact absurd ((Fault.IsLimit.isFatal ⟨_, hcause⟩).symm.trans (absent hsplit)) (by decide)
  | halts front last faults halted mild behind strict =>
    -- A fatal fault is not in front of the last one, so it is the last one.
    have place {front' back : List Fault} {fault : Fault} (hsplit : s.faults = front' ++ fault :: back)
        (hfatal : fault.isFatal = true) : front' = front ∧ fault = last ∧ back = [] := by
      rw [faults] at hsplit
      obtain ⟨more, rfl, hlast⟩ | ⟨more, rfl, hlast⟩ := List.append_eq_append_iff.1 hsplit
      · cases more with
        | nil =>
          obtain ⟨rfl, rfl⟩ := List.cons.inj hlast
          exact ⟨(List.append_nil _), rfl, rfl⟩
        | cons other more => simp at hlast
      · cases more with
        | nil =>
          obtain ⟨rfl, rfl⟩ := List.cons.inj hlast
          exact ⟨(List.append_nil _).symm, rfl, rfl⟩
        | cons other more =>
          obtain ⟨rfl, -⟩ := List.cons.inj hlast
          exact absurd (hfatal.symm.trans (mild fault (List.mem_append_right _ List.mem_cons_self))) (by decide)
    have hlength : s.faults.length = front.length + 1 := by rw [faults, List.length_append, List.length_singleton]
    refine ⟨fun hsplit hfatal => (place hsplit hfatal).2.2, fun hsplit hcause => ?_, fun hnone => ?_, hone⟩
    · obtain ⟨rfl, rfl, -⟩ := place hsplit (Fault.IsLimit.isFatal ⟨_, hcause⟩)
      obtain ⟨hother, -⟩ | ⟨hcause', hcount⟩ := behind
      · exact absurd ⟨_, hcause⟩ hother
      · rw [hcause] at hcause'
        cases hcause'
        exact ⟨rfl, hcount.trans hmax⟩
    · obtain ⟨-, hcount⟩ | ⟨hcause, -⟩ := behind
      · omega
      · exact absurd ⟨_, hcause⟩ (hnone last (faults ▸ List.mem_append_right _ List.mem_cons_self))

/-- Programs and expressions have at most one fatal fault, the last one. The limit fault stands
behind as many faults as the limit allows; without it there are no more than that. In strict mode
there is at most one fault. -/
theorem faults_shape (setting : Setting) (tokens : List Token) (h : 1 ≤ setting.options.maxFaults) :
    FaultShape setting.options (readItems setting tokens).faults ∧
      FaultShape setting.options (readExpr setting tokens).faults := by
  constructor
  · rw [readItems_eq, Ending.faults_reading]
    exact (itemsEnding_tallying setting tokens).shape h
  · obtain ⟨s, hfaults, hs⟩ := readExpr_tallying setting tokens
    rw [hfaults]
    exact hs.shape h

/-- The comma ends the arm as a block, and this fault is the only one allowed; the limit fault behind
it ends the speculation too. -/
theorem faults_shape_arm :
    1 ≤ (Options.standard.withMaxFaults 1).maxFaults ∧
      ((readItems (.ofSource "fn f() \x7b match x \x7b 1 -> \x7b a, b \x7d \x7d \x7d" (Options.standard.withMaxFaults 1))
        (lex "fn f() \x7b match x \x7b 1 -> \x7b a, b \x7d \x7d \x7d").tokens).faults.map (·.isFatal) = [false, true]) ∧
      FaultShape (Options.standard.withMaxFaults 1)
        (readItems (.ofSource "fn f() \x7b match x \x7b 1 -> \x7b a, b \x7d \x7d \x7d" (Options.standard.withMaxFaults 1))
          (lex "fn f() \x7b match x \x7b 1 -> \x7b a, b \x7d \x7d \x7d").tokens).faults ∧
      FaultShape (Options.standard.withMaxFaults 1)
        (readExpr (.ofSource "fn f() \x7b match x \x7b 1 -> \x7b a, b \x7d \x7d \x7d" (Options.standard.withMaxFaults 1))
          (lex "fn f() \x7b match x \x7b 1 -> \x7b a, b \x7d \x7d \x7d").tokens).faults :=
  ⟨by decide, by decide +kernel, faults_shape (.ofSource _ (Options.standard.withMaxFaults 1)) _ (by decide)⟩

end JuiceSyntax
