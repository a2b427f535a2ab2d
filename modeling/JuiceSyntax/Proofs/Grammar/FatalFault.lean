/-
  Fatal faults. Unless it is strict, a reading is halted by a fatal fault and by no other, and
  records nothing after it: `FatalLast s t` says so of what is recorded from `s` to `t`. Every
  step keeps it (`fatalLast_steady`).

  `readItems_fatalLast`: of the faults of a program at most the last is fatal.
-/
import JuiceSyntax.Proofs.Grammar.Growth

namespace JuiceSyntax

open Reader Grammar

/-- None of these faults is fatal. -/
def Mild (faults : List Fault) : Prop := ∀ fault ∈ faults, fault.isFatal = false

theorem mild_nil : Mild [] := fun _ hmem => absurd hmem List.not_mem_nil

theorem mild_singleton {fault : Fault} (h : fault.isFatal = false) : Mild [fault] := by
  intro f hmem
  rwa [List.mem_singleton.1 hmem]

theorem Mild.append {faults faults' : List Fault} (h : Mild faults) (h' : Mild faults') : Mild (faults ++ faults') :=
  fun f hmem => (List.mem_append.1 hmem).elim (h f) (h' f)

/-- Mild faults are recorded on the way from `s` to `t`, and maybe a fatal one after them, which
halts the reading. -/
inductive FatalLast (s t : State) : Prop
  | goes (new : List Fault) (faults : t.faults = s.faults ++ new) (mild : Mild new) (halted : t.halted = s.halted)
  | halts (new : List Fault) (last : Fault) (faults : t.faults = s.faults ++ (new ++ [last])) (mild : Mild new)
    (fatal : last.isFatal = true) (went : s.halted = false) (halted : t.halted = true)

namespace FatalLast

variable {s t u : State}

/-- Nothing is recorded. -/
theorem none (hf : t.faults = s.faults) (hh : t.halted = s.halted) : FatalLast s t :=
  .goes [] (by rw [hf, List.append_nil]) mild_nil hh

theorem trans (h : FatalLast s t) (hg : Grows t u) (h' : FatalLast t u) : FatalLast s u := by
  cases h with
  | goes new faults mild halted =>
    cases h' with
    | goes new' faults' mild' halted' =>
      exact .goes (new ++ new') (by rw [faults', faults, List.append_assoc]) (mild.append mild') (halted'.trans halted)
    | halts new' last faults' mild' fatal went halted' =>
      refine .halts (new ++ new') last ?_ (mild.append mild') fatal (halted.symm.trans went) halted'
      rw [faults', faults, List.append_assoc, List.append_assoc]
  | halts new last faults mild fatal went halted =>
    obtain ⟨hu, hsame⟩ := hg.halted halted
    exact .halts new last (hsame.trans faults) mild fatal went hu

theorem withFault {options : Options} (h : options.strict = false) (fault : Fault) (s : State) :
    FatalLast s (s.withFault options fault) := by
  obtain ⟨-, heq⟩ | ⟨hs, hfatal, heq⟩ | ⟨hs, hmild, -, -, heq⟩ | ⟨-, hmild, -, -, heq⟩ := withFault_cases options fault s
  · rw [heq]
    exact .none rfl rfl
  · rw [heq]
    exact .halts [] fault rfl mild_nil (hfatal.resolve_right (by rw [h]; decide)) hs rfl
  · rw [heq]
    exact .halts [fault] _ (List.append_assoc _ _ _) (mild_singleton hmild) rfl hs rfl
  · rw [heq]
    exact .goes [fault] rfl (mild_singleton hmild) rfl

theorem resumed {options : Options} (h : options.strict = false) (s : State) (start : Cursor) (resume : Resume)
    (fault : Fault) : FatalLast s (s.resumed options start resume fault) := by
  obtain ⟨-, heq⟩ | ⟨-, hmild, -, -, heq⟩ := resumed_cases options start resume fault s
  · rw [heq]
    exact withFault h fault s
  · rw [heq]
    refine .goes [fault.passed start (resumeFrom start resume s.cursor)] rfl (mild_singleton ?_) rfl
    unfold Fault.passed
    split
    · exact hmild
    · exact hmild

/-- A reading that is halted on the way has a new fatal fault. -/
theorem exists_of_halted (h : FatalLast s t) (hs : s.halted = false) (ht : t.halted = true) :
    ∃ fault ∈ t.faults.drop s.faults.length, fault.isFatal = true := by
  cases h with
  | goes new faults mild halted => exact absurd (ht.symm.trans (halted.trans hs)) (by decide)
  | halts new last faults mild fatal went halted =>
    refine ⟨last, ?_, fatal⟩
    rw [faults, List.drop_left]
    exact List.mem_append_right _ List.mem_cons_self

/-- One that goes on has none. -/
theorem find?_of_goes (h : FatalLast s t) (ht : t.halted = false) :
    (t.faults.drop s.faults.length).find? (·.isFatal) = Option.none := by
  cases h with
  | goes new faults mild halted =>
    rw [faults, List.drop_left]
    exact List.find?_eq_none.2 fun fault hmem => by simp [mild fault hmem]
  | halts new last faults mild fatal went halted => exact absurd (ht.symm.trans halted) (by decide)

end FatalLast

/-- A fatal fault is there if the reading is halted. -/
def HaltedFatal (s : State) : Prop := s.halted = true → ∃ fault ∈ s.faults, fault.isFatal = true

/-- Whether the reading was halted before or is on the way, its fatal fault is there. -/
theorem FatalLast.haltedFatal {s t : State} (h : FatalLast s t) (hs : HaltedFatal s) : HaltedFatal t := by
  intro ht
  cases h with
  | goes new faults mild halted =>
    obtain ⟨fault, hmem, hfatal⟩ := hs (halted.symm.trans ht)
    exact ⟨fault, faults ▸ List.mem_append_left _ hmem, hfatal⟩
  | halts new last faults mild fatal went halted =>
    rw [← List.append_assoc] at faults
    exact ⟨last, faults ▸ List.mem_append_right _ List.mem_cons_self, fatal⟩

/-- Forward, with fatal faults last. -/
def GoesToFatal (s t : State) : Prop := Grows s t ∧ FatalLast s t

theorem fatalLast_steady {fine : List Token → Prop} (hf : Inherited fine) {options : Options}
    (h : options.strict = false) : Steady fine options GoesToFatal where
  refl s := ⟨.refl s, .none rfl rfl⟩
  trans h h' := ⟨h.1.trans h'.1, h.2.trans h'.1 h'.2⟩
  skip s n := ⟨.skip s n, .none rfl rfl⟩
  noteBody s inner := ⟨(grows_steady inherited_true options).noteBody s inner, .none rfl rfl⟩
  withFault s fault := ⟨.withFault options fault s, .withFault h fault s⟩
  resumed s start resume fault := ⟨.resumed options start resume fault s, .resumed h s start resume fault⟩
  rewind h := by
    refine ⟨h.1.rewind, ?_⟩
    rw [rewind_eq h.1]
    exact .none rfl rfl
  noteFailed s form _ := ⟨.noteFailed form _ s, by cases form <;> exact .none rfl rfl⟩
  inTokens _ h := ⟨h.1.inTokens, by
    cases h.2 with
    | goes new faults mild halted => exact .goes new faults mild halted
    | halts new last faults mild fatal went halted => exact .halts new last faults mild fatal went halted⟩
  fine h := hf.grows h.1

theorem level_goesToFatal (setting : Setting) (h : setting.options.strict = false) (n : Nat) :
    (level setting n).Steady (fun _ => True) GoesToFatal :=
  level_steady inherited_true (fatalLast_steady inherited_true h) n

theorem Composed.goesToFatal {α : Type} {fine : List Token → Prop} {r : Reader α} (h : Composed fine r)
    (hf : Inherited fine) {setting : Setting} (hstrict : setting.options.strict = false) (n : Nat) (s : State)
    (hs : fine s.cursor.rest) : GoesToFatal s (Ending.state (r (level setting n) s)) :=
  h.steady_level hf (fatalLast_steady hf hstrict) n s hs

/-- The faults of a program are mild, but for the last if the reading was halted. -/
theorem itemsEnding_fatalLast {setting : Setting} (hstrict : setting.options.strict = false) (tokens : List Token) :
    FatalLast (.ofTokens tokens) (Ending.state (itemsEnding setting tokens)) :=
  (composed_items.goesToFatal inherited_true hstrict setting.options.maxDepth (.ofTokens tokens) trivial).2

/-- Of the faults of a program at most the last is fatal. -/
theorem readItems_fatalLast {setting : Setting} (hstrict : setting.options.strict = false) (tokens : List Token) :
    ∃ mild last, (readItems setting tokens).faults = mild ++ last ∧ Mild mild ∧
      (last = [] ∨ ∃ fault, last = [fault] ∧ fault.isFatal = true) := by
  rw [readItems_eq, Ending.faults_reading]
  cases itemsEnding_fatalLast hstrict tokens with
  | goes new faults mild halted => exact ⟨new, [], by rw [faults, List.append_nil]; rfl, mild, .inl rfl⟩
  | halts new last faults mild fatal went halted => exact ⟨new, [last], faults, mild, .inr ⟨last, rfl, fatal⟩⟩

end JuiceSyntax
