/-
  The limit of faults. Two readings of the same tokens that differ in their limits go on in
  lockstep until the lower limit is reached; the reading with the lower one is then halted, with
  the limit fault among its faults (`readItems_limited`). So a program that is clean at one limit
  is read alike at every higher limit, and at a lower one either alike or up to the limit fault.

  Faults that a speculation records count towards the limit while it lasts, also when they are
  taken back afterwards. A clean program may hold some in between, and is then rejected at a
  limit that is no higher than their number: `clean_needs` gives the bound, and
  `clean_arm_needs_two` a program that is clean at every limit but one.
-/
import JuiceSyntax.Proofs.Grammar.Lockstep
import Mathlib.Data.Nat.Find

namespace JuiceSyntax

open Reader Grammar

/-! ## Readings of the same tokens -/

/-- Nothing from before. -/
def Shift.none : Shift := ⟨[], [], fun _ => []⟩

theorem apart_none (fine : List Token → Prop) : Shift.none.Apart fine :=
  fun _ _ _ => List.not_mem_nil

theorem Cursor.Shifted.eq {c c' : Cursor} (h : c.Shifted 0 c') : c = c' := by
  have hleft := h.left
  obtain ⟨⟨hpos, hrest⟩, hlast⟩ := h
  cases c
  cases c'
  cases hpos
  cases hlast
  cases hrest
  cases hleft
  rfl

theorem shifted_refl (s : State) : Shifted 0 .none s s :=
  ⟨.refl s.cursor, rfl, rfl, rfl, (List.append_nil _).symm, (List.append_nil _).symm⟩

theorem Shifted.eq {s s' : State} (h : Shifted 0 .none s s') : s = s' := by
  obtain ⟨hcursor, hfaults, hhalted, hbodies, hrecords, hblocks⟩ := h
  have hcursor := hcursor.eq
  rw [Shift.none, List.append_nil] at hrecords hblocks
  cases s
  cases s'
  cases hcursor
  cases hfaults
  cases hhalted
  cases hbodies
  cases hrecords
  cases hblocks
  rfl

theorem Ending.Shifted.eq {α : Type} {ending ending' : Ending α} (h : Ending.Shifted 0 .none ending ending') :
    ending = ending' := by
  cases h with
  | ok a h => rw [h.eq]
  | error fault h => rw [h.eq]

/-! ## Documents -/

section

variable (options : Options) {m M : Nat}

/-- A lower limit changes nothing, or it is reached. -/
theorem readItems_limited (source : String) (tokens : List Token) (h : m ≤ M) :
    readItems (.ofSource source (options.withMaxFaults m)) tokens =
        readItems (.ofSource source (options.withMaxFaults M)) tokens ∨
      ∃ fault ∈ (readItems (.ofSource source (options.withMaxFaults m)) tokens).faults,
        fault.cause = .tooManyFaults (max m 1) := by
  have hsettings : Setting.Lockstep .none (.ofSource source (options.withMaxFaults m))
      (.ofSource source (options.withMaxFaults M)) := by
    refine ⟨rfl, rfl, rfl, rfl, ?_⟩
    show max m 1 ≤ 0 + max M 1
    omega
  have hlevel := level_lockstep inherited_true (fun _ => apart_none _) hsettings options.maxDepth
  rw [readItems_eq, readItems_eq, Ending.faults_reading]
  obtain hshift | hstop :=
    composed_items.lockstep inherited_true (fun _ => apart_none _) hlevel (shifted_refl (.ofTokens tokens)) trivial
  · exact .inl (congrArg Ending.reading hshift.eq)
  · exact .inr hstop.fault

theorem read_limited (source : String) (hstrict : options.strict = false) (h : m ≤ M) :
    Document.read source (options.withMaxFaults m) = Document.read source (options.withMaxFaults M) ∨
      ∃ fault ∈ (Document.read source (options.withMaxFaults m)).faults, fault.cause = .tooManyFaults (max m 1) := by
  have htolerant (n : Nat) : (options.withMaxFaults n).strict = false := hstrict
  rw [read_eq source (htolerant m), read_eq source (htolerant M)]
  exact (readItems_limited options source (lex source).tokens h).imp_left (congrArg _)

/-- A clean program needs some limit: from there on it is read alike at every limit, and at
every lower one the limit is reached. -/
theorem clean_needs (source : String) (hstrict : options.strict = false) (hM : 0 < M)
    (hclean : (Document.read source (options.withMaxFaults M)).faults = []) :
    ∃ need ≤ M, ∀ m, 0 < m →
      (need ≤ m →
        Document.read source (options.withMaxFaults m) = Document.read source (options.withMaxFaults M)) ∧
      (m < need →
        ∃ fault ∈ (Document.read source (options.withMaxFaults m)).faults, fault.cause = .tooManyFaults m) := by
  classical
  have hex : ∃ n, 0 < n ∧
      Document.read source (options.withMaxFaults n) = Document.read source (options.withMaxFaults M) :=
    ⟨M, hM, rfl⟩
  obtain ⟨-, hneed⟩ := Nat.find_spec hex
  refine ⟨Nat.find hex, Nat.find_min' hex ⟨hM, rfl⟩, fun m hm => ⟨fun hle => ?_, fun hlt => ?_⟩⟩
  · obtain heq | ⟨fault, hmem, -⟩ := read_limited options source hstrict hle
    · exact heq.symm.trans hneed
    · rw [hneed, hclean] at hmem
      exact absurd hmem List.not_mem_nil
  · have hle : m ≤ M := Nat.le_trans (Nat.le_of_lt hlt) (Nat.find_min' hex ⟨hM, rfl⟩)
    obtain heq | hstop := read_limited options source hstrict hle
    · exact absurd ⟨hm, heq⟩ (Nat.find_min hex hlt)
    · rwa [Nat.max_eq_left hm] at hstop

/-- The body of the arm is tried as a block first, which fails at the comma. -/
theorem clean_arm_needs_two :
    (Document.read "fn f() \x7b match x \x7b 1 -> \x7b a, b \x7d \x7d \x7d" (Options.standard.withMaxFaults 20)).isClean = true ∧
      (Document.read "fn f() \x7b match x \x7b 1 -> \x7b a, b \x7d \x7d \x7d" (Options.standard.withMaxFaults 1)).isClean = false := by
  decide +kernel

theorem clean_needs_arm : ∃ need ≤ 20, ∀ m, 0 < m →
    (need ≤ m →
      Document.read "fn f() \x7b match x \x7b 1 -> \x7b a, b \x7d \x7d \x7d" (Options.standard.withMaxFaults m) =
        Document.read "fn f() \x7b match x \x7b 1 -> \x7b a, b \x7d \x7d \x7d" (Options.standard.withMaxFaults 20)) ∧
    (m < need →
      ∃ fault ∈ (Document.read "fn f() \x7b match x \x7b 1 -> \x7b a, b \x7d \x7d \x7d" (Options.standard.withMaxFaults m)).faults,
        fault.cause = .tooManyFaults m) :=
  clean_needs .standard _ rfl (by decide) (List.isEmpty_iff.1 (by decide +kernel))

end

end JuiceSyntax
