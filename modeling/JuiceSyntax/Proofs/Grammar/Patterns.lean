/-
  Patterns before an arrow. A pattern is read as a value if one reads up to the arrow, and else as a type. The
  second way is only there for its faults: where no fault is recorded all patterns are values, since a type
  that an arrow comes after reads as a value too (`level_follows`).

  The value is tried first, from a state in which less is remembered of braces. So a reading that asks for
  what it remembers is turned into a plain one (`Composed.plainly`), for which that makes no difference.

  `patterns_values`: all patterns of a text without faults are values, and types are read as far as values.
-/
import JuiceSyntax.Proofs.Grammar.Fronts
import JuiceSyntax.Proofs.Grammar.Leaves
import JuiceSyntax.Proofs.Grammar.Sufficing
import JuiceSyntax.Proofs.Grammar.Transparency
import JuiceSyntax.Proofs.Grammar.TypesAsValues

namespace JuiceSyntax

open Reader Grammar

/-! ## Readings that do not ask for what is remembered -/

/-- With nothing remembered. -/
def State.afresh (s : State) : State := { s with failedRecords := [], failedBlocks := [] }

section

variable {setting : Setting} {n : Nat} {s t : State} {α : Type} {r : Reader α}

theorem shifted_afresh (s : State) : Shifted 0 ⟨[], [], s.failed⟩ s s.afresh :=
  ⟨.refl s.cursor, rfl, rfl, rfl, rfl, rfl⟩

/-- A plain reading ends alike whatever is remembered. -/
theorem Composed.lockstep_afresh (h : Composed (fun _ => True) r) (hplain : setting.remember = false) (n : Nat) (s : State) :
    Lockstep setting.options.maxFaults 0 ⟨[], [], s.failed⟩ s (r (level setting n) s) (r (level setting n) s.afresh) := by
  have hasks (h : setting.remember = true) : Shift.Apart ⟨[], [], s.failed⟩ fun _ => True :=
    absurd (hplain.symm.trans h) (by decide)
  have hlevel : (level setting n).Lockstep (fun _ => True) setting.options.maxFaults ⟨[], [], s.failed⟩ (level setting n) :=
    level_lockstep inherited_true hasks ⟨rfl, rfl, rfl, rfl, Nat.le_add_left _ _⟩ n
  exact h.lockstep inherited_true (fun hremember => hasks (remember_level setting n ▸ hremember)) hlevel (shifted_afresh s) trivial

/-- Where nothing is remembered, what is read clearly is read too. -/
theorem Composed.ok_afresh (h : Composed (fun _ => True) r) (hplain : setting.remember = false) {a : α}
    (hr : r (level setting n) s = .ok a t) (ht : t.Clear) :
    ∃ u, r (level setting n) s.afresh = .ok a u ∧ u.faults = [] := by
  have hlockstep := h.lockstep_afresh hplain n s
  rw [hr] at hlockstep
  obtain hshift | hstop := hlockstep
  · generalize r (level setting n) s.afresh = ending at hshift ⊢
    cases hshift with
    | ok _ hu => exact ⟨_, rfl, hu.faults.symm.trans ht.faults⟩
  · exact absurd (hstop.halted.symm.trans ht.halted) (by decide)

/-- A speculation is not given up if what was tried is read from the state that it leaves. -/
theorem not_clear_of_given_up (h : Composed (fun _ => True) r) (hplain : setting.remember = false) {a : α} {u : State}
    (hr : speculate r (level setting n) s = .ok none u) (hu : r (level setting n) u = .ok a t) : ¬t.Clear := by
  intro ht
  have hgrows := h.grows inherited_true (level_grows setting n) s trivial
  have hgrows' := h.grows inherited_true (level_grows setting n) u trivial
  rw [hu] at hgrows'
  have huclear : u.Clear := hgrows'.clear ht
  rw [speculate_apply] at hr
  have hstate : u = s.rewind (Ending.state (r (level setting n) s)) := by
    obtain ⟨fault, -, heq⟩ | ⟨b, v, -, -, heq⟩ | heq := speculated_cases s (r (level setting n) s)
    · cases heq.symm.trans hr
    · cases heq.symm.trans hr
    · cases heq.symm.trans hr
      rfl
  have hsame : u.afresh = s.afresh := by rw [hstate, rewind_eq hgrows, State.afresh, State.afresh]
  obtain ⟨v, hv, hfaults⟩ := h.ok_afresh hplain hu ht
  have hlockstep := h.lockstep_afresh hplain n s
  rw [← hsame, hv] at hlockstep
  obtain hshift | hstop := hlockstep
  · generalize r (level setting n) s = ending at hshift hr
    cases hshift with
    | ok _ hshifted =>
      have hnone := hshifted.faults.trans hfaults
      rw [speculated_ok, hnone, List.drop_nil] at hr
      cases hr
  · have hhalted := (hstop.speculated rfl).halted
    rw [hr] at hhalted
    exact absurd (hhalted.symm.trans huclear.halted) (by decide)

end

/-! ## Patterns -/

/-- All patterns in a tree with these nodes are values. -/
def PatternsValues (nodes : List Node) : Prop := ∀ node ∈ nodes, ∀ pattern ∈ node.patterns, ∃ value, pattern = .value value

section

variable {setting : Setting} {n : Nat} {s t : State}

/-- Behind a type that an arrow follows the value of a pattern would end. -/
theorem patternValue_of_type {type : TypeExpr} (h : Reader.type (level setting n) s = .ok type t)
    (harrow : t.cursor.kind.isMark .arrow = true) : ∃ value, patternValue (level setting n) s = .ok value t := by
  obtain ⟨value, hvalue⟩ := level_follows setting n .head h (endsValue_of_isMark harrow (.inr (.inr rfl)))
  refine ⟨value, ?_⟩
  simp only [patternValue, bind_apply, hvalue, Ending.andThen_ok, atMark_apply, choose_apply, harrow, if_true]
  rfl

theorem value_of_pattern (hplain : setting.remember = false) {pattern : Pattern}
    (h : Grammar.pattern (level setting n) s = .ok pattern t) (harrow : t.cursor.kind.isMark .arrow = true) (ht : t.Clear) :
    ∃ value, pattern = .value value := by
  rw [pattern_eq] at h
  obtain ⟨found, u, hfound, h⟩ := ok_of_bind h
  cases found with
  | some value =>
    cases h
    exact ⟨value, rfl⟩
  | none =>
    obtain ⟨type, v, htype, h⟩ := ok_of_bind h
    cases h
    obtain ⟨value, hvalue⟩ := patternValue_of_type htype harrow
    exact absurd ht (not_clear_of_given_up composed_patternValue hplain hfound hvalue)

theorem level_values (hplain : setting.remember = false) (n : Nat) :
    (level setting n).Fronts State.Clear (fun _ => True) fun pattern => ∃ value, pattern = .value value := by
  have hlasts (n : Nat) : (level setting n).Lasts State.Clear :=
    ⟨level_grows setting n, fun hgrows ht => hgrows.clear ht, fun _ _ h => ⟨h.faults, h.halted⟩⟩
  exact level_fronts hlasts (fun n => .any (hlasts n) (.expr .head)) (fun hread => value_of_pattern hplain hread) n

end

/-! ## Documents -/

/-- What is read of a text and ends clear is read by a plain reading too, and ends clear. -/
theorem Composed.clear_plainly {α : Type} {source : String} {options : Options} (hstrict : options.strict = false)
    {r : Reader α} (h : Composed (Stands (lex source).tokens) r) {n : Nat} {a : α} {t : State}
    (hr : r (level (.ofSource source options) n) (.ofTokens (lex source).tokens) = .ok a t) (ht : t.Clear) :
    ∃ (plain : Setting) (u : State), plain.remember = false ∧
      r (level plain plain.options.maxDepth) (.ofTokens (lex source).tokens) = .ok a u ∧ u.Clear := by
  have hdoom : ¬Ending.Doomed (r (level (.ofSource source options) n) (.ofTokens (lex source).tokens)) := by
    rw [hr]
    exact fun hdoomed => absurd (ht.halted.symm.trans hdoomed) (by decide)
  obtain ⟨plain, hplain, htwins⟩ := h.plainly rfl hstrict hdoom
  rw [hr] at htwins
  generalize hend : r (level plain plain.options.maxDepth) (.ofTokens (lex source).tokens) = ending at htwins
  cases htwins with
  | @ok _ _ u hu =>
    obtain ⟨new, hnew, hnew'⟩ := hu.faults
    have hnone : new = [] := hnew.symm.trans ht.faults
    exact ⟨plain, u, hplain.remember, hend, ⟨hnew'.trans hnone, hu.goes'⟩⟩

/-- If no fault is recorded, all patterns in what is read are values. -/
structure ValuesIfClean (setting : Setting) (tokens : List Token) : Prop where
  items : (readItems setting tokens).faults = [] →
    ∀ item ∈ (readItems setting tokens).value, PatternsValues item.kind.nodes
  expr : (readExpr setting tokens).faults = [] →
    ∀ e, (readExpr setting tokens).value = some e → PatternsValues e.nodes

theorem PatternsValues.of_fronts {nodes : List Node}
    (h : Fronts (fun _ => True) (fun pattern => ∃ value, pattern = .value value) nodes) : PatternsValues nodes :=
  fun node hnode => (h node hnode).patterns

/-- What a plain reading ends clear with. -/
theorem valuesIfClean_of_plain {setting : Setting} {tokens : List Token} (hstrict : setting.options.strict = false)
    (hitems : ∀ items t, itemsEnding setting tokens = .ok items t → t.Clear →
      ∃ (plain : Setting) (u : State), plain.remember = false ∧ itemsEnding plain tokens = .ok items u ∧ u.Clear)
    (hexpr : ∀ e t, Reader.expr .value (level setting setting.options.maxDepth) (.ofTokens tokens) = .ok e t → t.Clear →
      ∃ (plain : Setting) (u : State), plain.remember = false ∧
        Reader.expr .value (level plain plain.options.maxDepth) (.ofTokens tokens) = .ok e u ∧ u.Clear) :
    ValuesIfClean setting tokens := by
  refine ⟨fun h item hitem => ?_, fun h e he => ?_⟩
  · obtain ⟨t, hread, hclear, -⟩ := readItems_clear h
    obtain ⟨plain, u, hplain, hread', hclear'⟩ := hitems _ t hread hclear
    exact .of_fronts ((fronts_items (level_values hplain plain.options.maxDepth)).gives hread' hclear' item hitem)
  · obtain ⟨t, hreads⟩ := ReadsCleanly.of_readExpr hstrict he h
    obtain ⟨plain, u, hplain, hread', hclear'⟩ := hexpr _ t hreads.read hreads.clear
    exact .of_fronts (((level_values hplain plain.options.maxDepth).expr .value).gives hread' hclear')

/-- In a text that is read without a fault all patterns are values, and so they are in tokens of whatever kind
if the reading remembers nothing. And wherever a type is read that an arrow comes after, a head is read from
there to the same arrow, with the same faults and everything else as it is behind the type. -/
theorem patterns_values :
    (∀ (source : String) (options : Options), options.strict = false →
      ValuesIfClean (.ofSource source options) (lex source).tokens) ∧
    (∀ (setting : Setting) (tokens : List Token), setting.options.strict = false → setting.remember = false →
      ValuesIfClean setting tokens) ∧
    ∀ (setting : Setting) (n : Nat) (s t : State) (type : TypeExpr), Reader.type (level setting n) s = .ok type t →
      t.cursor.kind = .mark .arrow → ∃ value, Reader.expr .head (level setting n) s = .ok value t := by
  refine ⟨fun source options hstrict => ?_, fun setting tokens hstrict hplain => ?_, fun setting n s t type htype harrow => ?_⟩
  · refine valuesIfClean_of_plain hstrict (fun items t hread ht => ?_) fun e t hread ht => ?_
    · exact composed_items.clear_plainly hstrict hread ht
    · exact (Composed.expr .value).clear_plainly hstrict hread ht
  · exact valuesIfClean_of_plain hstrict (fun items t hread ht => ⟨setting, t, hplain, hread, ht⟩)
      fun e t hread ht => ⟨setting, t, hplain, hread, ht⟩
  · have harrow : t.cursor.kind.EndsValue := harrow ▸ ⟨⟨nofun, nofun, nofun, nofun⟩, rfl⟩
    exact level_follows setting n .head htype harrow

/-- The tokens of `list(int) ->`. -/
def listOfIntArrow : List Token :=
  [⟨.name "list", ⟨0, 4⟩⟩, ⟨.mark .lParen, ⟨4, 5⟩⟩, ⟨.name "int", ⟨5, 8⟩⟩, ⟨.mark .rParen, ⟨8, 9⟩⟩, ⟨.mark .arrow, ⟨10, 12⟩⟩,
    ⟨.done, ⟨12, 12⟩⟩]

/-- A call, a tuple of a union and a group as patterns, and a call that is read as a type. -/
theorem patterns_values_match :
    (readItems (.ofSource "fn f() \x7b match x \x7b list(of: int) -> \x7b a \x7d (1 | 2, (b)) -> \x7b c \x7d \x7d \x7d" .standard)
        (lex "fn f() \x7b match x \x7b list(of: int) -> \x7b a \x7d (1 | 2, (b)) -> \x7b c \x7d \x7d \x7d").tokens).faults = [] ∧
      (∀ item ∈ (readItems
          (.ofSource "fn f() \x7b match x \x7b list(of: int) -> \x7b a \x7d (1 | 2, (b)) -> \x7b c \x7d \x7d \x7d" .standard)
          (lex "fn f() \x7b match x \x7b list(of: int) -> \x7b a \x7d (1 | 2, (b)) -> \x7b c \x7d \x7d \x7d").tokens).value,
        PatternsValues item.kind.nodes) ∧
      (∃ type t, Reader.type (level (.ofSource "" .standard) 2) (.ofTokens listOfIntArrow) = .ok type t ∧
        ∃ value, Reader.expr .head (level (.ofSource "" .standard) 2) (.ofTokens listOfIntArrow) = .ok value t) := by
  have hclean : (readItems
      (.ofSource "fn f() \x7b match x \x7b list(of: int) -> \x7b a \x7d (1 | 2, (b)) -> \x7b c \x7d \x7d \x7d" .standard)
      (lex "fn f() \x7b match x \x7b list(of: int) -> \x7b a \x7d (1 | 2, (b)) -> \x7b c \x7d \x7d \x7d").tokens).faults = [] := by
    decide +kernel
  obtain ⟨type, t, htype, harrow⟩ : ∃ type t,
      Reader.type (level (.ofSource "" .standard) 2) (.ofTokens listOfIntArrow) = .ok type t ∧ t.cursor.kind = .mark .arrow :=
    ⟨_, _, rfl, rfl⟩
  exact ⟨hclean, (patterns_values.1 _ .standard rfl).items hclean, type, t, htype, patterns_values.2.2 _ _ _ _ _ htype harrow⟩

end JuiceSyntax
