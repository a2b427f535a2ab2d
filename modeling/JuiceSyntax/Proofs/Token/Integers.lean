/-
  Integers. A run of digits is well written if it is `D(_?D)*` for the digits `D` of its radix
  (`Radix.Spells`), and then it stands for the number that its digits are in positional notation.

  `flaw?_eq_none_iff`: the checks of a literal, one after another, let just the well-written runs pass.
  `integers_read`: so every integer of a document, in whatever fragment it stands, is the number its
  digits say or has just one fault; and the text that an integer of a tree is printed as is lexed to
  that integer.
-/
import Mathlib.Data.Nat.Digits.Defs
import Mathlib.Tactic.Ring
import JuiceSyntax.Proofs.Token.ByteLexing
import JuiceSyntax.Proofs.Token.FaultOrder
import JuiceSyntax.Proofs.Token.Relexing
import JuiceSyntax.Proofs.Tree.Words

namespace JuiceSyntax

namespace Radix

/-! ## Digits -/

/-- The character is how the radix writes the digit, in either case of letters. -/
def Writes (radix : Radix) (c : Char) (digit : Nat) : Prop :=
  digit < radix.base ∧ (c = digit.digitChar ∨ c = digit.digitChar.toUpper)

/-- Digits one after another, with at most one underscore between two of them. -/
inductive Spells (radix : Radix) : List Char → List Nat → Prop
  | last {c : Char} {digit : Nat} (here : radix.Writes c digit) : Spells radix [c] [digit]
  | next {c : Char} {digit : Nat} {rest : List Char} {others : List Nat} (here : radix.Writes c digit)
    (more : Spells radix rest others) : Spells radix (c :: rest) (digit :: others)
  | spaced {c : Char} {digit : Nat} {rest : List Char} {others : List Nat} (here : radix.Writes c digit)
    (more : Spells radix rest others) : Spells radix (c :: '_' :: rest) (digit :: others)

/-- The number that digits are, the most significant of them first. -/
def number (radix : Radix) (digits : List Nat) : Nat := Nat.ofDigits radix.base digits.reverse

variable {radix : Radix} {c : Char} {digit : Nat} {cs : List Char} {digits : List Nat}

theorem base_le (radix : Radix) : radix.base ≤ 16 := by cases radix <;> decide

theorem Writes.digit? (h : radix.Writes c digit) : radix.digit? c = some digit := by
  have hall : ∀ digit : Fin radix.base, radix.digit? digit.val.digitChar.toUpper = some digit.val := by
    cases radix <;> decide
  obtain ⟨hlt, rfl | rfl⟩ := h
  · exact (radix.digit?_digitChar hlt).2
  · exact hall ⟨digit, hlt⟩

theorem writes_of_digit? (h : radix.digit? c = some digit) : radix.Writes c digit := by
  have hbase := radix.base_le
  have hnumeral : ∀ d : Fin 10, d.val.digitChar.toNat = '0'.toNat + d.val := by decide
  have hletter : ∀ d : Fin 6, (10 + d.val).digitChar.toNat = 'a'.toNat + d.val := by decide
  have hcapital : ∀ d : Fin 6, (10 + d.val).digitChar.toUpper.toNat = 'A'.toNat + d.val := by decide
  unfold Radix.digit? at h
  obtain ⟨hvalue, hlt⟩ := Option.filter_eq_some_iff.1 h
  have hlt : digit < radix.base := of_decide_eq_true hlt
  refine ⟨hlt, ?_⟩
  simp only [Char.le_def, UInt32.le_iff_toNat_le] at hvalue
  split at hvalue
  · rename_i hrange
    obtain ⟨hlo, hhi⟩ : 48 ≤ c.toNat ∧ c.toNat ≤ 57 := hrange
    have hdigit : c.toNat - 48 = digit := Option.some.inj hvalue
    refine .inl (Char.toNat_inj.1 ?_)
    have := hnumeral ⟨digit, by omega⟩
    have hzero : '0'.toNat = 48 := rfl
    dsimp only at this
    omega
  split at hvalue
  · rename_i hrange
    obtain ⟨hlo, hhi⟩ : 97 ≤ c.toNat ∧ c.toNat ≤ 122 := hrange
    have hdigit : c.toNat - 97 + 10 = digit := Option.some.inj hvalue
    obtain ⟨d, rfl⟩ : ∃ d, digit = 10 + d := ⟨digit - 10, by omega⟩
    refine .inl (Char.toNat_inj.1 ?_)
    have := hletter ⟨d, by omega⟩
    have hzero : 'a'.toNat = 97 := rfl
    dsimp only at this
    omega
  split at hvalue
  · rename_i hrange
    obtain ⟨hlo, hhi⟩ : 65 ≤ c.toNat ∧ c.toNat ≤ 90 := hrange
    have hdigit : c.toNat - 65 + 10 = digit := Option.some.inj hvalue
    obtain ⟨d, rfl⟩ : ∃ d, digit = 10 + d := ⟨digit - 10, by omega⟩
    refine .inr (Char.toNat_inj.1 ?_)
    have := hcapital ⟨d, by omega⟩
    have hzero : 'A'.toNat = 65 := rfl
    dsimp only at this
    omega
  · cases hvalue

theorem Writes.ne_underscore (h : radix.Writes c digit) : c ≠ '_' := by
  have hnone : radix.digit? '_' = none := by cases radix <;> decide
  intro heq
  have hdigit := h.digit?
  rw [heq, hnone] at hdigit
  cases hdigit

/-! ## The checks of a run of digits -/

/-- What is checked of a run of digits before its value is computed. -/
structure Clean (radix : Radix) (cs : List Char) : Prop where
  ne_nil : cs ≠ []
  head : cs.head? ≠ some '_'
  last : cs.getLast? ≠ some '_'
  single : doublesUnderscore cs = false
  digits : ∀ c ∈ cs, c ≠ '_' → ∃ digit, radix.Writes c digit

theorem flaw?_eq_none_iff_clean : radix.flaw? cs = none ↔ radix.Clean cs := by
  have houtside : cs.any (fun c => c != '_' && (radix.digit? c).isNone) = false ↔
      ∀ c ∈ cs, c ≠ '_' → ∃ digit, radix.Writes c digit := by
    rw [List.any_eq_false]
    refine forall₂_congr fun c _ => ?_
    cases hdigit : radix.digit? c with
    | none =>
      have hnot : ¬∃ digit, radix.Writes c digit := by
        rintro ⟨digit, hwrites⟩
        rw [hwrites.digit?] at hdigit
        cases hdigit
      simp [hnot]
    | some digit =>
      have hsome : ∃ digit, radix.Writes c digit := ⟨digit, writes_of_digit? hdigit⟩
      simp [hsome]
  constructor
  · intro h
    unfold flaw? at h
    split at h
    · cases h
    rename_i hne
    split at h
    · cases h
    rename_i hunderscore
    split at h
    · cases h
    rename_i hin
    simp only [Bool.or_eq_true, beq_iff_eq, not_or, Bool.not_eq_true] at hunderscore hin
    obtain ⟨⟨hhead, hlast⟩, hsingle⟩ := hunderscore
    exact ⟨by simpa using hne, hhead, hlast, hsingle, houtside.1 hin⟩
  · intro h
    have hhead : (cs.head? == some '_') = false := beq_false_of_ne h.head
    have hlast : (cs.getLast? == some '_') = false := beq_false_of_ne h.last
    have hne : cs.isEmpty = false := List.isEmpty_eq_false_iff.2 h.ne_nil
    unfold flaw?
    rw [hne, hhead, hlast, h.single, houtside.2 h.digits]
    rfl

/-- Only an underscore before another one makes two of them. -/
theorem doublesUnderscore_cons (h : c = '_' → cs.head? ≠ some '_') : doublesUnderscore (c :: cs) = doublesUnderscore cs := by
  rw [doublesUnderscore]
  intro tail hc hcs
  refine h hc ?_
  rw [hcs]
  rfl

theorem head?_of_single (h : doublesUnderscore ('_' :: cs) = false) : cs.head? ≠ some '_' := by
  intro hhead
  obtain ⟨rest, rfl⟩ := List.head?_eq_some_iff.1 hhead
  rw [doublesUnderscore] at h
  cases h

namespace Clean

variable {d : Char}

theorem cons (hc : radix.Writes c digit) (h : radix.Clean cs) : radix.Clean (c :: cs) where
  ne_nil := List.cons_ne_nil _ _
  head heq := hc.ne_underscore (Option.some.inj heq)
  last := by
    rw [List.getLast?_cons_of_ne_nil h.ne_nil]
    exact h.last
  single := by
    rw [doublesUnderscore_cons fun hunderscore => absurd hunderscore hc.ne_underscore]
    exact h.single
  digits := List.forall_mem_cons.2 ⟨fun _ => ⟨digit, hc⟩, h.digits⟩

theorem spaced (hc : radix.Writes c digit) (h : radix.Clean cs) : radix.Clean (c :: '_' :: cs) where
  ne_nil := List.cons_ne_nil _ _
  head heq := hc.ne_underscore (Option.some.inj heq)
  last := by
    rw [List.getLast?_cons_cons, List.getLast?_cons_of_ne_nil h.ne_nil]
    exact h.last
  single := by
    rw [doublesUnderscore_cons fun hunderscore => absurd hunderscore hc.ne_underscore,
      doublesUnderscore_cons fun _ => h.head]
    exact h.single
  digits := List.forall_mem_cons.2 ⟨fun _ => ⟨digit, hc⟩, List.forall_mem_cons.2 ⟨fun hnot => absurd rfl hnot, h.digits⟩⟩

theorem tail (h : radix.Clean (c :: d :: cs)) (hd : d ≠ '_') : radix.Clean (d :: cs) where
  ne_nil := List.cons_ne_nil _ _
  head heq := hd (Option.some.inj heq)
  last := by
    have hlast := h.last
    rwa [List.getLast?_cons_cons] at hlast
  single := by
    have hsingle := h.single
    have hhead : (d :: cs).head? ≠ some '_' := fun heq => hd (Option.some.inj heq)
    rwa [doublesUnderscore_cons fun _ => hhead] at hsingle
  digits e he := h.digits e (List.mem_cons_of_mem _ he)

theorem behind (h : radix.Clean (c :: '_' :: cs)) : radix.Clean cs := by
  have hlast := h.last
  have hsingle := h.single
  have hc : c ≠ '_' := fun heq => h.head (congrArg some heq)
  rw [doublesUnderscore_cons fun heq => absurd heq hc] at hsingle
  have hhead := head?_of_single hsingle
  have hne : cs ≠ [] := by
    rintro rfl
    exact hlast rfl
  rw [List.getLast?_cons_cons, List.getLast?_cons_of_ne_nil hne] at hlast
  rw [doublesUnderscore_cons fun _ => hhead] at hsingle
  exact ⟨hne, hhead, hlast, hsingle, fun e he => h.digits e (List.mem_cons_of_mem _ (List.mem_cons_of_mem _ he))⟩

theorem exists_spells : {cs : List Char} → radix.Clean cs → ∃ digits, radix.Spells cs digits
  | [], h => absurd rfl h.ne_nil
  | [c], h => by
    obtain ⟨digit, hc⟩ := h.digits c List.mem_cons_self fun heq => h.head (congrArg some heq)
    exact ⟨[digit], .last hc⟩
  | c :: d :: rest, h => by
    obtain ⟨digit, hc⟩ := h.digits c List.mem_cons_self fun heq => h.head (congrArg some heq)
    by_cases hd : d = '_'
    · subst hd
      obtain ⟨others, hrest⟩ := exists_spells h.behind
      exact ⟨digit :: others, .spaced hc hrest⟩
    · obtain ⟨others, hrest⟩ := exists_spells (h.tail hd)
      exact ⟨digit :: others, .next hc hrest⟩

end Clean

theorem Spells.clean (h : radix.Spells cs digits) : radix.Clean cs := by
  induction h with
  | last hc =>
    refine ⟨List.cons_ne_nil _ _, ?_, ?_, ?_, List.forall_mem_singleton.2 fun _ => ⟨_, hc⟩⟩
    · exact fun heq => hc.ne_underscore (Option.some.inj heq)
    · exact fun heq => hc.ne_underscore (Option.some.inj heq)
    · exact doublesUnderscore_cons fun heq => absurd heq hc.ne_underscore
  | next hc _ ih => exact .cons hc ih
  | spaced hc _ ih => exact .spaced hc ih

/-- The checks let just the well-written runs pass. -/
theorem flaw?_eq_none_iff : radix.flaw? cs = none ↔ ∃ digits, radix.Spells cs digits := by
  rw [flaw?_eq_none_iff_clean]
  constructor
  · intro h
    exact h.exists_spells
  · rintro ⟨digits, h⟩
    exact h.clean

/-! ## The value of digits -/

theorem number_cons (radix : Radix) (digit : Nat) (digits : List Nat) :
    radix.number (digit :: digits) = digit * radix.base ^ digits.length + radix.number digits := by
  rw [number, number, List.reverse_cons, Nat.ofDigits_append, Nat.ofDigits_singleton, List.length_reverse, Nat.add_comm,
    Nat.mul_comm]

/-- The digits are added one by one to the value of what comes before them. -/
theorem Spells.foldl (h : radix.Spells cs digits) (before : Nat) :
    cs.foldl (fun n c => if c = '_' then n else n * radix.base + (radix.digit? c).getD 0) before =
      before * radix.base ^ digits.length + radix.number digits := by
  have hshift (a b l d n : Nat) : (a * b + d) * b ^ l + n = a * b ^ (l + 1) + (d * b ^ l + n) := by
    ring
  induction h generalizing before with
  | last hc =>
    rw [List.foldl_cons, List.foldl_nil, if_neg hc.ne_underscore, hc.digit?]
    simp [number]
  | next hc _ ih =>
    rw [List.foldl_cons, if_neg hc.ne_underscore, hc.digit?, ih, number_cons, List.length_cons]
    exact hshift _ _ _ _ _
  | spaced hc _ ih =>
    rw [List.foldl_cons, List.foldl_cons, if_neg hc.ne_underscore, if_pos rfl, hc.digit?, ih, number_cons, List.length_cons]
    exact hshift _ _ _ _ _

theorem Spells.positional (h : radix.Spells cs digits) : radix.positional cs = radix.number digits := by
  rw [Radix.positional, h.foldl, Nat.zero_mul, Nat.zero_add]

/-- A run of digits with no underscore in it. -/
theorem exists_spells_of_writes (hne : cs ≠ []) (h : ∀ c ∈ cs, ∃ digit, radix.Writes c digit) :
    ∃ digits, radix.Spells cs digits := by
  induction cs with
  | nil => exact absurd rfl hne
  | cons c rest ih =>
    obtain ⟨⟨digit, hc⟩, hrest⟩ := List.forall_mem_cons.1 h
    cases rest with
    | nil => exact ⟨[digit], .last hc⟩
    | cons d rest =>
      obtain ⟨others, hothers⟩ := ih (List.cons_ne_nil _ _) hrest
      exact ⟨digit :: others, .next hc hothers⟩

theorem exists_spells_toDigits (radix : Radix) (n : Nat) :
    ∃ digits, radix.Spells (Nat.toDigits radix.base n) digits ∧ radix.number digits = n := by
  have hwrites : ∀ c ∈ Nat.toDigits radix.base n, ∃ digit, radix.Writes c digit := by
    intro c hc
    obtain ⟨digit, hlt, rfl⟩ := exists_of_mem_toDigits radix.one_lt_base hc
    exact ⟨digit, hlt, .inl rfl⟩
  obtain ⟨digits, hdigits⟩ := exists_spells_of_writes Nat.toDigits_ne_nil hwrites
  refine ⟨digits, hdigits, ?_⟩
  rw [← hdigits.positional, radix.positional_toDigits]

/-! ## Literals -/

/-- What a literal with these digits means: the value of its token, and the faults that are reported of it. -/
structure Means (radix : Radix) (cs : List Char) (span : Span) (value : UInt64) (faults : List LexFault) : Prop where
  fits : faults = [] ↔ ∃ digits, radix.Spells cs digits ∧ radix.number digits < 2 ^ 64
  value_eq : ∀ digits, radix.Spells cs digits → radix.number digits < 2 ^ 64 → value.toNat = radix.number digits
  overflows : faults = [⟨.numberOverflow (String.ofList (radix.lead.toList ++ cs)), span⟩] ↔
    ∃ digits, radix.Spells cs digits ∧ 2 ^ 64 ≤ radix.number digits
  malformed : (∃ flaw, faults = [⟨.malformedNumber (String.ofList (radix.lead.toList ++ cs)) flaw, span⟩]) ↔
    ¬∃ digits, radix.Spells cs digits
  zero : faults ≠ [] → value = 0

theorem readInteger_means (radix : Radix) (cs : List Char) (span : Span) :
    radix.Means cs span (readInteger radix (radix.lead.toList ++ cs)).1
      ((readInteger radix (radix.lead.toList ++ cs)).2.map fun cause => (⟨cause, span⟩ : LexFault)).toList := by
  have hdrop : (radix.lead.toList ++ cs).drop radix.lead.length = cs := List.drop_left' String.length_toList
  rw [readInteger_eq, hdrop, readDigits]
  cases hflaw : radix.flaw? cs with
  | some flaw =>
    have hnot : ¬∃ digits, radix.Spells cs digits := by
      rw [← flaw?_eq_none_iff, hflaw]
      exact Option.some_ne_none flaw
    have hnone {p : List Nat → Prop} : ¬∃ digits, radix.Spells cs digits ∧ p digits :=
      fun ⟨digits, hspells, _⟩ => hnot ⟨digits, hspells⟩
    refine ⟨iff_of_false (List.cons_ne_nil _ _) hnone, fun digits hspells => absurd ⟨digits, hspells⟩ hnot,
      iff_of_false ?_ hnone, iff_of_true ⟨flaw, rfl⟩ hnot, fun _ => rfl⟩
    intro heq
    cases heq
  | none =>
    obtain ⟨digits, hspells⟩ := flaw?_eq_none_iff.1 hflaw
    have hsame : ∀ digits', radix.Spells cs digits' → radix.number digits' = radix.number digits := by
      intro digits' hspells'
      rw [← hspells'.positional, hspells.positional]
    dsimp only
    rw [hspells.positional]
    by_cases hlt : radix.number digits < UInt64.size
    · have hnot : ¬∃ digits', radix.Spells cs digits' ∧ 2 ^ 64 ≤ radix.number digits' := by
        rintro ⟨digits', hspells', hle⟩
        rw [hsame digits' hspells'] at hle
        exact absurd hlt (Nat.not_lt.2 hle)
      rw [if_pos hlt]
      refine ⟨iff_of_true rfl ⟨digits, hspells, hlt⟩, ?_, iff_of_false (List.cons_ne_nil _ _).symm hnot, ?_, absurd rfl⟩
      · intro digits' hspells' _
        rw [hsame digits' hspells']
        exact UInt64.toNat_ofNat_of_lt hlt
      · exact iff_of_false (fun ⟨_, heq⟩ => (List.cons_ne_nil _ _).symm heq) (not_not_intro ⟨digits, hspells⟩)
    · have hnot : ¬∃ digits', radix.Spells cs digits' ∧ radix.number digits' < 2 ^ 64 := by
        rintro ⟨digits', hspells', hlt'⟩
        rw [hsame digits' hspells'] at hlt'
        exact hlt hlt'
      rw [if_neg hlt]
      refine ⟨iff_of_false (List.cons_ne_nil _ _) hnot, ?_, iff_of_true rfl ⟨digits, hspells, Nat.not_lt.1 hlt⟩, ?_, fun _ => rfl⟩
      · exact fun digits' hspells' hlt' => absurd ⟨digits', hspells', hlt'⟩ hnot
      · refine iff_of_false ?_ (not_not_intro ⟨digits, hspells⟩)
        rintro ⟨flaw, heq⟩
        cases heq

end Radix

theorem readLexeme_integer (fragment? : Option (Nat → List Char → Lexed)) (offset : Nat) {c : Char} {rest : List Char} {radix : Radix}
    (h : (firstLexeme c rest).kind = .integer radix) : ∃ cs value faults,
      (firstLexeme c rest).raw = radix.lead.toList ++ cs ∧
      readLexeme fragment? offset (firstLexeme c rest) =
        ⟨[⟨.int value radix, ⟨offset, offset + byteWidth (firstLexeme c rest).raw⟩⟩], [], faults⟩ ∧
      radix.Means cs ⟨offset, offset + byteWidth (firstLexeme c rest).raw⟩ value faults := by
  have hframed := framed_firstLexeme c rest
  unfold Lexeme.Framed at hframed
  rw [h] at hframed
  obtain ⟨cs, hraw⟩ := hframed
  unfold readLexeme
  rw [h, ← hraw]
  exact ⟨cs, _, _, rfl, rfl, radix.readInteger_means cs _⟩

/-- The only lexemes that are read as integers are those of integers. -/
theorem kind_of_int {fragment? : Option (Nat → List Char → Lexed)} {offset : Nat} {lexeme : Lexeme} {token : Token}
    {value : UInt64} {radix : Radix} (h : (readLexeme fragment? offset lexeme).tokens = [token])
    (hkind : token.kind = .int value radix) : lexeme.kind = .integer radix := by
  unfold readLexeme at h
  cases hlexeme : lexeme.kind with
  | integer radix' =>
    rw [hlexeme] at h
    rw [← (List.cons.inj h).1] at hkind
    rw [(Kind.int.inj hkind).2]
  | blank => rw [hlexeme] at h; cases h
  | comment => rw [hlexeme] at h; cases h
  | stray => rw [hlexeme] at h; cases h
  | _ =>
    rw [hlexeme] at h
    rw [← (List.cons.inj h).1] at hkind
    cases hkind

/-- An integer of a stream, with what is reported of it. -/
theorem Stream.integer {source : String} {tokens : List Token} (hstream : Stream source tokens) {token : Token}
    (hmem : token ∈ tokens) {value : UInt64} {radix : Radix} (hkind : token.kind = .int value radix) :
    ∃ cs, slice? source.toList token.span = some (radix.lead.toList ++ cs) ∧
      radix.Means cs token.span value
        ((lexWithin none source).faults.filter fun fault => token.span.holds fault.span) := by
  obtain ⟨levels, before, text, after, hstands⟩ := hstream.stands
  have htoken := hmem
  rw [hstands.tokens_eq, lexAt_none] at htoken
  obtain ⟨front, back, lexeme, hread⟩ := exists_readFrom htoken (by rw [hkind]; rfl)
  obtain ⟨c, rest, hfirst⟩ := mem_cutLexemes (show lexeme ∈ lexemes text by
    rw [hread.lexemes_eq]
    exact List.mem_append_right _ List.mem_cons_self)
  have hinteger := kind_of_int hread.read hkind
  rw [hfirst] at hinteger
  obtain ⟨cs, value', faults, hraw, hlexed, hmeans⟩ :=
    readLexeme_integer (fragmentsAt none levels) token.span.start hinteger
  rw [← hfirst] at hraw hlexed hmeans
  have htokens := hread.read
  have hspan : token.span = ⟨token.span.start, token.span.start + byteWidth lexeme.raw⟩ := by
    have hstop := hread.stop
    rw [← hread.start] at hstop
    rw [← hstop]
  rw [← hread.start, hlexed, ← hspan] at htokens
  rw [← (List.cons.inj htokens).1] at hkind
  obtain ⟨rfl, -⟩ := Kind.int.inj hkind
  refine ⟨cs, ?_, ?_⟩
  · have hsource := hstands.source_eq
    have htext := flatMap_raw_lexemes text
    rw [hread.lexemes_eq, List.flatMap_append, List.flatMap_cons] at htext
    have hsplit : source.toList = (before ++ front.flatMap (·.raw)) ++ lexeme.raw ++ (back.flatMap (·.raw) ++ after) := by
      rw [hsource, ← htext]
      simp only [List.append_assoc]
    rw [hsplit, hspan, hread.start, ← byteWidth_append, slice?_middle, hraw]
  · have hwidth : token.span.stop = token.span.start + byteWidth lexeme.raw := congrArg Span.stop hspan
    rw [hstands.faults_within hread.lexemes_eq hread.start hwidth, hlexed, hspan]
    exact hmeans

/-! ## Integers as they are printed -/

theorem lexemeAt_of_isDigit {c : Char} (h : isDigit c = true) (rest : List Char) : lexemeAt c rest = numberAt (c :: rest) := by
  have hnot {d : Char} (hd : isDigit d = false) : c ≠ d := by
    rintro rfl
    rw [h] at hd
    cases hd
  have hblank : isBlank c = false := by
    simp [isBlank, hnot (d := ' ') (by decide), hnot (d := '\t') (by decide), hnot (d := '\r') (by decide),
      hnot (d := '\n') (by decide), hnot (d := '\x0c') (by decide)]
  have hcomment : ¬['/', '/'].isPrefixOf (c :: rest) = true := by
    simp only [List.isPrefixOf, Bool.and_eq_true, beq_iff_eq]
    exact fun hslash => hnot (d := '/') (by decide) hslash.1.symm
  unfold lexemeAt
  dsimp only
  rw [hblank, if_neg Bool.false_ne_true, if_neg hcomment, if_pos h]

theorem numberAt_integerText (value : UInt64) (radix : Radix) :
    numberAt (integerText value radix).toList = (.integer radix, (integerText value radix).toList.length) := by
  have hword := (integerText_word value radix).within
  rw [toList_integerText] at hword ⊢
  cases radix with
  | decimal =>
    have hdigits : ∀ c ∈ Nat.toDigits 10 value.toNat, isDigit c = true := fun c hc => isDigit_of_mem_toDigits hc
    have hradix : radixAt (Nat.toDigits 10 value.toNat) = .decimal :=
      radixAt_eq_decimal fun c hc => (by rw [inFloat, hdigits c hc]; rfl)
    have hall : (Nat.toDigits 10 value.toNat).takeWhile continuesNumber = Nat.toDigits 10 value.toNat :=
      List.takeWhile_eq_self_iff.2 fun c hc => (by rw [continuesNumber, hdigits c hc]; rfl)
    show numberAt (Nat.toDigits 10 value.toNat) = (.integer .decimal, (Nat.toDigits 10 value.toNat).length)
    unfold numberAt
    rw [hradix]
    dsimp only
    rw [hall, List.drop_length]
    rfl
  | _ =>
    have hall := List.takeWhile_eq_self_iff.2 fun c hc => hword c (List.mem_append_right _ hc)
    refine Prod.ext rfl ?_
    exact congrArg (fun digits : List Char => digits.length + 2) hall

theorem firstLexeme_integerText (value : UInt64) (radix : Radix) :
    ∃ c rest, (integerText value radix).toList = c :: rest ∧
      firstLexeme c rest = ⟨.integer radix, (integerText value radix).toList⟩ := by
  obtain ⟨c, rest, htext, hc⟩ := integerText_starts value radix
  have hnumber := numberAt_integerText value radix
  refine ⟨c, rest, htext, ?_⟩
  rw [firstLexeme, lexemeAt_of_isDigit hc, ← htext, hnumber]
  dsimp only
  rw [List.take_length]

/-- An integer that is printed is lexed to itself. -/
theorem lexWithin_integerText (limit : Option Nat) (value : UInt64) (radix : Radix) :
    lexWithin limit (integerText value radix) =
      ⟨⟨[⟨.int value radix, ⟨0, (integerText value radix).utf8ByteSize⟩⟩,
        ⟨.done, .point (integerText value radix).utf8ByteSize⟩], [], []⟩, none⟩ := by
  obtain ⟨c, rest, htext, hfirst⟩ := firstLexeme_integerText value radix
  have hkind : (firstLexeme c rest).kind = .integer radix := by rw [hfirst]
  have hline : shebangLine (integerText value radix).toList = [] := by
    rw [htext]
    exact shebangLine_of_addsToken (by rw [hkind]; rfl) rest
  have hlexemes : lexemes (integerText value radix).toList = [firstLexeme c rest] := by
    have hraw : c :: rest = (firstLexeme c rest).raw ++ [] := by
      rw [hfirst, List.append_nil]
      exact htext.symm
    rw [htext, lexemes_cons hraw]
    rfl
  obtain ⟨digits, hspells, hnumber⟩ := radix.exists_spells_toDigits value.toNat
  obtain ⟨cs, value', faults, hraw, hread, hmeans⟩ :=
    readLexeme_integer (fragmentsAt limit fragmentLimit) 0 hkind
  obtain rfl : cs = Nat.toDigits radix.base value.toNat := by
    rw [hfirst, toList_integerText] at hraw
    exact (List.append_cancel_left hraw).symm
  have hlt : radix.number digits < 2 ^ 64 := hnumber ▸ value.toNat_lt
  obtain rfl : faults = [] := hmeans.fits.2 ⟨digits, hspells, hlt⟩
  obtain rfl : value' = value := by
    have heq := hmeans.value_eq digits hspells hlt
    rw [hnumber] at heq
    exact UInt64.toNat_inj.1 heq
  have hwidth : byteWidth (integerText value' radix).toList = (integerText value' radix).utf8ByteSize :=
    (utf8ByteSize_eq_byteWidth _).symm
  rw [hfirst, hwidth, Nat.zero_add] at hread
  unfold lexWithin
  dsimp only
  rw [hline, lexAt_eq, byteWidth_nil, List.length_nil, List.drop_zero, hlexemes, hfirst, readLexemes, hread, hwidth, Nat.zero_add]
  cases limit with
  | none => rfl
  | some n => exact congrArg (fun faults => LexedDocument.mk ⟨_, [], faults⟩ none) List.take_nil

/-- Every lexeme of an integer, in whatever radix, is read as one token that means what its digits say; so is
every integer of a document, given all that is reported within its place; and an integer that is printed as an
S-expression is lexed to its value and its radix, and no fault. -/
theorem integers_read :
    (∀ (fragment? : Option (Nat → List Char → Lexed)) (offset : Nat) (c : Char) (rest : List Char) (radix : Radix),
      (firstLexeme c rest).kind = .integer radix → ∃ cs value faults,
        (firstLexeme c rest).raw = radix.lead.toList ++ cs ∧
        readLexeme fragment? offset (firstLexeme c rest) =
          ⟨[⟨.int value radix, ⟨offset, offset + byteWidth (firstLexeme c rest).raw⟩⟩], [], faults⟩ ∧
        radix.Means cs ⟨offset, offset + byteWidth (firstLexeme c rest).raw⟩ value faults) ∧
    (∀ (source : String) (tokens : List Token), Stream source tokens → ∀ token ∈ tokens, ∀ value radix,
      token.kind = .int value radix → ∃ cs, slice? source.toList token.span = some (radix.lead.toList ++ cs) ∧
        radix.Means cs token.span value
          ((lexWithin none source).faults.filter fun fault => token.span.holds fault.span)) ∧
    ∀ (limit : Option Nat) (value : UInt64) (radix : Radix) (span : Span),
      lexWithin limit (Expr.sexpr ⟨.int value radix, span⟩).render =
        ⟨⟨[⟨.int value radix, ⟨0, (integerText value radix).utf8ByteSize⟩⟩,
          ⟨.done, .point (integerText value radix).utf8ByteSize⟩], [], []⟩, none⟩ := by
  refine ⟨?_, ?_, ?_⟩
  · intro fragment? offset c rest radix h
    exact readLexeme_integer fragment? offset h
  · intro source tokens hstream token hmem value radix hkind
    exact hstream.integer hmem hkind
  · intro limit value radix span
    exact lexWithin_integerText limit value radix

/-- An underscore before the first digit, and an integer in a fragment. -/
theorem integers_read_fragment :
    (∃ cs value faults, (firstLexeme '0' "x_f".toList).raw = Radix.hex.lead.toList ++ cs ∧
      readLexeme none 0 (firstLexeme '0' "x_f".toList) = ⟨[⟨.int value .hex, ⟨0, 4⟩⟩], [], faults⟩ ∧
      Radix.hex.Means cs ⟨0, 4⟩ value faults) ∧
    ∃ inner, Stream "\"$\x7b1_0\x7d\"" inner ∧ ∃ token ∈ inner, token.kind = .int 10 .decimal ∧
      ∃ cs, slice? "\"$\x7b1_0\x7d\"".toList token.span = some (Radix.decimal.lead.toList ++ cs) ∧
        Radix.decimal.Means cs token.span 10
          ((lexWithin none "\"$\x7b1_0\x7d\"").faults.filter fun fault => token.span.holds fault.span) := by
  refine ⟨integers_read.1 none 0 '0' "x_f".toList .hex rfl, ?_⟩
  have hliteral : (lex "\"$\x7b1_0\x7d\"").tokens[0]? =
      some ⟨.str false [.fragment [⟨.int 10 .decimal, ⟨3, 6⟩⟩, ⟨.done, .point 6⟩] ⟨1, 7⟩], ⟨0, 8⟩⟩ := rfl
  have hinner : Stream "\"$\x7b1_0\x7d\"" [⟨.int 10 .decimal, ⟨3, 6⟩⟩, ⟨.done, .point 6⟩] :=
    .fragment .whole (List.mem_of_getElem? hliteral) rfl List.mem_cons_self
  exact ⟨_, hinner, _, List.mem_cons_self, rfl, integers_read.2.1 _ _ hinner _ List.mem_cons_self _ _ rfl⟩

end JuiceSyntax
