/-
  Quoted text can be read again. `readQuoted` reads one character from between quotes and gives what
  follows; no character begins with a bare quote, so a quoted text ends where it does.

  `quoted_append`: of two texts that begin with quoted ones both the quoted texts and what follows them
  are equal if they are.
-/
import JuiceSyntax.Proofs.Token.Numerals
import JuiceSyntax.Text.Quoted

namespace JuiceSyntax

/-! ## Reading -/

/-- The character that a text between quotes begins with, and what follows it. -/
def readQuoted : List Char → Char × List Char
  | '\\' :: 't' :: rest => ('\t', rest)
  | '\\' :: 'r' :: rest => ('\r', rest)
  | '\\' :: 'n' :: rest => ('\n', rest)
  | '\\' :: '\\' :: rest => ('\\', rest)
  | '\\' :: '0' :: rest => ('\x00', rest)
  | '\\' :: '"' :: rest => ('"', rest)
  | '\\' :: 'u' :: '{' :: rest =>
    (Char.ofNat (Radix.hex.positional (rest.takeWhile (· != '}'))), (rest.dropWhile (· != '}')).drop 1)
  | c :: rest => (c, rest)
  | [] => ('"', [])

theorem readQuoted_plain {c : Char} (h : c ≠ '\\') (rest : List Char) : readQuoted (c :: rest) = (c, rest) := by
  unfold readQuoted
  split
  all_goals simp_all

theorem readQuoted_code (c : Char) (rest : List Char) :
    readQuoted ('\\' :: 'u' :: '{' :: (Nat.toDigits 16 c.toNat ++ '}' :: rest)) = (c, rest) := by
  have hbrace : ∀ digit : Fin 16, (digit.val.digitChar != '}') = true := by decide
  have hdigits (d : Char) (hmem : d ∈ Nat.toDigits 16 c.toNat) : (d != '}') = true := by
    obtain ⟨digit, hlt, rfl⟩ := exists_of_mem_toDigits (by decide) hmem
    exact hbrace ⟨digit, hlt⟩
  rw [readQuoted, List.takeWhile_append_of_pos hdigits, List.dropWhile_append_of_pos hdigits,
    List.takeWhile_cons_of_neg (by decide), List.dropWhile_cons_of_neg (by decide), List.append_nil]
  rw [show Radix.hex.positional (Nat.toDigits 16 c.toNat) = c.toNat from Radix.hex.positional_toDigits _, Char.ofNat_toNat]
  rfl

theorem readQuoted_quoteChar (c : Char) (rest : List Char) :
    readQuoted ((quoteChar '"' c).toList ++ rest) = (c, rest) := by
  unfold quoteChar
  split
  · rfl
  · rfl
  · rfl
  · rfl
  · rfl
  · rename_i hbackslash _
    split
    · rename_i hquote
      rw [eq_of_beq hquote]
      rfl
    · split
      · rw [Char.toString, String.toList_singleton]
        exact readQuoted_plain hbackslash rest
      · simp only [hexText, String.toList_append, String.toList_ofList, List.append_assoc]
        exact readQuoted_code c rest

/-- No character is written with a bare quote at its beginning. -/
theorem exists_quoteChar (c : Char) : ∃ first rest, (quoteChar '"' c).toList = first :: rest ∧ first ≠ '"' := by
  unfold quoteChar
  split
  · exact ⟨_, _, rfl, by decide⟩
  · exact ⟨_, _, rfl, by decide⟩
  · exact ⟨_, _, rfl, by decide⟩
  · exact ⟨_, _, rfl, by decide⟩
  · exact ⟨_, _, rfl, by decide⟩
  · split
    · exact ⟨_, _, rfl, by decide⟩
    · rename_i hquote
      split
      · exact ⟨c, [], String.toList_singleton c, fun heq => hquote (beq_iff_eq.2 heq)⟩
      · rw [String.toList_append, String.toList_append]
        exact ⟨_, _, rfl, by decide⟩

/-- A line feed is written as an escape. -/
theorem feed_notMem_quoteChar (c : Char) : '\n' ∉ (quoteChar '"' c).toList := by
  have hdigits : ∀ digit : Fin 16, digit.val.digitChar ≠ '\n' := by decide
  unfold quoteChar
  split
  · decide
  · decide
  · decide
  · decide
  · decide
  · rename_i hfeed _ _
    split
    · decide
    · split
      · rw [Char.toString, String.toList_singleton, List.mem_singleton]
        exact fun heq => hfeed heq.symm
      · simp only [hexText, String.toList_append, String.toList_ofList, List.mem_append, not_or]
        refine ⟨⟨by decide, fun hmem => ?_⟩, by decide⟩
        obtain ⟨digit, hlt, heq⟩ := exists_of_mem_toDigits (by decide) hmem
        exact hdigits ⟨digit, hlt⟩ heq.symm

/-! ## Texts -/

/-- The characters of a text as they stand between quotes. -/
def quoteChars (text : List Char) : List Char := text.flatMap fun c => (quoteChar '"' c).toList

theorem quoteChars_cons_ne (c : Char) (cs rest rest' : List Char) : quoteChars (c :: cs) ++ rest ≠ '"' :: rest' := by
  intro heq
  obtain ⟨first, others, hchars, hfirst⟩ := exists_quoteChar c
  rw [quoteChars, List.flatMap_cons, hchars] at heq
  exact hfirst (List.cons.inj heq).1

theorem quoteChars_append {text text' rest rest' : List Char}
    (h : quoteChars text ++ '"' :: rest = quoteChars text' ++ '"' :: rest') : text = text' ∧ rest = rest' := by
  induction text generalizing text' with
  | nil =>
    cases text' with
    | nil => exact ⟨rfl, (List.cons.inj h).2⟩
    | cons d ds => exact absurd h.symm (quoteChars_cons_ne d ds _ _)
  | cons c cs ih =>
    cases text' with
    | nil => exact absurd h (quoteChars_cons_ne c cs _ _)
    | cons d ds =>
      rw [quoteChars, quoteChars, List.flatMap_cons, List.flatMap_cons, List.append_assoc, List.append_assoc] at h
      have hread := congrArg readQuoted h
      rw [readQuoted_quoteChar, readQuoted_quoteChar] at hread
      obtain ⟨rfl, htail⟩ := Prod.mk.inj hread
      obtain ⟨rfl, hrest⟩ := ih htail
      exact ⟨rfl, hrest⟩

theorem toList_quoted (text : String) : (quoted text).toList = '"' :: (quoteChars text.toList ++ ['"']) := by
  rw [quoted, String.toList_append, String.toList_append, String.toList_join, List.flatMap_map]
  rfl

theorem feed_notMem_quoted (text : String) : '\n' ∉ (quoted text).toList := by
  rw [toList_quoted, quoteChars]
  simp [feed_notMem_quoteChar]

/-- A quoted text ends where it does, whatever follows. -/
theorem quoted_append {text text' : String} {rest rest' : List Char}
    (h : (quoted text).toList ++ rest = (quoted text').toList ++ rest') : text = text' ∧ rest = rest' := by
  rw [toList_quoted, toList_quoted, List.cons_append, List.cons_append, List.append_assoc, List.append_assoc] at h
  obtain ⟨htext, hrest⟩ := quoteChars_append (List.cons.inj h).2
  exact ⟨String.toList_inj.1 htext, hrest⟩

end JuiceSyntax
