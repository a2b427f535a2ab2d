/-
  Digits of a number. Written in a radix and read back, a number is itself (`positional_toDigits`).
-/
import JuiceSyntax.Token.Number

namespace JuiceSyntax

theorem exists_of_mem_toDigits {base n : Nat} (hbase : 1 < base) {c : Char} (h : c ∈ Nat.toDigits base n) :
    ∃ digit < base, c = digit.digitChar := by
  induction n using Nat.strongRecOn with
  | ind n ih =>
    by_cases hn : n < base
    · rw [Nat.toDigits_of_lt_base hn, List.mem_singleton] at h
      exact ⟨n, hn, h⟩
    · have hle : base ≤ n := Nat.le_of_not_lt hn
      rw [Nat.toDigits_of_base_le hbase hle, List.mem_append, List.mem_singleton] at h
      obtain hmem | rfl := h
      · exact ih (n / base) (Nat.div_lt_self (by omega) hbase) hmem
      · exact ⟨n % base, Nat.mod_lt _ (by omega), rfl⟩

namespace Radix

theorem one_lt_base (radix : Radix) : 1 < radix.base := by cases radix <;> decide

theorem digit?_digitChar (radix : Radix) {digit : Nat} (h : digit < radix.base) :
    digit.digitChar ≠ '_' ∧ radix.digit? digit.digitChar = some digit := by
  have hall : ∀ digit : Fin radix.base, digit.val.digitChar ≠ '_' ∧ radix.digit? digit.val.digitChar = some digit.val := by
    cases radix <;> decide
  exact hall ⟨digit, h⟩

theorem positional_toDigits (radix : Radix) (n : Nat) : radix.positional (Nat.toDigits radix.base n) = n := by
  induction n using Nat.strongRecOn with
  | ind n ih =>
    have hbase := radix.one_lt_base
    by_cases hn : n < radix.base
    · obtain ⟨hchar, hdigit⟩ := radix.digit?_digitChar hn
      rw [Nat.toDigits_of_lt_base hn, ← List.nil_append [n.digitChar], positional_append_digit _ _ _ hchar, hdigit]
      simp [positional]
    · have hle : radix.base ≤ n := Nat.le_of_not_lt hn
      obtain ⟨hchar, hdigit⟩ := radix.digit?_digitChar (Nat.mod_lt n (by omega))
      rw [Nat.toDigits_of_base_le hbase hle, positional_append_digit _ _ _ hchar, hdigit,
        ih (n / radix.base) (Nat.div_lt_self (by omega) hbase), Option.getD_some, Nat.mul_comm]
      exact Nat.div_add_mod n radix.base

end Radix

end JuiceSyntax
