/-
  Sorted and grouped lists. Sorting keeps the order of what the comparison does not tell apart (`filter_mergeSort`).
  Where a property passes from each element to those before it, what is taken off the front while it holds is all
  that has it (`takeWhile_eq_filter`). Grouped by keys, a list is the same up to order (`flatMap_filter_perm`).
-/

namespace JuiceSyntax

variable {α : Type}

/-- Sorting leaves in their order what the comparison does not tell apart. -/
theorem filter_mergeSort {le : α → α → Bool} {p : α → Bool}
    (trans : ∀ a b c, le a b = true → le b c = true → le a c = true) (total : ∀ a b, (le a b || le b a) = true)
    (alike : ∀ a b, p a = true → p b = true → le a b = true) (l : List α) :
    (l.mergeSort le).filter p = l.filter p := by
  have hsorted : (l.filter p).Pairwise fun a b => le a b = true := by
    apply List.pairwise_of_forall_mem_list
    intro a ha b hb
    exact alike a b (List.mem_filter.1 ha).2 (List.mem_filter.1 hb).2
  have hkept : (l.filter p).Sublist ((l.mergeSort le).filter p) := by
    have h := (List.sublist_mergeSort trans total hsorted List.filter_sublist).filter p
    simpa only [List.filter_filter, Bool.and_self] using h
  exact (hkept.eq_of_length ((List.mergeSort_perm l le).filter p).length_eq.symm).symm

/-! ## Numbers as keys -/

section

variable (key : α → Nat) (l : List α)

theorem pairwise_mergeSort_key :
    (l.mergeSort fun a b => decide (key a ≤ key b)).Pairwise fun a b => key a ≤ key b := by
  refine (List.pairwise_mergeSort (fun a b c hab hbc => ?_) (fun a b => ?_) l).imp of_decide_eq_true
  · exact decide_eq_true (Nat.le_trans (of_decide_eq_true hab) (of_decide_eq_true hbc))
  · simpa using Nat.le_total (key a) (key b)

/-- Elements with one key keep their order. -/
theorem filter_mergeSort_key (n : Nat) :
    (l.mergeSort fun a b => decide (key a ≤ key b)).filter (key · == n) = l.filter (key · == n) := by
  refine filter_mergeSort (fun a b c hab hbc => ?_) (fun a b => ?_) (fun a b ha hb => ?_) l
  · exact decide_eq_true (Nat.le_trans (of_decide_eq_true hab) (of_decide_eq_true hbc))
  · simpa using Nat.le_total (key a) (key b)
  · rw [eq_of_beq ha, eq_of_beq hb]
    exact decide_eq_true (Nat.le_refl n)

end

/-! ## What holds at the front only -/

section

variable {p : α → Bool} {l : List α}

theorem filter_eq_nil_of_head {a : α} (h : (a :: l).Pairwise fun a b => p b = true → p a = true) (ha : p a = false) :
    l.filter p = [] := by
  refine List.filter_eq_nil_iff.2 fun b hb hpb => ?_
  rw [(List.pairwise_cons.1 h).1 b hb hpb] at ha
  cases ha

theorem takeWhile_eq_filter (h : l.Pairwise fun a b => p b = true → p a = true) : l.takeWhile p = l.filter p := by
  induction l with
  | nil => rfl
  | cons a l ih =>
    cases ha : p a with
    | true => rw [List.takeWhile_cons_of_pos ha, List.filter_cons_of_pos ha, ih (List.pairwise_cons.1 h).2]
    | false =>
      have hnot : ¬p a = true := by simp [ha]
      rw [List.takeWhile_cons_of_neg hnot, List.filter_cons_of_neg hnot, filter_eq_nil_of_head h ha]

theorem dropWhile_eq_filter (h : l.Pairwise fun a b => p b = true → p a = true) :
    l.dropWhile p = l.filter fun a => !p a := by
  induction l with
  | nil => rfl
  | cons a l ih =>
    rw [List.filter_cons]
    cases ha : p a with
    | true => rw [List.dropWhile_cons_of_pos ha, ih (List.pairwise_cons.1 h).2]; rfl
    | false =>
      have hnone : ∀ b ∈ l, (!p b) = true := fun b hb => by
        simpa using List.filter_eq_nil_iff.1 (filter_eq_nil_of_head h ha) b hb
      rw [List.dropWhile_cons_of_neg (by simp [ha]), List.filter_eq_self.2 hnone]
      rfl

end

/-! ## Groups -/

theorem nodup_eraseDups [BEq α] [LawfulBEq α] : (l : List α) → l.eraseDups.Nodup
  | [] => .nil
  | a :: l => by
    rw [List.eraseDups_cons]
    refine List.nodup_cons.2 ⟨fun hmem => ?_, nodup_eraseDups _⟩
    simp [List.mem_eraseDups] at hmem
termination_by l => l.length
decreasing_by exact Nat.lt_succ_of_le (List.length_filter_le _ _)

/-- The elements with one of distinct keys, key by key. -/
theorem flatMap_filter_perm (key : α → Nat) {keys : List Nat} (hkeys : keys.Nodup) (l : List α) :
    (keys.flatMap fun k => l.filter (key · == k)).Perm (l.filter fun a => decide (key a ∈ keys)) := by
  induction keys with
  | nil => simp
  | cons k keys ih =>
    obtain ⟨hk, hkeys⟩ := List.nodup_cons.1 hkeys
    have hsplit := List.filter_append_perm (key · == k) (l.filter fun a => decide (key a ∈ k :: keys))
    have hhere : (l.filter fun a => decide (key a ∈ k :: keys)).filter (key · == k) = l.filter (key · == k) := by
      rw [List.filter_filter]
      refine List.filter_congr fun a _ => ?_
      by_cases h : key a = k
      · simp [h]
      · simp [beq_eq_false_iff_ne.2 h]
    have hrest : (l.filter fun a => decide (key a ∈ k :: keys)).filter (fun a => !(key a == k)) =
        l.filter fun a => decide (key a ∈ keys) := by
      rw [List.filter_filter]
      refine List.filter_congr fun a _ => ?_
      by_cases h : key a = k
      · simp [h, hk]
      · simp [h]
    rw [hhere, hrest] at hsplit
    exact ((ih hkeys).append_left _).trans hsplit

end JuiceSyntax
