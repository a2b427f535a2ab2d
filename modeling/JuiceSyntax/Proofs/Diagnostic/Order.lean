/-
  The diagnostics of a document: one for each fault, by the offsets of their primary labels. The
  sort is stable, so at one offset they stand as the faults do, the lexical ones first.

  Only the last fault of a reading may be fatal (`faults_mild_front`). A fatal fault may well stand
  before other faults of the text, and its diagnostic then comes before theirs; at its own offset
  it is the last (`diagnostics_ordered`).
-/
import JuiceSyntax.Diagnostic.OfFault
import JuiceSyntax.Proofs.Grammar.FaultCount
import JuiceSyntax.Proofs.Sorting

namespace JuiceSyntax

/-! ## Offsets -/

/-- Where the primary label begins. -/
def Diagnostic.offset? (d : Diagnostic) : Option Nat := d.primary?.map (·.start)

@[simp] theorem LexFault.offset?_diagnostic (f : LexFault) : f.diagnostic.offset? = some f.span.start := rfl

@[simp] theorem Fault.offset?_diagnostic (f : Fault) : f.diagnostic.offset? = some f.span.start := rfl

theorem Diagnostic.comesBefore_iff (a b : Diagnostic) :
    a.comesBefore b = true ↔ ∀ j, b.offset? = some j → ∃ i, a.offset? = some i ∧ i ≤ j := by
  unfold comesBefore offset?
  cases a.primary? <;> cases b.primary? <;> simp

theorem Diagnostic.comesBefore_trans (a b c : Diagnostic) (hab : a.comesBefore b = true) (hbc : b.comesBefore c = true) :
    a.comesBefore c = true := by
  rw [comesBefore_iff] at hab hbc ⊢
  intro k hk
  obtain ⟨j, hj, hjk⟩ := hbc k hk
  obtain ⟨i, hi, hij⟩ := hab j hj
  exact ⟨i, hi, Nat.le_trans hij hjk⟩

theorem Diagnostic.comesBefore_total (a b : Diagnostic) : (a.comesBefore b || b.comesBefore a) = true := by
  rw [Bool.or_eq_true, comesBefore_iff, comesBefore_iff]
  cases a.offset? <;> cases b.offset? <;> simp [Nat.le_total]

/-- Diagnostics at one offset are not told apart. -/
theorem Diagnostic.comesBefore_of_offset {a b : Diagnostic} {offset : Nat} (ha : a.offset? = some offset)
    (hb : b.offset? = some offset) : a.comesBefore b = true := by
  rw [comesBefore_iff]
  intro j hj
  rw [hb] at hj
  cases hj
  exact ⟨offset, ha, Nat.le_refl _⟩

/-! ## All diagnostics of a document -/

namespace Document

variable (d : Document)

/-- The diagnostics as the faults were recorded. -/
def reports : List Diagnostic := d.lexFaults.map LexFault.diagnostic ++ d.faults.map Fault.diagnostic

theorem diagnostics_perm : d.diagnostics.Perm d.reports := List.mergeSort_perm _ _

theorem exists_offset_of_mem_reports {report : Diagnostic} (h : report ∈ d.reports) :
    ∃ offset, report.offset? = some offset := by
  obtain h | h := List.mem_append.1 h
  · obtain ⟨f, -, rfl⟩ := List.mem_map.1 h
    exact ⟨f.span.start, rfl⟩
  · obtain ⟨f, -, rfl⟩ := List.mem_map.1 h
    exact ⟨f.span.start, rfl⟩

theorem diagnostics_sorted :
    ∃ offsets : List Nat, d.diagnostics.map (·.offset?) = offsets.map some ∧ offsets.Pairwise (· ≤ ·) := by
  have hsorted : d.diagnostics.Pairwise fun a b => a.comesBefore b = true :=
    List.pairwise_mergeSort Diagnostic.comesBefore_trans Diagnostic.comesBefore_total _
  have hplaced : ∀ a ∈ d.diagnostics, a.offset? = some (a.offset?.getD 0) := by
    intro a ha
    obtain ⟨offset, hoffset⟩ := d.exists_offset_of_mem_reports (d.diagnostics_perm.subset ha)
    rw [hoffset]
    rfl
  refine ⟨d.diagnostics.map (·.offset?.getD 0), ?_, List.pairwise_map.2 (hsorted.imp_of_mem ?_)⟩
  · rw [List.map_map]
    exact List.map_congr_left hplaced
  · intro a b ha hb hab
    obtain ⟨i, hi, hij⟩ := (Diagnostic.comesBefore_iff a b).1 hab _ (hplaced b hb)
    rwa [hi]

theorem filter_diagnostics (offset : Nat) :
    d.diagnostics.filter (·.offset? == some offset) = d.reports.filter (·.offset? == some offset) := by
  apply filter_mergeSort Diagnostic.comesBefore_trans Diagnostic.comesBefore_total
  intro a b ha hb
  exact Diagnostic.comesBefore_of_offset (eq_of_beq ha) (eq_of_beq hb)

theorem filter_reports (offset : Nat) :
    d.reports.filter (·.offset? == some offset) =
      (d.lexFaults.filter (·.span.start == offset)).map LexFault.diagnostic ++
        (d.faults.filter (·.span.start == offset)).map Fault.diagnostic := by
  simp only [reports, List.filter_append, List.filter_map]
  rfl

/-- What is so of any two reports in their order is so of any two diagnostics at one offset. -/
theorem pairwise_diagnostics {R : Diagnostic → Diagnostic → Prop} (h : d.reports.Pairwise R) :
    d.diagnostics.Pairwise fun a b => R a b ∨ a.offset? ≠ b.offset? := by
  rw [List.pairwise_iff_forall_sublist] at h ⊢
  intro a b hab
  by_cases hsame : a.offset? = b.offset?
  · obtain ⟨offset, hoffset⟩ := d.exists_offset_of_mem_reports (d.diagnostics_perm.subset (hab.subset List.mem_cons_self))
    have hfiltered := hab.filter (·.offset? == some offset)
    have hboth : [a, b].filter (·.offset? == some offset) = [a, b] := by simp [← hsame, hoffset]
    rw [d.filter_diagnostics, hboth] at hfiltered
    exact .inl (h (hfiltered.trans List.filter_sublist))
  · exact .inr hsame

end Document

/-! ## The fatal diagnostic -/

theorem Tallying.mild_front {options : Options} {s : State} (h : Tallying options s) :
    s.faults.Pairwise fun fault _ => fault.isFatal = false := by
  cases h with
  | goes _ mild => exact List.pairwise_of_forall_mem_list fun fault hmem _ _ => mild fault hmem
  | halts front last faults _ mild =>
    rw [faults, List.pairwise_append]
    exact ⟨List.pairwise_of_forall_mem_list fun fault hmem _ _ => mild fault hmem, List.pairwise_singleton _ _,
      fun fault hmem _ _ => mild fault hmem⟩

/-- Only the last fault of a document may be fatal. -/
theorem faults_mild_front (source : String) (options : Options) :
    (Document.read source options).faults.Pairwise fun fault _ => fault.isFatal = false := by
  unfold Document.read
  dsimp only
  split
  · exact .nil
  · dsimp only
    rw [readItems_eq, Ending.faults_reading]
    exact (itemsEnding_tallying _ _).mild_front

theorem reports_recoverable (source : String) (options : Options) :
    (Document.read source options).reports.Pairwise fun report _ => report.recoverable = true := by
  unfold Document.reports
  rw [List.pairwise_append, List.pairwise_map, List.pairwise_map]
  have hlex : ∀ report ∈ (Document.read source options).lexFaults.map LexFault.diagnostic,
      report.recoverable = true := by
    intro report hreport
    obtain ⟨f, -, rfl⟩ := List.mem_map.1 hreport
    rfl
  refine ⟨List.pairwise_of_forall fun _ _ => rfl, (faults_mild_front source options).imp fun hmild => ?_,
    fun report hreport _ _ => hlex report hreport⟩
  simp [Fault.diagnostic, hmild]

/-- Where all but the last have a property, at most one does not have it. -/
theorem countP_le_one {α : Type} {p : α → Bool} {l : List α} (h : l.Pairwise fun a _ => p a = false) :
    l.countP p ≤ 1 := by
  induction h with
  | nil => exact Nat.zero_le 1
  | @cons a rest hrest _ ih =>
    cases rest with
    | nil => exact List.countP_le_length
    | cons b rest => rwa [List.countP_cons_of_neg (by simp [hrest b List.mem_cons_self])]

/-- One diagnostic for each fault, by their offsets; at one offset the lexical ones come first, and
then the others as they were recorded. At most one is not recoverable, and at its offset none
comes after it. -/
theorem diagnostics_ordered (source : String) (options : Options) :
    let d := Document.read source options
    d.diagnostics.Perm (d.lexFaults.map LexFault.diagnostic ++ d.faults.map Fault.diagnostic) ∧
      (∃ offsets : List Nat, d.diagnostics.map (·.offset?) = offsets.map some ∧ offsets.Pairwise (· ≤ ·)) ∧
      (∀ offset, d.diagnostics.filter (·.offset? == some offset) =
        (d.lexFaults.filter (·.span.start == offset)).map LexFault.diagnostic ++
          (d.faults.filter (·.span.start == offset)).map Fault.diagnostic) ∧
      d.diagnostics.countP (!·.recoverable) ≤ 1 ∧
      d.diagnostics.Pairwise fun a b => a.recoverable = true ∨ a.offset? ≠ b.offset? := by
  intro d
  have hreports : d.reports.Pairwise fun report _ => report.recoverable = true := reports_recoverable source options
  refine ⟨d.diagnostics_perm, d.diagnostics_sorted, fun offset => ?_, ?_, d.pairwise_diagnostics hreports⟩
  · rw [d.filter_diagnostics, d.filter_reports]
  · rw [d.diagnostics_perm.countP_eq]
    exact countP_le_one (hreports.imp fun hrecoverable => by simp [hrecoverable])

end JuiceSyntax
