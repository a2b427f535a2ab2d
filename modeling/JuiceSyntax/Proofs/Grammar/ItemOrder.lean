/-
  The order of the items of a document. Each item begins at a token, and the next one behind the tokens that it
  takes; so where the items begin are some of the places where the tokens do, in their order
  (`Document.read_item_starts`).
-/
import JuiceSyntax.Proofs.Grammar.Accounting

namespace JuiceSyntax

open Reader Grammar

/-- The span of what is read from a range of tokens begins with them. -/
theorem Ranged.start_cover {range : List Token} (h : Ranged range) {c d : Cursor} (hpasses : c.Passes range d)
    (hnonempty : range ≠ []) : ∃ first rest, range = first :: rest ∧ (c.span.cover d.previous).start = first.span.start := by
  obtain ⟨last, hlast⟩ : ∃ last, range.getLast? = some last := ⟨_, List.getLast?_eq_some_getLast hnonempty⟩
  obtain ⟨first, hfirst, hcover⟩ := hpasses.cover_previous hlast
  obtain ⟨rest, hrange⟩ := List.head?_eq_some_iff.1 hfirst
  have hle := h.start_le hfirst last (List.mem_of_getLast? hlast)
  exact ⟨first, rest, hrange, by rw [hcover]; exact Nat.min_eq_left hle⟩

/-- The items that a loop gives begin where tokens do that it consumes, each behind the one before. -/
theorem itemsUpTo_starts {L : Level} (hL : L.Grows) {after : List Token} {last : Token} (hdone : last.kind.isDone = true)
    (fuel : Nat) {s t : State} {items : List Item} (hrest : s.cursor.rest = after ++ [last]) (hranged : Ranged after)
    (hrun : itemsUpTo L fuel s = .ok items t) :
    (items.map (·.span.start)).Sublist (after.map (·.span.start)) := by
  induction fuel generalizing s after items with
  | zero =>
    cases hrun
    exact List.nil_sublist _
  | succ fuel ih =>
    by_cases hended : s.cursor.atEnd = true ∨ s.halted = true
    · rw [itemsUpTo_of_ended hended] at hrun
      cases hrun
      exact List.nil_sublist _
    obtain ⟨hmid, hgoes⟩ := not_or.1 hended
    rw [Bool.not_eq_true] at hmid hgoes
    have hgrows := composed_item.grows inherited_true hL s trivial
    cases hread : item L s with
    | ok first u =>
      rw [hread, Ending.state_ok] at hgrows
      have hlt := takes_item hL s first u hread
      obtain ⟨n, hskip⟩ := hgrows.cursor
      obtain ⟨range, hpasses⟩ := s.cursor.passes_skip n
      rw [← hskip] at hpasses
      obtain ⟨rest, rfl, hleft⟩ := hpasses.split hrest hdone
      have hnonempty : range ≠ [] := by
        rintro rfl
        rw [s.cursor.left_eq, u.cursor.left_eq, hpasses.rest, List.nil_append] at hlt
        exact Nat.lt_irrefl _ hlt
      obtain ⟨token, more, rfl, hstart⟩ :=
        (hranged.sublist (List.sublist_append_left _ _)).start_cover hpasses hnonempty
      rw [itemsUpTo_ok hmid hgoes hread] at hrun
      obtain ⟨others, v, hloop⟩ : ∃ others v, itemsUpTo L fuel u = .ok others v := recoveringUpTo_ok fuel u
      rw [hloop] at hrun
      cases hrun
      have hothers := ih hleft (hranged.sublist (List.sublist_append_right _ _)) hloop
      show (first.span.start :: others.map (·.span.start)).Sublist
        (token.span.start :: (more ++ rest).map (·.span.start))
      rw [span_item hread, hstart, List.map_append]
      exact (hothers.trans (List.sublist_append_right _ _)).cons_cons _
    | error fault u =>
      rw [hread, Ending.state_error] at hgrows
      obtain ⟨n, hskip⟩ := (hgrows.trans (.resumed L.options s.cursor .item fault u)).cursor
      obtain ⟨range, hpasses⟩ := s.cursor.passes_skip n
      rw [← hskip] at hpasses
      obtain ⟨rest, rfl, hleft⟩ := hpasses.split hrest hdone
      rw [itemsUpTo_error hmid hgoes hread] at hrun
      rw [List.map_append]
      exact (ih hleft (hranged.sublist (List.sublist_append_right _ _)) hrun).trans (List.sublist_append_right _ _)

/-- The items of a document begin where some of its tokens do, in the order of these. -/
theorem Document.read_item_starts (source : String) (options : Options) :
    ((Document.read source options).program.items.map (·.span.start)).Sublist
      ((lex source).tokens.dropLast.map (·.span.start)) := by
  unfold Document.read
  dsimp only
  split
  · exact List.nil_sublist _
  · obtain ⟨lo, hi, hlaid⟩ := lex_laid source
    obtain ⟨body, last, htokens, hdone, -, hranged, -⟩ := hlaid.ranged
    obtain ⟨items, t, hread⟩ := itemsEnding_ok (.ofSource source options) (lex source).tokens
    dsimp only
    rw [readItems_eq, hread, htokens, List.dropLast_concat]
    rw [htokens] at hread
    exact itemsUpTo_starts (level_grows _ _) hdone _ rfl hranged hread

/-- Each item of a document begins before the next one. -/
theorem Document.read_items_rising (source : String) (options : Options) :
    (Document.read source options).program.items.Pairwise fun a b => a.span.start < b.span.start := by
  obtain ⟨lo, hi, hlaid⟩ := lex_laid source
  obtain ⟨body, last, htokens, -, -, hranged, -⟩ := hlaid.ranged
  have hstarts : (body.map (·.span.start)).Pairwise (· < ·) :=
    List.pairwise_map.2 (hranged.apart.imp_of_mem fun {token later} hmem _ hapart => by
      have := hranged.wide token hmem
      omega)
  have hsublist := Document.read_item_starts source options
  rw [htokens, List.dropLast_concat] at hsublist
  exact List.pairwise_map.1 (hstarts.sublist hsublist)

end JuiceSyntax
