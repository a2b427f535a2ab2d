/-
  Every token is accounted for. A turn of the loop over the items of a program takes a range of the
  tokens (`Cursor.Passes`). If the turn gives an item, the span of the item goes from the first
  token of the range to the last; if it fails, the fault is recorded last and without a passed
  text, so recovery notes there the text of the range. In a list of tokens that lie one after
  another, what is inside such a span is the range and nothing else (`Ranged.inside_eq`).

  `Document.read_accounted`: unless a fatal fault ends the reading of a program, its tokens are the
  ranges of its items and of some of its faults.
-/
import JuiceSyntax.Proofs.Grammar.Range
import JuiceSyntax.Proofs.Grammar.Resumption

namespace JuiceSyntax

open Reader Grammar

/-- The tokens that lie inside a span. -/
def inside (span : Span) (tokens : List Token) : List Token := tokens.filter fun token => span.holds token.span

/-- A token list in ranges, each of which is all that lies inside an item, or inside the text that a
fault notes as passed over. `all` are the tokens of the whole document. -/
inductive Accounted (all : List Token) : List Token → List Item → List Fault → Prop
  | nil : Accounted all [] [] []
  | read {range rest : List Token} {items : List Item} {faults : List Fault} (item : Item) (nonempty : range ≠ [])
    (exact : inside item.span all = range) (following : Accounted all rest items faults) :
    Accounted all (range ++ rest) (item :: items) faults
  | passed {range rest : List Token} {items : List Item} {faults : List Fault} (fault : Fault) {span : Span}
    (noted : fault.skipped = some span) (nonempty : range ≠ []) (exact : inside span all = range)
    (following : Accounted all rest items faults) : Accounted all (range ++ rest) items (fault :: faults)

/-- Without faults every token lies inside an item. -/
theorem Accounted.mem_item {all tokens : List Token} {items : List Item} {faults : List Fault}
    (h : Accounted all tokens items faults) (hnone : faults = []) :
    ∀ token ∈ tokens, ∃ item ∈ items, item.span.holds token.span = true := by
  induction h with
  | nil => exact fun _ hmem => absurd hmem List.not_mem_nil
  | read item nonempty exact following ih =>
    intro token hmem
    obtain hrange | hrest := List.mem_append.1 hmem
    · rw [← exact] at hrange
      exact ⟨item, List.mem_cons_self, (List.mem_filter.1 hrange).2⟩
    · obtain ⟨other, hother, hholds⟩ := ih hnone token hrest
      exact ⟨other, List.mem_cons_of_mem _ hother, hholds⟩
  | passed fault => cases hnone

/-! ## Ranges -/

/-- What is inside the span from the first token of a range to the last is the range. -/
theorem Ranged.inside_eq {before range after : List Token} (h : Ranged (before ++ range ++ after)) {first last : Token}
    (hfirst : range.head? = some first) (hlast : range.getLast? = some last) :
    inside (first.span.cover last.span) (before ++ range ++ after) = range := by
  obtain ⟨hfront, -, hbehind⟩ := List.pairwise_append.1 h.apart
  obtain ⟨-, -, hbefore⟩ := List.pairwise_append.1 hfront
  have hrange : Ranged range := h.sublist ((List.sublist_append_right _ _).trans (List.sublist_append_left _ _))
  have hmemFirst : first ∈ range := List.mem_of_head? hfirst
  have hmemLast : last ∈ range := List.mem_of_getLast? hlast
  have hspan : first.span.cover last.span = ⟨first.span.start, last.span.stop⟩ := by
    rw [Span.cover, Nat.min_eq_left (hrange.start_le hfirst last hmemLast),
      Nat.max_eq_right (hrange.le_stop hlast first hmemFirst)]
  have hnone : (before.filter fun token => (first.span.cover last.span).holds token.span) = [] := by
    refine List.filter_eq_nil_iff.2 fun token hmem => ?_
    have := hbefore token hmem first hmemFirst
    have := h.wide token (List.mem_append_left _ (List.mem_append_left _ hmem))
    rw [hspan, Span.holds_iff]
    dsimp only
    omega
  have hnone' : (after.filter fun token => (first.span.cover last.span).holds token.span) = [] := by
    refine List.filter_eq_nil_iff.2 fun token hmem => ?_
    have := hbehind last (List.mem_append_right _ hmemLast) token hmem
    have := h.wide token (List.mem_append_right _ hmem)
    rw [hspan, Span.holds_iff]
    dsimp only
    omega
  have hall : (range.filter fun token => (first.span.cover last.span).holds token.span) = range := by
    refine List.filter_eq_self.2 fun token hmem => ?_
    rw [hspan, Span.holds_iff]
    exact ⟨hrange.start_le hfirst token hmem, hrange.le_stop hlast token hmem⟩
  rw [inside, List.filter_append, List.filter_append, hnone, hnone', hall, List.nil_append, List.append_nil]

/-- The tokens up to a place further on are a range, and the text from here to there holds no others. -/
theorem Ranged.passed {before after : List Token} {last : Token} (h : Ranged (before ++ after)) {c d : Cursor}
    (hrest : c.rest = after ++ [last]) (hdone : last.kind.isDone = true) (hskip : ∃ n, d = c.skip n)
    (hlt : d.left < c.left) :
    ∃ range rest, range ≠ [] ∧ after = range ++ rest ∧ d.rest = rest ++ [last] ∧
      inside (c.span.cover d.previous) (before ++ after) = range := by
  obtain ⟨n, rfl⟩ := hskip
  obtain ⟨range, hpasses⟩ := c.passes_skip n
  have hnonempty : range ≠ [] := by
    rintro rfl
    rw [c.left_eq, (c.skip n).left_eq, hpasses.rest, List.nil_append] at hlt
    exact Nat.lt_irrefl _ hlt
  obtain ⟨rest, hafter, hleft⟩ := hpasses.split hrest hdone
  obtain ⟨final, hfinal⟩ : ∃ final, range.getLast? = some final := ⟨_, List.getLast?_eq_some_getLast hnonempty⟩
  obtain ⟨first, hfirst, hcover⟩ := hpasses.cover_previous hfinal
  refine ⟨range, rest, hnonempty, hafter, hleft, ?_⟩
  rw [hafter, ← List.append_assoc] at h ⊢
  rw [hcover]
  exact h.inside_eq hfirst hfinal

/-! ## Faults as they are thrown -/

/-- No text is passed over yet by a fault that the reader ends in, unless the fault is fatal. -/
def Unpassed (L : Level) {α : Type} (r : Reader α) : Prop :=
  ∀ s fault t, r L s = .error fault t → fault.isFatal = false → fault.skipped = none

structure Level.Unpassed (L : Level) : Prop where
  expr : ∀ position, JuiceSyntax.Unpassed L (Reader.expr position)
  operand : ∀ position, JuiceSyntax.Unpassed L (Reader.operand position)
  block : JuiceSyntax.Unpassed L Reader.block
  type : JuiceSyntax.Unpassed L Reader.type
  record : JuiceSyntax.Unpassed L Reader.recordLiteral

section

variable {L : Level} {α : Type}

/-- A speculation that ends in a fault ends in a fatal one. -/
theorem fatal_of_speculated {before t : State} {ending : Ending α} {fault : Fault}
    (h : speculated before ending = .error fault t) : fault.isFatal = true := by
  obtain ⟨other, hfatal, heq⟩ | ⟨a, u, -, -, heq⟩ | heq := speculated_cases before ending
  · rw [heq] at h
    cases h
    exact hfatal
  · rw [heq] at h
    cases h
  · rw [heq] at h
    cases h

theorem Composed.unpassed {r : Reader α} (h : Composed (fun _ => True) r) (hL : L.Unpassed) : Unpassed L r := by
  induction h with
  | pure | spanFrom | halted | sourceText | advance | skip | noteBody => exact fun _ _ _ hr => nomatch hr
  | record fault =>
    intro s fault' t hr
    rw [record_apply] at hr
    cases hr
  | @bind α β r k first next ih ihk =>
    intro s fault t hr
    rw [bind_apply] at hr
    cases hfirst : r L s with
    | ok a u =>
      rw [hfirst] at hr
      exact ihk a u fault t hr
    | error other u =>
      rw [hfirst] at hr
      cases hr
      exact ih s fault t hfirst
  | throw fault fresh =>
    intro s fault' t hr _
    cases hr
    exact fresh.skipped
  | cursor same next ih => exact fun s fault t hr => ih s.cursor trivial s fault t hr
  | expr position => exact hL.expr position
  | operand position => exact hL.operand position
  | block => exact hL.block
  | type => exact hL.type
  | recordLiteral => exact hL.record
  | speculate =>
    intro s fault t hr hmild
    rw [speculate_apply] at hr
    exact absurd ((fatal_of_speculated hr).symm.trans hmild) (by decide)
  | tryBrace form tried =>
    intro s fault t hr hmild
    rw [tryBrace_apply] at hr
    split at hr
    · cases hr
    · cases htried : speculated s (form.reader L s) with
      | ok found u =>
        rw [htried] at hr
        cases found <;> cases hr
      | error other u =>
        rw [htried] at hr
        cases hr
        exact absurd ((fatal_of_speculated htried).symm.trans hmild) (by decide)
  | @withTokens α tokens r inner read ih =>
    intro s fault t hr
    rw [withTokens_apply] at hr
    cases hread : r L { s with cursor := .ofTokens tokens } with
    | ok a u =>
      rw [hread] at hr
      cases hr
    | error other u =>
      rw [hread] at hr
      cases hr
      exact ih _ fault u hread
  | @recovering α resume ends item turn =>
    intro s fault t hr
    rw [recovering_apply] at hr
    obtain ⟨items, u, hok⟩ : ∃ items u, recoveringUpTo resume ends item s.cursor.left L s = .ok items u :=
      recoveringUpTo_ok _ s
    rw [hok] at hr
    cases hr

end

theorem tooDeep_unpassed {L : Level} {α : Type} {r : Reader α} {limit : Nat} (h : ∀ s, r L s = tooDeep limit s) :
    Unpassed L r := by
  intro s fault t hr hmild
  rw [h s] at hr
  cases hr
  cases hmild

theorem level_unpassed (setting : Setting) (n : Nat) : (level setting n).Unpassed := by
  induction n with
  | zero =>
    exact ⟨fun _ => tooDeep_unpassed fun _ => rfl, fun _ => tooDeep_unpassed fun _ => rfl, tooDeep_unpassed fun _ => rfl,
      tooDeep_unpassed fun _ => rfl, tooDeep_unpassed fun _ => rfl⟩
  | succ n ih =>
    exact ⟨fun position => (composed_chain inherited_true 1 position).unpassed ih,
      fun position => (composed_chain inherited_true operandLevel position).unpassed ih, composed_blockBody.unpassed ih,
      (composed_typeExpr inherited_true).unpassed ih, composed_recordExpr.unpassed ih⟩

/-! ## Turns -/

/-- The span of an item goes up to the last token consumed. -/
theorem span_item {L : Level} {s t : State} {first : Item} (h : item L s = .ok first t) :
    first.span = s.cursor.span.cover t.cursor.previous := by
  have hspan {start : Span} {exported : Bool} {content : ItemKind} {u : State}
      (h : (spanFrom start >>= fun span => (pure ⟨content, exported, span⟩ : Reader Item)) L u = .ok first t) :
      first.span = start.cover t.cursor.previous := by
    cases h
    rfl
  have hafter {start : Span} {exported : Bool} {u : State}
      (h : (itemKind >>= fun content => spanFrom start >>= fun span =>
        (pure ⟨content, exported, span⟩ : Reader Item)) L u = .ok first t) :
      first.span = start.cover t.cursor.previous := by
    obtain ⟨content, v, -, h⟩ := ok_of_bind h
    exact hspan h
  unfold item at h
  obtain ⟨start, s', hhere, h⟩ := ok_of_bind h
  cases hhere
  obtain ⟨exported, u, -, h⟩ := ok_of_bind h
  rw [cursor_bind_apply] at h
  split at h
  · cases h
  · exact hafter h

/-- A failed turn that does not halt the reading leaves its fault with the text up to where the
reading goes on. -/
theorem noted_of_resumed {L : Level} (hL : L.Grows) (hL' : L.Unpassed) {s u : State} {fault : Fault}
    (hmid : s.cursor.atEnd = false) (hread : item L s = .error fault u)
    (hgoes : (u.resumed L.options s.cursor .item fault).halted = false) :
    let after := u.resumed L.options s.cursor .item fault
    (∃ n, after.cursor = s.cursor.skip n) ∧ after.cursor.left < s.cursor.left ∧
      ∃ noted : Fault, after.faults = u.faults ++ [noted] ∧
        noted.skipped = some (s.cursor.span.cover after.cursor.previous) := by
  have hgrows := composed_item.grows inherited_true hL s trivial
  rw [hread, Ending.state_error] at hgrows
  obtain ⟨k, hskip⟩ := (hgrows.trans (.resumed L.options s.cursor .item fault u)).cursor
  have hleft := (left_resumed hmid Resume.distance_item_pos hgrows fault).resolve_left (by rw [hgoes]; decide)
  refine ⟨⟨k, hskip⟩, hleft, ?_⟩
  have hpos := s.cursor.pos_add_left_skip k
  rw [← hskip] at hpos
  obtain ⟨hhalt, heq⟩ | ⟨-, hmild, -, -, heq⟩ := resumed_cases L.options s.cursor .item fault u
  · rw [heq] at hgoes
    exact absurd (hhalt.symm.trans hgoes) (by decide)
  · rw [heq] at hleft hpos ⊢
    dsimp only at hleft hpos ⊢
    refine ⟨_, rfl, ?_⟩
    rw [Fault.passed, if_pos (by omega)]
    dsimp only
    rw [composed_item.unpassed hL' s fault u hread hmild]
    rfl

/-- Where the loop over items goes on to its end, the ranges that its turns take are those of the
items it gives and of faults that it adds. -/
theorem itemsUpTo_accounted {setting : Setting} {n : Nat} (hstrict : setting.options.strict = false)
    {all before after : List Token} {last : Token} (hranged : Ranged all) (hdone : last.kind.isDone = true) {fuel : Nat}
    {s t : State} {items : List Item} (hall : all = before ++ after) (hundone : Undone after)
    (hrest : s.cursor.rest = after ++ [last]) (hfuel : s.cursor.left ≤ fuel) (hhalted : HaltedFatal s)
    (hrun : itemsUpTo (level setting n) fuel s = .ok items t) (hend : t.Harmless) :
    ∃ added passed, t.faults = s.faults ++ added ∧ passed.Sublist added ∧ Accounted all after items passed := by
  have hL := level_grows setting n
  induction fuel generalizing s before after items with
  | zero =>
    rw [s.cursor.left_eq, hrest, List.length_append, List.length_singleton] at hfuel
    exact absurd hfuel (Nat.not_succ_le_zero _)
  | succ fuel ih =>
    have hgoing {s : State} {fuel : Nat} {items : List Item} (hhalted : HaltedFatal s)
        (hrun : itemsUpTo (level setting n) fuel s = .ok items t) : s.halted = false := by
      have hgrows : Grows s (Ending.state (itemsUpTo (level setting n) fuel s)) := itemsUpTo_grows fuel s
      rw [hrun, Ending.state_ok] at hgrows
      exact hhalted.goes (hend.before hgrows)
    have hgoes := hgoing hhalted hrun
    cases hempty : after with
    | nil =>
      rw [hempty] at hrest
      have hended : s.cursor.atEnd = true := by rw [Cursor.atEnd, Cursor.kind_of_rest hrest, hdone]
      rw [itemsUpTo_of_ended (.inl hended)] at hrun
      cases hrun
      exact ⟨[], [], (List.append_nil _).symm, .slnil, .nil⟩
    | cons token tokens =>
      have hmid : s.cursor.atEnd = false := by
        rw [Cursor.atEnd, Cursor.kind_of_rest (hempty ▸ hrest)]
        exact hundone token (hempty ▸ List.mem_cons_self)
      rw [← hempty]
      have hgrows := composed_item.grows inherited_true hL s trivial
      have hitem := item_haltedFatal hstrict hhalted (n := n)
      rw [hall] at hranged
      cases hread : item (level setting n) s with
      | ok first u =>
        rw [hread, Ending.state_ok] at hgrows hitem
        have hlt := takes_item hL s first u hread
        obtain ⟨range, rest, hnonempty, hafter, hleft, hexact⟩ := hranged.passed hrest hdone hgrows.cursor hlt
        rw [itemsUpTo_ok hmid hgoes hread] at hrun
        obtain ⟨others, v, hloop⟩ : ∃ others v, itemsUpTo (level setting n) fuel u = .ok others v :=
          recoveringUpTo_ok fuel u
        rw [hloop] at hrun
        cases hrun
        have hsplit : all = before ++ range ++ rest := by rw [hall, hafter, List.append_assoc]
        obtain ⟨added, passed, hfaults, hsub, haccounted⟩ := ih hsplit (fun t ht => hundone t (hafter ▸ List.mem_append_right _ ht)) hleft
          (by omega) hitem hloop
        obtain ⟨early, hearly⟩ := hgrows.faults
        rw [← hall, ← span_item hread] at hexact
        rw [hafter]
        exact ⟨early ++ added, passed, by rw [hfaults, ← hearly, List.append_assoc],
          hsub.trans (List.sublist_append_right _ _), .read first hnonempty hexact haccounted⟩
      | error fault u =>
        rw [hread, Ending.state_error] at hgrows hitem
        rw [itemsUpTo_error hmid hgoes hread] at hrun
        have hstrict' : (level setting n).options.strict = false := by rw [options_level, hstrict]
        have hfatal := (FatalLast.resumed hstrict' u s.cursor .item fault).haltedFatal hitem
        obtain ⟨hskip, hlt, noted, hnoted, hskipped⟩ :=
          noted_of_resumed hL (level_unpassed setting n) hmid hread (hgoing hfatal hrun)
        obtain ⟨range, rest, hnonempty, hafter, hleft, hexact⟩ := hranged.passed hrest hdone hskip hlt
        have hsplit : all = before ++ range ++ rest := by rw [hall, hafter, List.append_assoc]
        obtain ⟨added, passed, hfaults, hsub, haccounted⟩ := ih hsplit (fun t ht => hundone t (hafter ▸ List.mem_append_right _ ht)) hleft
          (by omega) hfatal hrun
        obtain ⟨early, hearly⟩ := hgrows.faults
        rw [← hall] at hexact
        rw [hafter]
        refine ⟨early ++ noted :: added, noted :: passed, ?_, (hsub.cons_cons _).trans (List.sublist_append_right _ _),
          .passed noted hskipped hnonempty hexact haccounted⟩
        rw [hfaults, hnoted, ← hearly]
        simp only [List.append_assoc, List.singleton_append]

/-! ## Documents -/

theorem readItems_accounted {setting : Setting} {tokens : List Token} (hlaid : ∃ lo hi, Laid lo tokens hi)
    (hstrict : setting.options.strict = false)
    (hfatal : ∀ fault ∈ (readItems setting tokens).faults, fault.isFatal = false) :
    ∃ passed, passed.Sublist (readItems setting tokens).faults ∧
      Accounted (tokens.filter fun token => !token.kind.isDone) (tokens.filter fun token => !token.kind.isDone)
        (readItems setting tokens).value passed := by
  obtain ⟨lo, hi, hlaid⟩ := hlaid
  obtain ⟨body, last, rfl, hdone, hundone, hranged, -⟩ := hlaid.ranged
  have hbody : ((body ++ [last]).filter fun token => !token.kind.isDone) = body := by
    have hkept : (body.filter fun token => !token.kind.isDone) = body :=
      List.filter_eq_self.2 fun token hmem => by rw [hundone token hmem]; rfl
    rw [List.filter_append, hkept, List.filter_cons_of_neg (by rw [hdone]; decide), List.filter_nil, List.append_nil]
  obtain ⟨items, t, hends⟩ := itemsEnding_ok setting (body ++ [last])
  rw [readItems_eq, hends] at hfatal ⊢
  rw [hbody]
  have hall : body = [] ++ body := rfl
  obtain ⟨added, passed, hfaults, hsub, haccounted⟩ := itemsUpTo_accounted hstrict hranged hdone hall
    hundone rfl (Nat.le_refl _) (fun h => absurd h Bool.false_ne_true) hends hfatal
  rw [show (State.ofTokens (body ++ [last])).faults = [] from rfl, List.nil_append] at hfaults
  refine ⟨passed, ?_, haccounted⟩
  show passed.Sublist t.faults
  rw [hfaults]
  exact hsub

/-- No token of a program is dropped silently: unless a fatal fault ends the reading, the tokens before
the end are ranges, one after another, each of which is all that lies inside one item or inside the
text passed over by one fault, no fault being used twice. Without faults every token lies inside an
item. -/
theorem Document.read_accounted (source : String) (options : Options) (hstrict : options.strict = false)
    (hfatal : ∀ fault ∈ (Document.read source options).faults, fault.isFatal = false) :
    let document := Document.read source options
    let tokens := document.tokens.filter fun token => !token.kind.isDone
    (∃ passed, passed.Sublist document.faults ∧ Accounted tokens tokens document.program.items passed) ∧
      (document.faults = [] → ∀ token ∈ tokens, ∃ item ∈ document.program.items, item.span.holds token.span = true) := by
  rw [read_eq source hstrict] at hfatal ⊢
  dsimp only [Document.ofReading] at hfatal ⊢
  have hstrict' : (Setting.ofSource source options).options.strict = false := hstrict
  obtain ⟨passed, hsub, haccounted⟩ := readItems_accounted (lex_laid source) hstrict' hfatal
  refine ⟨⟨passed, hsub, haccounted⟩, fun hnone => haccounted.mem_item ?_⟩
  rw [hnone] at hsub
  exact List.sublist_nil.1 hsub

/-- The function is read, the fault in it with its own passed text is not a part, and the brace and the
words after it are one. -/
theorem Document.read_accounted_brace :
    (∀ fault ∈ (Document.read "fn f() \x7b x = ) \x7d \x7d y z := 1" .standard).faults, fault.isFatal = false) ∧
    ∃ passed, passed.Sublist (Document.read "fn f() \x7b x = ) \x7d \x7d y z := 1" .standard).faults ∧
      Accounted ((Document.read "fn f() \x7b x = ) \x7d \x7d y z := 1" .standard).tokens.filter fun token => !token.kind.isDone)
        ((Document.read "fn f() \x7b x = ) \x7d \x7d y z := 1" .standard).tokens.filter fun token => !token.kind.isDone)
        (Document.read "fn f() \x7b x = ) \x7d \x7d y z := 1" .standard).program.items passed := by
  have hfatal : ∀ fault ∈ (Document.read "fn f() \x7b x = ) \x7d \x7d y z := 1" .standard).faults, fault.isFatal = false := by
    decide +kernel
  exact ⟨hfatal, (Document.read_accounted _ .standard rfl hfatal).1⟩

end JuiceSyntax
