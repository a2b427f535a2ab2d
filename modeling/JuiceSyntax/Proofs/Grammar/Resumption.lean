/-
  Resuming at an item. Whatever stands before it, if the braces there are balanced, the reading
  of a program comes to the word that an item begins with as if there were nothing before:
  the loop over the items gets there (`itemsUpTo_reaches`), and from there on it goes in lockstep
  with the reading of what follows alone (`itemsUpTo_resumes`).

  `readItems_resumes`: so the items and faults of what follows are the last ones of the whole,
  unless the reading of the whole ends in a fatal fault.
-/
import JuiceSyntax.Proofs.Grammar.Enclosure
import JuiceSyntax.Proofs.Grammar.FatalFault
import JuiceSyntax.Proofs.Grammar.Lockstep

namespace JuiceSyntax

open Reader Grammar

/-! ## Up to the wall -/

/-- No fault of the state is fatal. -/
def State.Harmless (s : State) : Prop := ∀ fault ∈ s.faults, fault.isFatal = false

theorem State.Harmless.before {s t : State} (h : t.Harmless) (hgrows : Grows s t) : s.Harmless :=
  fun fault hmem => h fault (hgrows.faults.subset hmem)

theorem HaltedFatal.goes {s : State} (h : HaltedFatal s) (hh : s.Harmless) : s.halted = false := by
  cases hs : s.halted with
  | false => rfl
  | true =>
    obtain ⟨fault, hmem, hfatal⟩ := h hs
    exact absurd (hfatal.symm.trans (hh fault hmem)) (by decide)

section

variable {w : Wall} {setting : Setting} {n : Nat}

theorem item_haltedFatal (hstrict : setting.options.strict = false) {s : State} (hs : HaltedFatal s) :
    HaltedFatal (Ending.state (item (level setting n) s)) :=
  (composed_item.goesToFatal inherited_true hstrict n s trivial).2.haltedFatal hs

theorem itemsUpTo_grows (fuel : Nat) (s : State) : Grows s (Ending.state (itemsUpTo (level setting n) fuel s)) :=
  recoveringUpTo_steady (grows_steady inherited_true _)
    (fun s _ => composed_item.grows inherited_true (level_grows setting n) s trivial)
    _ _ fuel s trivial

theorem resumed_item_inside (options : Options) (hopens : opensItem w.first.kind = true) {start : Cursor}
    (hstart : w.Holds 0 start) (ha : w.Ahead start) (fault : Fault) {s : State} (hs : w.Inside 0 s) (hc : ∃ n, s.cursor = start.skip n) :
    w.Inside 0 (s.resumed options start .item fault) := by
  refine ⟨?_, hs.failed.congr (failed_resumed options start .item fault s)⟩
  obtain ⟨-, heq⟩ | ⟨-, -, -, -, heq⟩ := resumed_cases options start .item fault s
  · rw [heq, cursor_withFault]
    exact hs.cursor
  · rw [heq]
    exact Wall.Holds.resumeFrom_item hopens hstart ha hs.cursor hc

/-- The loop comes to the wall, or it ends before it in a fatal fault. -/
theorem itemsUpTo_reaches (hstrict : setting.options.strict = false) (hopens : opensItem w.first.kind = true)
    {fuel : Nat} {s : State} (hs : w.Inside 0 s)
    (hfuel : s.cursor.left ≤ fuel) (hhalted : HaltedFatal s)
    (hend : (Ending.state (itemsUpTo (level setting n) fuel s)).Harmless) :
    ∃ items t, w.Inside 0 t ∧ t.cursor.rest = w.tail ∧ t.halted = false ∧
      itemsUpTo (level setting n) fuel s = Ending.after items (itemsUpTo (level setting n) t.cursor.left t) := by
  have hL := level_grows setting n
  induction fuel generalizing s with
  | zero =>
    obtain ⟨front, -, -, hrest, -⟩ := hs.cursor
    rw [s.cursor.left_eq, hrest, List.length_append] at hfuel
    exact absurd hfuel (by simp [Wall.tail])
  | succ fuel ih =>
    have hgoes := hhalted.goes (hend.before (itemsUpTo_grows _ s))
    by_cases hrest : s.cursor.rest = w.tail
    · refine ⟨[], s, hs, hrest, hgoes, ?_⟩
      rw [Ending.after_nil]
      exact itemsUpTo_congr hL hfuel (Nat.le_refl _)
    have hmid := hs.cursor.atEnd hrest
    have hstays := stays_item (level_stays w setting n) hopens 0 s hs hrest (j := 0)
    have hgrows := composed_item.grows inherited_true hL s trivial
    have hitem := item_haltedFatal hstrict hhalted (n := n)
    cases hread : item (level setting n) s with
    | ok first t =>
      rw [hread] at hstays hitem
      have hlt := takes_item hL s first t hread
      rw [itemsUpTo_ok hmid hgoes hread] at hend ⊢
      rw [Ending.state_after] at hend
      obtain ⟨items, u, hu, hutail, hugoes, hloop⟩ := ih hstays (by omega) hitem hend
      refine ⟨first :: items, u, hu, hutail, hugoes, ?_⟩
      rw [hloop, Ending.after_after, List.singleton_append]
    | error fault t =>
      rw [hread] at hstays hitem hgrows
      rw [Ending.state_error] at hitem hgrows
      rw [itemsUpTo_error hmid hgoes hread] at hend ⊢
      have hinside := resumed_item_inside (level setting n).options hopens hs.cursor hrest fault hstays hgrows.cursor
      have hstrict' : (level setting n).options.strict = false := by rw [options_level]; exact hstrict
      have hfatal := (FatalLast.resumed hstrict' t s.cursor .item fault).haltedFatal hitem
      obtain hhalt | hlt := left_resumed hmid Resume.distance_item_pos hgrows fault
      · have hharmless := hend.before (itemsUpTo_grows _ _)
        exact absurd (hhalt.symm.trans (hfatal.goes hharmless)) (by decide)
      · exact ih hinside (by omega) hfatal hend

end

/-! ## At the wall -/

/-- At the wall the reader consumes the word there, whatever the state, and goes on with a
reader of what follows. -/
def Opens (w : Wall) (L : Level) {α : Type} (r : Reader α) : Prop :=
  ∃ r' : Reader α, Composed (Late (w.offset + 1)) r' ∧
    ∀ s, s.cursor.rest = w.tail → r L s = r' L { s with cursor := s.cursor.advance }

namespace Opens

variable {w : Wall} {L : Level} {α β : Type}

theorem bind {r : Reader α} {k : α → Reader β} (h : Opens w L r) (next : ∀ a, Composed (Late (w.offset + 1)) (k a)) :
    Opens w L (r >>= k) := by
  obtain ⟨r', hr', hr⟩ := h
  refine ⟨r' >>= k, .bind hr' next, fun s hs => ?_⟩
  rw [bind_apply, bind_apply, hr s hs]

/-- What is seen at the wall is the same in all states. -/
theorem cursor {k : Cursor → Reader β} (same : ∀ c c' : Cursor, c.rest = c'.rest → k c = k c')
    (next : ∀ c : Cursor, c.rest = w.tail → Opens w L (k c)) : Opens w L (Reader.cursor >>= k) := by
  obtain ⟨r', hr', hr⟩ := next (.ofTokens w.tail) rfl
  refine ⟨r', hr', fun s hs => ?_⟩
  rw [cursor_bind_apply, same s.cursor (.ofTokens w.tail) hs]
  exact hr s hs

theorem here {k : Span → Reader β} (next : Opens w L (k w.first.span)) : Opens w L (Reader.here >>= k) := by
  obtain ⟨r', hr', hr⟩ := next
  refine ⟨r', hr', fun s hs => ?_⟩
  rw [← hr s hs, ← Cursor.span_of_rest hs]
  rfl

theorem kind {k : Kind → Reader β} (next : Opens w L (k w.first.kind)) : Opens w L (Reader.kind >>= k) := by
  obtain ⟨r', hr', hr⟩ := next
  refine ⟨r', hr', fun s hs => ?_⟩
  rw [← hr s hs, ← Cursor.kind_of_rest hs]
  rfl

theorem advance {k : Token → Reader β} (next : ∀ token, Composed (Late (w.offset + 1)) (k token)) :
    Opens w L (Reader.advance >>= k) := by
  refine ⟨k w.first, next w.first, fun s hs => ?_⟩
  have hcurrent : s.cursor.current = w.first := by rw [Cursor.current, hs, Wall.tail, List.headD_cons]
  rw [bind_apply, advance_apply, Ending.andThen_ok, hcurrent]

theorem takeWord {word : Keyword} {k : Bool → Reader β} (hword : w.first.kind.isWord word = true)
    (next : Composed (Late (w.offset + 1)) (k true)) : Opens w L (Reader.takeWord word >>= k) := by
  refine ⟨k true, next, fun s hs => ?_⟩
  rw [bind_apply, takeWord_apply, Cursor.kind_of_rest hs, if_pos hword, Ending.andThen_ok]

theorem passWord {word : Keyword} {k : Bool → Reader β} (hword : w.first.kind.isWord word = false)
    (next : Opens w L (k false)) : Opens w L (Reader.takeWord word >>= k) := by
  obtain ⟨r', hr', hr⟩ := next
  refine ⟨r', hr', fun s hs => ?_⟩
  rw [bind_apply, takeWord_apply, Cursor.kind_of_rest hs, hword, if_neg (by decide), Ending.andThen_ok]
  exact hr s hs

theorem needWord {word : Keyword} {k : Span → Reader β} (hword : w.first.kind.isWord word = true)
    (next : Composed (Late (w.offset + 1)) (k w.first.span)) : Opens w L (Reader.needWord word >>= k) := by
  refine ⟨k w.first.span, next, fun s hs => ?_⟩
  rw [bind_apply, needWord_apply, Cursor.kind_of_rest hs, if_pos hword, Cursor.span_of_rest hs, Ending.andThen_ok]

end Opens

section

variable {w : Wall} {L : Level}

theorem opens_importDecl (h : w.first.kind = .word .importWord ∨ w.first.kind = .word .foreignWord) :
    Opens w L importDecl := by
  obtain h | h := h
  · exact .passWord (by rw [h]; rfl) (.needWord (by rw [h]; rfl) (composed_importPath _))
  · exact .takeWord (by rw [h]; rfl) (.bind (.needWord _) fun _ => composed_importPath _)

theorem opens_typeDecl (h : w.first.kind = .word .typeWord) : Opens w L typeDecl :=
  .takeWord (by rw [h]; rfl) (.bind (composed_declaredType _) fun _ => .bind (.atMark _) fun _ =>
    .iteBind (composed_params composed_anyName) (.pure _) fun _ => .bind (.needMark _) fun _ =>
    .bind (.atMark _) fun _ => .iteBind composed_members (.map _ .type) fun _ => .pure _)

theorem opens_implDecl (h : w.first.kind = .word .implWord) : Opens w L implDecl :=
  .needWord (by rw [h]; rfl) (.bind .type fun _ => .bind (.takeWord _) fun _ =>
    .chooseBind .type (fun _ => .pure _) (.pure _) fun _ => .bind (.needMark _) fun _ =>
    .bind (.recovering _ _ composed_implFn) fun _ => .bind (.needMark _) fun _ => .pure _)

theorem opens_itemKind (hopens : opensItem w.first.kind = true) (h : w.first.kind.isWord .exportWord = false) :
    Opens w L itemKind := by
  refine .cursor (fun c c' hc => ?_) fun c hc => ?_
  · simp only [startsDeclaration_congr hc, startsAssignment_congr hc, startsTypeDecl_congr hc, Cursor.kind,
      Cursor.span, Cursor.current, Cursor.peek, Cursor.peekSpan, hc]
  · rw [Wall.kind_tail hc]
    obtain hk | hk | hk | hk | hk := opensItem_cases hopens
    · rw [hk]
      exact .bind (opens_importDecl (.inl hk)) fun _ => .pure _
    · rw [hk]
      exact .bind (opens_importDecl (.inr hk)) fun _ => .pure _
    · rw [hk]
      exact .bind (opens_typeDecl hk) fun _ => .pure _
    · rw [hk]
      exact .bind (opens_implDecl hk) fun _ => .pure _
    · rw [hk] at h
      exact absurd h (by decide)

/-- An item begins with the word at the wall. -/
theorem opens_item (hopens : opensItem w.first.kind = true) : Opens w L item := by
  refine .here ?_
  cases hexport : w.first.kind.isWord .exportWord with
  | true => exact .takeWord hexport (composed_exported _ true)
  | false =>
    refine .passWord hexport (.cursor (fun c c' hc => ?_) fun _ _ => ?_)
    · simp only [startsExportable_congr hc, Cursor.kind, Cursor.span, Cursor.current, hc]
    · exact .bind (opens_itemKind hopens hexport) fun _ => .bind (.spanFrom _) fun _ => .pure _

end

/-! ## Past the wall -/

/-- What the state of a reading has from before. -/
def State.shift (s : State) : Shift := ⟨s.faults, s.macroBodies, s.failed⟩

variable {w : Wall} {setting : Setting} {n : Nat}

theorem apart_shift {s : State} (hs : w.Remembers s) : s.shift.Apart (Late (w.offset + 1)) := by
  intro c hc form hmem
  obtain ⟨hi, hlaid⟩ := hc
  have hle := hlaid.advance.2.1
  have := hs form _ hmem
  omega

theorem Stopped.not_harmless {m : Nat} {s t : State} (h : Stopped m s t) : ¬t.Harmless := by
  intro hharmless
  obtain ⟨fault, hmem, hcause⟩ := h.fault
  have hfatal : fault.isFatal = true := by simp only [Fault.isFatal, hcause, Cause.isFatal]
  exact absurd (hfatal.symm.trans (hharmless fault (List.mem_of_mem_drop hmem))) (by decide)

/-- From the wall on a loop goes on as one that begins there. -/
theorem recoveringUpTo_resumes {α : Type} {resume : Resume} {ends : Kind → Bool} {item : Reader α}
    (hitem : Composed (Late (w.offset + 1)) item) (hopens : Opens w (level setting n) item) (hends : ends w.first.kind = false)
    (hlate : Late (w.offset + 1) w.after) {s : State} (hs : w.Remembers s) (hrest : s.cursor.rest = w.tail)
    (hgoes : s.halted = false) {k : Nat} {c : Cursor} (habreast : s.cursor.Abreast k c)
    (hend : (Ending.state (recoveringUpTo resume ends item s.cursor.left (level setting n) s)).Harmless) :
    Ending.Shifted k s.shift (recoveringUpTo resume ends item s.cursor.left (level setting n) s)
      (recoveringUpTo resume ends item s.cursor.left (level setting n) { State.ofTokens [] with cursor := c }) := by
  have hf := inherited_late (w.offset + 1)
  have hapart := apart_shift hs
  have hsettings : Setting.Lockstep s.shift setting setting := ⟨rfl, rfl, rfl, rfl, Nat.le_add_left _ _⟩
  have hL := level_lockstep hf (fun _ => hapart) hsettings n
  have hL' := level_grows setting n
  have hgrows (t : State) (ht : Late (w.offset + 1) t.cursor.rest) := hitem.grows hf hL' t ht
  have hrest' : c.rest = w.tail := habreast.rest.symm.trans hrest
  have hmid : c.atEnd = false := by
    rw [Cursor.atEnd, Cursor.kind_of_rest hrest']
    exact w.isDone_first
  have hturn {d : Cursor} (hd : d.rest = w.tail) : ¬(ends d.kind || d.atEnd || false) = true := by
    rw [Cursor.atEnd, Wall.kind_tail hd, hends, w.isDone_first]
    decide
  obtain ⟨fuel, hleft⟩ : ∃ fuel, s.cursor.left = fuel + 1 := ⟨w.after.length, by rw [s.cursor.left_eq, hrest]; rfl⟩
  -- The word at the wall is consumed in both; from there on the states are shifted.
  have hshift : Shifted k s.shift { s with cursor := s.cursor.advance } { State.ofTokens [] with cursor := c.advance } :=
    ⟨habreast.advance hmid, (List.append_nil _).symm, hgoes, (List.append_nil _).symm, rfl, rfl⟩
  have hfine : Late (w.offset + 1) s.cursor.advance.rest := by
    rw [Cursor.rest_advance, habreast.atEnd.trans hmid, if_neg (by decide), hrest]
    exact hlate
  obtain ⟨r, hr, hread⟩ := hopens
  have hfirst : Lockstep setting.options.maxFaults k s.shift { s with cursor := s.cursor.advance }
      (item (level setting n) s) (item (level setting n) { State.ofTokens [] with cursor := c }) := by
    rw [hread s hrest, hread { State.ofTokens [] with cursor := c } hrest']
    exact hr.lockstep hf (fun _ => hapart) hL hshift hfine
  have hgrown : Grows { s with cursor := s.cursor.advance } (Ending.state (Ending.caught (item (level setting n) s))) := by
    rw [Ending.state_caught, hread s hrest]
    exact hr.grows hf hL' _ hfine
  have hsteady := grows_steady hf (level setting n).options
  have hloop (t : State) (ht : Late (w.offset + 1) t.cursor.rest) :
      Grows t (Ending.state (recoveringUpTo resume ends item fuel (level setting n) t)) :=
    recoveringUpTo_steady hsteady hgrows resume ends fuel t ht
  rw [hleft, recoveringUpTo_succ, hgoes, if_neg (hturn hrest)] at hend ⊢
  rw [recoveringUpTo_succ, show ({ State.ofTokens [] with cursor := c } : State).halted = false from rfl, if_neg (hturn hrest')]
  have hfineOf {t : State} {result : Except Fault α} (ht : Ending.caught (item (level setting n) s) = .ok result t) :
      Late (w.offset + 1) t.cursor.rest := by
    rw [ht] at hgrown
    exact hf.grows hgrown hfine
  refine (hfirst.caught.andThen hgrown (fun result t ht => ?_) fun result t t' ht hshift => ?_).resolve_right
    fun hstop => hstop.not_harmless hend
  · exact turned_steady hsteady hloop s.cursor resume result t (hfineOf ht)
  · refine turned_lockstep hf hL hloop (fun u u' hu hfine => ?_) habreast resume result hshift (hfineOf ht)
    exact recoveringUpTo_lockstep hf hL hgrows (fun _ _ => hitem.lockstep hf (fun _ => hapart) hL) _ _ fuel hu hfine

theorem itemsUpTo_resumes (hopens : opensItem w.first.kind = true) (hlate : Late (w.offset + 1) w.after) {s : State}
    (hs : w.Remembers s) (hrest : s.cursor.rest = w.tail) (hgoes : s.halted = false)
    (hend : (Ending.state (itemsUpTo (level setting n) s.cursor.left s)).Harmless) :
    Ending.Shifted s.cursor.pos s.shift (itemsUpTo (level setting n) s.cursor.left s)
      (itemsUpTo (level setting n) s.cursor.left (.ofTokens w.tail)) :=
  recoveringUpTo_resumes composed_item (opens_item hopens) rfl hlate hs hrest hgoes
    (c := .ofTokens w.tail) ⟨(Nat.zero_add _).symm, hrest⟩ hend

/-! ## Programs -/

theorem Ending.Shifted.reading_suffix {k : Nat} {δ : Shift} {ending ending' : Ending (List Item)}
    (h : Ending.Shifted k δ ending ending') (items : List Item) :
    (Ending.reading ending').value <:+ (Ending.reading (Ending.after items ending)).value ∧
      (Ending.reading ending').faults <:+ (Ending.reading (Ending.after items ending)).faults := by
  cases h with
  | ok others h => exact ⟨List.suffix_append items others, δ.faults, h.faults.symm⟩
  | error fault h => exact ⟨List.suffix_refl _, δ.faults, h.faults.symm⟩

/-- Balanced braces, then an item that begins with a word of its own: what follows is read as
if there were nothing before. -/
theorem readItems_resumes (setting : Setting) {before after : List Token} {first : Token}
    (hstrict : setting.options.strict = false) (hbalanced : Balanced before)
    (hlast : ∀ token ∈ before.getLast?,
      token.kind.isWord .exportWord = false ∧ token.kind.isWord .foreignWord = false)
    (hfirst : opensItem first.kind = true) (hlaid : ∃ lo hi, Laid lo (before ++ first :: after) hi)
    (hfatal : ∀ fault ∈ (readItems setting (before ++ first :: after)).faults, fault.isFatal = false) :
    (readItems setting (first :: after)).value <:+ (readItems setting (before ++ first :: after)).value ∧
      (readItems setting (first :: after)).faults <:+ (readItems setting (before ++ first :: after)).faults := by
  obtain ⟨lo, hi, hlaid⟩ := hlaid
  let w := Wall.ofLaid hlaid (by rw [standsFirst, hfirst, Bool.true_or]) fun _ => hlast
  have hlate : Late (w.offset + 1) w.after := hlaid.of_append.1.late w.isDone_first
  have hstart : w.Inside 0 (.ofTokens (before ++ first :: after)) :=
    ⟨⟨before, 0, List.suffix_refl _, rfl, Nat.le_refl _, hbalanced.closes⟩, fun form _ hmem => by cases form <;> cases hmem⟩
  rw [readItems_eq, Ending.faults_reading] at hfatal
  obtain ⟨items, t, ht, hrest, hgoes, hloop⟩ := itemsUpTo_reaches hstrict hfirst hstart (Nat.le_refl _) nofun hfatal
  have hwhole : itemsEnding setting (before ++ first :: after) = _ := hloop
  rw [hwhole, Ending.state_after] at hfatal
  have hresumes := itemsUpTo_resumes hfirst hlate ht.failed hrest hgoes hfatal
  have hfuel : t.cursor.left = (first :: after).length := by rw [t.cursor.left_eq, hrest]; rfl
  have hpart : itemsEnding setting (first :: after) =
      itemsUpTo (level setting setting.options.maxDepth) t.cursor.left (.ofTokens (first :: after)) := by
    rw [hfuel]
    rfl
  rw [readItems_eq, readItems_eq, hpart, hwhole]
  exact hresumes.reading_suffix items

/-- The import is read although the function before it breaks off. -/
theorem readItems_resumes_import :
    (readItems (.ofSource "impl T \x7b fn ( \x7d import a" .standard)
        ((lex "impl T \x7b fn ( \x7d import a").tokens.drop 6)).value <:+
      (readItems (.ofSource "impl T \x7b fn ( \x7d import a" .standard)
        (lex "impl T \x7b fn ( \x7d import a").tokens).value ∧
    (readItems (.ofSource "impl T \x7b fn ( \x7d import a" .standard)
        ((lex "impl T \x7b fn ( \x7d import a").tokens.drop 6)).faults <:+
      (readItems (.ofSource "impl T \x7b fn ( \x7d import a" .standard)
        (lex "impl T \x7b fn ( \x7d import a").tokens).faults := by
  have hlaid := lex_laid "impl T \x7b fn ( \x7d import a"
  have hfatal : ∀ fault ∈ (readItems (.ofSource "impl T \x7b fn ( \x7d import a" .standard)
      (lex "impl T \x7b fn ( \x7d import a").tokens).faults, fault.isFatal = false := by decide +kernel
  have hbalanced : Balanced ((lex "impl T \x7b fn ( \x7d import a").tokens.take 6) := by decide +kernel
  obtain ⟨hlen, hfirst⟩ : ∃ _ : 6 < (lex "impl T \x7b fn ( \x7d import a").tokens.length,
      opensItem (lex "impl T \x7b fn ( \x7d import a").tokens[6].kind = true := ⟨by decide +kernel, by decide +kernel⟩
  rw [← List.take_append_drop 6 (lex "impl T \x7b fn ( \x7d import a").tokens, List.drop_eq_getElem_cons hlen] at hlaid hfatal
  have h := readItems_resumes _ rfl hbalanced (by decide +kernel) hfirst hlaid hfatal
  rw [← List.drop_eq_getElem_cons hlen, List.take_append_drop] at h
  exact h

end JuiceSyntax
