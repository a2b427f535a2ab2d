/-
  How much room a reading needs. One that remembers braces passes over some that a plain one tries again,
  maybe with fewer levels below it or more faults before it, and so ends where a plain one with the same
  limits is doomed. But with enough room that one is not doomed either (`Composed.costs`): a brace is only
  remembered if a plain reading of it would not be doomed with enough room (`Affordable`).

  `Composed.plainly`: whatever is read of a text without being doomed, some plain reading gives too.
-/
import JuiceSyntax.Proofs.Grammar.Memory

namespace JuiceSyntax

open Reader Grammar

/-! ## Room -/

/-- So many levels below, and so many faults until the limit. -/
structure Ample (room : Nat) (setting : Setting) (n : Nat) (s : State) : Prop where
  levels : room ≤ n
  faults : s.faults.length + room ≤ setting.options.maxFaults

theorem Ample.mono {room room' n : Nat} {setting : Setting} {s : State} (h : Ample room' setting n s) (hle : room ≤ room') :
    Ample room setting n s := by
  have hlevels := h.levels
  have hfaults := h.faults
  exact ⟨by omega, by omega⟩

/-- With enough room this holds of all plain readings from the same place as `s`. -/
def Eventually (source : List Char) (s : State) (what : Setting → Nat → Past → State → Prop) : Prop :=
  ∃ room, ∀ setting n past s', setting.Plain source → Twins past s s' → Ample room setting n s' → what setting n past s'

namespace Eventually

variable {source : List Char} {s t : State} {what what' : Setting → Nat → Past → State → Prop}

theorem of_all (h : ∀ setting n past s', setting.Plain source → Twins past s s' → what setting n past s') :
    Eventually source s what :=
  ⟨0, fun setting n past s' hplain hs _ => h setting n past s' hplain hs⟩

theorem imp (h : Eventually source s what)
    (h' : ∀ setting n past s', setting.Plain source → Twins past s s' → what setting n past s' → what' setting n past s') :
    Eventually source s what' := by
  obtain ⟨room, h⟩ := h
  exact ⟨room, fun setting n past s' hplain hs hroom => h' setting n past s' hplain hs (h setting n past s' hplain hs hroom)⟩

theorem and (h : Eventually source s what) (h' : Eventually source s what') :
    Eventually source s fun setting n past s' => what setting n past s' ∧ what' setting n past s' := by
  obtain ⟨room, h⟩ := h
  obtain ⟨room', h'⟩ := h'
  exact ⟨room + room', fun setting n past s' hplain hs hroom =>
    ⟨h setting n past s' hplain hs (hroom.mono (Nat.le_add_right _ _)),
      h' setting n past s' hplain hs (hroom.mono (Nat.le_add_left _ _))⟩⟩

/-- What holds with enough room later on does so with enough room now: it takes as much more as there are faults
in between. -/
theorem later (h : Eventually source t what) :
    Eventually source s fun setting n past _ => ∀ t', Twins past t t' → what setting n past t' := by
  obtain ⟨room, h⟩ := h
  refine ⟨t.faults.length + room, fun setting n past s' hplain hs hroom t' ht => h setting n past t' hplain ht ?_⟩
  have hlength := hs.length
  have hlength' := ht.length
  have hlevels := hroom.levels
  have hfaults := hroom.faults
  exact ⟨by omega, by omega⟩

/-- There is room for one fault more. -/
theorem space (source : List Char) (s : State) :
    Eventually source s fun setting _ _ s' => s'.faults.length + 1 < setting.options.maxFaults :=
  ⟨2, fun _ _ _ _ _ _ hroom => by have := hroom.faults; omega⟩

end Eventually

/-! ## What a reading costs -/

/-- With enough room no plain reading of the form from these tokens is doomed. -/
def Affordable (source : List Char) (form : BraceForm) (tokens : List Token) : Prop :=
  ∃ room, ∀ (setting : Setting) (n : Nat) (s : State), setting.Plain source → Ample room setting n s → s.halted = false →
    s.cursor.rest = tokens → ¬Ending.Doomed (form.reader (level setting n) s)

/-- A reading that goes on at tokens of the document, and what it remembers is right and can be afforded. -/
structure Ready (doc : List Token) (source : List Char) (s : State) : Prop where
  goes : s.halted = false
  stands : Stands doc s.cursor.rest
  sound : s.Sound source doc
  affordable : s.Says doc (Affordable source)

/-- A reading that is not doomed keeps its memory affordable, and with enough room no plain one from the same
place is doomed. -/
def Costs (doc : List Token) (setting : Setting) (n : Nat) {α : Type} (r : Reader α) : Prop :=
  ∀ s, Ready doc setting.source s → ¬Ending.Doomed (r (level setting n) s) →
    (Ending.state (r (level setting n) s)).Says doc (Affordable setting.source) ∧
    Eventually setting.source s fun setting' n' _ s' => ¬Ending.Doomed (r (level setting' n') s')

structure LevelCosts (doc : List Token) (setting : Setting) (n : Nat) : Prop where
  expr : ∀ position, Costs doc setting n (Reader.expr position)
  operand : ∀ position, Costs doc setting n (Reader.operand position)
  block : Costs doc setting n Reader.block
  type : Costs doc setting n Reader.type
  record : Costs doc setting n Reader.recordLiteral

section

variable {doc : List Token} {setting : Setting} {n : Nat} {s t : State} {α β : Type} {r : Reader α}

/-- What is known of the ending of a reading that agrees with the plain ones. -/
structure Afforded (doc : List Token) (setting : Setting) (n : Nat) (r : Reader α) (s : State) : Prop where
  ready : Ready doc setting.source (Ending.state (r (level setting n) s))
  twins : Eventually setting.source s fun setting' n' past s' =>
    Ending.Twins past (r (level setting n) s) (r (level setting' n') s')

theorem Ending.goes_state {ending : Ending α} (h : ¬Ending.Doomed ending) : (Ending.state ending).halted = false := by
  cases ending with
  | ok a t => simpa [Ending.Doomed] using h
  | error fault t =>
    rw [Ending.state_error]
    cases hh : t.halted with
    | false => rfl
    | true => exact absurd (.inr hh) h

theorem Costs.afforded (h : Costs doc setting n r) (hr : Forward doc r) (hagrees : Agrees doc setting n r)
    (hs : Ready doc setting.source s) (hdoom : ¬Ending.Doomed (r (level setting n) s)) : Afforded doc setting n r s := by
  obtain ⟨haffordable, hroom⟩ := h s hs hdoom
  obtain ⟨hsound, htwins⟩ := hagrees s hs.goes hs.stands hs.sound
  have hstands := (inherited_stands doc).grows (hr setting n s hs.stands) hs.stands
  refine ⟨⟨Ending.goes_state hdoom, hstands, hsound hdoom, haffordable⟩, ?_⟩
  exact hroom.imp fun setting' n' past s' hplain hs' hdoom' => htwins setting' n' past s' hplain hs' hdoom' (.inl hdoom)

/-- A step that always gives a result, and neither halts nor remembers anything. -/
theorem costs_still (h : ∀ L s, ∃ a t, r L s = .ok a t ∧ t.halted = s.halted ∧ ∀ form, t.failed form = s.failed form) :
    Costs doc setting n r := by
  intro s hs _
  refine ⟨?_, .of_all fun setting' n' past s' _ hs' => ?_⟩
  · obtain ⟨a, t, heq, -, hfailed⟩ := h (level setting n) s
    rw [heq]
    exact hs.affordable.congr hfailed
  · obtain ⟨a, t, heq, hhalted, -⟩ := h (level setting' n') s'
    rw [heq]
    exact fun hdoomed => absurd ((hhalted.trans hs'.goes').symm.trans hdoomed) (by decide)

theorem Costs.pure (a : α) : Costs doc setting n (Pure.pure a) :=
  costs_still fun _ s => ⟨a, s, rfl, rfl, fun _ => rfl⟩

/-- One step and what follows it. -/
theorem costs_andThen {k : α → Reader β} (hr : Forward doc r) (hk : ∀ a, Forward doc (k a)) (hagrees : Agrees doc setting n r)
    (h : Costs doc setting n r) (h' : ∀ a, Costs doc setting n (k a)) : Costs doc setting n (r >>= k) := by
  intro s hs hdoom
  have hfirst : ¬Ending.Doomed (r (level setting n) s) := by
    rw [bind_apply] at hdoom
    refine fun hd => hdoom (hd.andThen fun a t ht => hk a setting n t ?_)
    have hgrows := hr setting n s hs.stands
    rw [ht] at hgrows
    exact (inherited_stands doc).grows hgrows hs.stands
  obtain ⟨hready, htwins⟩ := h.afforded hr hagrees hs hfirst
  rw [bind_apply] at hdoom ⊢
  cases hend : r (level setting n) s with
  | error fault t =>
    rw [hend] at hready htwins
    refine ⟨hready.affordable, htwins.imp fun setting' n' past s' _ _ hends => ?_⟩
    rw [bind_apply]
    cases hend' : r (level setting' n') s' with
    | ok a t' =>
      rw [hend'] at hends
      cases hends
    | error fault' t' =>
      rw [hend'] at hends
      exact hends.not_doomed'
  | ok a t =>
    rw [hend] at hdoom hready htwins
    obtain ⟨haffordable, hrest⟩ := h' a t hready hdoom
    refine ⟨haffordable, (htwins.and hrest.later).imp fun setting' n' past s' _ _ hboth => ?_⟩
    obtain ⟨hends, hlater⟩ := hboth
    rw [bind_apply]
    cases hend' : r (level setting' n') s' with
    | error fault' t' =>
      rw [hend'] at hends
      cases hends
    | ok a' t' =>
      rw [hend'] at hends
      cases hends with
      | ok _ ht => exact hlater t' ht

/-! ### Faults -/

/-- A mild fault does not halt a plain reading with space for it. -/
theorem goes_withFault {options : Options} (hstrict : options.strict = false) {fault : Fault}
    (hmild : fault.isFatal = false) (hs : s.halted = false) (hspace : s.faults.length + 1 < options.maxFaults) :
    (s.withFault options fault).halted = false := by
  rw [State.withFault, hs, if_neg (by decide), hmild, hstrict, if_neg (by decide), if_neg (by omega)]

/-- A fault that does not halt is mild. -/
theorem mild_of_goes {options : Options} {fault : Fault} (hs : s.halted = false)
    (h : (s.withFault options fault).halted = false) : fault.isFatal = false := by
  obtain ⟨hh, -⟩ | ⟨-, -, heq⟩ | ⟨-, hmild, -⟩ | ⟨-, hmild, -⟩ := withFault_cases options fault s
  · exact absurd (hs.symm.trans hh) (by decide)
  · rw [heq] at h
    cases h
  · exact hmild
  · exact hmild

theorem costs_record (fault : Fault) : Costs doc setting n (record fault) := by
  intro s hs hdoom
  rw [record_apply, options_level] at hdoom ⊢
  have hmild := mild_of_goes hs.goes (Ending.goes_of_not_doomed hdoom)
  refine ⟨hs.affordable.congr (failed_withFault _ fault s), (Eventually.space _ s).imp fun setting' n' past s' hplain hs' hspace => ?_⟩
  rw [record_apply, options_level]
  have hgoes := goes_withFault hplain.strict hmild hs'.goes' hspace
  exact fun hdoomed => absurd (hgoes.symm.trans hdoomed) (by decide)

/-! ### Loops -/

theorem costs_recoveringUpTo (hstrict : setting.options.strict = false) {item : Reader α} (hitem : Forward doc item)
    (hagrees : Agrees doc setting n item) (h : Costs doc setting n item) (resume : Resume) (ends : Kind → Bool) (fuel : Nat) :
    Costs doc setting n (recoveringUpTo resume ends item fuel) := by
  induction fuel with
  | zero => exact .pure []
  | succ fuel ih =>
    have hloop := forward_recoveringUpTo hitem resume ends fuel
    have hseq : Costs doc setting n (item >>= fun first => recoveringUpTo resume ends item fuel >>= fun rest =>
        Pure.pure (first :: rest)) :=
      costs_andThen hitem (fun _ => hloop.thenPure _) hagrees h fun _ =>
        costs_andThen hloop (fun _ _ _ t _ => .refl t) (agrees_recoveringUpTo hstrict hitem hagrees resume ends fuel) ih
          fun _ => .pure _
    intro s hs hdoom
    by_cases hend : (ends s.cursor.kind || s.cursor.atEnd || s.halted) = true
    · rw [recoveringUpTo_succ, if_pos hend]
      refine ⟨hs.affordable, .of_all fun setting' n' past s' _ hs' => ?_⟩
      rw [hs'.cursor.kind, hs'.cursor.atEnd, hs'.goes, ← hs'.goes'] at hend
      rw [recoveringUpTo_succ, if_pos hend]
      exact fun hdoomed => absurd (hs'.goes'.symm.trans hdoomed) (by decide)
    have hend' {past : Past} {s' : State} (hs' : Twins past s s') :
        ¬(ends s'.cursor.kind || s'.cursor.atEnd || s'.halted) = true := by
      rwa [← hs'.cursor.kind, ← hs'.cursor.atEnd, hs'.goes', ← hs'.goes]
    obtain ⟨hready, htwins⟩ := h.afforded hitem hagrees hs (not_doomed_turn hitem hend hs.stands hdoom)
    cases hread : item (level setting n) s with
    | ok first t =>
      rw [recoveringUpTo_of_ok hend hread] at hdoom ⊢
      obtain ⟨haffordable, hroom⟩ := hseq s hs hdoom
      refine ⟨haffordable, (htwins.and hroom).imp fun setting' n' past s' _ hs' hboth => ?_⟩
      obtain ⟨hends, hseq'⟩ := hboth
      cases hread' : item (level setting' n') s' with
      | ok first' t' =>
        rw [recoveringUpTo_of_ok (hend' hs') hread']
        exact hseq'
      | error fault' t' =>
        rw [hread, hread'] at hends
        cases hends
    | error fault t =>
      rw [hread] at hready htwins
      rw [recoveringUpTo_of_error hend hread] at hdoom ⊢
      obtain ⟨hstands, hgoes⟩ := resumed_of_not_doomed hitem hs.stands hread hdoom
      have hfailed := failed_resumed setting.options s.cursor resume fault t
      obtain ⟨haffordable, hroom⟩ :=
        ih _ ⟨hgoes, hstands, hready.sound.congr hfailed, hready.affordable.congr hfailed⟩ hdoom
      have hspace := (Eventually.space setting.source t).later (s := s)
      refine ⟨haffordable, ((htwins.and hspace).and hroom.later).imp fun setting' n' past s' hplain hs' hall => ?_⟩
      obtain ⟨⟨hends, hspace⟩, hlater⟩ := hall
      cases hread' : item (level setting' n') s' with
      | ok first' t' =>
        rw [hread'] at hends
        cases hends
      | error fault' t' =>
        rw [hread'] at hends
        rw [recoveringUpTo_of_error (hend' hs') hread']
        cases hends with
        | error mild ht =>
          have hgoes' : (t'.resumed setting'.options s'.cursor resume fault).halted = false := by
            rw [halted_resumed]
            exact goes_withFault hplain.strict mild ht.goes' (hspace t' ht)
          have hgoes : _ ∨ Room setting n setting' n' past := .inl hgoes
          exact hlater _ (resumed_twins hstrict hs'.cursor resume ht fault hgoes' hgoes)

/-! ### Attempts -/

/-- A speculation whose reading is not doomed. -/
theorem not_doomed_speculated {ending : Ending α} (hs : s.halted = false) (hlast : FatalLast s (Ending.state ending))
    (hdoom : ¬Ending.Doomed ending) : ¬Ending.Doomed (speculated s ending) := by
  have hnone := hlast.find?_of_goes (Ending.goes_state hdoom)
  have hback (t : State) : ¬Ending.Doomed (.ok none (s.rewind t) : Ending (Option α)) :=
    fun hdoomed => absurd (hs.symm.trans hdoomed) (by decide)
  cases ending with
  | ok a t =>
    rw [Ending.state_ok] at hnone
    rw [speculated_ok, hnone]
    dsimp only
    split
    · exact hdoom
    · exact hback t
  | error fault t =>
    rw [Ending.state_error] at hnone
    rw [speculated_error, hnone]
    dsimp only
    rw [if_neg fun hfatal => hdoom (.inl hfatal)]
    exact hback t

theorem failed_speculated {ending : Ending α} (form : BraceForm) :
    (Ending.state (speculated s ending)).failed form = (Ending.state ending).failed form := by
  obtain ⟨fault, -, heq⟩ | ⟨a, t, rfl, -, heq⟩ | heq := speculated_cases s ending
  · rw [heq]
    rfl
  · rw [heq]
    rfl
  · rw [heq]
    exact failed_rewind s _ form

/-- What the reading costs is what the speculation costs. -/
theorem costs_speculated (hstrict : setting.options.strict = false) (hr : Composed (Stands doc) r) (h : Costs doc setting n r)
    (hs : Ready doc setting.source s) (hdoom : ¬Ending.Doomed (speculated s (r (level setting n) s))) :
    (Ending.state (speculated s (r (level setting n) s))).Says doc (Affordable setting.source) ∧
      Eventually setting.source s fun setting' n' _ s' => ¬Ending.Doomed (speculated s' (r (level setting' n') s')) := by
  have hf := inherited_stands doc
  have hinner : ¬Ending.Doomed (r (level setting n) s) :=
    fun hd => hdoom (hd.speculated hs.goes (hr.fatalHalt hf hstrict n s hs.stands))
  obtain ⟨haffordable, hroom⟩ := h s hs hinner
  refine ⟨haffordable.congr failed_speculated, hroom.imp fun setting' n' past s' hplain hs' hdoom' => ?_⟩
  have hstands' : Stands doc s'.cursor.rest := hs'.cursor.rest ▸ hs.stands
  exact not_doomed_speculated hs'.goes' (hr.goesToFatal hf hplain.strict n' s' hstands').2 hdoom'

/-- Where no brace is, no form costs anything. -/
theorem affordable_of_not_brace (source : List Char) (form : BraceForm) {tokens : List Token}
    (h : (firstToken tokens).kind.isMark .lBrace = false) : Affordable source form tokens := by
  refine ⟨1, fun setting n s _ hroom hs hrest hdoomed => ?_⟩
  obtain ⟨n, rfl⟩ : ∃ k, n = k + 1 := ⟨n - 1, by have := hroom.levels; omega⟩
  have hkind : s.cursor.kind.isMark .lBrace = false := by
    rw [← h, ← hrest]
    rfl
  obtain ⟨next, hnext⟩ := reader_level form setting n
  rw [hnext, bind_apply, needMark_apply, hkind, if_neg (by decide)] at hdoomed
  obtain hfatal | hhalted := hdoomed
  · cases hfatal
  · exact absurd (hs.symm.trans hhalted) (by decide)

/-- A brace that a reading got beyond without being doomed can be afforded by all. -/
theorem affordable_of_eventually {form : BraceForm} (hs : s.halted = false) (hbrace : s.cursor.kind.isMark .lBrace = true)
    (h : Eventually setting.source s fun setting' n' _ s' => ¬Ending.Doomed (form.reader (level setting' n') s')) :
    Affordable setting.source form s.cursor.rest := by
  obtain ⟨room, h⟩ := h
  refine ⟨room + 1, fun setting' n' s' hplain hroom hs' hrest => ?_⟩
  obtain ⟨n', rfl⟩ : ∃ k, n' = k + 1 := ⟨n' - 1, by have := hroom.levels; omega⟩
  have hbrace' : s'.cursor.kind.isMark .lBrace = true := by
    rw [← hbrace]
    simp only [Cursor.kind, Cursor.current, hrest]
  have hroom' := hroom.mono (Nat.le_succ room)
  -- The token before the brace may be another one there, but nothing is read of it.
  rw [← reader_behind form setting' n' hbrace' (c := { s'.cursor with last := s.cursor.last }) rfl rfl]
  exact h setting' (n' + 1) _ _ hplain (twins_elsewhere hs hs' hrest) ⟨hroom'.levels, hroom'.faults⟩

theorem costs_tryBrace {lo hi : Nat} (hspread : Spread lo (places doc) hi) (hstrict : setting.options.strict = false)
    {form : BraceForm} (hr : Composed (Stands doc) form.reader) (h : Costs doc setting n form.reader) :
    Costs doc setting n (tryBrace form form.reader) := by
  intro s hs hdoom
  have plainly (h : Eventually setting.source s fun setting' n' _ s' =>
      ¬Ending.Doomed (speculated s' (form.reader (level setting' n') s'))) :
      Eventually setting.source s fun setting' n' _ s' => ¬Ending.Doomed (tryBrace form form.reader (level setting' n') s') := by
    refine h.imp fun setting' n' past s' hplain _ hdoom' => ?_
    rw [hplain.tryBrace]
    exact mt Ending.doomed_noted.1 hdoom'
  by_cases hskip : ((level setting n).remember && (s.failed form).contains s.cursor.span.start) = true
  · rw [tryBrace_apply, if_pos hskip]
    -- The plain reading tries the brace, which it can afford.
    have hmem : s.cursor.span.start ∈ s.failed form := List.contains_iff_mem.1 (Bool.and_eq_true_iff.1 hskip).2
    obtain ⟨room, hroom⟩ := hs.affordable form _ hmem s.cursor.rest hs.stands.1 rfl
    refine ⟨hs.affordable, plainly ⟨room, fun setting' n' past s' hplain hs' hample => ?_⟩⟩
    have hstands' : Stands doc s'.cursor.rest := hs'.cursor.rest ▸ hs.stands
    exact not_doomed_speculated hs'.goes' (hr.goesToFatal (inherited_stands doc) hplain.strict n' s' hstands').2
      (hroom setting' n' s' hplain hample hs'.goes' hs'.cursor.rest.symm)
  · rw [tryBrace_apply, if_neg hskip] at hdoom ⊢
    have hdoom := mt Ending.doomed_noted.2 hdoom
    obtain ⟨haffordable, hroom⟩ := costs_speculated hstrict hr h hs hdoom
    refine ⟨?_, plainly hroom⟩
    cases hend : speculated s (form.reader (level setting n) s) with
    | error fault t =>
      rw [hend] at haffordable
      exact haffordable
    | ok found t =>
      rw [hend] at haffordable
      cases found with
      | some e => exact haffordable
      | none =>
        refine haffordable.noteFailed fun tokens hmem hstart => ?_
        cases hbrace : (firstToken tokens).kind.isMark .lBrace with
        | false => exact affordable_of_not_brace setting.source form hbrace
        | true =>
          have hsame : tokens = s.cursor.rest :=
            hspread.eq_of_startOf hmem hs.stands.1 (isDone_of_isMark hbrace) hstart
          have hinner : ¬Ending.Doomed (form.reader (level setting n) s) :=
            fun hd => hdoom (hd.speculated hs.goes (hr.fatalHalt (inherited_stands doc) hstrict n s hs.stands))
          rw [hsame] at hbrace ⊢
          exact affordable_of_eventually hs.goes hbrace (h s hs hinner).2

/-! ### Other token lists -/

theorem costs_withTokens {tokens : List Token} (hinner : Stands doc tokens) (h : Costs doc setting n r) :
    Costs doc setting n (withTokens tokens r) := by
  intro s hs hdoom
  rw [withTokens_apply, Ending.doomed_placed] at hdoom
  have hfailed := failed_placed s (.ofTokens tokens)
  obtain ⟨haffordable, room, hroom⟩ :=
    h { s with cursor := .ofTokens tokens } ⟨hs.goes, hinner, hs.sound.congr hfailed, hs.affordable.congr hfailed⟩ hdoom
  refine ⟨?_, room, fun setting' n' past s' hplain hs' hample => ?_⟩
  · rw [withTokens_apply, Ending.state_placed]
    exact haffordable.congr (failed_placed _ _)
  · show ¬Ending.Doomed (withTokens tokens r (level setting' n') s')
    rw [withTokens_apply, Ending.doomed_placed]
    have hbegin : Cursor.Beside 0 0 (.ofTokens tokens) (.ofTokens tokens) := ⟨rfl, rfl, rfl⟩
    exact hroom setting' n' _ _ hplain (hs'.at (0, 0) hbegin) ⟨hample.levels, hample.faults⟩

/-! ## Readers -/

/-- Readers cost only so much, if those of their level do. -/
theorem Composed.costs {lo hi : Nat} (hspread : Spread lo (places doc) hi) (hstrict : setting.options.strict = false)
    (h : Composed (Stands doc) r) (hL : LevelCosts doc setting n) : Costs doc setting n r := by
  have hagrees {γ : Type} {r : Reader γ} (h : Composed (Stands doc) r) : Agrees doc setting n r :=
    h.agrees hspread hstrict (level_agrees hspread hstrict n)
  induction h with
  | pure a => exact .pure a
  | bind first next ih ihk => exact costs_andThen first.forward (fun a => (next a).forward) (hagrees first) ih ihk
  | throw fault =>
    refine fun s hs hdoom => ⟨hs.affordable, .of_all fun setting' n' past s' _ hs' hdoomed => ?_⟩
    obtain hfatal | hhalted := hdoomed
    · exact hdoom (.inl hfatal)
    · exact absurd (hs'.goes'.symm.trans hhalted) (by decide)
  | cursor same next ih =>
    intro s hs hdoom
    obtain ⟨haffordable, hroom⟩ := ih s.cursor hs.stands s hs hdoom
    refine ⟨haffordable, hroom.imp fun setting' n' past s' _ hs' hdoom' => ?_⟩
    rw [cursor_bind_apply, same s'.cursor s.cursor hs'.cursor.rest.symm]
    exact hdoom'
  | spanFrom start => exact costs_still fun _ s => ⟨_, s, rfl, rfl, fun _ => rfl⟩
  | halted => exact costs_still fun _ s => ⟨_, s, rfl, rfl, fun _ => rfl⟩
  | sourceText span => exact costs_still fun _ s => ⟨_, s, rfl, rfl, fun _ => rfl⟩
  | advance => exact costs_still fun _ s => ⟨_, _, rfl, rfl, failed_placed s _⟩
  | skip k => exact costs_still fun _ s => ⟨_, _, rfl, rfl, failed_placed s _⟩
  | noteBody inner => exact costs_still fun _ s => ⟨_, _, rfl, rfl, failed_noteBody s inner⟩
  | record fault => exact costs_record fault
  | expr position => exact hL.expr position
  | operand position => exact hL.operand position
  | block => exact hL.block
  | type => exact hL.type
  | recordLiteral => exact hL.record
  | speculate tried ih =>
    intro s hs hdoom
    rw [speculate_apply] at hdoom ⊢
    obtain ⟨haffordable, hroom⟩ := costs_speculated hstrict tried ih hs hdoom
    refine ⟨haffordable, hroom.imp fun setting' n' past s' _ _ hdoom' => ?_⟩
    rwa [speculate_apply]
  | tryBrace form tried ih => exact costs_tryBrace hspread hstrict tried ih
  | withTokens inner read ih => exact costs_withTokens inner ih
  | recovering resume ends turn ih =>
    intro s hs hdoom
    obtain ⟨haffordable, hroom⟩ :=
      costs_recoveringUpTo hstrict turn.forward (hagrees turn) ih resume ends s.cursor.left s hs hdoom
    refine ⟨haffordable, hroom.imp fun setting' n' past s' _ hs' hdoom' => ?_⟩
    rwa [recovering_apply, ← hs'.cursor.left]

/-- A reader of the level costs one level more. -/
theorem costs_below {r' : Reader α} (h : Costs doc setting n r')
    (hbelow : ∀ setting n s, r (level setting (n + 1)) s = r' (level setting n) s) : Costs doc setting (n + 1) r := by
  intro s hs hdoom
  rw [hbelow] at hdoom ⊢
  obtain ⟨haffordable, room, hroom⟩ := h s hs hdoom
  refine ⟨haffordable, room + 1, fun setting' n' past s' hplain hs' hample => ?_⟩
  have hlevels := hample.levels
  have hfaults := hample.faults
  obtain ⟨n', rfl⟩ : ∃ k, n' = k + 1 := ⟨n' - 1, by omega⟩
  show ¬Ending.Doomed (r (level setting' (n' + 1)) s')
  rw [hbelow]
  exact hroom setting' n' past s' hplain hs' ⟨by omega, by omega⟩

theorem costs_innermost (h : ∀ s, Ending.Doomed (r (level setting 0) s)) : Costs doc setting 0 r :=
  fun s _ hdoom => absurd (h s) hdoom

theorem level_costs {lo hi : Nat} (hspread : Spread lo (places doc) hi) (hstrict : setting.options.strict = false) (n : Nat) :
    LevelCosts doc setting n := by
  have hf := inherited_stands doc
  induction n with
  | zero =>
    exact ⟨fun _ => costs_innermost (doomed_tooDeep _), fun _ => costs_innermost (doomed_tooDeep _),
      costs_innermost (doomed_tooDeep _), costs_innermost (doomed_tooDeep _), costs_innermost (doomed_tooDeep _)⟩
  | succ n ih =>
    have hbelow {γ : Type} {r : Reader γ} (h : Composed (Stands doc) r) := h.costs hspread hstrict ih
    exact ⟨fun position => costs_below (hbelow (composed_chain hf 1 position)) fun _ _ _ => rfl,
      fun position => costs_below (hbelow (composed_chain hf operandLevel position)) fun _ _ _ => rfl,
      costs_below (hbelow composed_blockBody) fun _ _ _ => rfl, costs_below (hbelow (composed_typeExpr hf)) fun _ _ _ => rfl,
      costs_below (hbelow composed_recordExpr) fun _ _ _ => rfl⟩

end

/-! ## Documents -/

/-- What is read of a text and is not doomed is read alike by a plain reading, if that has enough room. -/
theorem Composed.plainly {α : Type} {source : String} {setting : Setting} (hsource : setting.source = source.toList)
    (hstrict : setting.options.strict = false) {r : Reader α} (h : Composed (Stands (lex source).tokens) r) {n : Nat}
    (hdoom : ¬Ending.Doomed (r (level setting n) (.ofTokens (lex source).tokens))) :
    ∃ plain : Setting, plain.Plain source.toList ∧ Ending.Twins ⟨(0, 0), ([], []), ([], [])⟩
      (r (level setting n) (.ofTokens (lex source).tokens))
      (r (level plain plain.options.maxDepth) (.ofTokens (lex source).tokens)) := by
  obtain ⟨lo, hi, hspread⟩ := lex_spread source
  have hready : Ready (lex source).tokens setting.source (.ofTokens (lex source).tokens) :=
    ⟨rfl, stands_lex source, says_ofTokens _ _ _, says_ofTokens _ _ _⟩
  obtain ⟨-, room, htwins⟩ := ((h.costs hspread hstrict (level_costs hspread hstrict n)).afforded h.forward
    (h.agrees hspread hstrict (level_agrees hspread hstrict n)) hready hdoom)
  refine ⟨⟨source.toList, ⟨false, room, room⟩, false⟩, ⟨rfl, rfl, rfl⟩, ?_⟩
  refine htwins ⟨source.toList, ⟨false, room, room⟩, false⟩ room _ _ ⟨hsource.symm, rfl, rfl⟩ (twins_ofTokens _) ⟨?_, ?_⟩
  · exact Nat.le_refl room
  · exact Nat.le_of_eq (Nat.zero_add room)

end JuiceSyntax
