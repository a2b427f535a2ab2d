/-
  Readings up to a known place. What is balanced and read before a tail of the tokens at which
  reading can resume stays before it (`Cursor.LeadsTo`), and so does recovery (`leadsTo_resumed`), unless
  the reading that failed began at an opening brace and stayed there: recovery steps over the token
  that it would read again, and does not count it. A reader is firm if it does so with one fault only
  (`Firm`), and gentle readings have none such (`not_gentle_of_stuck`). So a loop that recovers comes
  to the tail, if each of its items ends before it (`Nears.reaches`).

  `turns_closes`: so a loop within braces ends at the closing one (`Cursor.Within`). `Braced` is a list
  of items that are read like this, and `Braced.run` reads it from brace to brace.
-/
import JuiceSyntax.Proofs.Grammar.Evenness

namespace JuiceSyntax

open Reader Grammar

variable {setting : Setting} {doc : List Token} {L : Level} {p : Cursor → Prop} {pre : List BraceNode} {α β : Type}

/-! ## Loops up to a tail -/

/-- A place before `tail`, with balanced tokens up to there. -/
structure Cursor.LeadsTo (c : Cursor) (inner tail : List Token) : Prop where
  rest : c.rest = inner ++ tail
  closes : Closes 0 inner
  undone : Undone inner

namespace Cursor.LeadsTo

variable {c c' : Cursor} {inner inner' tail : List Token}

/-- What is passed up to another place before `tail` leaves balanced tokens. -/
theorem even (h : c.LeadsTo inner tail) (heven : Even c c') (hrest : c'.rest = inner' ++ tail) : c'.LeadsTo inner' tail := by
  obtain ⟨front, hc, hfront⟩ := heven
  rw [hrest, h.rest, ← List.append_assoc, List.append_cancel_right_eq] at hc
  subst hc
  exact ⟨hrest, hfront.of_append (by rw [Nat.zero_add]; exact h.closes), h.undone.of_append⟩

theorem atEnd (h : c.LeadsTo inner tail) (hne : inner ≠ []) : c.atEnd = false := by
  obtain ⟨token, rest, rfl⟩ := List.exists_cons_of_ne_nil hne
  rw [Cursor.atEnd, Cursor.kind_of_rest h.rest]
  exact h.undone token List.mem_cons_self

/-- Balanced tokens do not begin with a closing brace. -/
theorem not_closing (h : c.LeadsTo inner tail) (hne : inner ≠ []) : c.kind.isMark .rBrace = false := by
  obtain ⟨token, rest, rfl⟩ := List.exists_cons_of_ne_nil hne
  rw [Cursor.kind_of_rest h.rest, ← Bool.not_eq_true]
  exact fun hkind => not_closes_closing hkind h.closes

/-- A token that is no brace is passed. -/
theorem advance (h : c.LeadsTo inner tail) (hne : inner ≠ []) (hl : c.kind.isMark .lBrace = false) :
    ∃ inner', c.advance.LeadsTo inner' tail := by
  have hr := h.not_closing hne
  have hmid := h.atEnd hne
  obtain ⟨token, rest, rfl⟩ := List.exists_cons_of_ne_nil hne
  refine ⟨rest, h.even (.advance (by rw [Kind.isBrace, hl, hr]; rfl)) ?_⟩
  exact Cursor.rest_advance_of_rest h.rest (by rwa [Cursor.atEnd, Cursor.kind_of_rest h.rest] at hmid)

/-- So is what a search for a place to resume at passes. -/
theorem distance (h : c.LeadsTo inner tail) {resume : Resume} (hstop : resume.distance 0 tail = 0) :
    ∃ inner', (c.skip (resume.distance 0 c.rest)).LeadsTo inner' tail := by
  obtain ⟨hle, hcloses⟩ := distance_closes h.closes h.undone hstop
  rw [← h.rest] at hle hcloses
  refine ⟨_, Cursor.rest_skip h.rest h.undone hle, ?_, ?_⟩
  · have hinner := h.closes
    rw [← List.take_append_drop (resume.distance 0 c.rest) inner] at hinner
    exact hcloses.of_append (by rwa [Nat.zero_add])
  · exact fun token hmem => h.undone token (List.mem_of_mem_drop hmem)

end Cursor.LeadsTo

/-- A place within braces, with what is left of them. -/
structure Cursor.Within (c : Cursor) (inner : List Token) (close : Token) (after : List Token) : Prop
    extends c.LeadsTo inner (close :: after) where
  close : close.kind.isMark .rBrace = true

namespace Cursor.Within

variable {c c' : Cursor} {inner after : List Token} {close : Token}

theorem even (h : c.Within inner close after) (heven : Even c c') : ∃ inner', c'.Within inner' close after := by
  obtain ⟨front, hrest, hfront⟩ := heven
  obtain ⟨inner', hinner, hrest', -⟩ := h.closes.within h.close hfront (h.rest.symm.trans hrest)
  exact ⟨inner', h.toLeadsTo.even ⟨front, hrest, hfront⟩ hrest', h.close⟩

theorem atEnd (h : c.Within inner close after) : c.atEnd = false := by
  cases inner with
  | nil =>
    rw [Cursor.atEnd, Cursor.kind_of_rest h.rest]
    exact isDone_of_isMark h.close
  | cons token rest => exact h.toLeadsTo.atEnd (List.cons_ne_nil _ _)

/-- Only the brace that closes the others is a closing one. -/
theorem eq_nil (h : c.Within inner close after) (hkind : c.kind.isMark .rBrace = true) : inner = [] := by
  cases inner with
  | nil => rfl
  | cons token rest => exact absurd (hkind.symm.trans (h.toLeadsTo.not_closing (List.cons_ne_nil _ _))) (by decide)

end Cursor.Within

/-- The fault that an opening brace stands where a type is wanted. -/
def Fault.braceForType (brace : Span) : Fault := .ofCause brace (.unexpected .type (.mark .lBrace) none)

/-- A reading fails at an opening brace for good, or for want of a type there. -/
def Fault.Firm (fault : Fault) (brace : Span) : Prop := fault.isFatal = true ∨ fault = .braceForType brace

/-- At an opening brace the reader fails only like this. -/
def Firm (doc : List Token) (L : Level) {α : Type} (r : Reader α) : Prop :=
  ∀ {s fault t}, s.cursor.kind = .mark .lBrace → Stands doc s.cursor.rest → r L s = .error fault t → t.Calm →
    fault.Firm s.cursor.span

/-- Tokens that are consumed begin no earlier than those at the cursor. -/
theorem Cursor.le_previous_skip {lo : Nat} {c : Cursor} (hlast : ∀ span, c.last = some span → lo ≤ span.start)
    (hlate : Late lo c.rest) (n : Nat) : lo ≤ (c.skip n).previous.start := by
  obtain ⟨hi, hlaid⟩ := hlate
  induction n generalizing c with
  | zero =>
    rw [Cursor.skip, Cursor.previous]
    cases hspan : c.last with
    | none => exact hlaid.advance.2.1
    | some span => exact hlast span hspan
  | succ n ih =>
    refine ih (fun span hspan => ?_) hlaid.advance.1
    cases hend : c.atEnd with
    | true =>
      rw [Cursor.advance_of_atEnd hend] at hspan
      exact hlast span hspan
    | false =>
      rw [(Cursor.advance_of_mid hend).2.1] at hspan
      cases hspan
      exact hlaid.advance.2.1

/-- What recovery passes from a brace where a type was wanted begins with that brace. -/
theorem not_gentle_of_stuck {c : Cursor} (hs : Stands doc c.rest) (hend : c.atEnd = false) (n : Nat) :
    ¬((Fault.braceForType c.span).passed c (c.skip (n + 1))).Gentle := by
  obtain ⟨-, lo, hi, hlaid⟩ := hs
  have hlate : Late c.span.start c.advance.rest := by
    cases hrest : c.rest with
    | nil => exact absurd hrest hlaid.ne_nil
    | cons token rest =>
      have hmid : token.kind.isDone = false := by rwa [Cursor.atEnd, Cursor.kind_of_rest hrest] at hend
      rw [hrest] at hlaid
      obtain ⟨hi', hrest'⟩ := hlaid.late hmid
      rw [Cursor.rest_advance_of_rest hrest hmid, Cursor.span_of_rest hrest]
      exact ⟨hi', hrest'.mono (Nat.le_succ _) (Nat.le_refl _)⟩
  have hprevious : c.span.start ≤ (c.skip (n + 1)).previous.start := by
    refine Cursor.le_previous_skip (fun span hspan => ?_) hlate n
    rw [(Cursor.advance_of_mid hend).2.1] at hspan
    cases hspan
    exact Nat.le_refl _
  have hpos : c.pos < (c.skip (n + 1)).pos := by
    have hleft : (c.skip (n + 1)).left < c.left := Cursor.left_skip_lt hend (Nat.succ_pos n)
    have hsum := c.pos_add_left_skip (n + 1)
    omega
  intro hgentle
  rw [Fault.passed, if_pos hpos] at hgentle
  exact hgentle.behind rfl _ rfl (Nat.min_eq_left hprevious)

/-- Recovery before a tail at which reading can resume stays before it, and passes a token if the turn
took none. -/
theorem leadsTo_resumed {item : Reader α} (hgrows : ∀ s, Grows s (Ending.state (item L s))) (hfirm : Firm doc L item)
    {resume : Resume} {inner inner' tail : List Token} (hstop : resume.distance 0 tail = 0) {s u : State} {fault : Fault}
    (hr : item L s = .error fault u) (hs : Stands doc s.cursor.rest)
    (hcalm : (u.resumed L.options s.cursor resume fault).Calm) (hbefore : s.cursor.LeadsTo inner tail) (hne : inner ≠ [])
    (hbefore' : u.cursor.LeadsTo inner' tail) :
    (∃ inner'', (u.resumed L.options s.cursor resume fault).cursor.LeadsTo inner'' tail) ∧
      (u.resumed L.options s.cursor resume fault).cursor.left < s.cursor.left := by
  obtain ⟨hu, hmild, hgentle, hcursor⟩ := calm_of_resumed hcalm
  have hread := hgrows s
  rw [hr, Ending.state_error] at hread
  have hend := hbefore.atEnd hne
  have hclose := hbefore.not_closing hne
  obtain ⟨n, hn⟩ := hread.cursor
  have hsum := s.cursor.pos_add_left_skip n
  have hle := hread.left_le
  rw [← hn] at hsum
  rw [hcursor]
  cases hpos : u.cursor.pos == s.cursor.pos with
  | false =>
    have hne : u.cursor.pos ≠ s.cursor.pos := by simpa using hpos
    have hresumed : resumeFrom s.cursor resume u.cursor = u.cursor.skip (resume.distance 0 u.cursor.rest) := by
      rw [resumeFrom, hpos]
      rfl
    have hskip := u.cursor.left_skip_le (resume.distance 0 u.cursor.rest)
    rw [hresumed]
    exact ⟨hbefore'.distance hstop, by omega⟩
  | true =>
    -- the failed reading stands where it began
    have hsame : u.cursor = s.cursor := by
      cases n with
      | zero => exact hn
      | succ n =>
        have hlt := Cursor.left_skip_lt hend (Nat.succ_pos n)
        rw [← hn] at hlt
        have hpos' : u.cursor.pos = s.cursor.pos := by simpa using hpos
        omega
    have hresumed : resumeFrom s.cursor resume u.cursor =
        s.cursor.skip (resume.distance 0 s.cursor.advance.rest + 1) := by
      rw [resumeFrom, hsame, beq_self_eq_true, hend, hclose]
      rfl
    rw [hresumed] at hgentle ⊢
    have hl : s.cursor.kind.isMark .lBrace = false := by
      cases hbrace : s.cursor.kind.isMark .lBrace with
      | false => rfl
      | true =>
        obtain hfatal | rfl := hfirm (eq_of_isMark hbrace) hs hr hu
        · exact absurd (hfatal.symm.trans hmild) (by decide)
        · exact absurd hgentle (not_gentle_of_stuck hs hend _)
    obtain ⟨rest, hadvance⟩ := hbefore.advance hne hl
    exact ⟨hadvance.distance hstop, Cursor.left_skip_lt hend (Nat.succ_pos _)⟩

/-- An item that begins before `tail` ends before it; `I` holds of the states in between, and `P` of
the results. -/
structure Nears (doc : List Token) (L : Level) (tail : List Token) (I : State → Prop) {α : Type} (P : α → Prop)
    (item : Reader α) : Prop where
  grows : ∀ s, Grows s (Ending.state (item L s))
  takes : Takes L item
  firm : Firm doc L item
  ok : ∀ {s a t inner}, I s → Stands doc s.cursor.rest → s.cursor.LeadsTo inner tail → inner ≠ [] → item L s = .ok a t →
    t.Calm → I t ∧ P a ∧ ∃ inner', t.cursor.LeadsTo inner' tail
  error : ∀ {s fault t inner}, I s → Stands doc s.cursor.rest → s.cursor.LeadsTo inner tail → inner ≠ [] →
    item L s = .error fault t → t.Calm → fault.isFatal = false → I t ∧ ∃ inner', t.cursor.LeadsTo inner' tail
  resumed : ∀ {start resume fault t}, I t → I (t.resumed L.options start resume fault)

/-- A loop over such items comes to `tail`, and what it reads is what it has read by then and what
it reads from there. -/
theorem Nears.reaches {tail : List Token} {I : State → Prop} {P : α → Prop} {item : Reader α}
    (h : Nears doc L tail I P item) {resume : Resume} (hstop : resume.distance 0 tail = 0) {fuel : Nat} {s t : State}
    {items : List α} {inner : List Token} (hI : I s) (hbefore : s.cursor.LeadsTo inner tail)
    (hs : Stands doc s.cursor.rest) (hfuel : s.cursor.left ≤ fuel)
    (hr : recoveringUpTo resume (·.isMark .rBrace) item fuel L s = .ok items t) (ht : t.Calm) :
    ∃ earlier later u, items = earlier ++ later ∧ (∀ a ∈ earlier, P a) ∧ Grows s u ∧ I u ∧ u.Calm ∧
      u.cursor.rest = tail ∧ recoveringUpTo resume (·.isMark .rBrace) item u.cursor.left L u = .ok later t := by
  have hgrows (fuel : Nat) (s : State) := recoveringUpTo_steady (grows_steady inherited_true L.options)
    (fun s _ => h.grows s) resume (·.isMark .rBrace) fuel s trivial
  induction fuel generalizing s items inner with
  | zero =>
    have hend := Cursor.atEnd_of_left (Nat.le_zero.1 hfuel)
    cases hr
    refine ⟨[], [], t, rfl, nofun, .refl t, hI, ht, ?_, recoveringUpTo_of_ended (by rw [hend, Bool.or_true, Bool.true_or]) _⟩
    cases inner with
    | nil => exact hbefore.rest
    | cons token rest => exact absurd (hend.symm.trans (hbefore.atEnd (List.cons_ne_nil _ _))) (by decide)
  | succ fuel ih =>
    have hloop := hgrows (fuel + 1) s
    rw [hr] at hloop
    by_cases hne : inner = []
    · refine ⟨[], items, s, rfl, nofun, .refl s, hI, hloop.calm ht, by rw [hbefore.rest, hne, List.nil_append], ?_⟩
      rw [← hr]
      exact recoveringUpTo_congr h.grows h.takes (fun c hends hclose => absurd (hclose.symm.trans hends) (by decide))
        (Nat.le_refl _) hfuel
    have hread := h.grows s
    obtain ⟨hended, -⟩ | ⟨-, first, rest, u, hfirst, hrest, rfl⟩ | ⟨-, fault, u, hfirst, hrest⟩ := recoveringUpTo_cases hr
    · rw [hbefore.not_closing hne, hbefore.atEnd hne, (hloop.calm ht).goes] at hended
      exact absurd hended (by decide)
    · have hloop := hgrows fuel u
      rw [hfirst] at hread
      rw [hrest] at hloop
      obtain ⟨hu, hfit, inner', hbefore'⟩ := h.ok hI hs hbefore hne hfirst (hloop.calm ht)
      have hlt := h.takes s first u hfirst
      obtain ⟨earlier, later, v, rfl, hall, hgrown, hv⟩ := ih hu hbefore' (hread.stands hs) (by omega) hrest
      exact ⟨first :: earlier, later, v, rfl, List.forall_mem_cons.2 ⟨hfit, hall⟩, hread.trans hgrown, hv⟩
    · have hloop := hgrows fuel (u.resumed L.options s.cursor resume fault)
      rw [hfirst] at hread
      rw [hrest] at hloop
      have hcalm := hloop.calm ht
      obtain ⟨hu, hmild, -⟩ := calm_of_resumed hcalm
      obtain ⟨hI', inner', hbefore'⟩ := h.error hI hs hbefore hne hfirst hu hmild
      obtain ⟨⟨inner'', hresumed⟩, hlt⟩ :=
        leadsTo_resumed h.grows h.firm hstop hfirst hs hcalm hbefore hne hbefore'
      have hgrown := hread.trans (.resumed L.options s.cursor resume fault u)
      obtain ⟨earlier, later, v, rfl, hall, hgrown', hv⟩ :=
        ih (h.resumed hI') hresumed (hgrown.stands hs) (by omega) hrest
      exact ⟨earlier, later, v, rfl, hall, hgrown.trans hgrown', hv⟩

/-- Within braces the balanced items of a list end before the closing one. -/
theorem Evenly.nears {item : Reader α} {view : α → List BraceNode}
    (h : Evenly setting doc .nested L (fun _ => True) [] item view) (htakes : Takes L item) (hfirm : Firm doc L item)
    {close : Token} (hclose : close.kind.isMark .rBrace = true) (after : List Token) :
    Nears doc L (close :: after) (fun _ => True) (fun a => AllFit setting doc (view a)) item where
  grows := h.grows
  takes := htakes
  firm := hfirm
  ok _ hs hbefore _ hr ht := by
    obtain ⟨heven, hfit⟩ := h.ok trivial hs hr ht
    obtain ⟨inner', hwithin⟩ := Cursor.Within.even ⟨hbefore, hclose⟩ heven
    exact ⟨trivial, hfit allFit_nil, inner', hwithin.toLeadsTo⟩
  error _ hs hbefore _ hr ht hmild := by
    obtain ⟨inner', hwithin⟩ := Cursor.Within.even ⟨hbefore, hclose⟩ (h.error trivial hs hr ht hmild)
    exact ⟨trivial, inner', hwithin.toLeadsTo⟩
  resumed _ := trivial

/-- Turns that recover within braces end at the closing one. -/
theorem turns_closes {item : Reader α} {view : α → List BraceNode}
    (h : Evenly setting doc .nested L (fun _ => True) [] item view) (htakes : Takes L item) (hfirm : Firm doc L item)
    {resume : Resume} (hresume : resume.atClose = true) {fuel : Nat} {s t : State} {items : List α}
    {inner after : List Token} {close : Token} (hwithin : s.cursor.Within inner close after)
    (hs : Stands doc s.cursor.rest) (hfuel : s.cursor.left ≤ fuel)
    (hr : recoveringUpTo resume (·.isMark .rBrace) item fuel L s = .ok items t) (ht : t.Calm) :
    t.cursor.rest = close :: after ∧ AllFit setting doc (items.flatMap view) := by
  obtain ⟨earlier, later, u, rfl, hall, -, -, -, hrest, hlast⟩ :=
    (h.nears htakes hfirm hwithin.close after).reaches (distance_closing hresume hwithin.close after) trivial
      hwithin.toLeadsTo hs hfuel hr ht
  have hended : (u.cursor.kind.isMark .rBrace || u.cursor.atEnd || u.halted) = true := by
    rw [Cursor.kind_of_rest hrest, hwithin.close, Bool.true_or, Bool.true_or]
  rw [recoveringUpTo_of_ended hended] at hlast
  cases hlast
  refine ⟨hrest, fun node hmem => ?_⟩
  obtain ⟨a, ha, hnode⟩ := List.mem_flatMap.1 hmem
  exact hall a (by rwa [List.append_nil] at ha) node hnode

/-! ## Braces -/

/-- The group from one brace to the one that matches it. -/
theorem BraceNode.fits_group {place : List Token} {opening closing : Span} (hs : Stands doc place)
    (hmatched : Matched place opening closing) : (BraceNode.group (opening.cover closing)).Fits setting doc := by
  obtain ⟨hplace, lo, hi, hlaid⟩ := hs
  obtain ⟨-, hopening, hbetween, hclosing⟩ := hlaid.matched hmatched
  exact ⟨place, hplace, opening, closing, hmatched, Span.cover_eq (by omega) (by omega)⟩

/-- An opening brace of a document in which the brace at `closing` closes it. -/
structure Cursor.Opens (doc : List Token) (c : Cursor) (closing : Span) (inner after : List Token) : Prop where
  place : Stands doc c.rest
  kind : c.kind = .mark .lBrace
  within : c.advance.Within inner ⟨.mark .rBrace, closing⟩ after

namespace Cursor.Opens

variable {c c' : Cursor} {closing : Span} {inner after : List Token}

theorem rest (h : c.Opens doc closing inner after) :
    c.rest = ⟨.mark .lBrace, c.span⟩ :: (inner ++ ⟨.mark .rBrace, closing⟩ :: after) := by
  cases hrest : c.rest with
  | nil =>
    have hkind := h.kind
    simp [Cursor.kind, Cursor.current, hrest] at hkind
  | cons token rest =>
    have hkind := (Cursor.kind_of_rest hrest).symm.trans h.kind
    rw [Cursor.span_of_rest hrest, ← hkind, ← h.within.rest, Cursor.rest_advance_of_rest hrest (by rw [hkind]; rfl)]
    cases token
    rfl

theorem matched (h : c.Opens doc closing inner after) : Matched c.rest c.span closing := by
  rw [h.rest]
  exact .intro _ _ h.within.closes h.within.undone

/-- Past the closing brace everything consumed is balanced. -/
theorem even (h : c.Opens doc closing inner after) (hc : c'.rest = ⟨.mark .rBrace, closing⟩ :: after) :
    Even c c'.advance := by
  refine ⟨⟨.mark .lBrace, c.span⟩ :: (inner ++ [⟨.mark .rBrace, closing⟩]), ?_, .opening rfl ?_⟩
  · rw [Cursor.rest_advance_of_rest hc rfl, h.rest]
    simp
  · have hclose : Closes 1 [(⟨.mark .rBrace, closing⟩ : Token)] := .closing rfl .nil
    exact h.within.closes.append hclose

/-- The tokens within the braces are passed. -/
theorem rest_skip (h : c.Opens doc closing inner after) :
    (c.advance.skip inner.length).rest = ⟨.mark .rBrace, closing⟩ :: after := by
  rw [Cursor.rest_skip h.within.rest h.within.undone (Nat.le_refl _), List.drop_length, List.nil_append]

theorem innerLength (h : c.Opens doc closing inner after) :
    JuiceSyntax.innerLength 0 c.advance.rest = inner.length := by
  rw [h.within.rest, innerLength_closes h.within.closes h.within.undone]
  rfl

/-- The group is passed with the brace that closes it. -/
theorem skip_groupLength (h : c.Opens doc closing inner after) :
    c.skip (groupLength 0 c.rest) = (c.advance.skip inner.length).advance := by
  have hlength : groupLength 0 c.rest = 1 + inner.length + 1 := by
    rw [h.rest]
    simp only [groupLength, Kind.isDone, Kind.isMark, beq_self_eq_true, Bool.false_eq_true, if_false, if_true]
    rw [groupLength_closes h.within.closes h.within.undone]
    simp only [groupLength, Kind.isDone, Kind.isMark, Bool.false_eq_true, if_false]
    simp
    omega
  rw [hlength, Cursor.skip_add, Cursor.skip_add]
  rfl

end Cursor.Opens

/-- In a document in which every brace is closed. -/
theorem Cursor.opens {c : Cursor} (hmatch : BracesMatch doc) (hkind : c.kind = .mark .lBrace)
    (hs : Stands doc c.rest) : ∃ closing inner after, c.Opens doc closing inner after := by
  cases hrest : c.rest with
  | nil => simp [Cursor.kind, Cursor.current, hrest] at hkind
  | cons token rest =>
    have hbrace : (firstToken c.rest).kind.isMark .lBrace = true := by
      have hfirst : (firstToken c.rest).kind = c.kind := rfl
      rw [hfirst, hkind]
      rfl
    obtain ⟨opening, closing, hmatched⟩ := hmatch _ hs.1 hbrace
    generalize hall : c.rest = all at hmatched
    obtain ⟨opening, closing, hcloses, hundone⟩ := hmatched
    exact ⟨closing, _, _, hs, hkind, ⟨Cursor.rest_advance_of_rest hall rfl, hcloses, hundone⟩, rfl⟩

/-- A mark that has to be there is, or that is the fault. -/
theorem needMark_or (m : Mark) (k : Span → Reader β) (s : State) :
    s.cursor.kind = .mark m ∨ ∃ fault, (needMark m >>= k) L s = .error fault s := by
  cases hkind : s.cursor.kind.isMark m with
  | true => exact .inl (eq_of_isMark hkind)
  | false =>
    rw [bind_apply, needMark_apply, if_neg (by rw [hkind]; decide)]
    exact .inr ⟨_, rfl⟩

/-- A reader that fails where it begins unless an opening brace is there, and then fails no more. -/
theorem Evenly.ofBrace {r : Reader α} {view : α → List BraceNode} (hgrows : ∀ s, Grows s (Ending.state (r L s)))
    (h : ∀ s, p s.cursor → s.cursor.kind = .mark .lBrace ∨ ∃ fault, r L s = .error fault s)
    (h' : ∀ s, p s.cursor → s.cursor.kind = .mark .lBrace → Stands doc s.cursor.rest →
      (Ending.state (r L s)).Calm →
        ∃ a t, r L s = .ok a t ∧ Even s.cursor t.cursor ∧ (AllFit setting doc pre → AllFit setting doc (view a))) :
    Evenly setting doc .nested L p pre r view where
  grows := hgrows
  ok {s a t} hp hs hr ht := by
    obtain hkind | ⟨fault, heq⟩ := h s hp
    · obtain ⟨a', t', heq, heven, hfit⟩ := h' s hp hkind hs (by rw [hr]; exact ht)
      rw [heq] at hr
      cases hr
      exact ⟨heven, hfit⟩
    · rw [heq] at hr
      cases hr
  error {s fault t} hp hs hr ht _ := by
    obtain hkind | ⟨fault', heq⟩ := h s hp
    · obtain ⟨a', t', heq, -⟩ := h' s hp hkind hs (by rw [hr]; exact ht)
      rw [heq] at hr
      cases hr
    · rw [heq] at hr
      cases hr
      exact .refl _

/-- A reader that passes the group at an opening brace, and gives the node of that group. -/
theorem Evenly.ofGroup (hmatch : BracesMatch doc) {r : Reader α} {view : α → List BraceNode}
    (hgrows : ∀ s, Grows s (Ending.state (r L s)))
    (h : ∀ s, p s.cursor → s.cursor.kind = .mark .lBrace ∨ ∃ fault, r L s = .error fault s)
    (h' : ∀ {s closing inner after}, s.cursor.Opens doc closing inner after →
      ∃ a t, r L s = .ok a t ∧ view a = [.group (s.cursor.span.cover closing)] ∧
        t.cursor = (s.cursor.advance.skip inner.length).advance) :
    Evenly setting doc .nested L p [] r view := by
  refine .ofBrace hgrows h fun s _ hkind hs _ => ?_
  obtain ⟨closing, inner, after, hopens⟩ := Cursor.opens hmatch hkind hs
  obtain ⟨a, t, hread, hview, hcursor⟩ := h' hopens
  refine ⟨a, t, hread, hcursor ▸ hopens.even hopens.rest_skip, fun _ node hmem => ?_⟩
  rw [hview, List.mem_singleton] at hmem
  rw [hmem]
  exact BraceNode.fits_group hopens.place hopens.matched

/-- A list in braces, of which the items recover, and what ends it. -/
def inBraces (resume : Resume) (item : Reader α) (tail : Span → List α → Reader β) : Reader β := do
  let opening ← needMark .lBrace
  let items ← recovering resume (·.isMark .rBrace) item
  tail opening items

/-- The items of a list in braces keep to the braces, and at the closing brace the list ends with
what `finish` makes of the braces and the items. -/
structure Braced (setting : Setting) (doc : List Token) (L : Level) {α β : Type} (resume : Resume) (item : Reader α)
    (tail : Span → List α → Reader β) (first : α → List BraceNode) (finish : Span → Span → List α → β) : Prop where
  evenly : Evenly setting doc .nested L (fun _ => True) [] item first
  takes : Takes L item
  firm : Firm doc L item
  resume : resume.atClose = true
  grows : ∀ opening items s, Grows s (Ending.state (tail opening items L s))
  finish : ∀ opening items s, s.cursor.kind = .mark .rBrace →
    tail opening items L s = .ok (finish opening s.cursor.span items) { s with cursor := s.cursor.advance }

namespace Braced

variable {resume : Resume} {item : Reader α} {tail : Span → List α → Reader β} {first : α → List BraceNode}
  {finish : Span → Span → List α → β}

theorem grows_within (h : Braced setting doc L resume item tail first finish) (opening : Span) (s : State) :
    Grows s (Ending.state ((recovering resume (·.isMark .rBrace) item >>= tail opening) L s)) := by
  have hloop := recoveringUpTo_steady (grows_steady inherited_true L.options) (fun s _ => h.evenly.grows s) resume
    (·.isMark .rBrace) s.cursor.left s trivial
  rw [bind_apply, recovering_apply]
  obtain ⟨items, t, hitems⟩ :
      ∃ items t, recoveringUpTo resume (·.isMark .rBrace) item s.cursor.left L s = .ok items t :=
    recoveringUpTo_ok s.cursor.left s
  rw [hitems] at hloop ⊢
  exact hloop.trans (h.grows opening items t)

theorem grows_inBraces (h : Braced setting doc L resume item tail first finish) (s : State) :
    Grows s (Ending.state (inBraces resume item tail L s)) := by
  rw [inBraces, bind_apply, needMark_apply]
  split
  · exact (Grows.skip s 1).trans (h.grows_within _ _)
  · exact .refl s

/-- From its opening brace a list is read to the closing one. -/
theorem run (h : Braced setting doc L resume item tail first finish) (hmatch : BracesMatch doc) {s : State}
    (hkind : s.cursor.kind = .mark .lBrace) (hs : Stands doc s.cursor.rest)
    (ht : (Ending.state (inBraces resume item tail L s)).Calm) :
    ∃ closing items t, inBraces resume item tail L s = .ok (finish s.cursor.span closing items) t ∧
      Matched s.cursor.rest s.cursor.span closing ∧ Even s.cursor t.cursor ∧
      AllFit setting doc (items.flatMap first) := by
  obtain ⟨closing, inner, after, hopens⟩ := Cursor.opens hmatch hkind hs
  obtain ⟨items, u, hitems⟩ : ∃ items u, recoveringUpTo resume (·.isMark .rBrace) item s.cursor.advance.left L
      { s with cursor := s.cursor.advance } = .ok items u :=
    recoveringUpTo_ok s.cursor.advance.left _
  have hbrace : s.cursor.kind.isMark .lBrace = true := by rw [hkind]; rfl
  have hread : inBraces resume item tail L s = tail s.cursor.span items L u := by
    rw [inBraces, bind_apply, needMark_apply, if_pos hbrace, Ending.andThen_ok, bind_apply, recovering_apply, hitems]
    rfl
  rw [hread] at ht ⊢
  have hstands := (Grows.skip s 1).stands hs
  obtain ⟨hclose, hfit⟩ := turns_closes h.evenly h.takes h.firm h.resume hopens.within hstands (Nat.le_refl _) hitems
    ((h.grows _ _ u).calm ht)
  have hend := h.finish s.cursor.span items u (Cursor.kind_of_rest hclose)
  rw [Cursor.span_of_rest hclose] at hend
  exact ⟨closing, items, _, hend, hopens.matched, hopens.even hclose, hfit⟩

theorem firm_inBraces (h : Braced setting doc L resume item tail first finish) (hmatch : BracesMatch doc) :
    Firm doc L (inBraces resume item tail) := by
  intro s fault t hkind hs hr ht
  obtain ⟨closing, items, u, hok, -⟩ := h.run hmatch hkind hs (by rw [hr]; exact ht)
  rw [hr] at hok
  cases hok

theorem evenly_inBraces (h : Braced setting doc L resume item tail first finish) (hmatch : BracesMatch doc)
    {p : Cursor → Prop} {view : β → List BraceNode}
    (hview : ∀ {c closing items}, p c → Stands doc c.rest → Matched c.rest c.span closing → AllFit setting doc pre →
      AllFit setting doc (items.flatMap first) → AllFit setting doc (view (finish c.span closing items))) :
    Evenly setting doc .nested L p pre (inBraces resume item tail) view := by
  refine .ofBrace h.grows_inBraces (fun s _ => needMark_or .lBrace _ s) fun s hp hkind hs ht => ?_
  obtain ⟨closing, items, t, hread, hmatched, heven, hfit⟩ := h.run hmatch hkind hs ht
  exact ⟨_, t, hread, heven, fun hpre => hview hp hs hmatched hpre hfit⟩

end Braced

end JuiceSyntax
