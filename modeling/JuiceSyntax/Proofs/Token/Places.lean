/-
  The places of a document: every token with those that follow it in its list, also in the
  fragments of strings, at any depth. `Spread lo ps hi`: the places `ps` begin between the
  offsets `lo` and `hi`, one after another, and two of them at the same offset only if both are
  ends of their lists.

  `lex_spread`: so are the places of every document. So an offset at which a token begins that is
  not the end of its list says which place it is (`Spread.eq_of_startOf`).
-/
import JuiceSyntax.Proofs.Token.Layout

namespace JuiceSyntax

/-! ## Places -/

mutual

/-- The places in the fragments of a string. -/
def Kind.places : Kind → List (List Token)
  | .str _ pieces => piecePlaces pieces
  | _ => []

def piecePlaces : List Piece → List (List Token)
  | [] => []
  | .fragment tokens _ :: rest => places tokens ++ piecePlaces rest
  | .text _ _ :: rest | .escape _ _ _ :: rest | .indent _ :: rest => piecePlaces rest

/-- The places of a token list, in the order in which they stand in the text. -/
def places : List Token → List (List Token)
  | [] => []
  | ⟨kind, span⟩ :: rest => (⟨kind, span⟩ :: rest) :: (kind.places ++ places rest)

end

theorem places_cons (token : Token) (rest : List Token) :
    places (token :: rest) = (token :: rest) :: (token.kind.places ++ places rest) := by
  cases token
  rw [places]

/-- The token at a place; no tokens are the end of a list at offset zero. -/
def firstToken (place : List Token) : Token := place.headD ⟨.done, .point 0⟩

def startOf (place : List Token) : Nat := (firstToken place).span.start

/-- The place is the end of its list. -/
def isEnd (place : List Token) : Bool := (firstToken place).kind.isDone

/-- A list of the places `ps`, or none. -/
def Placed (ps : List (List Token)) (tokens : List Token) : Prop := tokens = [] ∨ tokens ∈ ps

/-- With a place come what follows it and the fragments in its token. -/
def ClosedPlaces (ps : List (List Token)) : Prop :=
  ∀ token rest, token :: rest ∈ ps → Placed ps rest ∧
    ∀ multiline pieces, token.kind = .str multiline pieces →
      ∀ tokens span, .fragment tokens span ∈ pieces → Placed ps tokens

theorem Placed.mono {ps qs : List (List Token)} {tokens : List Token} (h : Placed ps tokens) (hsub : ps ⊆ qs) :
    Placed qs tokens :=
  h.imp_right fun hmem => hsub hmem

theorem ClosedPlaces.append {ps qs : List (List Token)} (h : ClosedPlaces ps) (h' : ClosedPlaces qs) :
    ClosedPlaces (ps ++ qs) := by
  intro token rest hmem
  obtain hmem | hmem := List.mem_append.1 hmem
  · obtain ⟨hrest, hinner⟩ := h token rest hmem
    exact ⟨hrest.mono (List.subset_append_left _ _),
      fun multiline pieces hk tokens span hm =>
        (hinner multiline pieces hk tokens span hm).mono (List.subset_append_left _ _)⟩
  · obtain ⟨hrest, hinner⟩ := h' token rest hmem
    exact ⟨hrest.mono (List.subset_append_right _ _),
      fun multiline pieces hk tokens span hm =>
        (hinner multiline pieces hk tokens span hm).mono (List.subset_append_right _ _)⟩

theorem placed_self (tokens : List Token) : Placed (places tokens) tokens := by
  cases tokens with
  | nil => exact .inl rfl
  | cons token rest =>
    rw [places_cons]
    exact .inr List.mem_cons_self

theorem places_subset_piecePlaces {pieces : List Piece} {tokens : List Token} {span : Span}
    (h : .fragment tokens span ∈ pieces) : places tokens ⊆ piecePlaces pieces := by
  induction pieces with
  | nil => exact absurd h List.not_mem_nil
  | cons piece rest ih =>
    obtain heq | hmem := List.mem_cons.1 h
    · rw [← heq, piecePlaces]
      exact List.subset_append_left _ _
    · cases piece with
      | fragment inner _ =>
        rw [piecePlaces]
        exact List.subset_append_of_subset_right _ (ih hmem)
      | _ =>
        rw [piecePlaces]
        exact ih hmem

theorem placed_fragment {pieces : List Piece} {tokens : List Token} {span : Span}
    (h : .fragment tokens span ∈ pieces) : Placed (piecePlaces pieces) tokens :=
  (placed_self tokens).mono (places_subset_piecePlaces h)

mutual

theorem Kind.closedPlaces : (kind : Kind) → ClosedPlaces kind.places
  | .str _ pieces => by
    rw [Kind.places]
    exact closedPlaces_pieces pieces
  | .int _ _ | .float _ | .bool _ | .name _ | .typeName _ | .macroName _ | .word _ | .mark _ | .done => by
    intro _ _ hmem
    simp only [Kind.places] at hmem
    exact absurd hmem List.not_mem_nil

theorem closedPlaces_pieces : (pieces : List Piece) → ClosedPlaces (piecePlaces pieces)
  | [] => by
    intro _ _ hmem
    rw [piecePlaces] at hmem
    exact absurd hmem List.not_mem_nil
  | .fragment tokens _ :: rest => by
    rw [piecePlaces]
    exact (closedPlaces tokens).append (closedPlaces_pieces rest)
  | .text _ _ :: rest => by
    rw [piecePlaces]
    exact closedPlaces_pieces rest
  | .escape _ _ _ :: rest => by
    rw [piecePlaces]
    exact closedPlaces_pieces rest
  | .indent _ :: rest => by
    rw [piecePlaces]
    exact closedPlaces_pieces rest

theorem closedPlaces : (tokens : List Token) → ClosedPlaces (places tokens)
  | [] => by
    intro _ _ hmem
    rw [places] at hmem
    exact absurd hmem List.not_mem_nil
  | ⟨kind, span⟩ :: rest => by
    have hsub : kind.places ++ places rest ⊆ places (⟨kind, span⟩ :: rest) := by
      rw [places]
      exact List.subset_cons_self _ _
    have hrest : places rest ⊆ places (⟨kind, span⟩ :: rest) := List.Subset.trans (List.subset_append_right _ _) hsub
    have hinner : kind.places ⊆ places (⟨kind, span⟩ :: rest) := List.Subset.trans (List.subset_append_left _ _) hsub
    intro token rest' hmem
    rw [places] at hmem
    obtain heq | hmem := List.mem_cons.1 hmem
    · cases heq
      refine ⟨(placed_self rest).mono hrest, fun multiline pieces hk tokens span' hm => ?_⟩
      refine Placed.mono ?_ hinner
      rw [show kind = .str multiline pieces from hk, Kind.places]
      exact placed_fragment hm
    · obtain ⟨hfollowing, hfragments⟩ := (kind.closedPlaces.append (closedPlaces rest)) token rest' hmem
      exact ⟨hfollowing.mono hsub,
        fun multiline pieces hk tokens span' hm => (hfragments multiline pieces hk tokens span' hm).mono hsub⟩

end

/-- A place is one of the list itself or of a fragment in it. -/
theorem mem_places {place tokens : List Token} (h : place ∈ places tokens) :
    (∃ front token rest, tokens = front ++ token :: rest ∧ place = token :: rest) ∨
      ∃ token ∈ tokens, place ∈ token.kind.places := by
  induction tokens with
  | nil =>
    rw [places] at h
    exact absurd h List.not_mem_nil
  | cons token rest ih =>
    rw [places_cons] at h
    obtain rfl | h := List.mem_cons.1 h
    · exact .inl ⟨[], token, rest, rfl, rfl⟩
    · obtain h | h := List.mem_append.1 h
      · exact .inr ⟨token, List.mem_cons_self, h⟩
      · obtain ⟨front, token', rest', rfl, rfl⟩ | ⟨token', hmem, hplace⟩ := ih h
        · exact .inl ⟨token :: front, token', rest', rfl, rfl⟩
        · exact .inr ⟨token', List.mem_cons_of_mem _ hmem, hplace⟩

theorem mem_piecePlaces {place : List Token} {pieces : List Piece} (h : place ∈ piecePlaces pieces) :
    ∃ inner span, .fragment inner span ∈ pieces ∧ place ∈ places inner := by
  induction pieces with
  | nil =>
    rw [piecePlaces] at h
    exact absurd h List.not_mem_nil
  | cons piece rest ih =>
    have hrest (h : place ∈ piecePlaces rest) : ∃ inner span, .fragment inner span ∈ piece :: rest ∧ place ∈ places inner := by
      obtain ⟨inner, span, hmem, hplace⟩ := ih h
      exact ⟨inner, span, List.mem_cons_of_mem _ hmem, hplace⟩
    cases piece with
    | fragment inner span =>
      rw [piecePlaces] at h
      exact (List.mem_append.1 h).elim (fun h => ⟨inner, span, List.mem_cons_self, h⟩) hrest
    | _ =>
      rw [piecePlaces] at h
      exact hrest h

/-- The places in a token are those of the fragments of a string. -/
theorem mem_places_kind {place : List Token} {kind : Kind} (h : place ∈ kind.places) :
    ∃ multiline pieces inner span, kind = .str multiline pieces ∧ .fragment inner span ∈ pieces ∧ place ∈ places inner := by
  cases kind with
  | str multiline pieces =>
    rw [Kind.places] at h
    obtain ⟨inner, span, hmem, hplace⟩ := mem_piecePlaces h
    exact ⟨multiline, pieces, inner, span, rfl, hmem, hplace⟩
  | _ => exact absurd h List.not_mem_nil

/-! ## Places one after another -/

/-- One place before another, or both are ends at one offset. -/
def Before (place next : List Token) : Prop :=
  startOf place ≤ startOf next ∧ (startOf place = startOf next → isEnd place = true ∧ isEnd next = true)

structure Spread (lo : Nat) (ps : List (List Token)) (hi : Nat) : Prop where
  order : ps.Pairwise Before
  after : ∀ place ∈ ps, lo ≤ startOf place
  before : ∀ place ∈ ps, startOf place ≤ hi ∧ (startOf place = hi → isEnd place = true)

namespace Spread

variable {lo lo' mid mid' hi hi' : Nat} {ps qs : List (List Token)}

theorem nil (lo hi : Nat) : Spread lo [] hi := ⟨.nil, nofun, nofun⟩

theorem mono (h : Spread lo ps hi) (hlo : lo' ≤ lo) (hhi : hi ≤ hi') : Spread lo' ps hi' where
  order := h.order
  after place hmem := Nat.le_trans hlo (h.after place hmem)
  before place hmem := by
    obtain ⟨hle, hend⟩ := h.before place hmem
    exact ⟨by omega, fun heq => hend (by omega)⟩

/-- Places and others that come after them, or are ends. -/
theorem append (h : Spread lo ps mid) (h' : Spread mid' qs hi) (hlo : lo ≤ mid') (hhi : mid ≤ hi)
    (hmid : mid < mid' ∨ mid ≤ mid' ∧ ∀ place ∈ qs, isEnd place = true) : Spread lo (ps ++ qs) hi where
  order := by
    refine List.pairwise_append.2 ⟨h.order, h'.order, fun place hplace next hnext => ?_⟩
    obtain ⟨hle, hend⟩ := h.before place hplace
    have hafter := h'.after next hnext
    obtain hlt | ⟨hle', hends⟩ := hmid
    · exact ⟨by omega, fun heq => absurd heq (by omega)⟩
    · exact ⟨by omega, fun heq => ⟨hend (by omega), hends next hnext⟩⟩
  after place hmem := by
    obtain hmem | hmem := List.mem_append.1 hmem
    · exact h.after place hmem
    · exact Nat.le_trans hlo (h'.after place hmem)
  before place hmem := by
    obtain hmem | hmem := List.mem_append.1 hmem
    · exact (h.mono (Nat.le_refl lo) hhi).before place hmem
    · exact h'.before place hmem

/-- A place before others. -/
theorem cons {place : List Token} (h : Spread (startOf place + 1) ps hi) (hlo : lo ≤ startOf place)
    (hhi : startOf place < hi) : Spread lo (place :: ps) hi where
  order := by
    refine List.pairwise_cons.2 ⟨fun next hnext => ?_, h.order⟩
    have hafter := h.after next hnext
    exact ⟨by omega, fun heq => absurd heq (by omega)⟩
  after next hmem := by
    obtain rfl | hmem := List.mem_cons.1 hmem
    · exact hlo
    · have := h.after next hmem
      omega
  before next hmem := by
    obtain rfl | hmem := List.mem_cons.1 hmem
    · exact ⟨Nat.le_of_lt hhi, fun heq => absurd heq (Nat.ne_of_lt hhi)⟩
    · exact h.before next hmem

/-- Where a token begins that is not the end of its list there is one place only. -/
theorem index_eq_of_startOf (h : Spread lo ps hi) {i j : Nat} {place place' : List Token} (hat : ps[i]? = some place)
    (hat' : ps[j]? = some place') (hmid : isEnd place = false) (heq : startOf place = startOf place') : i = j := by
  obtain ⟨hi, rfl⟩ := List.getElem?_eq_some_iff.1 hat
  obtain ⟨hj, rfl⟩ := List.getElem?_eq_some_iff.1 hat'
  obtain hlt | rfl | hgt := Nat.lt_trichotomy i j
  · have hends := (List.pairwise_iff_getElem.1 h.order i j hi hj hlt).2 heq
    exact absurd (hends.1.symm.trans hmid) (by decide)
  · rfl
  · have hends := (List.pairwise_iff_getElem.1 h.order j i hj hi hgt).2 heq.symm
    exact absurd (hends.2.symm.trans hmid) (by decide)

theorem eq_of_startOf (h : Spread lo ps hi) {place place' : List Token} (hmem : place ∈ ps) (hmem' : place' ∈ ps)
    (hmid : isEnd place = false) (heq : startOf place = startOf place') : place = place' := by
  obtain ⟨i, hi⟩ := List.getElem?_of_mem hmem
  obtain ⟨j, hj⟩ := List.getElem?_of_mem hmem'
  obtain rfl := h.index_eq_of_startOf hi hj hmid heq
  exact Option.some_inj.1 (hi.symm.trans hj)

end Spread

/-! ## Closed and open literals -/

theorem literalLength_pos {mode : QuoteMode} {modes : List QuoteMode} {text : List Char} {n : Nat}
    (h : literalLength (mode :: modes) text = some n) : 0 < n := by
  have hsome {found : Option Nat} {k : Nat} (hk : 0 < k) (h : found.map (· + k) = some n) : 0 < n := by
    obtain ⟨m, -, rfl⟩ := Option.map_eq_some_iff.1 h
    omega
  unfold literalLength at h
  split at h
  all_goals first
    | contradiction
    | exact hsome Nat.one_pos h
    | exact hsome Nat.two_pos h

theorem numberAt_ne_string (text : List Char) (closed : Bool) : (numberAt text).1 ≠ .string closed := by
  unfold numberAt
  split
  · dsimp only
    split <;> nofun
  · nofun

theorem wordAt_ne_string (text : List Char) (closed : Bool) : (wordAt text).1 ≠ .string closed := by
  unfold wordAt
  dsimp only
  split
  · nofun
  · nofun
  · split
    · nofun
    · split <;> nofun

/-- Only a quote begins a string. -/
theorem lexemeAt_of_string {c : Char} {rest : List Char} {closed : Bool}
    (h : (lexemeAt c rest).1 = .string closed) : lexemeAt c rest = stringAt (c :: rest) := by
  unfold lexemeAt at h ⊢
  dsimp only at h ⊢
  split at h
  · cases h
  split at h
  · cases h
  split at h
  · exact absurd h (numberAt_ne_string _ _)
  split at h
  · exact absurd h (wordAt_ne_string _ _)
  split at h
  · cases h
  split at h
  · simp_all only [if_true, if_false, Bool.false_eq_true]
  · split at h
    · cases h
    · cases h

/-- A string that is not closed is all that is left of the text, and one that is closed has two
quotes. -/
theorem raw_firstLexeme_of_string {c : Char} {rest : List Char} {closed : Bool}
    (h : (firstLexeme c rest).kind = .string closed) :
    if closed then 2 ≤ (firstLexeme c rest).raw.length else (firstLexeme c rest).raw = c :: rest := by
  have hstring : lexemeAt c rest = stringAt (c :: rest) := lexemeAt_of_string h
  have hkind : (stringAt (c :: rest)).1 = .string closed := by
    rw [← hstring]
    exact h
  unfold firstLexeme
  rw [hstring]
  unfold stringAt at hkind ⊢
  cases hlength : literalLength [.text] ((c :: rest).drop 1) with
  | none =>
    rw [hlength] at hkind
    cases hkind
    simp
  | some n =>
    rw [hlength] at hkind
    cases hkind
    have hpos := literalLength_pos hlength
    have hrest : rest ≠ [] := by
      intro hnil
      subst hnil
      cases hlength
    have hlen := List.length_pos_iff.2 hrest
    simp only [if_true, List.length_take, List.length_cons]
    omega

/-- Only the last lexeme can be a string that is not closed. -/
theorem pairwise_cutLexemes (fuel : Nat) (text : List Char) :
    (cutLexemes fuel text).Pairwise fun lexeme _ => lexeme.kind ≠ .string false := by
  induction fuel generalizing text with
  | zero => exact .nil
  | succ fuel ih =>
    cases text with
    | nil => exact .nil
    | cons c rest =>
      refine List.pairwise_cons.2 ⟨fun next hnext hkind => ?_, ih _⟩
      have hraw := raw_firstLexeme_of_string hkind
      simp only [Bool.false_eq_true, if_false] at hraw
      rw [hraw, List.drop_length] at hnext
      cases fuel <;> exact absurd hnext List.not_mem_nil

theorem raw_length_cutLexemes (fuel : Nat) (text : List Char) :
    ∀ lexeme ∈ cutLexemes fuel text, lexeme.kind = .string true → 2 ≤ lexeme.raw.length := by
  intro lexeme hmem hkind
  obtain ⟨c, rest, rfl⟩ := mem_cutLexemes hmem
  exact raw_firstLexeme_of_string hkind

/-- A fragment that is not closed is all that is left of the content, and one that is closed has
its braces. -/
theorem raw_firstPart_of_fragment {multiline atLineStart closed : Bool} {content : List Char}
    (h : (firstPart multiline atLineStart content).kind = .fragment closed) :
    if closed then 3 ≤ (firstPart multiline atLineStart content).raw.length
    else (firstPart multiline atLineStart content).raw = content := by
  obtain ⟨rest, rfl, ⟨n, hlength, heq⟩ | ⟨-, heq⟩⟩ := firstPart_fragment_cases h
  · rw [heq] at h ⊢
    cases h
    have hpos := literalLength_pos hlength
    have hrest : rest ≠ [] := by
      intro hnil
      subst hnil
      cases hlength
    have hlen := List.length_pos_iff.2 hrest
    simp only [if_true, List.length_take, List.length_cons]
    omega
  · rw [heq] at h ⊢
    cases h
    rfl

theorem pairwise_cutParts (multiline : Bool) (fuel : Nat) (atLineStart : Bool) (content : List Char) :
    (cutParts multiline fuel atLineStart content).Pairwise fun part _ => part.kind ≠ .fragment false := by
  induction fuel generalizing atLineStart content with
  | zero => exact .nil
  | succ fuel ih =>
    cases content with
    | nil => exact .nil
    | cons c cs =>
      refine List.pairwise_cons.2 ⟨fun next hnext hkind => ?_, ih _ _⟩
      have hraw := raw_firstPart_of_fragment hkind
      simp only [Bool.false_eq_true, if_false] at hraw
      rw [hraw, List.drop_length] at hnext
      cases fuel <;> exact absurd hnext List.not_mem_nil

/-- A closed fragment has its braces. -/
def Part.Braced (part : Part) : Prop := part.kind = .fragment true → 3 ≤ part.raw.length

theorem braced_cutParts (multiline : Bool) (fuel : Nat) (atLineStart : Bool) (content : List Char) :
    ∀ part ∈ cutParts multiline fuel atLineStart content, part.Braced :=
  forall_cutParts (fun _ _ _ hkind => raw_firstPart_of_fragment hkind) fuel atLineStart content

theorem byteWidth_dropLast {cs : List Char} (h : cs ≠ []) : byteWidth cs.dropLast < byteWidth cs := by
  have hlast := List.dropLast_concat_getLast h
  have hpos : 0 < (cs.getLast h).utf8Size := Char.utf8Size_pos _
  have hwidth := congrArg byteWidth hlast
  rw [byteWidth_append, byteWidth_cons, byteWidth_nil] at hwidth
  omega

/-- The closing brace of a fragment takes a byte too. -/
theorem byteWidth_inner_lt {part : Part} (hkind : part.kind = .fragment true) (h : 3 ≤ part.raw.length) :
    2 + byteWidth part.inner < byteWidth part.raw := by
  have hdrop := byteWidth_drop_add_le (show 2 ≤ part.raw.length by omega)
  have hne : part.raw.drop 2 ≠ [] := by
    intro hnil
    have hlen := congrArg List.length hnil
    rw [List.length_drop, List.length_nil] at hlen
    omega
  have hlt := byteWidth_dropLast hne
  unfold Part.inner
  rw [hkind]
  dsimp only
  omega

/-! ## Readings of text -/

/-- The places of fragments are spread where these stand in the text, if they are lexed at all. -/
def SpreadFragments (fragment? : Option (Nat → List Char → Lexed)) : Prop :=
  ∀ lex, fragment? = some lex → ∀ offset text,
    Spread offset (places (lex offset text).tokens) (offset + byteWidth text)

section

variable {fragment? : Option (Nat → List Char → Lexed)}

theorem readParts_spread (h : SpreadFragments fragment?) (offset : Nat) {ps : List Part}
    (hopened : ∀ part ∈ ps, part.Opened) (hbraced : ∀ part ∈ ps, part.Braced)
    (hlast : ps.Pairwise fun part _ => part.kind ≠ .fragment false) :
    Spread offset (piecePlaces (readParts fragment? offset ps).pieces) (offset + byteWidth (ps.flatMap (·.raw))) := by
  induction ps generalizing offset with
  | nil =>
    simp only [readParts, piecePlaces]
    exact .nil _ _
  | cons part rest ih =>
    obtain ⟨hfirst, hlast⟩ := List.pairwise_cons.1 hlast
    have hrest := ih (offset + byteWidth part.raw) (fun p hp => hopened p (List.mem_cons_of_mem _ hp))
      (fun p hp => hbraced p (List.mem_cons_of_mem _ hp)) hlast
    have hwidth : byteWidth ((part :: rest).flatMap (·.raw)) = byteWidth part.raw + byteWidth (rest.flatMap (·.raw)) := by
      rw [List.flatMap_cons, byteWidth_append]
    have hskip : Spread offset (piecePlaces (readParts fragment? (offset + byteWidth part.raw) rest).pieces)
        (offset + byteWidth ((part :: rest).flatMap (·.raw))) := by
      rw [hwidth, ← Nat.add_assoc]
      exact hrest.mono (Nat.le_add_right _ _) (Nat.le_refl _)
    unfold readParts
    cases hkind : part.kind with
    | fragment closed =>
      cases hlex : fragment? with
      | none =>
        subst hlex
        exact hskip
      | some lex =>
        subst hlex
        dsimp only
        rw [piecePlaces, hwidth, ← Nat.add_assoc]
        have hinner : Spread offset (places (lex (offset + 2) part.inner).tokens) (offset + 2 + byteWidth part.inner) :=
          (h lex rfl (offset + 2) part.inner).mono (by omega) (Nat.le_refl _)
        have hopen := hopened part List.mem_cons_self closed hkind
        have hle := byteWidth_inner_add_le hopen
        refine hinner.append hrest (by omega) (by omega) ?_
        cases closed with
        | true =>
          have hlt := byteWidth_inner_lt hkind (hbraced part List.mem_cons_self hkind)
          exact .inl (by omega)
        | false =>
          -- What is not closed is the last part, and there are no places after it.
          have hnil : rest = [] := by
            cases rest with
            | nil => rfl
            | cons next rest => exact absurd hkind (hfirst next List.mem_cons_self)
          subst hnil
          refine .inr ⟨by omega, fun place hmem => ?_⟩
          simp only [readParts, piecePlaces] at hmem
          exact absurd hmem List.not_mem_nil
    | _ =>
      dsimp only
      rw [piecePlaces]
      exact hskip

/-- The places in a string stand behind its first quote and before the last one. -/
theorem readString_spread (h : SpreadFragments fragment?) (closed : Bool) {raw : List Char}
    (hraw : if closed then 2 ≤ raw.length else raw ≠ []) (span : Span) :
    ∃ multiline pieces, (readString fragment? closed raw span).tokens = [⟨.str multiline pieces, span⟩] ∧
      Spread (span.start + 1) (piecePlaces pieces) (span.start + byteWidth raw - if closed then 1 else 0) := by
  have hlen : 1 ≤ raw.length := by
    cases closed with
    | true => exact Nat.le_trans (by decide) hraw
    | false => exact List.length_pos_iff.2 hraw
  have hquote : 1 + byteWidth (raw.drop 1) ≤ byteWidth raw := byteWidth_drop_add_le hlen
  have htext : span.start + 1 + byteWidth (if closed then (raw.drop 1).dropLast else raw.drop 1) ≤
      span.start + byteWidth raw - if closed then 1 else 0 := by
    cases closed with
    | true =>
      have hne : raw.drop 1 ≠ [] := by
        intro hnil
        have hlen' := congrArg List.length hnil
        simp only [if_true] at hraw
        rw [List.length_drop, List.length_nil] at hlen'
        omega
      have hlt := byteWidth_dropLast hne
      simp only [if_true]
      omega
    | false =>
      simp only [Bool.false_eq_true, if_false]
      omega
  have hparts (multiline : Bool) (offset : Nat) (content : List Char) (hoffset : span.start + 1 ≤ offset)
      (hcontent : offset + byteWidth content ≤ span.start + byteWidth raw - if closed then 1 else 0) :
      Spread (span.start + 1) (piecePlaces (readParts fragment? offset (parts multiline content)).pieces)
        (span.start + byteWidth raw - if closed then 1 else 0) := by
    have hspread := readParts_spread h offset (opened_cutParts multiline content.length multiline content)
      (braced_cutParts multiline _ _ content) (pairwise_cutParts multiline _ _ content)
    rw [flatMap_raw_cutParts multiline _ _ content (Nat.le_refl _)] at hspread
    exact hspread.mono hoffset hcontent
  unfold readString
  dsimp only
  cases hlines : multilineContent? (if closed then (raw.drop 1).dropLast else raw.drop 1) with
  | none =>
    refine ⟨_, _, rfl, hparts _ _ _ (by omega) ?_⟩
    dsimp only [byteWidth_nil]
    omega
  | some found =>
    obtain ⟨lead, content⟩ := found
    have hwidth := byteWidth_multilineContent? hlines
    refine ⟨_, _, rfl, hparts _ _ _ (by omega) ?_⟩
    dsimp only
    omega

/-- A token where it stands, before the places that follow. -/
theorem Spread.token (token : Token) (mid : Nat) {rest : List Token} {hi : Nat}
    (hwide : token.span.start < token.span.stop) (hinner : Spread (token.span.start + 1) token.kind.places mid)
    (hrest : Spread token.span.stop (places rest) hi) (hhi : token.span.stop ≤ hi)
    (hmid : mid < token.span.stop ∨ mid ≤ token.span.stop ∧ ∀ place ∈ places rest, isEnd place = true) :
    Spread token.span.start (places (token :: rest)) hi := by
  rw [places_cons]
  refine .cons ?_ (Nat.le_refl _) ?_
  · exact hinner.append hrest hwide (by omega) hmid
  · exact Nat.lt_of_lt_of_le hwide hhi

theorem readLexeme_spread (h : SpreadFragments fragment?) (offset : Nat) {lexeme : Lexeme} (hraw : lexeme.raw ≠ [])
    (hquotes : lexeme.kind = .string true → 2 ≤ lexeme.raw.length) {rest : List Token} {hi : Nat}
    (hrest : Spread (offset + byteWidth lexeme.raw) (places rest) hi) (hhi : offset + byteWidth lexeme.raw ≤ hi)
    (hlast : lexeme.kind = .string false → ∀ place ∈ places rest, isEnd place = true) :
    Spread offset (places ((readLexeme fragment? offset lexeme).tokens ++ rest)) hi := by
  have hwide : 0 < byteWidth lexeme.raw :=
    Nat.lt_of_lt_of_le (List.length_pos_iff.2 hraw) (length_le_byteWidth _)
  have hskip : Spread offset (places rest) hi := hrest.mono (Nat.le_add_right _ _) (Nat.le_refl _)
  have htoken {kind : Kind} (hk : kind.places = []) :
      Spread offset (places (⟨kind, ⟨offset, offset + byteWidth lexeme.raw⟩⟩ :: rest)) hi := by
    refine Spread.token ⟨kind, ⟨offset, offset + byteWidth lexeme.raw⟩⟩ offset (Nat.lt_add_of_pos_right hwide) ?_ hrest hhi
      (.inl (Nat.lt_add_of_pos_right hwide))
    dsimp only
    rw [hk]
    exact .nil _ _
  unfold readLexeme
  cases hkind : lexeme.kind with
  | blank => exact hskip
  | comment => exact hskip
  | stray => exact hskip
  | string closed =>
    have hraw' : if closed then 2 ≤ lexeme.raw.length else lexeme.raw ≠ [] := by
      cases closed with
      | true => exact hquotes hkind
      | false => exact hraw
    obtain ⟨multiline, pieces, htokens, hpieces⟩ :=
      readString_spread h closed hraw' ⟨offset, offset + byteWidth lexeme.raw⟩
    dsimp only at hpieces ⊢
    rw [htokens, List.singleton_append]
    refine Spread.token ⟨.str multiline pieces, ⟨offset, offset + byteWidth lexeme.raw⟩⟩
      (offset + byteWidth lexeme.raw - if closed then 1 else 0) (Nat.lt_add_of_pos_right hwide) ?_ hrest hhi ?_
    · rw [Kind.places]
      exact hpieces
    · cases closed with
      | true => exact .inl (by simp only [if_true]; omega)
      | false => exact .inr ⟨by simp, hlast hkind⟩
  | _ => exact htoken (by simp only [Kind.places])

theorem readLexemes_spread (h : SpreadFragments fragment?) (offset : Nat) {lexemes : List Lexeme}
    (hraw : ∀ lexeme ∈ lexemes, lexeme.raw ≠ [])
    (hquotes : ∀ lexeme ∈ lexemes, lexeme.kind = .string true → 2 ≤ lexeme.raw.length)
    (hlast : lexemes.Pairwise fun lexeme _ => lexeme.kind ≠ .string false) :
    Spread offset (places (readLexemes fragment? offset lexemes).tokens)
      (offset + byteWidth (lexemes.flatMap (·.raw))) := by
  have hdone (offset : Nat) : ∀ place ∈ places [⟨.done, .point offset⟩], isEnd place = true := by
    intro place hmem
    simp only [places, Kind.places, List.append_nil, List.mem_singleton] at hmem
    rw [hmem]
    rfl
  induction lexemes generalizing offset with
  | nil =>
    simp only [readLexemes, places, Kind.places, List.append_nil, List.flatMap_nil, byteWidth_nil, Nat.add_zero]
    refine ⟨List.pairwise_singleton _ _, fun place hmem => ?_, fun place hmem => ?_⟩
    · rw [List.mem_singleton.1 hmem]
      exact Nat.le_refl _
    · rw [List.mem_singleton.1 hmem]
      exact ⟨Nat.le_refl _, fun _ => rfl⟩
  | cons lexeme rest ih =>
    obtain ⟨hfirst, hlast⟩ := List.pairwise_cons.1 hlast
    have hrest := ih (offset + byteWidth lexeme.raw) (fun l hl => hraw l (List.mem_cons_of_mem _ hl))
      (fun l hl => hquotes l (List.mem_cons_of_mem _ hl)) hlast
    rw [readLexemes, Lexed.tokens_append, List.flatMap_cons, byteWidth_append, ← Nat.add_assoc]
    refine readLexeme_spread h offset (hraw lexeme List.mem_cons_self) (hquotes lexeme List.mem_cons_self) hrest
      (Nat.le_add_right _ _) fun hkind => ?_
    cases rest with
    | nil => exact hdone _
    | cons next rest => exact absurd hkind (hfirst next List.mem_cons_self)

end

theorem lexAt_spread (limit : Option Nat) (levels offset : Nat) (text : List Char) :
    Spread offset (places (lexAt limit levels offset text).tokens) (offset + byteWidth text) := by
  have hlexemes {fragment? : Option (Nat → List Char → Lexed)} (h : SpreadFragments fragment?) (offset : Nat)
      (text : List Char) :
      Spread offset (places (readLexemes fragment? offset (lexemes text)).tokens) (offset + byteWidth text) := by
    have hspread := readLexemes_spread h offset (raw_ne_nil_cutLexemes text.length text)
      (raw_length_cutLexemes text.length text) (pairwise_cutLexemes text.length text)
    rw [flatMap_raw_cutLexemes _ text (Nat.le_refl _)] at hspread
    exact hspread
  induction levels generalizing offset text with
  | zero =>
    have hnone : SpreadFragments none := fun _ hlex => nomatch hlex
    exact hlexemes hnone offset text
  | succ levels ih =>
    refine hlexemes (fun lex hlex => ?_) offset text
    obtain rfl := Option.some.inj hlex
    exact ih

/-- The places of a document follow one another. -/
theorem lex_spread (source : String) : ∃ lo hi, Spread lo (places (lex source).tokens) hi :=
  ⟨_, _, lexAt_spread (some faultLimit) fragmentLimit _ _⟩

end JuiceSyntax
