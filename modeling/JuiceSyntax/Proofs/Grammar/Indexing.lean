/-
  The steps of the grammar that index, slice and count down, as they are made: tokens are looked up by their numbers
  in the list that is read, what was recorded is taken from a number of faults on, the document is sliced, and
  braces are counted down. They fail (`none`) at a number beyond the end, at a slice that cuts a character in two,
  and below zero.

  `Search.find?_eq`, `recover?_eq`, `speculated?_eq`, `macroBody?_eq`: none of them ever fails, and each comes to
  what the readers make of it. What it rests on is that the cursor stands in the list that is read
  (`Cursor.Indexed`), and that faults are only ever added.
-/
import JuiceSyntax.Proofs.Grammar.Positions
import JuiceSyntax.Proofs.Grammar.Searching
import JuiceSyntax.Proofs.Source.Offsets

namespace JuiceSyntax

open Reader Grammar

/-! ## Numbers of tokens -/

/-- The cursor stands in the list at the number of tokens that it has consumed. -/
structure Cursor.Indexed (tokens : List Token) (c : Cursor) : Prop where
  inside : c.pos ≤ tokens.length
  rest : c.rest = tokens.drop c.pos
  last : c.last = (fewer? c.pos).bind fun n => tokens[n]?.map Token.span

namespace Cursor.Indexed

variable {tokens : List Token} {c : Cursor}

theorem ofTokens (tokens : List Token) : (Cursor.ofTokens tokens).Indexed tokens := ⟨Nat.zero_le _, rfl, rfl⟩

theorem head? (h : c.Indexed tokens) : tokens[c.pos]? = c.rest.head? := by
  rw [h.rest, List.head?_drop]

theorem advance (h : c.Indexed tokens) : c.advance.Indexed tokens := by
  cases hend : c.atEnd with
  | true => rwa [Cursor.advance_of_atEnd hend]
  | false =>
    obtain ⟨hpos, hlast, hrest⟩ := Cursor.advance_of_mid hend
    obtain ⟨token, rest, hcons⟩ : ∃ token rest, c.rest = token :: rest := by
      cases htokens : c.rest with
      | nil => simp [Cursor.atEnd, Cursor.kind, Cursor.current, htokens, Kind.isDone] at hend
      | cons token rest => exact ⟨token, rest, rfl⟩
    have hhead := h.head?
    rw [hcons] at hhead
    refine ⟨?_, ?_, ?_⟩
    · rw [hpos]
      exact (List.getElem?_eq_some_iff.1 hhead).1
    · rw [hrest, hpos, h.rest, List.tail_drop]
    · rw [hlast, hpos, Cursor.span, Cursor.current, hcons]
      show _ = tokens[c.pos]?.map Token.span
      rw [hhead]
      rfl

theorem skip (h : c.Indexed tokens) (n : Nat) : (c.skip n).Indexed tokens := by
  induction n generalizing c with
  | zero => exact h
  | succ n ih => exact ih h.advance

/-- The token at the cursor, by its number. -/
theorem current {stop : Cursor} (h : c.Indexed tokens) (hstop : stop.Indexed tokens) (hlt : c.pos < stop.pos) :
    tokens[c.pos]? = some c.current := by
  have hinside := hstop.inside
  have hsome := List.getElem?_eq_getElem (l := tokens) (i := c.pos) (by omega)
  rw [hsome, Cursor.current]
  rw [h.head?] at hsome
  obtain ⟨rest, hrest⟩ := List.head?_eq_some_iff.1 hsome
  rw [hrest]
  rfl

/-- The token before the cursor, by its number. -/
theorem previous (h : c.Indexed tokens) (hpos : 0 < c.pos) :
    ∃ n token, fewer? c.pos = some n ∧ tokens[n]? = some token ∧ c.previous = token.span := by
  obtain ⟨n, hn⟩ : ∃ n, c.pos = n + 1 := ⟨c.pos - 1, by omega⟩
  have hinside := h.inside
  have hlast := h.last
  rw [hn] at hlast
  have hsome := List.getElem?_eq_getElem (l := tokens) (i := n) (by omega)
  refine ⟨n, tokens[n], by rw [hn]; rfl, hsome, ?_⟩
  rw [Cursor.previous, hlast]
  show (tokens[n]?.map Token.span).getD _ = _
  rw [hsome]
  rfl

end Cursor.Indexed

/-! ## Searches -/

namespace Search

/-- What the search makes of a closing brace, with this many open. -/
def closing? : Search → Nat → Option Glance
  | .resume r, depth =>
    if depth = 0 then return if r.atClose then .here else .on 0
    else do
      let depth ← fewer? depth
      return if depth = 0 ∧ r.afterGroup then .behind else .on depth
  -- This counter stops at zero by itself.
  | .group, depth => return if depth - 1 = 0 then .behind else .on (depth - 1)
  | .inner, depth => if depth = 0 then return .here else return .on (← fewer? depth)

def turn? (search : Search) (depth : Nat) (c : Cursor) : Option Glance :=
  if c.atEnd then return .here
  else if c.kind.isMark .lBrace then return .on (depth + 1)
  else if c.kind.isMark .rBrace then search.closing? depth
  else if search.endsAt depth c then return .here
  else return .on depth

/-- Where at most so many turns end the search. -/
def passes? (search : Search) : Nat → Nat → Cursor → Option Cursor
  | 0, _, _ => none
  | turns + 1, depth, c => do
    match ← search.turn? depth c with
    | .here => return c
    | .behind => return c.advance
    | .on depth => search.passes? turns depth c.advance

/-- Where the search ends that begins here. -/
def find? (search : Search) (c : Cursor) : Option Cursor := search.passes? (c.left + 1) 0 c

variable (search : Search) (depth : Nat)

theorem closing?_eq : search.closing? depth = some (search.closing depth) := by
  cases search with
  | resume r =>
    obtain _ | _ | depth := depth
    · rfl
    · cases hr : r.afterGroup <;> simp [closing?, closing, fewer?, hr]
    · simp [closing?, closing, fewer?]
  | group =>
    by_cases hone : depth ≤ 1
    · simp [closing?, closing, hone, Nat.sub_eq_zero_of_le hone]
    · simp [closing?, closing, hone, show depth - 1 ≠ 0 by omega]
  | inner => cases depth <;> rfl

theorem turn?_eq (c : Cursor) : search.turn? depth c = some (search.turn depth c) := by
  unfold turn? turn
  rw [closing?_eq]
  split
  · rfl
  split
  · rfl
  split
  · rfl
  split <;> rfl

variable {depth}

theorem passes?_eq {n : Nat} {c : Cursor} (h : c.left < n) :
    search.passes? n depth c = some (c.skip (search.length depth c.rest)) := by
  induction n generalizing depth c with
  | zero => exact absurd h (Nat.not_lt_zero _)
  | succ n ih =>
    rw [passes?, turn?_eq, length_eq]
    dsimp only [bind, Option.bind, pure]
    cases hturn : search.turn depth c with
    | here => rfl
    | behind => rfl
    | on depth' =>
      have := (turn_before hturn).left
      exact ih (by omega)

/-- A search never counts below zero, and ends where its length says. -/
theorem find?_eq (c : Cursor) : search.find? c = some (c.skip (search.length 0 c.rest)) :=
  search.passes?_eq (Nat.lt_succ_self _)

end Search

/-! ## Recovering -/

/-- Recovers from the fault just recorded, of a reading that began at the token with this number. -/
def recover? (tokens : List Token) (start : Nat) (resume : Resume) (s : State) : Option State :=
  if s.halted then return s
  else do
    let stuck := s.cursor.pos == start && !s.cursor.atEnd && !s.cursor.kind.isMark .rBrace
    let stop ← (Search.resume resume).find? (if stuck then s.cursor.advance else s.cursor)
    if start < stop.pos then do
      let first ← tokens[start]?
      let last ← tokens[← fewer? stop.pos]?
      return { s with cursor := stop, faults := noteSkipped (first.span.cover last.span) s.faults }
    else return { s with cursor := stop }

theorem recover?_eq {tokens : List Token} {start : Cursor} {s : State} (resume : Resume) (hstart : start.Indexed tokens)
    (hs : s.cursor.Indexed tokens) : recover? tokens start.pos resume s = some (s.recovered start resume) := by
  obtain ⟨n, hskip⟩ := resumeFrom_eq_skip start resume s.cursor
  have hstop : (resumeFrom start resume s.cursor).Indexed tokens := hskip ▸ hs.skip n
  have hfind : (Search.resume resume).find?
      (if s.cursor.pos == start.pos && !s.cursor.atEnd && !s.cursor.kind.isMark .rBrace then s.cursor.advance else s.cursor) =
      some (resumeFrom start resume s.cursor) := Search.find?_eq _ _
  unfold recover? State.recovered
  dsimp only
  rw [hfind]
  generalize resumeFrom start resume s.cursor = stop at hstop
  dsimp only [bind, Option.bind, pure]
  split
  · rfl
  split
  · rename_i hlt
    obtain ⟨n, last, hfewer, hlast, hprevious⟩ := hstop.previous (by omega)
    rw [hstart.current hstop hlt, hfewer]
    dsimp only
    rw [hlast, hprevious]
    rfl
  · rfl

/-! ## Trying -/

/-- What was recorded after the first so many faults. -/
def recordedFrom? (n : Nat) (s : State) : Option (List Fault) :=
  if n ≤ s.faults.length then some (s.faults.drop n) else none

/-- A speculation that ends in `ending`. -/
def speculated? {α : Type} (before : State) (ending : Ending α) : Option (Ending (Option α)) := do
  let recorded ← recordedFrom? before.faults.length (Ending.state ending)
  match recorded.find? (·.isFatal), ending with
  | some fault, _ => return .error fault (Ending.state ending)
  | none, .ok a s => return if recorded.all (·.isStructural) then .ok (some a) s else .ok none (before.rewind s)
  | none, .error fault s => return if fault.isFatal then .error fault s else .ok none (before.rewind s)

theorem speculated?_eq {α : Type} {before : State} {ending : Ending α}
    (h : before.faults.length ≤ (Ending.state ending).faults.length) :
    speculated? before ending = some (speculated before ending) := by
  unfold speculated? speculated recordedFrom?
  rw [if_pos h]
  dsimp only [bind, Option.bind, pure]
  cases ending with
  | ok a s => cases ((Ending.state (.ok a s)).faults.drop before.faults.length).find? (·.isFatal) <;> rfl
  | error fault s => cases ((Ending.state (.error fault s)).faults.drop before.faults.length).find? (·.isFatal) <;> rfl

theorem speculated_of_some {α : Type} {before : State} {ending : Ending α} {ending' : Ending (Option α)}
    (h : speculated? before ending = some ending') : ending' = speculated before ending := by
  by_cases hle : before.faults.length ≤ (Ending.state ending).faults.length
  · rw [speculated?_eq hle] at h
    exact (Option.some.inj h).symm
  · unfold speculated? recordedFrom? at h
    rw [if_neg hle] at h
    cases h

/-! ## Bodies of macros -/

/-- Where the cursor stands in a list of tokens of the document. -/
structure State.Stands (source : String) (tokens : List Token) (s : State) : Prop where
  indexed : s.cursor.Indexed tokens
  ahead : Fair source s.cursor.rest

/-- The body of a macro, with its text sliced from the document. -/
def macroBody? (source : List Char) (s : State) : Option (Ending MacroBody) :=
  if s.cursor.kind.isMark .lBrace then do
    let opening := s.cursor.span
    let first := s.cursor.advance
    let stop ← Search.inner.find? first
    if stop.atEnd then
      let fault := .ofCause stop.span (.missing (.mark .rBrace) .done (some .openMacroBody))
      return .error fault { s with cursor := stop }
    else do
      let inner : Span := ⟨opening.stop, stop.span.start⟩
      let text ← slice? source inner
      let body := ⟨opening.cover stop.span, inner, String.ofList (trim text), first.rest.take (innerLength 0 first.rest)⟩
      return .ok body { s with cursor := stop.advance, macroBodies := s.macroBodies ++ [inner] }
  else return .error (.ofCause s.cursor.span (.missing (.mark .lBrace) s.cursor.kind none)) s

/-- From the end of the token at the cursor to the start of a later one. -/
theorem State.Stands.usable {source : String} {tokens : List Token} {s : State} (h : s.Stands source tokens) {n : Nat}
    (hmid : s.cursor.atEnd = false) (hlater : (s.cursor.advance.skip n).atEnd = false) :
    Span.Usable source ⟨s.cursor.span.stop, (s.cursor.advance.skip n).span.start⟩ := by
  have hahead := h.ahead
  rw [Cursor.rest_of_mid hmid] at hahead
  exact (ground_usable source).between hahead (current_mem_of_skip n hlater)

theorem macroBody?_eq {source : String} {tokens : List Token} {s : State} (h : s.Stands source tokens) {L : Level}
    (hL : L.source = source.toList) : macroBody? source.toList s = some (macroBody L s) := by
  rw [macroBody_apply, hL]
  unfold macroBody?
  split
  · rename_i hmark
    have husable := h.usable (n := innerLength 0 s.cursor.advance.rest) (isDone_of_isMark hmark)
    have hfind : Search.inner.find? s.cursor.advance =
        some (s.cursor.advance.skip (innerLength 0 s.cursor.advance.rest)) := Search.find?_eq _ _
    dsimp only
    rw [hfind]
    generalize s.cursor.advance.skip (innerLength 0 s.cursor.advance.rest) = stop at husable
    dsimp only [bind, Option.bind, pure]
    split
    · rfl
    · rename_i hmid
      obtain ⟨text, hslice, -⟩ := (husable (by simpa using hmid)).slice
      rw [hslice]
      rfl
  · rfl

end JuiceSyntax
