/-
  The scan of a literal byte by byte, with a stack of open modes, and the count of braces to the end of a
  fragment. Both look at single bytes and jump by offsets: behind an escape, perhaps into a character, and to the
  end of a line. They fail (`none`) at an offset without a byte, at a slice that cuts a character in two, and where a
  count of braces would fall below zero.

  `scanBytes?_eq`, `closingByte?_eq`: neither ever fails, and they find the ends that the scans of the characters
  find. The invariant of both loops is `Near`: from the offset on there come at most bytes that mean nothing
  before the characters that the scan has yet to see.
-/
import JuiceSyntax.Proofs.Source.Offsets
import JuiceSyntax.Proofs.Token.Scan

namespace JuiceSyntax

/-- From an offset on, the next line feed, or else the end. -/
def lineEnd (text : List Char) (i : Nat) : Nat := i + (((bytes text).drop i).takeWhile (· != '\n')).length

/-! ## The two loops -/

/-- One turn of the scan: the modes that are open after it, and the offset at which it goes on. A comment is
passed at once, so that it is no mode of its own. -/
def scanByte? (text : List Char) : List QuoteMode → Nat → Option (List QuoteMode × Nat)
  | .text :: modes, i => do
    let byte ← byteAt? text i
    if byte = '\\' then return (.text :: modes, i + 2)
    else if byte = '"' then return (modes, i + 1)
    else if byte = '$' ∧ byteAt? text (i + 1) = some '{' then return (.code 0 :: .text :: modes, i + 2)
    else return (.text :: modes, i + 1)
  | .code braces :: modes, i => do
    let byte ← byteAt? text i
    if byte = '{' then return (.code (braces + 1) :: modes, i + 1)
    else if byte = '}' ∧ braces = 0 then return (modes, i + 1)
    else if byte = '}' then return (.code (← fewer? braces) :: modes, i + 1)
    else if byte = '"' then return (.text :: .code braces :: modes, i + 1)
    else if byte = '/' ∧ byteAt? text (i + 1) = some '/' then return (.code braces :: modes, lineEnd text i)
    else return (.code braces :: modes, i + 1)
  | _, _ => none

/-- At most so many turns of the scan: where it ends, and whether all modes are closed there. -/
def scanBytesUpTo? (text : List Char) : Nat → List QuoteMode → Nat → Option (Nat × Bool)
  | 0, _, _ => none
  | turns + 1, modes, i =>
    if i < byteWidth text then
      (scanByte? text modes i).bind fun after =>
        if after.1 = [] then some (after.2, true) else scanBytesUpTo? text turns after.1 after.2
    else some (byteWidth text, false)

/-- The end of the literal that a text begins in, and whether it is closed. -/
def scanBytes? (text : List Char) : Option (Nat × Bool) := scanBytesUpTo? text (byteWidth text + 1) [.text] 0

/-- At most so many turns of a search for the brace that closes a fragment. A literal in the fragment is scanned
in the text behind its quote. -/
def closingByteUpTo? (text : List Char) : Nat → Nat → Nat → Option (Option Nat)
  | 0, _, _ => none
  | turns + 1, braces, i =>
    if i < byteWidth text then do
      let byte ← byteAt? text i
      if byte = '{' then closingByteUpTo? text turns (braces + 1) (i + 1)
      else if byte = '}' ∧ braces = 0 then return some i
      else if byte = '}' then closingByteUpTo? text turns (← fewer? braces) (i + 1)
      else if byte = '"' then do
        let (length, closed) ← scanBytes? (← slice? text ⟨i + 1, byteWidth text⟩)
        if closed then closingByteUpTo? text turns braces (i + length + 1) else return none
      else if byte = '/' ∧ byteAt? text (i + 1) = some '/' then closingByteUpTo? text turns braces (lineEnd text i)
      else closingByteUpTo? text turns braces (i + 1)
    else return none

/-- The offset of the brace that closes the fragment that a text begins in, if there is one. -/
def closingByte? (text : List Char) : Option (Option Nat) := closingByteUpTo? text (byteWidth text + 1) 0 0

/-! ## Comments -/

section

variable {text rest : List Char} {i : Nat}

theorem isAscii_ne_newline : AsciiOnly (· != '\n') :=
  ⟨true, fun _ h => by simpa using ne_of_high h (by decide)⟩

theorem lineEnd_eq (h : At text i rest) : lineEnd text i = i + byteWidth (rest.takeWhile (· != '\n')) := by
  rw [lineEnd, h.bytes_drop, length_takeWhile_bytes isAscii_ne_newline]

theorem At.lineEnd (h : At text i rest) : At text (JuiceSyntax.lineEnd text i) (rest.dropWhile (· != '\n')) := by
  rw [lineEnd_eq h]
  rw [← List.takeWhile_append_dropWhile (p := (· != '\n')) (l := rest)] at h
  exact h.right

theorem drop_takeWhile (p : Char → Bool) (text : List Char) : text.drop (text.takeWhile p).length = text.dropWhile p := by
  have h : (text.takeWhile p ++ text.dropWhile p).drop (text.takeWhile p).length = text.dropWhile p := List.drop_left
  rwa [List.takeWhile_append_dropWhile] at h

end

/-! ## One turn of the scan -/

/-- What a turn of the scan comes to, begun before the characters `rest`: it passes `k` of them. -/
structure ScanTurn (text rest : List Char) (modes mid : List QuoteMode) (i j k : Nat) : Prop where
  forward : i < j
  near : Near text j (rest.drop k)
  closed : mid = [] → At text j (rest.drop k)
  plain : ∀ mode ∈ mid, mode ≠ .comment
  length : literalLength modes rest = (literalLength mid (rest.drop k)).map (· + k)

section

variable {text cs : List Char} {modes : List QuoteMode} {i : Nat} {c : Char}

theorem QuoteMode.text_ne_comment : QuoteMode.text ≠ .comment := nofun

theorem QuoteMode.code_ne_comment (braces : Nat) : QuoteMode.code braces ≠ .comment := nofun

theorem scanByte?_text (hat : At text i (c :: cs)) (hplain : ∀ mode ∈ modes, mode ≠ .comment) :
    ∃ mid j k, scanByte? text (.text :: modes) i = some (mid, j) ∧ ScanTurn text (c :: cs) (.text :: modes) mid i j k := by
  have hsame' : ∀ mode ∈ QuoteMode.text :: modes, mode ≠ .comment := List.forall_mem_cons.2 ⟨QuoteMode.text_ne_comment, hplain⟩
  obtain ⟨b, hb, hsame⟩ := hat.first
  rw [scanByte?, hb]
  dsimp only [bind, Option.bind, pure]
  by_cases hescape : c = '\\'
  · have hnext := hat.ascii (by rw [hescape]; decide)
    rw [if_pos ((hsame _ (by decide)).2 hescape)]
    refine ⟨_, _, 2, rfl, by omega, ?_, (absurd · (List.cons_ne_nil _ _)), hsame', ?_⟩
    · simpa using Near.two hnext
    · subst hescape
      cases cs <;> simp [literalLength]
  rw [if_neg (mt (hsame _ (by decide)).1 hescape)]
  by_cases hquote : c = '"'
  · have hnext := hat.ascii (by rw [hquote]; decide)
    rw [if_pos ((hsame _ (by decide)).2 hquote)]
    refine ⟨_, _, 1, rfl, by omega, .of_at hnext, fun _ => hnext, hplain, ?_⟩
    subst hquote
    simp [literalLength]
  rw [if_neg (mt (hsame _ (by decide)).1 hquote)]
  have hpair := hat.pair_iff (show '$'.utf8Size = 1 by decide) (show '{'.utf8Size = 1 by decide) hb
  by_cases hfragment : c = '$' ∧ cs.head? = some '{'
  · rw [if_pos (hpair.2 hfragment)]
    obtain ⟨rfl, hhead⟩ := hfragment
    obtain ⟨ds, rfl⟩ := List.head?_eq_some_iff.1 hhead
    have hinner := (hat.ascii (by decide)).ascii (by decide)
    refine ⟨_, _, 2, rfl, by omega, .of_at hinner, (absurd · (List.cons_ne_nil _ _)), ?_, ?_⟩
    · exact List.forall_mem_cons.2 ⟨QuoteMode.code_ne_comment 0, hsame'⟩
    · simp [literalLength]
  · rw [if_neg (mt hpair.1 hfragment)]
    refine ⟨_, _, 1, rfl, by omega, .one hat, (absurd · (List.cons_ne_nil _ _)), hsame', ?_⟩
    have hstep := scanStep?_text modes hquote hescape fun hdollar hhead => hfragment ⟨hdollar, hhead⟩
    rw [(Scan.one hstep).literalLength]
    simp

/-- A comment is passed up to the end of its line. -/
theorem scanTurn_line {braces : Nat} (hat : At text i ('/' :: '/' :: cs))
    (hplain : ∀ mode ∈ QuoteMode.code braces :: modes, mode ≠ .comment) :
    ScanTurn text ('/' :: '/' :: cs) (.code braces :: modes) (.code braces :: modes) i (lineEnd text i)
      (('/' :: '/' :: cs).takeWhile (· != '\n')).length := by
  have hpassed : ('/' :: '/' :: cs).takeWhile (· != '\n') = '/' :: '/' :: cs.takeWhile (· != '\n') := by simp
  have hleft : ('/' :: '/' :: cs).drop (('/' :: '/' :: cs).takeWhile (· != '\n')).length = cs.dropWhile (· != '\n') := by
    rw [drop_takeWhile]
    simp
  refine ⟨?_, ?_, (absurd · (List.cons_ne_nil _ _)), hplain, ?_⟩
  · have hslash := Char.utf8Size_pos '/'
    rw [lineEnd_eq hat, hpassed, byteWidth_cons]
    omega
  · rw [drop_takeWhile]
    exact .of_at hat.lineEnd
  · rw [hleft, hpassed, literalLength, literalLength_comment, Option.map_map]
    rfl

theorem scanByte?_code {braces : Nat} (hat : At text i (c :: cs)) (hplain : ∀ mode ∈ modes, mode ≠ .comment) :
    ∃ mid j k, scanByte? text (.code braces :: modes) i = some (mid, j) ∧
      ScanTurn text (c :: cs) (.code braces :: modes) mid i j k := by
  have hcode (braces : Nat) : ∀ mode ∈ QuoteMode.code braces :: modes, mode ≠ .comment :=
    List.forall_mem_cons.2 ⟨QuoteMode.code_ne_comment braces, hplain⟩
  obtain ⟨b, hb, hsame⟩ := hat.first
  rw [scanByte?, hb]
  dsimp only [bind, Option.bind, pure]
  by_cases hopening : c = '{'
  · have hnext := hat.ascii (by rw [hopening]; decide)
    rw [if_pos ((hsame _ (by decide)).2 hopening)]
    refine ⟨_, _, 1, rfl, by omega, .of_at hnext, (absurd · (List.cons_ne_nil _ _)), hcode _, ?_⟩
    subst hopening
    simp [literalLength]
  rw [if_neg (mt (hsame _ (by decide)).1 hopening)]
  by_cases hclosing : c = '}'
  · have hnext := hat.ascii (by rw [hclosing]; decide)
    have hbyte := (hsame _ (by decide)).2 hclosing
    subst hclosing
    cases braces with
    | zero =>
      rw [if_pos ⟨hbyte, rfl⟩]
      exact ⟨_, _, 1, rfl, by omega, .of_at hnext, fun _ => hnext, hplain, by simp [literalLength]⟩
    | succ braces =>
      rw [if_neg fun h => Nat.succ_ne_zero _ h.2, if_pos hbyte]
      exact ⟨_, _, 1, rfl, by omega, .of_at hnext, (absurd · (List.cons_ne_nil _ _)), hcode _, by simp [literalLength]⟩
  rw [if_neg fun h => hclosing ((hsame _ (by decide)).1 h.1), if_neg (mt (hsame _ (by decide)).1 hclosing)]
  by_cases hquote : c = '"'
  · have hnext := hat.ascii (by rw [hquote]; decide)
    rw [if_pos ((hsame _ (by decide)).2 hquote)]
    refine ⟨_, _, 1, rfl, by omega, .of_at hnext, (absurd · (List.cons_ne_nil _ _)), List.forall_mem_cons.2 ⟨QuoteMode.text_ne_comment, hcode _⟩, ?_⟩
    subst hquote
    simp [literalLength]
  rw [if_neg (mt (hsame _ (by decide)).1 hquote)]
  have hpair := hat.pair_iff (show '/'.utf8Size = 1 by decide) (show '/'.utf8Size = 1 by decide) hb
  by_cases hcomment : c = '/' ∧ cs.head? = some '/'
  · rw [if_pos (hpair.2 hcomment)]
    obtain ⟨rfl, hhead⟩ := hcomment
    obtain ⟨ds, rfl⟩ := List.head?_eq_some_iff.1 hhead
    exact ⟨_, _, _, rfl, scanTurn_line hat (hcode braces)⟩
  · rw [if_neg (mt hpair.1 hcomment)]
    refine ⟨_, _, 1, rfl, by omega, .one hat, (absurd · (List.cons_ne_nil _ _)), hcode _, ?_⟩
    have hstep := scanStep?_code braces modes hopening hclosing hquote fun hslash hhead => hcomment ⟨hslash, hhead⟩
    rw [(Scan.one hstep).literalLength]
    simp

theorem scanByte?_high {b : Char} (hb : byteAt? text i = some b) (hhigh : 128 ≤ b.val.toNat) (hopen : modes ≠ [])
    (hplain : ∀ mode ∈ modes, mode ≠ .comment) : scanByte? text modes i = some (modes, i + 1) := by
  have hne (a : Char) (ha : a.utf8Size = 1) : b ≠ a := ne_of_high hhigh ha
  cases modes with
  | nil => exact absurd rfl hopen
  | cons mode modes =>
    cases mode with
    | text => simp [scanByte?, hb, hne '\\' (by decide), hne '"' (by decide), hne '$' (by decide)]
    | code braces =>
      simp [scanByte?, hb, hne '{' (by decide), hne '}' (by decide), hne '"' (by decide), hne '/' (by decide)]
    | comment => exact absurd rfl (hplain _ List.mem_cons_self)

theorem scanByte?_at (hat : At text i (c :: cs)) (hopen : modes ≠ []) (hplain : ∀ mode ∈ modes, mode ≠ .comment) :
    ∃ mid j k, scanByte? text modes i = some (mid, j) ∧ ScanTurn text (c :: cs) modes mid i j k := by
  cases modes with
  | nil => exact absurd rfl hopen
  | cons mode modes =>
    obtain ⟨hmode, hmodes⟩ := List.forall_mem_cons.1 hplain
    cases mode with
    | text => exact scanByte?_text hat hmodes
    | code braces => exact scanByte?_code hat hmodes
    | comment => exact absurd rfl hmode

end

/-! ## The scan -/

/-- Where a scan ends that passes so many of the characters `rest`, or else all. -/
def scanned (text rest : List Char) : Option Nat → Nat × Bool
  | some n => (byteWidth text - byteWidth (rest.drop n), true)
  | none => (byteWidth text, false)

section

variable {text rest : List Char} {modes : List QuoteMode} {i : Nat}

theorem scanned_drop (n? : Option Nat) (k : Nat) : scanned text (rest.drop k) n? = scanned text rest (n?.map (· + k)) := by
  cases n? with
  | none => rfl
  | some n => rw [Option.map_some, scanned, scanned, List.drop_drop, Nat.add_comm k]

theorem scanBytesUpTo?_eq {turns : Nat} (hnear : Near text i rest) (hopen : modes ≠ [])
    (hplain : ∀ mode ∈ modes, mode ≠ .comment) (hturns : byteWidth text < i + turns) (hpos : 0 < turns) :
    scanBytesUpTo? text turns modes i = some (scanned text rest (literalLength modes rest)) := by
  induction turns generalizing modes i rest with
  | zero => exact absurd hpos (Nat.lt_irrefl 0)
  | succ turns ih =>
    rw [scanBytesUpTo?]
    split
    · rename_i hlt
      obtain hat | ⟨b, hb, hhigh, hnext⟩ := hnear.at_or hlt
      · cases rest with
        | nil =>
          have hwidth := hat.width
          rw [byteWidth_nil] at hwidth
          omega
        | cons c cs =>
          obtain ⟨mid, j, k, hturn, h⟩ := scanByte?_at hat hopen hplain
          have hforward := h.forward
          rw [hturn, Option.bind_some, h.length, ← scanned_drop]
          dsimp only
          split
          · rename_i hclosed
            have hwidth := (h.closed hclosed).width
            rw [hclosed, literalLength, scanned, List.drop_zero, ← hwidth, Nat.add_sub_cancel]
          · rename_i hmid
            exact ih h.near hmid h.plain (by omega) (by omega)
      · rw [scanByte?_high hb hhigh hopen hplain, Option.bind_some]
        dsimp only
        rw [if_neg hopen]
        exact ih hnext hopen hplain (by omega) (by omega)
    · rename_i hle
      rw [hnear.eq_nil (Nat.le_of_not_lt hle)]
      cases modes with
      | nil => exact absurd rfl hopen
      | cons mode modes => rw [literalLength, scanned]

/-- The scan of the bytes never fails, and ends where that of the characters does. -/
theorem scanBytes?_eq (text : List Char) : scanBytes? text = some (scanned text text (literalLength [.text] text)) :=
  scanBytesUpTo?_eq (.of_at (.zero text)) (by simp) (by simp) (by omega) (by omega)

end

/-! ## The search for a closing brace -/

section

variable {text rest cs : List Char} {braces i j turns : Nat} {b : Char} {mid : List QuoteMode}

/-- But for a quote, a turn of the search is one of the scan. -/
theorem closingByteUpTo?_succ (hlt : i < byteWidth text) (hb : byteAt? text i = some b) (hquote : b ≠ '"') :
    closingByteUpTo? text (turns + 1) braces i =
      (scanByte? text [.code braces] i).bind fun after =>
        match after.1 with
        | .code braces :: _ => closingByteUpTo? text turns braces after.2
        | _ => some (some i) := by
  rw [closingByteUpTo?, if_pos hlt, scanByte?, hb]
  dsimp only [bind, Option.bind, pure]
  split
  · rfl
  split
  · rfl
  split
  · cases fewer? braces <;> rfl
  split
  all_goals rfl

/-- The modes that a turn leaves which finds no quote. -/
theorem scanByte?_mid (hb : byteAt? text i = some b) (hquote : b ≠ '"')
    (hturn : scanByte? text [.code braces] i = some (mid, j)) : mid = [] ∧ j = i + 1 ∨ ∃ braces', mid = [.code braces'] := by
  rw [scanByte?, hb] at hturn
  dsimp only [bind, Option.bind, pure] at hturn
  split at hturn
  · cases hturn
    exact .inr ⟨_, rfl⟩
  split at hturn
  · cases hturn
    exact .inl ⟨rfl, rfl⟩
  split at hturn
  · cases hcount : fewer? braces with
    | none =>
      rw [hcount] at hturn
      cases hturn
    | some braces =>
      rw [hcount] at hturn
      cases hturn
      exact .inr ⟨_, rfl⟩
  split at hturn
  all_goals
    cases hturn
    exact .inr ⟨_, rfl⟩

/-- Where the brace stands that a fragment ends with, so many of the characters `rest` on. -/
def closedAt (text rest : List Char) (n? : Option Nat) : Option Nat :=
  n?.map fun n => byteWidth text - byteWidth (rest.drop n) - 1

theorem closedAt_drop (n? : Option Nat) (k : Nat) : closedAt text (rest.drop k) n? = closedAt text rest (n?.map (· + k)) := by
  cases n? with
  | none => rfl
  | some n => simp only [closedAt, Option.map_some, List.drop_drop, Nat.add_comm k]

/-- A literal in a fragment is passed by a scan of its own. -/
theorem literalLength_quote (braces : Nat) (cs : List Char) :
    literalLength [.code braces] ('"' :: cs) =
      (literalLength [.text] cs).bind fun n => (literalLength [.code braces] (cs.drop n)).map (· + (n + 1)) := by
  have hframe := literalLength_frame [.text] [.code braces] cs
  rw [List.singleton_append] at hframe
  rw [literalLength, hframe]
  cases literalLength [.text] cs with
  | none => rfl
  | some n =>
    rw [Option.bind_some, Option.bind_some, Option.map_map]
    rfl

/-- A turn at a quote goes on behind the literal. -/
theorem closingByteUpTo?_quote (hat : At text i ('"' :: cs)) :
    closingByteUpTo? text (turns + 1) braces i =
      match literalLength [.text] cs with
      | some n => closingByteUpTo? text turns braces (i + 1 + byteWidth (cs.take n))
      | none => some none := by
  have hinner := hat.ascii (by decide)
  have hbyte : byteAt? text i = some '"' := (hat.byteAt_iff (by decide)).2 rfl
  have hlt : i < byteWidth text := by
    have hwidth := hinner.width
    omega
  rw [closingByteUpTo?, if_pos hlt, hbyte]
  dsimp only [bind, Option.bind, pure]
  rw [if_neg (by decide), if_neg fun h => absurd h.1 (by decide), if_neg (by decide), if_pos rfl, hinner.slice_rest]
  dsimp only
  rw [scanBytes?_eq]
  cases literalLength [.text] cs with
  | none => rfl
  | some n =>
    have hcut := congrArg byteWidth (List.take_append_drop n cs)
    rw [byteWidth_append] at hcut
    dsimp only [scanned]
    rw [if_pos rfl, show i + (byteWidth cs - byteWidth (cs.drop n)) + 1 = i + 1 + byteWidth (cs.take n) by omega]

theorem closingByteUpTo?_eq (hnear : Near text i rest) (hturns : byteWidth text < i + turns) (hpos : 0 < turns) :
    closingByteUpTo? text turns braces i = some (closedAt text rest (literalLength [.code braces] rest)) := by
  induction turns generalizing braces i rest with
  | zero => exact absurd hpos (Nat.lt_irrefl 0)
  | succ turns ih =>
    by_cases hlt : i < byteWidth text
    · obtain hat | ⟨b, hb, hhigh, hnext⟩ := hnear.at_or hlt
      · cases rest with
        | nil =>
          have hwidth := hat.width
          rw [byteWidth_nil] at hwidth
          omega
        | cons c cs =>
          obtain ⟨b, hb, hsame⟩ := hat.first
          by_cases hquote : c = '"'
          · subst hquote
            rw [closingByteUpTo?_quote hat, literalLength_quote]
            cases literalLength [.text] cs with
            | none => rfl
            | some n =>
              have hbehind : At text (i + 1 + byteWidth (cs.take n)) (cs.drop n) := by
                have hinner := hat.ascii (by decide)
                rw [← List.take_append_drop n cs] at hinner
                exact hinner.right
              dsimp only [Option.bind_some]
              rw [ih (.of_at hbehind) (by omega) (by omega), ← closedAt_drop, List.drop_succ_cons]
          · have hbyte : b ≠ '"' := mt (hsame '"' (by decide)).1 hquote
            obtain ⟨mid, j, k, hturn, h⟩ := @scanByte?_code _ _ [] _ _ braces hat nofun
            have hforward := h.forward
            rw [closingByteUpTo?_succ hlt hb hbyte, hturn, Option.bind_some, h.length, ← closedAt_drop]
            obtain ⟨rfl, rfl⟩ | ⟨braces', rfl⟩ := scanByte?_mid hb hbyte hturn
            · have hwidth := (h.closed rfl).width
              dsimp only
              rw [literalLength, closedAt, Option.map_some, List.drop_zero, ← hwidth, Nat.add_sub_cancel, Nat.add_sub_cancel]
            · exact ih h.near (by omega) (by omega)
      · rw [closingByteUpTo?_succ hlt hb (ne_of_high hhigh (by decide)),
          scanByte?_high hb hhigh (by simp) (by simp), Option.bind_some]
        exact ih hnext (by omega) (by omega)
    · rw [hnear.eq_nil (Nat.le_of_not_lt hlt), closingByteUpTo?, if_neg hlt]
      rfl

/-- The search never fails, and finds the brace at which the scan of the characters leaves the fragment. -/
theorem closingByte?_eq (text : List Char) :
    closingByte? text = some (closedAt text text (literalLength [.code 0] text)) :=
  closingByteUpTo?_eq (.of_at (.zero text)) (by omega) (by omega)

end

end JuiceSyntax
