/-
  Lexing by byte offsets. The matcher says where a lexeme of a simple form ends; the rest is done by steps of its
  own: a point or a bang behind it is looked at and taken, the end of a string is scanned for, and a character that
  no lexeme begins with is passed as a whole, wherever in it the matcher gave up. Then the text of the lexeme is
  sliced, and what it holds is sliced from that. All these steps fail (`none`) at an offset within a character or
  beyond the text.

  `lex?_eq`: lexing never fails, and gives what the lexing of the characters gives.
-/
import JuiceSyntax.Proofs.Token.ByteSplit
import JuiceSyntax.Proofs.Token.Cutting

namespace JuiceSyntax

/-! ## Cutting -/

/-- Moves an offset on, to another place between two characters. -/
def bump? (text : List Char) (i n : Nat) : Option Nat := (dropBytes? (i + n) text).map fun _ => i + n

/-- Behind digits: whether a point makes them a decimal, and where that ends. -/
def numberEnd? (text : List Char) (i : Nat) : Option (Bool × Nat) := do
  let rest ← dropBytes? i text
  if byteAt? rest 0 = some '.' ∧ byteAt? rest 1 ≠ some '.' then do
    let fraction ← (bytes rest).tail?
    return (true, ← bump? text i (1 + (fraction.takeWhile continuesNumber).length))
  else return (false, i)

/-- Behind a name: whether a bang makes it the name of a macro, and where that ends. -/
def nameEnd? (text : List Char) (i : Nat) : Option (Bool × Nat) := do
  let rest ← dropBytes? i text
  if byteAt? rest 0 = some '!' ∧ byteAt? rest 1 ≠ some '=' then return (true, ← bump? text i 1)
  else return (false, i)

/-- Behind a quote: whether the string is closed, and where it ends. -/
def stringEnd? (text : List Char) (i : Nat) : Option (Bool × Nat) := do
  let (n, closed) ← scanBytes? (← dropBytes? i text)
  return (closed, ← bump? text i n)

/-- Where the character at `i` ends, of which the matcher has passed a part. -/
def strayEnd? (text : List Char) (i stop : Nat) : Option Nat :=
  let c := ((dropBytes? i text).bind List.head?).getD '?'
  let next := i + c.utf8Size
  if stop < next then bump? text stop (next - stop) else some stop

def cutNumber? (text : List Char) (i : Nat) (rest : List Char) : Option (LexemeKind × Nat) :=
  match radixAt rest with
  | .decimal => do
    let (point, stop) ← numberEnd? text (i + byteWidth (rest.takeWhile continuesNumber))
    return (if point then .decimal else .integer .decimal, stop)
  | radix => return (.integer radix, i + byteWidth (rest.take (((rest.drop 2).takeWhile continuesTypeName).length + 2)))

def cutWord? (text : List Char) (i : Nat) (rest : List Char) : Option (LexemeKind × Nat) :=
  let word := rest.takeWhile continuesName
  let stop := i + byteWidth word
  match String.ofList word with
  | "true" => return (.bool true, stop)
  | "false" => return (.bool false, stop)
  | spelling =>
    match Keyword.ofText? spelling with
    | some keyword => return (.word keyword, stop)
    | none => do
      let (bang, stop) ← nameEnd? text stop
      return (if bang then .macroName else .name, stop)

/-- The kind of the lexeme at an offset, and where it ends. `passed` says how much of a character the matcher passes
before it gives up. -/
def cutAt? (passed : Char → Nat) (text : List Char) (i : Nat) (c : Char) (cs : List Char) : Option (LexemeKind × Nat) :=
  let rest := c :: cs
  if isBlank c then return (.blank, i + 1)
  else if ['/', '/'].isPrefixOf rest then return (.comment, i + byteWidth (rest.takeWhile (· != '\n')))
  else if isDigit c then cutNumber? text i rest
  else if startsName c then cutWord? text i rest
  else if isUpper c then return (.typeName, i + byteWidth (rest.takeWhile continuesTypeName))
  else if c == '"' then do
    let (closed, stop) ← stringEnd? text (i + 1)
    return (.string closed, stop)
  else
    match Mark.ofChars? rest with
    | some mark => return (.mark mark, i + byteWidth mark.chars)
    | none => return (.stray, ← strayEnd? text i (i + passed c))

/-! ## Reading -/

/-- Reads an integer with its digits. -/
def readDigits (radix : Radix) (raw digits : List Char) : UInt64 × Option LexCause :=
  match radix.flaw? digits with
  | some flaw => (0, some (.malformedNumber (String.ofList raw) flaw))
  | none =>
    let value := radix.positional digits
    if value < UInt64.size then (UInt64.ofNat value, none)
    else (0, some (.numberOverflow (String.ofList raw)))

/-- Where the body of a string ends, before the closing quote if there is one. -/
def bodyStop? (closed : Bool) (raw : List Char) : Option Nat :=
  if closed then fewer? (byteWidth raw) else return byteWidth raw

/-- What a lexeme adds that ends at `stop`, with the text that was sliced for it. -/
def convert? (fragment? : Option (Nat → List Char → Option Lexed)) (offset : Nat) : LexemeKind → List Char → Option Lexed
  | .macroName, raw => do
    let name ← slice? raw ⟨0, ← fewer? (byteWidth raw)⟩
    return ⟨[⟨.macroName (String.ofList name), ⟨offset, offset + byteWidth raw⟩⟩], [], []⟩
  | .integer radix, raw => do
    let digits ← slice? raw ⟨byteWidth radix.lead.toList, byteWidth raw⟩
    let (value, cause?) := readDigits radix raw digits
    let span : Span := ⟨offset, offset + byteWidth raw⟩
    return ⟨[⟨.int value radix, span⟩], [], (cause?.map fun cause => ⟨cause, span⟩).toList⟩
  | .string closed, raw => do
    let stop ← bodyStop? closed raw
    let (multiline, body) ← splitBody? fragment? (← slice? raw ⟨1, stop⟩) (offset + 1)
    let span : Span := ⟨offset, offset + byteWidth raw⟩
    return ⟨[⟨.str multiline body.pieces, span⟩], body.comments,
      (if closed then [] else [⟨.unterminatedString, span⟩]) ++ body.faults⟩
  | kind, raw => return readLexeme none offset ⟨kind, raw⟩

/-- Reads at most so many lexemes from an offset on, in a text that stands at `base`. -/
def lexFrom? (passed : Char → Nat) (fragment? : Option (Nat → List Char → Option Lexed)) (base : Nat) (text : List Char) :
    Nat → Nat → Option Lexed
  | 0, _ => none
  | turns + 1, i => do
    match ← dropBytes? i text with
    | [] => return ⟨[⟨.done, .point (base + byteWidth text)⟩], [], []⟩
    | c :: cs => do
      let (kind, stop) ← cutAt? passed text i c cs
      let lexed ← convert? fragment? (base + i) kind (← slice? text ⟨i, stop⟩)
      return lexed ++ (← lexFrom? passed fragment? base text turns stop)

/-- Lexes a text that stands at `base`, from `start` on. -/
def lexText? (passed : Char → Nat) (limit : Option Nat) : Nat → Nat → Nat → List Char → Option Lexed
  | 0, base, start, text => do
    let lexed ← lexFrom? passed none base text (byteWidth text + 1) start
    return { lexed with faults := capFaults limit lexed.faults }
  | levels + 1, base, start, text => do
    let lexed ← lexFrom? passed (some fun base => lexText? passed limit levels base 0) base text (byteWidth text + 1) start
    return { lexed with faults := capFaults limit lexed.faults }

/-- Lexes a document, from behind its `#!` line. -/
def lex? (passed : Char → Nat) (source : String) : Option LexedDocument := do
  let text := source.toList
  let line := ['#', '!'].isPrefixOf text
  let start ← if line then bump? text 0 ((firstOffset? '\n' text).getD (byteWidth text)) else pure 0
  let lexed ← lexText? passed (some faultLimit) fragmentLimit 0 start text
  return { lexed with shebang := if line then some ⟨0, start⟩ else none }

/-! ## What is taken behind a match -/

section

variable {text rest : List Char} {i : Nat}

theorem bump?_eq {front back : List Char} (h : At text i (front ++ back)) :
    bump? text i (byteWidth front) = some (i + byteWidth front) := by
  rw [bump?, h.right.remainder, Option.map_some]

/-- Of two bytes, what two characters say, if the first is ASCII. -/
theorem byteAt?_pair {a b : Char} (ha : a.utf8Size = 1) (hb : b.utf8Size = 1) (rest : List Char) :
    (byteAt? rest 0 = some a ∧ byteAt? rest 1 ≠ some b) ↔ (rest.head? = some a ∧ rest.tail.head? ≠ some b) := by
  rw [(At.zero rest).byteAt_iff ha]
  refine and_congr_right fun hhead => not_congr ?_
  obtain ⟨cs, rfl⟩ := List.head?_eq_some_iff.1 hhead
  have h := (At.zero (a :: cs)).ascii ha
  rw [Nat.zero_add] at h
  exact h.byteAt_iff hb

theorem asciiOnly_continuesNumber : AsciiOnly continuesNumber := by
  refine ⟨false, fun c h => ?_⟩
  have hdigit : ¬c ≤ '9' := fun hle => by
    have hle := UInt32.le_iff_toNat_le.1 (show c.val ≤ '9'.val from hle)
    have hnine : '9'.val.toNat = 57 := rfl
    omega
  have hunderscore : c ≠ '_' := ne_of_high h (by decide)
  simp [continuesNumber, isDigit, hdigit, hunderscore]

theorem fractionLength_eq (rest : List Char) :
    fractionLength rest =
      if rest.head? = some '.' ∧ rest.tail.head? ≠ some '.' then (rest.tail.takeWhile continuesNumber).length + 1 else 0 := by
  unfold fractionLength
  split
  · simp
  · rename_i cs hsecond
    have hpoint : ('.' :: cs).head? = some '.' ∧ ('.' :: cs).tail.head? ≠ some '.' := by
      refine ⟨rfl, fun hdot => ?_⟩
      obtain ⟨more, hmore⟩ := List.head?_eq_some_iff.1 hdot
      exact hsecond more hmore
    rw [if_pos hpoint]
    rfl
  · rename_i hfirst
    have hpoint : ¬(rest.head? = some '.' ∧ rest.tail.head? ≠ some '.') := fun hpoint => by
      obtain ⟨more, hmore⟩ := List.head?_eq_some_iff.1 hpoint.1
      exact hfirst more hmore
    rw [if_neg hpoint]

theorem numberEnd?_eq (h : At text i rest) :
    numberEnd? text i = some (decide (fractionLength rest ≠ 0), i + byteWidth (rest.take (fractionLength rest))) := by
  rw [numberEnd?, h.remainder, fractionLength_eq]
  dsimp only [bind, Option.bind, pure]
  simp only [byteAt?_pair (show '.'.utf8Size = 1 by decide) (show '.'.utf8Size = 1 by decide)]
  split
  · rename_i hpoint
    obtain ⟨cs, rfl⟩ := List.head?_eq_some_iff.1 hpoint.1
    have htail : (bytes ('.' :: cs)).tail? = some (bytes cs) := by
      rw [bytes, List.flatMap_cons, bytesOf_ascii (by decide)]
      rfl
    have hdot : '.'.utf8Size = 1 := by decide
    have hwidth : 1 + byteWidth (cs.takeWhile continuesNumber) = byteWidth ('.' :: cs.takeWhile continuesNumber) := by
      rw [byteWidth_cons, hdot]
    rw [← List.takeWhile_append_dropWhile (p := continuesNumber) (l := cs), ← List.cons_append] at h
    rw [htail, List.tail_cons]
    dsimp only
    rw [length_takeWhile_bytes asciiOnly_continuesNumber, hwidth, bump?_eq h, List.take_succ_cons,
      ← List.prefix_iff_eq_take.1 (List.takeWhile_prefix _)]
    rfl
  · rfl

theorem nameEnd?_eq (h : At text i rest) :
    nameEnd? text i =
      some (if rest.head? = some '!' ∧ rest.tail.head? ≠ some '=' then (true, i + 1) else (false, i)) := by
  rw [nameEnd?, h.remainder]
  dsimp only [bind, Option.bind, pure]
  simp only [byteAt?_pair (show '!'.utf8Size = 1 by decide) (show '='.utf8Size = 1 by decide)]
  split
  · rename_i hbang
    obtain ⟨cs, rfl⟩ := List.head?_eq_some_iff.1 hbang.1
    have hwidth : 1 = byteWidth ['!'] := by decide
    have hbump : bump? text i (byteWidth ['!']) = some (i + byteWidth ['!']) := bump?_eq h
    rw [← hwidth] at hbump
    rw [hbump]
  · rfl

theorem stringEnd?_eq (h : At text i rest) :
    stringEnd? text i = some (match literalLength [.text] rest with
      | some n => (true, i + byteWidth (rest.take n))
      | none => (false, i + byteWidth rest)) := by
  rw [stringEnd?, h.remainder]
  dsimp only [bind, Option.bind, pure]
  rw [scanBytes?_eq]
  cases literalLength [.text] rest with
  | none =>
    rw [← List.append_nil rest] at h
    dsimp only [scanned]
    rw [bump?_eq h]
  | some n =>
    have hcut := congrArg byteWidth (List.take_append_drop n rest)
    rw [byteWidth_append] at hcut
    rw [← List.take_append_drop n rest] at h
    dsimp only [scanned]
    rw [show byteWidth rest - byteWidth (rest.drop n) = byteWidth (rest.take n) by omega, bump?_eq h]

theorem strayEnd?_eq {c : Char} {cs : List Char} {n : Nat} (h : At text i (c :: cs)) (hn : n ≤ c.utf8Size) :
    strayEnd? text i (i + n) = some (i + c.utf8Size) := by
  have hsum : i + n + (i + c.utf8Size - (i + n)) = i + c.utf8Size := by omega
  have hc : ((dropBytes? i text).bind List.head?).getD '?' = c := by
    rw [h.remainder]
    rfl
  simp only [strayEnd?, hc]
  obtain hlt | rfl := Nat.lt_or_eq_of_le hn
  · rw [if_pos (Nat.add_lt_add_left hlt i), bump?, hsum, h.tail.remainder, Option.map_some]
  · rw [if_neg (Nat.lt_irrefl _)]

end

/-! ## Lexemes -/

section

variable {passed : Char → Nat} {text cs : List Char} {i : Nat} {c : Char}

/-- The kind of the first lexeme and where it ends. -/
def firstEnd (i : Nat) (text : List Char) (lexeme : LexemeKind × Nat) : LexemeKind × Nat :=
  (lexeme.1, i + byteWidth (text.take lexeme.2))

theorem take_takeWhile (p : Char → Bool) (text : List Char) : text.take (text.takeWhile p).length = text.takeWhile p :=
  (List.prefix_iff_eq_take.1 (List.takeWhile_prefix p)).symm

/-- Behind the characters at the front that satisfy a predicate. -/
theorem At.dropWhile (h : At text i (c :: cs)) (p : Char → Bool) :
    At text (i + byteWidth ((c :: cs).takeWhile p)) ((c :: cs).dropWhile p) := by
  rw [← List.takeWhile_append_dropWhile (p := p) (l := c :: cs)] at h
  exact h.right

theorem utf8Size_of_isBlank (h : isBlank c = true) : c.utf8Size = 1 := by
  simp only [isBlank, Bool.or_eq_true, beq_iff_eq] at h
  obtain (((rfl | rfl) | rfl) | rfl) | rfl := h
  all_goals decide

theorem cutNumber?_eq (h : At text i (c :: cs)) :
    cutNumber? text i (c :: cs) = some (firstEnd i (c :: cs) (numberAt (c :: cs))) := by
  have hdecimal (hradix : radixAt (c :: cs) = .decimal) :
      cutNumber? text i (c :: cs) = some (firstEnd i (c :: cs) (numberAt (c :: cs))) := by
    have hsplit := List.takeWhile_append_dropWhile (p := continuesNumber) (l := c :: cs)
    rw [cutNumber?, numberAt, hradix, numberEnd?_eq (h.dropWhile continuesNumber)]
    dsimp only [bind, Option.bind, pure]
    rw [drop_takeWhile]
    cases hn : fractionLength ((c :: cs).dropWhile continuesNumber) with
    | zero => simp [firstEnd, take_takeWhile]
    | succ n =>
      have htake : (c :: cs).take (((c :: cs).takeWhile continuesNumber).length + (n + 1)) =
          (c :: cs).takeWhile continuesNumber ++ ((c :: cs).dropWhile continuesNumber).take (n + 1) := by
        rw [List.take_add, take_takeWhile, drop_takeWhile]
      show _ = some (LexemeKind.decimal, i + byteWidth ((c :: cs).take (((c :: cs).takeWhile continuesNumber).length + (n + 1))))
      rw [htake, byteWidth_append, Nat.add_assoc]
      rfl
  cases hradix : radixAt (c :: cs) with
  | decimal => exact hdecimal hradix
  | _ =>
    rw [cutNumber?, numberAt, hradix]
    rfl

theorem nameBefore_eq (word rest : List Char) :
    nameBefore word rest =
      if rest.head? = some '!' ∧ rest.tail.head? ≠ some '=' then (.macroName, word.length + 1) else (.name, word.length) := by
  unfold nameBefore
  split
  · simp
  · rename_i more hmore
    have hbang : ('!' :: more).head? = some '!' ∧ ('!' :: more).tail.head? ≠ some '=' := by
      refine ⟨rfl, fun heq => ?_⟩
      obtain ⟨tail, htail⟩ := List.head?_eq_some_iff.1 heq
      exact hmore tail htail
    rw [if_pos hbang]
  · rename_i hfirst
    have hbang : ¬(rest.head? = some '!' ∧ rest.tail.head? ≠ some '=') := fun hbang => by
      obtain ⟨more, hmore⟩ := List.head?_eq_some_iff.1 hbang.1
      exact hfirst more hmore
    rw [if_neg hbang]

theorem wordBefore_other {word : List Char} (rest : List Char) (htrue : String.ofList word ≠ "true")
    (hfalse : String.ofList word ≠ "false") :
    wordBefore word rest =
      match Keyword.ofText? (String.ofList word) with
      | some keyword => (.word keyword, word.length)
      | none => nameBefore word rest := by
  unfold wordBefore
  split
  · contradiction
  · contradiction
  · rfl

theorem cutWord?_eq (h : At text i (c :: cs)) :
    cutWord? text i (c :: cs) = some (firstEnd i (c :: cs) (wordAt (c :: cs))) := by
  have hbehind := h.dropWhile continuesName
  have hsplit := List.takeWhile_append_dropWhile (p := continuesName) (l := c :: cs)
  rw [wordAt_eq, drop_takeWhile]
  unfold cutWord?
  dsimp only
  generalize (c :: cs).takeWhile continuesName = word at hbehind hsplit
  generalize (c :: cs).dropWhile continuesName = rest at hbehind hsplit
  have hword : (c :: cs).take word.length = word := by
    rw [← hsplit, List.take_left]
  split
  · rename_i htrue
    rw [wordBefore, htrue]
    show _ = some (LexemeKind.bool true, i + byteWidth ((c :: cs).take word.length))
    rw [hword]
    rfl
  · rename_i hfalse
    rw [wordBefore, hfalse]
    show _ = some (LexemeKind.bool false, i + byteWidth ((c :: cs).take word.length))
    rw [hword]
    rfl
  · rename_i htrue hfalse
    rw [wordBefore_other rest htrue hfalse]
    cases Keyword.ofText? (String.ofList word) with
    | some keyword =>
      rw [firstEnd, hword]
      rfl
    | none =>
      dsimp only [bind, Option.bind, pure]
      rw [nameEnd?_eq hbehind, nameBefore_eq]
      by_cases hbang : rest.head? = some '!' ∧ rest.tail.head? ≠ some '='
      · rw [if_pos hbang, if_pos hbang]
        obtain ⟨more, rfl⟩ := List.head?_eq_some_iff.1 hbang.1
        have hwidth : byteWidth ['!'] = 1 := by decide
        have htake : (c :: cs).take (word.length + 1) = word ++ ['!'] := by
          rw [← hsplit, List.take_length_add_append]
          rfl
        rw [firstEnd, htake, byteWidth_append, hwidth]
        rfl
      · rw [if_neg hbang, if_neg hbang, firstEnd, hword]
        rfl

theorem cutAt?_eq (hpassed : ∀ c, passed c ≤ c.utf8Size) (h : At text i (c :: cs)) :
    cutAt? passed text i c cs = some (firstEnd i (c :: cs) (lexemeAt c cs)) := by
  unfold cutAt? lexemeAt
  dsimp only
  split
  · rename_i hblank
    rw [firstEnd, List.take_succ_cons, List.take_zero, byteWidth_cons, utf8Size_of_isBlank hblank]
    rfl
  split
  · rw [firstEnd, take_takeWhile]
    rfl
  split
  · exact cutNumber?_eq h
  split
  · exact cutWord?_eq h
  split
  · rw [firstEnd, take_takeWhile]
    rfl
  split
  · rename_i hquote
    obtain rfl : c = '"' := by simpa using hquote
    have hwidth : '"'.utf8Size = 1 := by decide
    rw [stringEnd?_eq (h.ascii hwidth), stringAt, List.drop_succ_cons, List.drop_zero]
    dsimp only [bind, Option.bind, pure]
    cases literalLength [.text] cs with
    | none =>
      dsimp only [firstEnd]
      rw [List.take_length, byteWidth_cons, hwidth, Nat.add_assoc]
    | some n =>
      dsimp only [firstEnd]
      rw [List.take_succ_cons, byteWidth_cons, hwidth, Nat.add_assoc]
  · cases hmark : Mark.ofChars? (c :: cs) with
    | some mark =>
      have hfound : mark.chars.isPrefixOf (c :: cs) = true :=
        List.find?_some (p := fun mark : Mark => mark.chars.isPrefixOf (c :: cs)) hmark
      dsimp only [firstEnd]
      rw [← List.prefix_iff_eq_take.1 (List.isPrefixOf_iff_prefix.1 hfound)]
      rfl
    | none =>
      dsimp only [bind, Option.bind, pure, firstEnd]
      rw [strayEnd?_eq h (hpassed c), List.take_succ_cons, List.take_zero, byteWidth_cons]
      rfl

end

/-! ## What is sliced from a lexeme -/

/-- The bang of a macro name and the lead of an integer stand where they are cut off. -/
def Lexeme.Framed (lexeme : Lexeme) : Prop :=
  match lexeme.kind with
  | .macroName => ∃ name, lexeme.raw = name ++ ['!']
  | .integer radix => radix.lead.toList <+: lexeme.raw
  | _ => True

theorem framed_wordAt (text : List Char) : Lexeme.Framed ⟨(wordAt text).1, text.take (wordAt text).2⟩ := by
  have hsplit := List.takeWhile_append_dropWhile (p := continuesName) (l := text)
  rw [wordAt_eq, drop_takeWhile]
  generalize text.takeWhile continuesName = word at hsplit
  generalize text.dropWhile continuesName = rest at hsplit
  unfold wordBefore
  split
  · trivial
  · trivial
  · split
    · trivial
    · rw [nameBefore_eq]
      split
      · rename_i hbang
        obtain ⟨more, rfl⟩ := List.head?_eq_some_iff.1 hbang.1
        refine ⟨word, ?_⟩
        dsimp only
        rw [← hsplit, List.take_length_add_append]
        rfl
      · trivial

theorem framed_numberAt (text : List Char) : Lexeme.Framed ⟨(numberAt text).1, text.take (numberAt text).2⟩ := by
  unfold numberAt
  split
  · dsimp only
    split
    · exact List.nil_prefix
    · trivial
  · rename_i hradix
    have hlead : (radixAt text).lead.toList <+: text.take 2 := by
      unfold radixAt at hradix ⊢
      split
      · exact ⟨[], rfl⟩
      · exact ⟨[], rfl⟩
      · exact ⟨[], rfl⟩
      · exact List.nil_prefix
    exact hlead.trans (List.take_prefix_take_left (by omega))

theorem framed_firstLexeme (c : Char) (rest : List Char) : (firstLexeme c rest).Framed := by
  have hstring (raw : List Char) : Lexeme.Framed ⟨(stringAt (c :: rest)).1, raw⟩ := by
    unfold stringAt
    split <;> trivial
  unfold firstLexeme lexemeAt
  dsimp only
  split
  · trivial
  split
  · trivial
  split
  · exact framed_numberAt _
  split
  · exact framed_wordAt _
  split
  · trivial
  split
  · exact hstring _
  · split <;> trivial

theorem readInteger_eq (radix : Radix) (raw : List Char) :
    readInteger radix raw = readDigits radix raw (raw.drop radix.lead.length) := rfl

/-- The body of a string is sliced from between its quotes. -/
theorem slice?_literalBody {closed : Bool} {raw : List Char}
    (h : raw = '"' :: literalBody closed raw ++ (if closed then ['"'] else [])) :
    ∃ stop, bodyStop? closed raw = some stop ∧ slice? raw ⟨1, stop⟩ = some (literalBody closed raw) := by
  have hquote : '"'.utf8Size = 1 := by decide
  generalize literalBody closed raw = body at h
  subst h
  have hat := (At.zero ('"' :: body ++ if closed then ['"'] else [])).ascii hquote
  rw [Nat.zero_add] at hat
  refine ⟨1 + byteWidth body, ?_, hat.slice⟩
  cases closed with
  | true =>
    have hclosing : byteWidth ['"'] = 1 := by decide
    rw [bodyStop?, if_pos rfl, if_pos rfl, byteWidth_append, byteWidth_cons, hquote, hclosing]
    rfl
  | false =>
    rw [bodyStop?, if_neg (by decide), if_neg (by decide), List.append_nil, byteWidth_cons, hquote]
    rfl

section

variable {fragment? : Option (Nat → List Char → Lexed)} {checked? : Option (Nat → List Char → Option Lexed)}

theorem convert?_eq (hlex : checked? = fragment?.map fun lex offset text => some (lex offset text)) (offset : Nat)
    (c : Char) (rest : List Char) :
    convert? checked? offset (firstLexeme c rest).kind (firstLexeme c rest).raw =
      some (readLexeme fragment? offset (firstLexeme c rest)) := by
  have hframed := framed_firstLexeme c rest
  have hwidth := fun closed (h : (firstLexeme c rest).kind = .string closed) => (raw_of_string h).1
  generalize firstLexeme c rest = lexeme at hframed hwidth
  obtain ⟨kind, raw⟩ := lexeme
  cases kind with
  | macroName =>
    obtain ⟨name, rfl⟩ : ∃ name, raw = name ++ ['!'] := hframed
    have hbang : byteWidth ['!'] = 1 := by decide
    have hname : slice? (name ++ ['!']) ⟨0, byteWidth name⟩ = some name := by
      have h := At.slice (At.zero (name ++ ['!']))
      rwa [Nat.zero_add] at h
    have hfewer : fewer? (byteWidth (name ++ ['!'])) = some (byteWidth name) := by
      rw [byteWidth_append, hbang]
      rfl
    rw [convert?, hfewer]
    dsimp only [bind, Option.bind, pure]
    rw [hname, readLexeme]
    simp
  | integer radix =>
    obtain ⟨digits, rfl⟩ : radix.lead.toList <+: raw := hframed
    have hat : At (radix.lead.toList ++ digits) (byteWidth radix.lead.toList) digits := ⟨_, rfl, rfl⟩
    have hdrop : (radix.lead.toList ++ digits).drop radix.lead.length = digits := List.drop_left' String.length_toList
    have hread := readInteger_eq radix (radix.lead.toList ++ digits)
    rw [hdrop] at hread
    rw [convert?, hat.slice_rest]
    dsimp only [bind, Option.bind, pure, readLexeme]
    rw [hread]
  | string closed =>
    obtain ⟨stop, hstop, hslice⟩ := slice?_literalBody (hwidth closed rfl)
    have hbody : (if closed then (raw.drop 1).dropLast else raw.drop 1) = literalBody closed raw := by
      cases closed <;> rfl
    rw [convert?, hstop]
    dsimp only [bind, Option.bind, pure]
    rw [hslice]
    dsimp only
    rw [splitBody?_eq _ _ _ hlex]
    dsimp only [readLexeme, readString]
    rw [hbody]
    cases multilineContent? (literalBody closed raw) with
    | none => rfl
    | some found => rfl
  | _ => rfl

/-! ## Texts -/

/-- With a turn for every byte that is left the loop reads all lexemes of the text. -/
theorem lexFrom?_eq {passed : Char → Nat} (hpassed : ∀ c, passed c ≤ c.utf8Size)
    (hlex : checked? = fragment?.map fun lex offset text => some (lex offset text)) {base turns i : Nat}
    {text rest : List Char} (h : At text i rest) (hturns : byteWidth rest < turns) :
    lexFrom? passed checked? base text turns i = some (readLexemes fragment? (base + i) (lexemes rest)) := by
  induction turns generalizing i rest with
  | zero => exact absurd hturns (Nat.not_lt_zero _)
  | succ turns ih =>
    rw [lexFrom?, h.remainder]
    dsimp only [bind, Option.bind, pure]
    cases rest with
    | nil =>
      have hwidth := h.width
      rw [byteWidth_nil, Nat.add_zero] at hwidth
      rw [hwidth]
      rfl
    | cons c cs =>
      have hfront : (firstLexeme c cs).raw ++ (c :: cs).drop (firstLexeme c cs).raw.length = c :: cs :=
        List.prefix_iff_eq_append.1 (raw_firstLexeme c cs)
      have hpos := firstLexeme_length_pos c cs
      have hlength := length_le_byteWidth (firstLexeme c cs).raw
      have hwidth := congrArg byteWidth hfront
      rw [byteWidth_append] at hwidth
      have hraw : At text i ((firstLexeme c cs).raw ++ (c :: cs).drop (firstLexeme c cs).raw.length) := by rwa [hfront]
      dsimp only
      rw [cutAt?_eq hpassed h]
      show (slice? text ⟨i, i + byteWidth (firstLexeme c cs).raw⟩).bind _ = _
      rw [hraw.slice]
      show (convert? checked? (base + i) (firstLexeme c cs).kind (firstLexeme c cs).raw).bind _ = _
      rw [convert?_eq hlex]
      show (lexFrom? passed checked? base text turns (i + byteWidth (firstLexeme c cs).raw)).bind _ = _
      rw [ih hraw.right (by omega), lexemes_cons hfront.symm, readLexemes, Nat.add_assoc]
      rfl

end

section

variable {passed : Char → Nat}

theorem lexText?_eq (hpassed : ∀ c, passed c ≤ c.utf8Size) (limit : Option Nat) (levels base : Nat) {start : Nat}
    {text rest : List Char} (h : At text start rest) :
    lexText? passed limit levels base start text = some (lexAt limit levels (base + start) rest) := by
  induction levels generalizing base start text rest with
  | zero =>
    have hwidth := h.width
    have hlex : (none : Option (Nat → List Char → Option Lexed)) =
        (none : Option (Nat → List Char → Lexed)).map fun lex offset text => some (lex offset text) := rfl
    rw [lexText?, lexFrom?_eq hpassed hlex h (by omega)]
    rfl
  | succ levels ih =>
    have hwidth := h.width
    have hlex : (some fun base => lexText? passed limit levels base 0) =
        (some (lexAt limit levels)).map fun lex offset text => some (lex offset text) := by
      refine congrArg some (funext fun base => funext fun text => ?_)
      exact ih base (At.zero text)
    rw [lexText?, lexFrom?_eq hpassed hlex h (by omega)]
    rfl

/-- The first of these characters stands behind those before it; without one they are the whole text. -/
theorem firstOffset?_getD (a : Char) (text : List Char) :
    (firstOffset? a text).getD (byteWidth text) = byteWidth (text.takeWhile (· != a)) := by
  have hsplit := List.takeWhile_append_dropWhile (p := (· != a)) (l := text)
  rw [firstOffset?]
  split
  · rename_i hrest
    rw [hrest, List.append_nil] at hsplit
    rw [hsplit]
    rfl
  · rfl

theorem shebang_isEmpty {text : List Char} (h : ['#', '!'].isPrefixOf text = true) :
    (text.takeWhile (· != '\n')).isEmpty = false := by
  obtain ⟨more, rfl⟩ := List.isPrefixOf_iff_prefix.1 h
  rfl

/-- Lexing by byte offsets never fails, however much of a stray character the matcher passes. -/
theorem lex?_eq (hpassed : ∀ c, passed c ≤ c.utf8Size) (source : String) : lex? passed source = some (lex source) := by
  have hzero := At.zero source.toList
  rw [lex?, lex, lexWithin, shebangLine]
  cases hshebang : ['#', '!'].isPrefixOf source.toList with
  | false =>
    show (lexText? passed (some faultLimit) fragmentLimit 0 0 source.toList).bind _ = _
    rw [lexText?_eq hpassed _ _ 0 hzero]
    rfl
  | true =>
    have hsplit := List.takeWhile_append_dropWhile (p := (· != '\n')) (l := source.toList)
    rw [← hsplit] at hzero
    have hbump := bump?_eq hzero
    have hbehind := hzero.right
    rw [hsplit] at hbump hbehind
    dsimp only
    rw [firstOffset?_getD, if_pos rfl, if_pos rfl, hbump, drop_takeWhile, shebang_isEmpty hshebang]
    show (lexText? passed (some faultLimit) fragmentLimit 0 (0 + byteWidth _) source.toList).bind _ = _
    rw [lexText?_eq hpassed _ _ 0 hbehind, Nat.zero_add, Nat.zero_add]
    rfl

end

end JuiceSyntax
