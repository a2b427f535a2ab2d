/-
  The splitting of a string body byte by byte. The loop goes over the content with the offset at which the
  pending run of text began; an escape, a fragment or a marker ends the run, which is then sliced from the body. A
  fragment is sliced too, and lexed in its place.

  `splitBody?_eq`: it never fails, and gives the pieces that are read from the parts of the content. What carries
  the loop is `readRun`, the reading of a content behind a pending run of text.
-/
import JuiceSyntax.Proofs.Token.ByteParts

namespace JuiceSyntax

/-! ## Bodies -/

namespace Body

def empty : Body := ⟨[], [], []⟩

def append (a b : Body) : Body := ⟨a.pieces ++ b.pieces, a.comments ++ b.comments, a.faults ++ b.faults⟩

instance : Append Body := ⟨append⟩

theorem append_empty (a : Body) : a ++ empty = a := by
  show Body.mk (a.pieces ++ []) (a.comments ++ []) (a.faults ++ []) = a
  simp only [List.append_nil]

/-- A run of text, if there is any. -/
def ofText (offset : Nat) (text : List Char) : Body :=
  if text = [] then empty else ⟨[.text (String.ofList text) ⟨offset, offset + byteWidth text⟩], [], []⟩

end Body

/-! ## The loop -/

/-- What the splitting works on. Without `fragment?` fragments are too deep. -/
structure Splitter where
  fragment? : Option (Nat → List Char → Option Lexed)
  body : List Char
  /-- The offset of the body in the document. -/
  base : Nat
  /-- Where the content ends. -/
  stop : Nat
  multiline : Bool

namespace Splitter

variable (splitter : Splitter)

def span (start stop : Nat) : Span := ⟨splitter.base + start, splitter.base + stop⟩

/-- The pending run of text. -/
def flush? (start stop : Nat) : Option Body :=
  if start < stop then do
    let text ← slice? splitter.body ⟨start, stop⟩
    return ⟨[.text (String.ofList text) (splitter.span start stop)], [], []⟩
  else return .empty

/-- The escape at an offset, and the offset behind it. -/
def escape? (start : Nat) : Option (Body × Nat) := do
  let rest ← slice? splitter.body ⟨start + 1, splitter.stop⟩
  let (value?, n) ← escapeBytes? rest
  let next := start + 1 + n
  let raw ← slice? splitter.body ⟨start, next⟩
  let span := splitter.span start next
  match value? with
  | some value => return (⟨[.escape value (String.ofList raw) span], [], []⟩, next)
  | none =>
    return (⟨[.escape (rest.headD '\\') (String.ofList raw) span], [], [⟨.invalidEscape (String.ofList raw), span⟩]⟩, next)

/-- Where the inside of the fragment at an offset ends, and the offset behind the fragment. -/
def fragmentRange? (start : Nat) : Option (Nat × Nat) := do
  let rest ← slice? splitter.body ⟨start + 2, splitter.stop⟩
  match ← closingByte? rest with
  | some n => return (start + 2 + n, start + 2 + n + 1)
  | none => return (splitter.stop, splitter.stop)

/-- The fragment at an offset, and the offset behind it. -/
def fragmentAt? (start : Nat) : Option (Body × Nat) := do
  let (innerStop, next) ← splitter.fragmentRange? start
  let span := splitter.span start next
  match splitter.fragment? with
  | none => return (⟨[], [], [⟨.fragmentTooDeep, span⟩]⟩, next)
  | some lex => do
    let lexed ← lex (splitter.base + (start + 2)) (← slice? splitter.body ⟨start + 2, innerStop⟩)
    return (⟨[.fragment lexed.tokens span], lexed.comments, lexed.faults⟩, next)

/-- The length of the marker at an offset, where one could stand. -/
def marker? (lineStart : Bool) (i : Nat) : Option (Option Nat) :=
  if lineStart then do return indentBytes (← slice? splitter.body ⟨i, splitter.stop⟩) else return none

/-- At most so many turns of the loop from an offset on, with the text pending from `start`. -/
def upTo? : Nat → Nat → Bool → Nat → Option Body
  | 0, _, _, _ => none
  | turns + 1, start, lineStart, i =>
    if i < splitter.stop then do
      match ← splitter.marker? lineStart i with
      | some n => do
        let pending ← splitter.flush? start i
        let later ← upTo? turns (i + n) false (i + n)
        return pending ++ (⟨[.indent (splitter.span i (i + n))], [], []⟩ ++ later)
      | none => do
        let byte ← byteAt? splitter.body i
        if byte = '\\' then do
          let pending ← splitter.flush? start i
          let (escape, next) ← splitter.escape? i
          let later ← upTo? turns next false next
          return pending ++ (escape ++ later)
        else if byte = '$' ∧ byteAt? splitter.body (i + 1) = some '{' ∧ i + 1 < splitter.stop then do
          let pending ← splitter.flush? start i
          let (fragment, next) ← splitter.fragmentAt? i
          let later ← upTo? turns next false next
          return pending ++ (fragment ++ later)
        else upTo? turns start (byte == '\n' && splitter.multiline) (i + 1)
    else splitter.flush? start splitter.stop

end Splitter

/-- Whether a body is multi-line, and what it holds. -/
def splitBody? (fragment? : Option (Nat → List Char → Option Lexed)) (body : List Char) (base : Nat) :
    Option (Bool × Body) := do
  let (start, stop, multiline) ← contentRange? body
  let content ← Splitter.upTo? ⟨fragment?, body, base, stop, multiline⟩ (byteWidth body + 1) start multiline start
  return (multiline, content)

/-! ## The parts of a content -/

section

variable {multiline atLineStart : Bool} {fuel fuel' : Nat} {content : List Char}

theorem cutParts_fuel (h : content.length ≤ fuel) (h' : content.length ≤ fuel') :
    cutParts multiline fuel atLineStart content = cutParts multiline fuel' atLineStart content := by
  induction fuel generalizing fuel' atLineStart content with
  | zero =>
    obtain rfl := List.length_eq_zero_iff.1 (Nat.le_zero.1 h)
    cases fuel' <;> rfl
  | succ fuel ih =>
    cases content with
    | nil => cases fuel' <;> rfl
    | cons c cs =>
      cases fuel' with
      | zero => exact absurd h' (Nat.not_succ_le_zero _)
      | succ fuel' =>
        have hpos := (raw_firstPart multiline atLineStart c cs).2
        rw [List.length_cons] at h h'
        simp only [cutParts]
        refine congrArg _ (ih ?_ ?_)
        all_goals
          simp only [List.length_drop, List.length_cons]
          omega

/-- The parts of a content that is not at the start of a line. -/
def partsFrom (multiline atLineStart : Bool) (content : List Char) : List Part :=
  cutParts multiline content.length atLineStart content

theorem partsFrom_cons (c : Char) (cs : List Char) :
    partsFrom multiline atLineStart (c :: cs) =
      firstPart multiline atLineStart (c :: cs) ::
        partsFrom multiline (multiline && (firstPart multiline atLineStart (c :: cs)).kind == .text)
          ((c :: cs).drop (firstPart multiline atLineStart (c :: cs)).raw.length) := by
  have hpos := (raw_firstPart multiline atLineStart c cs).2
  simp only [partsFrom, List.length_cons, cutParts]
  refine congrArg _ (cutParts_fuel ?_ (Nat.le_refl _))
  simp only [List.length_drop, List.length_cons]
  omega

end

/-- An escape or a fragment begins here. -/
def beginsPart : List Char → Bool
  | '\\' :: _ => true
  | '$' :: '{' :: _ => true
  | _ => false

section

variable {multiline atLineStart : Bool} {c : Char} {cs content : List Char}

theorem beginsPart_iff : beginsPart (c :: cs) = true ↔ c = '\\' ∨ c = '$' ∧ cs.head? = some '{' := by
  unfold beginsPart
  split
  · simp_all
  · simp_all
  · rename_i hescape hfragment
    refine ⟨nofun, ?_⟩
    rintro (rfl | ⟨rfl, hhead⟩)
    · exact absurd rfl (hescape cs)
    · obtain ⟨rest, rfl⟩ := List.head?_eq_some_iff.1 hhead
      exact absurd rfl (hfragment rest)

theorem textLength_of_begins (h : beginsPart content = true) : textLength multiline content = 0 := by
  unfold beginsPart at h
  split at h
  · rw [textLength]
  · rw [textLength]
  · cases h

theorem indentLength?_of_begins (h : beginsPart content = true) : indentLength? content = none := by
  unfold beginsPart at h
  split at h
  · simp [indentLength?]
  · simp [indentLength?]
  · cases h

theorem textLength_cons (h : beginsPart (c :: cs) = false) :
    textLength multiline (c :: cs) =
      if c == '\n' && multiline && (indentLength? cs).isSome then 1 else textLength multiline cs + 1 := by
  unfold beginsPart at h
  split at h
  · cases h
  · cases h
  · rename_i hescape hfragment
    rw [textLength]
    · exact fun hc => hescape cs (by rw [hc])
    · exact fun rest hc hcs => hfragment rest (by rw [hc, hcs])

theorem textLength_le (multiline : Bool) (content : List Char) : textLength multiline content ≤ content.length := by
  induction content with
  | nil => exact Nat.le_refl _
  | cons c cs ih =>
    cases h : beginsPart (c :: cs) with
    | true =>
      rw [textLength_of_begins h]
      exact Nat.zero_le _
    | false =>
      rw [textLength_cons h, List.length_cons]
      split
      · omega
      · omega

theorem firstPart_unmarked (h : indentLength? content = none) :
    firstPart multiline true content = firstPart multiline false content := by
  unfold firstPart
  rw [if_pos rfl, h, if_neg (by decide)]

theorem firstPart_marked {n : Nat} (h : indentLength? content = some n) :
    firstPart multiline true content = ⟨.indent, content.take n⟩ := by
  unfold firstPart
  rw [if_pos rfl, h]

theorem firstPart_text (hmarker : (if atLineStart then indentLength? (c :: cs) else none) = none)
    (h : beginsPart (c :: cs) = false) :
    firstPart multiline atLineStart (c :: cs) = ⟨.text, (c :: cs).take (textLength multiline (c :: cs))⟩ := by
  unfold firstPart
  rw [hmarker]
  dsimp only
  split
  · rename_i heq
    simp [heq, beginsPart] at h
  · rename_i heq
    simp [heq, beginsPart] at h
  · rfl

theorem firstPart_escape (multiline atLineStart : Bool) (cs : List Char) :
    firstPart multiline atLineStart ('\\' :: cs) =
      match escape? cs, cs with
      | some (value, n), _ => ⟨.escape value, ('\\' :: cs).take (n + 1)⟩
      | none, [] => ⟨.badEscape '\\', '\\' :: cs⟩
      | none, c :: _ => ⟨.badEscape c, ('\\' :: cs).take 2⟩ := by
  have hmarker : (if atLineStart then indentLength? ('\\' :: cs) else none) = none := by
    rw [indentLength?_of_begins rfl, ite_self]
  unfold firstPart
  rw [hmarker]
  rfl

theorem firstPart_fragment (multiline atLineStart : Bool) (cs : List Char) :
    firstPart multiline atLineStart ('$' :: '{' :: cs) =
      match literalLength [.code 0] cs with
      | some n => ⟨.fragment true, ('$' :: '{' :: cs).take (n + 2)⟩
      | none => ⟨.fragment false, '$' :: '{' :: cs⟩ := by
  have hmarker : (if atLineStart then indentLength? ('$' :: '{' :: cs) else none) = none := by
    rw [indentLength?_of_begins rfl, ite_self]
  unfold firstPart
  rw [hmarker]
  rfl

theorem kind_of_begins (h : beginsPart content = true) : (firstPart multiline atLineStart content).kind ≠ .text := by
  unfold beginsPart at h
  split at h
  · rw [firstPart_escape]
    split
    all_goals simp
  · rw [firstPart_fragment]
    split
    all_goals simp
  · cases h

/-- Where no marker stands, it makes no difference whether one could. -/
theorem partsFrom_unmarked (h : indentLength? content = none) (atLineStart atLineStart' : Bool) :
    partsFrom multiline atLineStart content = partsFrom multiline atLineStart' content := by
  have hfalse (atLineStart : Bool) : partsFrom multiline atLineStart content = partsFrom multiline false content := by
    cases atLineStart with
    | false => rfl
    | true =>
      cases content with
      | nil => rfl
      | cons c cs => rw [partsFrom_cons, partsFrom_cons, firstPart_unmarked h]
  rw [hfalse atLineStart, hfalse atLineStart']

end

/-! ## Reading behind a pending run of text -/

section

variable (fragment? : Option (Nat → List Char → Lexed)) (multiline : Bool) (offset : Nat) (pending : List Char)

theorem readParts_cons (part : Part) (rest : List Part) :
    readParts fragment? offset (part :: rest) =
      readParts fragment? offset [part] ++ readParts fragment? (offset + byteWidth part.raw) rest := by
  simp only [readParts]
  split
  case h_6 => simp only [List.append_nil]; rfl
  all_goals rfl

/-- Where a run of text ends. -/
def runLength (lineStart : Bool) (rest : List Char) : Nat :=
  if (if lineStart then indentLength? rest else none).isSome then 0 else textLength multiline rest

/-- Reads a content of which a run of text is pending already. -/
def readRun (lineStart : Bool) (rest : List Char) : Body :=
  let run := pending ++ rest.take (runLength multiline lineStart rest)
  Body.ofText offset run ++ readParts fragment? (offset + byteWidth run)
    (partsFrom multiline multiline (rest.drop (runLength multiline lineStart rest)))

variable {fragment? multiline offset pending}

theorem readRun_end (lineStart : Bool) : readRun fragment? multiline offset pending lineStart [] = Body.ofText offset pending := by
  simp only [readRun, List.take_nil, List.drop_nil, List.append_nil]
  exact Body.append_empty _

/-- A character of text is added to the run. -/
theorem readRun_text {c : Char} {cs : List Char} {lineStart : Bool} (htext : beginsPart (c :: cs) = false)
    (hmarker : (if lineStart then indentLength? (c :: cs) else none) = none) :
    readRun fragment? multiline offset pending lineStart (c :: cs) =
      readRun fragment? multiline offset (pending ++ [c]) (c == '\n' && multiline) cs := by
  have hlength : runLength multiline lineStart (c :: cs) = runLength multiline (c == '\n' && multiline) cs + 1 := by
    rw [runLength, hmarker, textLength_cons htext, runLength]
    cases c == '\n' && multiline with
    | true =>
      simp only [Bool.true_and, if_true, Option.isSome_none, Bool.false_eq_true, if_false]
      split <;> rfl
    | false => simp
  simp only [readRun, hlength, List.take_succ_cons, List.drop_succ_cons, List.append_assoc, List.singleton_append]

/-- Without a pending run the content is read part by part. -/
theorem readRun_nil (lineStart : Bool) (hline : lineStart = true → multiline = true) (rest : List Char) :
    readRun fragment? multiline offset [] lineStart rest = readParts fragment? offset (partsFrom multiline lineStart rest) := by
  cases rest with
  | nil => rw [readRun_end]; rfl
  | cons c cs =>
    cases hmarker : (if lineStart then indentLength? (c :: cs) else none) with
    | some n =>
      obtain rfl : lineStart = true := by
        cases lineStart with
        | true => rfl
        | false => cases hmarker
      rw [readRun, runLength, hmarker, hline rfl]
      rfl
    | none =>
      cases hbegins : beginsPart (c :: cs) with
      | true =>
        rw [readRun, runLength, hmarker, textLength_of_begins hbegins,
          partsFrom_unmarked (indentLength?_of_begins hbegins) lineStart multiline]
        rfl
      | false =>
        have hpos := (raw_firstPart multiline lineStart c cs).2
        have hle := textLength_le multiline (c :: cs)
        rw [readRun, runLength, hmarker, partsFrom_cons, readParts_cons]
        rw [firstPart_text hmarker hbegins] at hpos ⊢
        rw [List.length_take, Nat.min_eq_left hle] at hpos ⊢
        have hrun : (c :: cs).take (textLength multiline (c :: cs)) ≠ [] := by
          rw [← List.length_pos_iff, List.length_take, Nat.min_eq_left hle]
          exact hpos
        simp only [Option.isSome_none, Bool.false_eq_true, if_false, List.nil_append, Body.ofText, if_neg hrun]
        simp only [beq_self_eq_true, Bool.and_true]
        rfl

/-- Before a part other than text the run ends. -/
theorem readRun_part {c : Char} {cs : List Char} {lineStart : Bool} {part : Part}
    (hrun : runLength multiline lineStart (c :: cs) = 0) (hpart : firstPart multiline multiline (c :: cs) = part)
    (hkind : part.kind ≠ .text) :
    readRun fragment? multiline offset pending lineStart (c :: cs) =
      Body.ofText offset pending ++
        (readParts fragment? (offset + byteWidth pending) [part] ++
          readRun fragment? multiline (offset + byteWidth pending + byteWidth part.raw) [] false
            ((c :: cs).drop part.raw.length)) := by
  have hflag : (multiline && part.kind == .text) = false := by
    simp [hkind]
  rw [readRun, hrun]
  simp only [List.take_zero, List.append_nil, List.drop_zero]
  rw [partsFrom_cons, hpart, hflag, readParts_cons, readRun_nil false nofun]

end

/-! ## The loop and the parts -/

/-- The fragments of the splitter are lexed, and as in the document. -/
def Splitter.Lexes (splitter : Splitter) (fragment? : Option (Nat → List Char → Lexed)) : Prop :=
  splitter.fragment? = fragment?.map fun lex offset text => some (lex offset text)

section

variable {splitter : Splitter} {fragment? : Option (Nat → List Char → Lexed)} {rest trail pending cs : List Char}
  {start i turns : Nat} {lineStart : Bool}

theorem flush?_eq (h : At splitter.body start (pending ++ rest)) :
    splitter.flush? start (start + byteWidth pending) = some (Body.ofText (splitter.base + start) pending) := by
  rw [Splitter.flush?, h.slice]
  cases pending with
  | nil => simp [Body.ofText]
  | cons c cs =>
    have hpos := Char.utf8Size_pos c
    rw [if_pos (by rw [byteWidth_cons]; omega), Body.ofText, if_neg (by simp)]
    simp only [Splitter.span, Nat.add_assoc]
    rfl

/-- What is left of the content can be sliced. -/
theorem slice?_content (h : At splitter.body i (rest ++ trail)) (hstop : i + byteWidth rest = splitter.stop) :
    slice? splitter.body ⟨i, splitter.stop⟩ = some rest := by
  rw [← hstop]
  exact h.slice

theorem marker?_eq (h : lineStart = true → At splitter.body i (rest ++ trail) ∧ i + byteWidth rest = splitter.stop) :
    splitter.marker? lineStart i = some (if lineStart then indentLength? rest else none) := by
  cases lineStart with
  | false => rfl
  | true =>
    obtain ⟨hat, hstop⟩ := h rfl
    rw [Splitter.marker?, if_pos rfl, slice?_content hat hstop]
    dsimp only [bind, Option.bind, pure]
    rw [indentBytes_eq rest, if_pos rfl]

theorem escape?_eq (fragment? : Option (Nat → List Char → Lexed)) (multiline : Bool) (h : At splitter.body i ('\\' :: cs ++ trail))
    (hstop : i + byteWidth ('\\' :: cs) = splitter.stop) :
    splitter.escape? i =
      some (readParts fragment? (splitter.base + i) [firstPart multiline multiline ('\\' :: cs)],
        i + byteWidth (firstPart multiline multiline ('\\' :: cs)).raw) := by
  have hbackslash : '\\'.utf8Size = 1 := by decide
  have hbehind : At splitter.body (i + 1) (cs ++ trail) := h.ascii hbackslash
  have hrest : slice? splitter.body ⟨i + 1, splitter.stop⟩ = some cs :=
    slice?_content hbehind (by rw [← hstop, byteWidth_cons, hbackslash, Nat.add_assoc])
  have hraw (k : Nat) : slice? splitter.body ⟨i, i + 1 + byteWidth (cs.take k)⟩ = some ('\\' :: cs.take k) := by
    have hsplit : '\\' :: cs ++ trail = '\\' :: cs.take k ++ (cs.drop k ++ trail) := by
      rw [List.cons_append, List.cons_append, ← List.append_assoc, List.take_append_drop]
    rw [hsplit] at h
    have hslice := h.slice
    rwa [byteWidth_cons, hbackslash, ← Nat.add_assoc] at hslice
  have hnext (k : Nat) : i + 1 + byteWidth (cs.take k) = i + byteWidth ('\\' :: cs.take k) := by
    rw [byteWidth_cons, hbackslash, Nat.add_assoc]
  rw [Splitter.escape?, hrest, firstPart_escape]
  dsimp only [bind, Option.bind, pure]
  rw [escapeBytes?_eq]
  cases hescape : JuiceSyntax.escape? cs with
  | some found =>
    obtain ⟨value, n⟩ := found
    dsimp only
    rw [hraw n, hnext n]
    dsimp only [readParts, Splitter.span, List.take_succ_cons]
    rw [Nat.add_assoc]
  | none =>
    dsimp only
    rw [hraw 1, hnext 1]
    cases cs with
    | nil =>
      dsimp only [readParts, Splitter.span, List.headD_nil]
      rw [Nat.add_assoc]
      rfl
    | cons c cs =>
      dsimp only [readParts, Splitter.span, List.take_succ_cons, List.take_zero, List.headD_cons]
      rw [Nat.add_assoc]

/-- The inside of a fragment is found, and ends where the fragment does or before its brace. -/
theorem fragmentRange?_eq (multiline : Bool) (h : At splitter.body i ('$' :: '{' :: cs ++ trail))
    (hstop : i + byteWidth ('$' :: '{' :: cs) = splitter.stop) :
    ∃ innerStop closed, splitter.fragmentRange? i =
        some (innerStop, i + byteWidth (firstPart multiline multiline ('$' :: '{' :: cs)).raw) ∧
      slice? splitter.body ⟨i + 2, innerStop⟩ = some (firstPart multiline multiline ('$' :: '{' :: cs)).inner ∧
      (firstPart multiline multiline ('$' :: '{' :: cs)).kind = .fragment closed := by
  have hopening (text : List Char) : byteWidth ('$' :: '{' :: text) = 2 + byteWidth text := by
    have hdollar : '$'.utf8Size = 1 := by decide
    have hbrace : '{'.utf8Size = 1 := by decide
    rw [byteWidth_cons, byteWidth_cons, hdollar, hbrace]
    omega
  have hbehind : At splitter.body (i + 2) (cs ++ trail) := (h.ascii (by decide)).ascii (by decide)
  have hrest := slice?_content hbehind (by rw [← hstop, hopening, Nat.add_assoc])
  rw [Splitter.fragmentRange?, hrest, firstPart_fragment]
  dsimp only [bind, Option.bind, pure]
  rw [closingByte?_eq]
  cases hlength : literalLength [.code 0] cs with
  | none =>
    refine ⟨_, false, ?_, hrest, rfl⟩
    rw [← hstop]
    rfl
  | some n =>
    obtain ⟨inner, rfl, hcs⟩ := exists_inner_of_literalLength hlength
    obtain ⟨more, rfl⟩ : ∃ more, cs = inner ++ '}' :: more := ⟨_, hcs⟩
    have hclosing : '}'.utf8Size = 1 := by decide
    have hdrop : (inner ++ '}' :: more).drop (inner.length + 1) = more := by
      rw [List.drop_length_add_append]
      rfl
    have hclosed : closedAt (inner ++ '}' :: more) (inner ++ '}' :: more) (some (inner.length + 1)) = some (byteWidth inner) := by
      rw [closedAt, Option.map_some, hdrop, byteWidth_append, byteWidth_cons, hclosing, Option.some.injEq]
      omega
    have htake : ('$' :: '{' :: (inner ++ '}' :: more)).take (inner.length + 1 + 2) = '$' :: '{' :: (inner ++ ['}']) := by
      rw [List.take_succ_cons, List.take_succ_cons, List.take_length_add_append]
      rfl
    rw [hclosed]
    dsimp only
    rw [htake]
    refine ⟨i + 2 + byteWidth inner, true, ?_, ?_, rfl⟩
    · rw [hopening, byteWidth_append, byteWidth_cons, byteWidth_nil, hclosing]
      simp only [Nat.add_assoc]
    · rw [List.append_assoc] at hbehind
      simpa [Part.inner] using hbehind.slice

theorem fragmentAt?_eq (multiline : Bool) (hlex : splitter.Lexes fragment?) (h : At splitter.body i ('$' :: '{' :: cs ++ trail))
    (hstop : i + byteWidth ('$' :: '{' :: cs) = splitter.stop) :
    splitter.fragmentAt? i =
      some (readParts fragment? (splitter.base + i) [firstPart multiline multiline ('$' :: '{' :: cs)],
        i + byteWidth (firstPart multiline multiline ('$' :: '{' :: cs)).raw) := by
  obtain ⟨innerStop, closed, hrange, hinner, hkind⟩ := fragmentRange?_eq multiline h hstop
  rw [Splitter.fragmentAt?, hrange, hlex]
  dsimp only [bind, Option.bind, pure, readParts, Splitter.span]
  rw [hkind]
  cases fragment? with
  | none =>
    dsimp only [Option.map_none]
    rw [Nat.add_assoc]
  | some lex =>
    dsimp only [Option.map_some]
    rw [hinner]
    simp only [Nat.add_assoc, List.append_nil]

/-! ## The turns of the loop -/

/-- A byte of another character is passed. -/
theorem upTo?_high {b : Char} (hlt : i < splitter.stop) (hb : byteAt? splitter.body i = some b)
    (hhigh : 128 ≤ b.val.toNat) :
    splitter.upTo? (turns + 1) start false i = splitter.upTo? turns start false (i + 1) := by
  have hne (a : Char) (ha : a.utf8Size = 1) : b ≠ a := ne_of_high hhigh ha
  have hmarker : splitter.marker? false i = some none := rfl
  rw [Splitter.upTo?, if_pos hlt, hmarker]
  dsimp only [bind, Option.bind]
  rw [hb]
  dsimp only
  rw [if_neg (hne _ (by decide)), if_neg fun h => hne _ (by decide) h.1, beq_eq_false_iff_ne.2 (hne _ (by decide)),
    Bool.false_and]

/-- A character of text is passed. -/
theorem upTo?_text {c : Char} (hat : At splitter.body i (c :: cs ++ trail)) (hstop : i + byteWidth (c :: cs) = splitter.stop)
    (hmarker : (if lineStart then indentLength? (c :: cs) else none) = none) (htext : beginsPart (c :: cs) = false) :
    splitter.upTo? (turns + 1) start lineStart i =
      splitter.upTo? turns start (c == '\n' && splitter.multiline) (i + 1) := by
  obtain ⟨b, hb, hsame⟩ := hat.first
  have hother := mt beginsPart_iff.2 (by rw [htext]; decide)
  have hescape : b ≠ '\\' := fun h => hother (.inl ((hsame _ (by decide)).1 h))
  have hfragment : ¬(b = '$' ∧ byteAt? splitter.body (i + 1) = some '{' ∧ i + 1 < splitter.stop) := by
    rintro ⟨hdollar, hbrace, hinside⟩
    have hdollar := (hsame _ (by decide)).1 hdollar
    have hnext := hat.ascii (by rw [hdollar]; decide)
    have hhead := (hnext.byteAt_iff (by decide)).1 hbrace
    cases cs with
    | nil =>
      rw [byteWidth_cons, byteWidth_nil, hdollar, show '$'.utf8Size = 1 by decide] at hstop
      omega
    | cons d ds => exact hother (.inr ⟨hdollar, hhead⟩)
  have hnewline : (b == '\n') = (c == '\n') := by
    rw [Bool.eq_iff_iff, beq_iff_eq, beq_iff_eq]
    exact hsame '\n' (by decide)
  have hlt : i < splitter.stop := by
    have hpos := Char.utf8Size_pos c
    rw [← hstop, byteWidth_cons]
    omega
  rw [Splitter.upTo?, if_pos hlt, marker?_eq fun _ => ⟨hat, hstop⟩, hmarker]
  dsimp only [bind, Option.bind]
  rw [hb]
  dsimp only
  rw [if_neg hescape, if_neg hfragment, hnewline]

/-- Behind the part that stands at `i` the loop does not fail, and goes on with nothing pending. -/
def Splitter.GoesOn (splitter : Splitter) (fragment? : Option (Nat → List Char → Lexed)) (turns i : Nat) (part : Part)
    (rest : List Char) : Prop :=
  splitter.upTo? turns (i + byteWidth part.raw) false (i + byteWidth part.raw) =
    some (readRun fragment? splitter.multiline (splitter.base + (i + byteWidth part.raw)) [] false
      (rest.drop part.raw.length))

section

variable {c : Char} {part : Part} (hstart : At splitter.body start (pending ++ (c :: cs ++ trail)))
  (hstop : start + byteWidth pending + byteWidth (c :: cs) = splitter.stop)
  (hpart : firstPart splitter.multiline splitter.multiline (c :: cs) = part)
  (hon : splitter.GoesOn fragment? turns (start + byteWidth pending) part (c :: cs))

include hstart hpart

theorem at_behind_part :
    At splitter.body (start + byteWidth pending + byteWidth part.raw) ((c :: cs).drop part.raw.length ++ trail) := by
  have hstarts := (raw_firstPart splitter.multiline splitter.multiline c cs).1
  rw [hpart] at hstarts
  have hat := hstart.right
  rw [← List.prefix_iff_eq_append.1 hstarts, List.append_assoc] at hat
  exact hat.right

include hstop hon

/-- A marker ends the pending run. -/
theorem upTo?_marker {n : Nat} (hindent : indentLength? (c :: cs) = some n) (hmultiline : splitter.multiline = true) :
    splitter.upTo? (turns + 1) start true (start + byteWidth pending) =
      some (readRun fragment? splitter.multiline (splitter.base + start) pending true (c :: cs)) := by
  obtain rfl : ⟨.indent, (c :: cs).take n⟩ = part := by
    rw [← hpart, hmultiline]
    exact (firstPart_marked hindent).symm
  have hwide : byteWidth ((c :: cs).take n) = n := byteWidth_marker hindent
  have hlt : start + byteWidth pending < splitter.stop := by
    have hpos := Char.utf8Size_pos c
    rw [← hstop, byteWidth_cons]
    omega
  have hrun : runLength splitter.multiline true (c :: cs) = 0 := by
    rw [runLength, if_pos rfl, hindent]
    rfl
  rw [Splitter.GoesOn] at hon
  dsimp only at hon
  rw [hwide] at hon
  rw [Splitter.upTo?, if_pos hlt, marker?_eq fun _ => ⟨hstart.right, hstop⟩, if_pos rfl, hindent,
    readRun_part hrun hpart nofun]
  dsimp only [bind, Option.bind, pure]
  rw [flush?_eq hstart, hon]
  simp only [readParts, Splitter.span, hwide, Nat.add_assoc]

/-- So does an escape or a fragment. -/
theorem upTo?_begins (hlex : splitter.Lexes fragment?) (hbegins : beginsPart (c :: cs) = true) :
    splitter.upTo? (turns + 1) start lineStart (start + byteWidth pending) =
      some (readRun fragment? splitter.multiline (splitter.base + start) pending lineStart (c :: cs)) := by
  have hat := hstart.right
  have hmarker : (if lineStart then indentLength? (c :: cs) else none) = none := by
    rw [indentLength?_of_begins hbegins, ite_self]
  have hlt : start + byteWidth pending < splitter.stop := by
    have hpos := Char.utf8Size_pos c
    rw [← hstop, byteWidth_cons]
    omega
  have hrun : runLength splitter.multiline lineStart (c :: cs) = 0 := by
    rw [runLength, hmarker, textLength_of_begins hbegins]
    rfl
  obtain ⟨b, hb, hsame⟩ := hat.first
  rw [Splitter.GoesOn] at hon
  rw [Splitter.upTo?, if_pos hlt, marker?_eq fun _ => ⟨hat, hstop⟩, hmarker,
    readRun_part hrun hpart (hpart ▸ kind_of_begins hbegins)]
  dsimp only [bind, Option.bind, pure]
  rw [hb]
  dsimp only
  rw [flush?_eq hstart]
  obtain rfl | ⟨rfl, hhead⟩ := beginsPart_iff.1 hbegins
  · rw [if_pos ((hsame _ (by decide)).2 rfl), escape?_eq fragment? splitter.multiline hat hstop, hpart]
    dsimp only
    rw [hon]
    simp only [Nat.add_assoc]
  · obtain ⟨ds, rfl⟩ := List.head?_eq_some_iff.1 hhead
    have hdollar : '$'.utf8Size = 1 := by decide
    have hopening : '{'.utf8Size = 1 := by decide
    have hbyte : b = '$' := (hsame '$' hdollar).2 rfl
    have hbrace : byteAt? splitter.body (start + byteWidth pending + 1) = some '{' :=
      ((hat.ascii hdollar).byteAt_iff hopening).2 rfl
    have hinside : start + byteWidth pending + 1 < splitter.stop := by
      rw [← hstop, byteWidth_cons, byteWidth_cons, hdollar, hopening]
      omega
    rw [if_neg (by rw [hbyte]; decide), if_pos ⟨hbyte, hbrace, hinside⟩, fragmentAt?_eq splitter.multiline hlex hat hstop,
      hpart]
    dsimp only
    rw [hon]
    simp only [Nat.add_assoc]

end

/-! ## Where the loop stands -/

/-- A run of text is pending from `start` on, and the offset is in the first character of what is left of the
content, or at its beginning where a marker could stand. -/
structure Splitter.StandsIn (splitter : Splitter) (trail : List Char) (start : Nat) (pending rest : List Char)
    (lineStart : Bool) (i : Nat) : Prop where
  run : At splitter.body start (pending ++ (rest ++ trail))
  stop : start + byteWidth pending + byteWidth rest = splitter.stop
  near : Near splitter.body i (rest ++ trail)
  line : lineStart = true → At splitter.body i (rest ++ trail) ∧ splitter.multiline = true

namespace Splitter.StandsIn

variable {c : Char} {part : Part}

theorem at_or (h : splitter.StandsIn trail start pending rest lineStart i) (hlt : i < splitter.stop) :
    At splitter.body i (rest ++ trail) ∨ lineStart = false ∧ ∃ b : Char, byteAt? splitter.body i = some b ∧
      128 ≤ b.val.toNat ∧ Near splitter.body (i + 1) (rest ++ trail) := by
  have hwidth := h.run.right.width
  have hstop := h.stop
  rw [byteWidth_append] at hwidth
  cases lineStart with
  | true => exact .inl (h.line rfl).1
  | false => exact (h.near.at_or (by omega)).imp_right fun h => ⟨rfl, h⟩

theorem rest_eq_nil (h : splitter.StandsIn trail start pending rest lineStart i) (hle : splitter.stop ≤ i) : rest = [] := by
  have hstop := h.stop
  obtain ⟨j, hat, hj, -⟩ | ⟨hnil, -⟩ := h.near
  · have hplace := hat.eq h.run.right
    have hlength := length_le_byteWidth rest
    exact List.eq_nil_of_length_eq_zero (by omega)
  · exact (List.append_eq_nil_iff.1 hnil).1

/-- Inside a character no marker stands. -/
theorem high (h : splitter.StandsIn trail start pending rest lineStart i) (hnext : Near splitter.body (i + 1) (rest ++ trail)) :
    splitter.StandsIn trail start pending rest false (i + 1) :=
  ⟨h.run, h.stop, hnext, nofun⟩

theorem text (h : splitter.StandsIn trail start pending (c :: cs) lineStart i) (hat : At splitter.body i (c :: cs ++ trail)) :
    splitter.StandsIn trail start (pending ++ [c]) cs (c == '\n' && splitter.multiline) (i + 1) where
  run := by simpa using h.run
  stop := by
    rw [← h.stop, byteWidth_append, byteWidth_cons, byteWidth_cons, byteWidth_nil]
    omega
  near := .one hat
  line hline := by
    rw [Bool.and_eq_true, beq_iff_eq] at hline
    exact ⟨hat.ascii (by rw [hline.1]; decide), hline.2⟩

theorem behind (h : splitter.StandsIn trail start pending (c :: cs) lineStart i)
    (hpart : firstPart splitter.multiline splitter.multiline (c :: cs) = part) :
    splitter.StandsIn trail (start + byteWidth pending + byteWidth part.raw) [] ((c :: cs).drop part.raw.length) false
      (start + byteWidth pending + byteWidth part.raw) := by
  have hbehind := at_behind_part h.run hpart
  have hleft := hbehind.width
  have hwidth := h.run.right.width
  have hstop := h.stop
  rw [byteWidth_append] at hleft hwidth
  exact ⟨hbehind, by rw [byteWidth_nil]; omega, .of_at hbehind, nofun⟩

/-- A turn at a character, from how the loop goes on behind the part there and behind a character of text. -/
theorem upTo?_character (h : splitter.StandsIn trail start pending (c :: cs) lineStart (start + byteWidth pending))
    (hlex : splitter.Lexes fragment?) (hpart : firstPart splitter.multiline splitter.multiline (c :: cs) = part)
    (hon : splitter.GoesOn fragment? turns (start + byteWidth pending) part (c :: cs))
    (htext : splitter.upTo? turns start (c == '\n' && splitter.multiline) (start + byteWidth pending + 1) =
      some (readRun fragment? splitter.multiline (splitter.base + start) (pending ++ [c]) (c == '\n' && splitter.multiline) cs)) :
    splitter.upTo? (turns + 1) start lineStart (start + byteWidth pending) =
      some (readRun fragment? splitter.multiline (splitter.base + start) pending lineStart (c :: cs)) := by
  cases hbegins : beginsPart (c :: cs) with
  | true => exact upTo?_begins h.run h.stop hpart hon hlex hbegins
  | false =>
    cases hmarker : (if lineStart then indentLength? (c :: cs) else none) with
    | some n =>
      obtain rfl : lineStart = true := by
        cases lineStart with
        | true => rfl
        | false => cases hmarker
      exact upTo?_marker h.run h.stop hpart hon hmarker (h.line rfl).2
    | none => rw [upTo?_text h.run.right h.stop hmarker hbegins, readRun_text hbegins hmarker, htext]

/-- The loop never fails. By induction on the turns: what is left of the content gets shorter, or the offset gets
further into its first character. -/
theorem upTo?_eq (h : splitter.StandsIn trail start pending rest lineStart i) (hlex : splitter.Lexes fragment?)
    (hturns : splitter.stop < i + turns) (hpos : 0 < turns) :
    splitter.upTo? turns start lineStart i =
      some (readRun fragment? splitter.multiline (splitter.base + start) pending lineStart rest) := by
  induction turns generalizing start i lineStart pending rest with
  | zero => exact absurd hpos (Nat.lt_irrefl 0)
  | succ turns ih =>
    by_cases hlt : i < splitter.stop
    · obtain hat | ⟨rfl, b, hb, hhigh, hnext⟩ := h.at_or hlt
      · obtain rfl := hat.eq h.run.right
        cases rest with
        | nil =>
          have hstop := h.stop
          rw [byteWidth_nil] at hstop
          omega
        | cons c cs =>
          obtain ⟨part, hpart⟩ : ∃ part, firstPart splitter.multiline splitter.multiline (c :: cs) = part := ⟨_, rfl⟩
          have hlong : 0 < byteWidth part.raw := by
            have hfirst := (raw_firstPart splitter.multiline splitter.multiline c cs).2
            rw [hpart] at hfirst
            exact Nat.lt_of_lt_of_le hfirst (length_le_byteWidth _)
          exact h.upTo?_character hlex hpart (ih (h.behind hpart) (by omega) (by omega)) (ih (h.text hat) (by omega) (by omega))
      · rw [upTo?_high hlt hb hhigh]
        exact ih (h.high hnext) (by omega) (by omega)
    · obtain rfl := h.rest_eq_nil (Nat.le_of_not_lt hlt)
      have hstop := h.stop
      rw [byteWidth_nil, Nat.add_zero] at hstop
      rw [Splitter.upTo?, if_neg hlt, readRun_end, ← hstop]
      exact flush?_eq h.run

end Splitter.StandsIn

/-- The content of a body, read from where it begins. -/
theorem upTo?_content (splitter : Splitter) (hlex : splitter.Lexes fragment?) {lead content trail : List Char}
    (hbody : splitter.body = lead ++ content ++ trail) (hstop : splitter.stop = byteWidth lead + byteWidth content) :
    splitter.upTo? (byteWidth splitter.body + 1) (byteWidth lead) splitter.multiline (byteWidth lead) =
      some (readParts fragment? (splitter.base + byteWidth lead) (parts splitter.multiline content)) := by
  have hat : At splitter.body (byteWidth lead) ([] ++ (content ++ trail)) := ⟨lead, by rw [hbody, List.append_assoc]; rfl, rfl⟩
  have hwidth := hat.width
  rw [byteWidth_append, byteWidth_append] at hwidth
  have hstands : splitter.StandsIn trail (byteWidth lead) [] content splitter.multiline (byteWidth lead) :=
    ⟨hat, hstop.symm, .of_at hat, fun h => ⟨hat, h⟩⟩
  rw [hstands.upTo?_eq hlex (by omega) (by omega), readRun_nil _ id]
  rfl

/-- The splitting never fails, and reads the content of the body part by part. -/
theorem splitBody?_eq (checked? : Option (Nat → List Char → Option Lexed)) (body : List Char) (base : Nat)
    (hlex : checked? = fragment?.map fun lex offset text => some (lex offset text)) :
    splitBody? checked? body base = some (match multilineContent? body with
      | some (lead, content) => (true, readParts fragment? (base + byteWidth lead) (parts true content))
      | none => (false, readParts fragment? base (parts false body))) := by
  rw [splitBody?, contentRange?_eq]
  cases hlines : multilineContent? body with
  | none =>
    have hbody : body = [] ++ body ++ [] := by simp
    have hcontent := upTo?_content ⟨checked?, body, base, byteWidth body, false⟩ hlex hbody (by simp)
    dsimp only [bind, Option.bind, pure]
    rw [byteWidth_nil] at hcontent
    rw [hcontent]
    rfl
  | some found =>
    obtain ⟨lead, content⟩ := found
    obtain ⟨trail, hbody, -⟩ := multilineContent?_eq hlines
    have hcontent := upTo?_content ⟨checked?, body, base, byteWidth lead + byteWidth content, true⟩ hlex hbody rfl
    dsimp only [bind, Option.bind, pure]
    rw [hcontent]

end

end JuiceSyntax
