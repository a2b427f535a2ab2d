/-
  The parts of a string body by byte offsets: where its content begins and ends, the length of a marker, and what
  an escape stands for. They look at bytes and slice the text between offsets, and fail (`none`) where a slice would
  cut a character in two.

  `contentRange?_eq`, `indentBytes_eq`, `escapeBytes?_eq`: none of them ever fails, and each says of the bytes what
  the reading of the characters says.
-/
import JuiceSyntax.Proofs.Token.ByteScan
import JuiceSyntax.Proofs.Token.Literals

namespace JuiceSyntax

/-! ## Definitions -/

/-- The offset of the first of these characters. -/
def firstOffset? (a : Char) (text : List Char) : Option Nat :=
  match text.dropWhile (· != a) with
  | [] => none
  | _ :: _ => some (byteWidth (text.takeWhile (· != a)))

/-- The offset of the last of these characters. -/
def lastOffset? (a : Char) (text : List Char) : Option Nat :=
  match text.reverse.dropWhile (· != a) with
  | [] => none
  | _ :: before => some (byteWidth before)

/-- Where the content of a body begins and ends, and whether the body is multi-line. -/
def contentRange? (body : List Char) : Option (Nat × Nat × Bool) :=
  let lead := ((bytes body).takeWhile isLineBlank).length
  if byteAt? body lead = some '\n' then
    match lastOffset? '\n' body with
    | some newline => do
      let last ← slice? body ⟨newline + 1, byteWidth body⟩
      let stop := if (bytes last).all isLineBlank then max newline (lead + 1) else byteWidth body
      return (lead + 1, stop, true)
    | none => return (lead + 1, byteWidth body, true)
  else return (0, byteWidth body, false)

/-- The number of bytes of the marker that a line begins with. -/
def indentBytes (line : List Char) : Option Nat :=
  let blanks := ((bytes line).takeWhile fun b => b == ' ' || b == '\t').length
  if byteAt? line blanks = some '|' then
    match byteAt? line (blanks + 1) with
    | none => some (blanks + 1)
    | some b => if b = ' ' then some (blanks + 2) else if b = '\n' ∨ b = '\r' then some (blanks + 1) else none
  else none

/-- What a single character after a backslash stands for. -/
def simpleEscape? : Char → Option Char
  | '"' => some '"'
  | '\\' => some '\\'
  | '/' => some '/'
  | 'b' => some '\x08'
  | 'f' => some '\x0c'
  | 'n' => some '\n'
  | 'r' => some '\r'
  | 't' => some '\t'
  | '$' => some '$'
  | '0' => some '\x00'
  | _ => none

/-- The character with this code in hexadecimal digits, if they are such and it is one. -/
def hexCode? (hex : List Char) : Option Char := (hexDigits? hex).bind charOfCode?

/-- The character of a Unicode escape after the `u`, with the number of bytes it takes; the inner `none` if it is
none. -/
def unicodeBytes? : List Char → Option (Option (Char × Nat))
  | '{' :: braced =>
    match firstOffset? '}' braced with
    | none => return none
    | some close => do
      let hex ← slice? braced ⟨0, close⟩
      if hex.isEmpty || 6 < byteWidth hex then return none
      else return (hexCode? hex).map (·, close + 2)
  | rest => return (takeBytes? 4 rest).bind fun hex => (hexCode? hex).map (·, 4)

/-- What the text after a backslash stands for, if it makes an escape, and how many bytes of it go with the
backslash. -/
def escapeBytes? : List Char → Option (Option Char × Nat)
  | [] => return (none, 0)
  | c :: cs =>
    match simpleEscape? c with
    | some value => return (some value, 1)
    | none =>
      if c = 'u' then do
        let rest ← slice? (c :: cs) ⟨1, byteWidth (c :: cs)⟩
        match ← unicodeBytes? rest with
        | some (value, n) => return (some value, n + 1)
        | none => return (none, 1)
      else return (none, c.utf8Size)

/-! ## Margins -/

theorem byteWidth_reverse (text : List Char) : byteWidth text.reverse = byteWidth text := by
  induction text with
  | nil => rfl
  | cons c cs ih =>
    rw [List.reverse_cons, byteWidth_append, ih, byteWidth_cons, byteWidth_cons, byteWidth_nil]
    omega

theorem lastOffset?_eq {a : Char} (before : List Char) {tail : List Char} (h : a ∉ tail) :
    lastOffset? a (before ++ a :: tail) = some (byteWidth before) := by
  have hpassed : ∀ c ∈ tail.reverse, (c != a) = true := fun c hc => by
    rw [bne_iff_ne]
    rintro rfl
    exact h (List.mem_reverse.1 hc)
  have hreverse : (before ++ a :: tail).reverse = tail.reverse ++ a :: before.reverse := by simp
  rw [lastOffset?, hreverse, List.dropWhile_append_of_pos hpassed, List.dropWhile_cons, if_neg (by simp)]
  dsimp only
  rw [byteWidth_reverse]

theorem exists_last {a : Char} {text : List Char} (h : a ∈ text) : ∃ before tail, text = before ++ a :: tail ∧ a ∉ tail := by
  obtain ⟨as, bs, hsplit, hnot⟩ := List.eq_append_cons_of_mem (List.mem_reverse.2 h)
  refine ⟨bs.reverse, as.reverse, ?_, fun hmem => hnot (List.mem_reverse.1 hmem)⟩
  rw [← List.reverse_reverse text, hsplit]
  simp

theorem asciiOnly_isLineBlank : AsciiOnly isLineBlank :=
  ⟨false, fun c h => by
    simp [isLineBlank, ne_of_high h (show ' '.utf8Size = 1 by decide), ne_of_high h (show '\t'.utf8Size = 1 by decide),
      ne_of_high h (show '\r'.utf8Size = 1 by decide)]⟩

/-- The content of a multi-line body, without the line break that it begins with. -/
def keptLines (rest : List Char) : List Char :=
  match rest.reverse.dropWhile isLineBlank with
  | [] => []
  | '\n' :: kept => kept.reverse
  | _ => rest

theorem multilineContent?_keptLines (body : List Char) :
    multilineContent? body =
      match body.dropWhile isLineBlank with
      | '\n' :: rest => some (body.takeWhile isLineBlank ++ ['\n'], keptLines rest)
      | _ => none := by
  unfold multilineContent? keptLines
  rfl

section

variable {tail : List Char}

theorem mem_reverse_of_all (h : tail.all isLineBlank = true) : ∀ c ∈ tail.reverse, isLineBlank c = true :=
  fun c hc => List.all_eq_true.1 h c (List.mem_reverse.1 hc)

theorem keptLines_blank (h : tail.all isLineBlank = true) : keptLines tail = [] := by
  rw [keptLines, List.dropWhile_eq_nil_iff.2 (mem_reverse_of_all h)]

/-- The last line break goes, with the blanks behind it. -/
theorem keptLines_newline (kept : List Char) (h : tail.all isLineBlank = true) : keptLines (kept ++ '\n' :: tail) = kept := by
  have hreverse : (kept ++ '\n' :: tail).reverse = tail.reverse ++ '\n' :: kept.reverse := by simp
  rw [keptLines, hreverse, List.dropWhile_append_of_pos (mem_reverse_of_all h), List.dropWhile_cons, if_neg (by decide)]
  exact List.reverse_reverse kept

/-- Nothing goes if the last line is not blank. -/
theorem keptLines_text (front : List Char) (hline : '\n' ∉ tail) (h : tail.all isLineBlank = false) :
    keptLines (front ++ tail) = front ++ tail := by
  have hne : tail.reverse.dropWhile isLineBlank ≠ [] := fun hnil => by
    have hblank := List.dropWhile_eq_nil_iff.1 hnil
    rw [List.all_eq_true.2 fun c hc => hblank c (List.mem_reverse.2 hc)] at h
    cases h
  obtain ⟨c, more, hdrop⟩ := List.exists_cons_of_ne_nil hne
  have hc : c ≠ '\n' := by
    rintro rfl
    have hmem : '\n' ∈ tail.reverse.dropWhile isLineBlank := by rw [hdrop]; exact List.mem_cons_self
    exact hline (List.mem_reverse.1 ((List.dropWhile_suffix _).subset hmem))
  rw [keptLines, List.reverse_append, List.dropWhile_append, hdrop]
  dsimp only [List.isEmpty, List.cons_append]
  split
  · contradiction
  · rename_i heq
    exact absurd (List.cons.inj heq).1 hc
  · rfl

end

/-- Where the content ends, by the last line break. -/
theorem keptLines_stop {lead rest front tail : List Char} (hsplit : '\n' :: rest = front ++ '\n' :: tail) (htail : '\n' ∉ tail) :
    (if tail.all isLineBlank then max (byteWidth (lead ++ front)) (byteWidth lead + 1) else byteWidth (lead ++ '\n' :: rest)) =
      byteWidth lead + 1 + byteWidth (keptLines rest) := by
  have hnewline : '\n'.utf8Size = 1 := by decide
  have hwidth : byteWidth (lead ++ '\n' :: rest) = byteWidth lead + 1 + byteWidth rest := by
    rw [byteWidth_append, byteWidth_cons, hnewline, Nat.add_assoc]
  rw [byteWidth_append]
  cases front with
  | nil =>
    obtain ⟨-, rfl⟩ := List.cons.inj hsplit
    cases hblank : rest.all isLineBlank with
    | true =>
      rw [if_pos rfl, keptLines_blank hblank, byteWidth_nil]
      omega
    | false =>
      have hkept := keptLines_text [] htail hblank
      rw [List.nil_append] at hkept
      rw [if_neg (by decide), hwidth, hkept]
  | cons c kept =>
    rw [List.cons_append] at hsplit
    obtain ⟨rfl, rfl⟩ := List.cons.inj hsplit
    cases hblank : tail.all isLineBlank with
    | true =>
      rw [if_pos rfl, keptLines_newline kept hblank, byteWidth_cons, hnewline]
      omega
    | false =>
      have hkept := keptLines_text (kept ++ ['\n']) htail hblank
      rw [List.append_assoc, List.singleton_append] at hkept
      rw [if_neg (by decide), hwidth, hkept]

/-- The range of the content is found, and is that of the content of the characters. -/
theorem contentRange?_eq (body : List Char) :
    contentRange? body = some (match multilineContent? body with
      | some (lead, content) => (byteWidth lead, byteWidth lead + byteWidth content, true)
      | none => (0, byteWidth body, false)) := by
  have hat : At body (byteWidth (body.takeWhile isLineBlank)) (body.dropWhile isLineBlank) := by
    have h : At body 0 (body.takeWhile isLineBlank ++ body.dropWhile isLineBlank) := by
      rw [List.takeWhile_append_dropWhile]
      exact .zero body
    have hright := h.right
    rwa [Nat.zero_add] at hright
  unfold contentRange?
  dsimp only
  rw [length_takeWhile_bytes asciiOnly_isLineBlank, multilineContent?_keptLines]
  by_cases hline : (body.dropWhile isLineBlank).head? = some '\n'
  · obtain ⟨rest, hrest⟩ := List.head?_eq_some_iff.1 hline
    have hbody : body = body.takeWhile isLineBlank ++ '\n' :: rest := by
      rw [← hrest, List.takeWhile_append_dropWhile]
    generalize body.takeWhile isLineBlank = lead at hat hbody
    obtain ⟨front, tail, hsplit, htail⟩ := exists_last (List.mem_cons_self : '\n' ∈ '\n' :: rest)
    have hlast : lastOffset? '\n' body = some (byteWidth (lead ++ front)) := by
      rw [hbody, hsplit, ← List.append_assoc]
      exact lastOffset?_eq _ htail
    have hslice : slice? body ⟨byteWidth (lead ++ front) + 1, byteWidth body⟩ = some tail := by
      have hnewline : At body (byteWidth (lead ++ front)) ('\n' :: tail) :=
        ⟨lead ++ front, by rw [hbody, hsplit, List.append_assoc], rfl⟩
      exact (hnewline.ascii (by decide)).slice_rest
    rw [if_pos ((hat.byteAt_iff (by decide)).2 hline), hlast]
    dsimp only [bind, Option.bind, pure]
    rw [hslice, hrest]
    dsimp only
    have hlead : byteWidth (lead ++ ['\n']) = byteWidth lead + 1 := by
      rw [byteWidth_append]
      rfl
    rw [all_bytes asciiOnly_isLineBlank, hbody, keptLines_stop hsplit htail]
    show _ = some (byteWidth (lead ++ ['\n']), byteWidth (lead ++ ['\n']) + byteWidth (keptLines rest), true)
    rw [hlead]
  · rw [if_neg fun h => hline ((hat.byteAt_iff (by decide)).1 h)]
    split
    · rename_i hsome
      split at hsome
      · rename_i heq
        rw [heq] at hline
        exact absurd rfl hline
      · cases hsome
    · rfl

/-! ## Markers -/

theorem asciiOnly_indent : AsciiOnly fun c => c == ' ' || c == '\t' :=
  ⟨false, fun c h => by
    simp [ne_of_high h (show ' '.utf8Size = 1 by decide), ne_of_high h (show '\t'.utf8Size = 1 by decide)]⟩

/-- A marker takes one byte for each of its characters. -/
theorem byteWidth_marker {line : List Char} {n : Nat} (h : indentLength? line = some n) : byteWidth (line.take n) = n := by
  obtain ⟨hle, hall⟩ := mem_marker h
  have hascii : ∀ c ∈ line.take n, c.utf8Size = 1 := fun c hc => by
    obtain rfl | rfl | rfl := hall c hc
    all_goals decide
  rw [byteWidth_ascii hascii, List.length_take, Nat.min_eq_left hle]

/-- A marker is found. -/
theorem indentBytes_eq (line : List Char) : indentBytes line = indentLength? line := by
  have hsplit := List.takeWhile_append_dropWhile (p := fun c => c == ' ' || c == '\t') (l := line)
  have hdrop := drop_takeWhile (fun c => c == ' ' || c == '\t') line
  have hwidth : byteWidth (line.takeWhile fun c => c == ' ' || c == '\t') =
      (line.takeWhile fun c => c == ' ' || c == '\t').length := byteWidth_ascii fun c hc => by
    have hblank := List.mem_takeWhile_imp hc
    simp only [Bool.or_eq_true, beq_iff_eq] at hblank
    obtain rfl | rfl := hblank
    all_goals decide
  unfold indentBytes indentLength?
  dsimp only
  rw [length_takeWhile_bytes asciiOnly_indent, hwidth, hdrop]
  generalize line.takeWhile (fun c => c == ' ' || c == '\t') = blanks at hsplit hwidth
  generalize line.dropWhile (fun c => c == ' ' || c == '\t') = rest at hsplit
  subst hsplit
  have hat : At (blanks ++ rest) blanks.length rest := ⟨blanks, rfl, hwidth.symm⟩
  by_cases hbar : rest.head? = some '|'
  · obtain ⟨cs, rfl⟩ := List.head?_eq_some_iff.1 hbar
    have hnext := hat.ascii (by decide)
    rw [if_pos ((hat.byteAt_iff (by decide)).2 hbar)]
    cases cs with
    | nil =>
      have hnone := hnext.byteAt_eq 0
      rw [Nat.add_zero] at hnone
      rw [hnone]
      rfl
    | cons c cs =>
      obtain ⟨b, hb, hsame⟩ := hnext.first
      have hspace := hsame ' ' (by decide)
      have hnewline := hsame '\n' (by decide)
      have hreturn := hsame '\r' (by decide)
      rw [hb]
      simp only [hspace, hnewline, hreturn, beq_iff_eq, Bool.or_eq_true]
  · rw [if_neg fun h => hbar ((hat.byteAt_iff (by decide)).1 h)]
    split
    · exact absurd rfl hbar
    · exact absurd rfl hbar
    · rfl

/-! ## Escapes -/

theorem utf8Size_of_hexDigit {c : Char} (h : (Radix.hex.digit? c).isSome = true) : c.utf8Size = 1 := by
  have hle : c ≤ 'z' := by
    unfold Radix.digit? at h
    dsimp only at h
    split at h
    · rename_i hdigit
      exact Char.le_trans hdigit.2 (by decide)
    split at h
    · rename_i hletter
      exact hletter.2
    split at h
    · rename_i hletter
      exact Char.le_trans hletter.2 (by decide)
    · cases h
  exact Char.utf8Size_eq_one_iff.2 (UInt32.le_trans hle (by decide))

theorem byteWidth_of_hexCode {hex : List Char} {c : Char} (h : hexCode? hex = some c) : byteWidth hex = hex.length := by
  obtain ⟨code, hcode, -⟩ := Option.bind_eq_some_iff.1 h
  unfold hexDigits? at hcode
  split at hcode
  · rename_i hall
    exact byteWidth_ascii fun d hd => utf8Size_of_hexDigit (List.all_eq_true.1 hall d hd)
  · cases hcode

theorem hexCode?_map (hex : List Char) (n : Nat) :
    (do
      let c ← charOfCode? (← hexDigits? hex)
      return (c, n)) = (hexCode? hex).map (·, n) := by
  rw [hexCode?]
  cases hexDigits? hex with
  | none => rfl
  | some code => cases h : charOfCode? code <;> simp [h]

/-- The digits of a Unicode escape in braces. -/
theorem unicodeEscape?_braced (braced : List Char) :
    unicodeEscape? ('{' :: braced) =
      let hex := braced.takeWhile (· != '}')
      if (braced.dropWhile (· != '}')).isEmpty || hex.isEmpty || 6 < byteWidth hex then none
      else (hexCode? hex).map (·, hex.length + 2) := by
  rw [unicodeEscape?]
  dsimp only
  rw [drop_takeWhile, hexCode?_map]

theorem unicodeEscape?_four {rest : List Char} (h : ∀ braced, rest ≠ '{' :: braced) :
    unicodeEscape? rest = if rest.length < 4 then none else (hexCode? (rest.take 4)).map (·, 4) := by
  unfold unicodeEscape?
  split
  · exact absurd rfl (h _)
  · rw [hexCode?_map]

theorem takeBytes?_eq_some {n : Nat} {text front : List Char} (h : takeBytes? n text = some front) :
    front <+: text ∧ byteWidth front = n := by
  induction text generalizing n front with
  | nil =>
    cases n with
    | zero =>
      simp only [takeBytes?, Option.some.injEq] at h
      exact ⟨h ▸ List.nil_prefix, h ▸ rfl⟩
    | succ n => cases h
  | cons c cs ih =>
    cases n with
    | zero =>
      simp only [takeBytes?, Option.some.injEq] at h
      exact ⟨h ▸ List.nil_prefix, h ▸ rfl⟩
    | succ n =>
      rw [takeBytes?] at h
      split at h
      · rename_i hle
        obtain ⟨front, hfront, rfl⟩ := Option.map_eq_some_iff.1 h
        obtain ⟨hstarts, hwidth⟩ := ih hfront
        exact ⟨List.cons_prefix_cons.2 ⟨rfl, hstarts⟩, by rw [byteWidth_cons, hwidth]; omega⟩
      · cases h

/-- Four bytes that are hexadecimal digits are four characters. -/
theorem hexCode?_four (rest : List Char) :
    (takeBytes? 4 rest).bind hexCode? = if rest.length < 4 then none else hexCode? (rest.take 4) := by
  refine Option.ext fun c => ⟨fun h => ?_, fun h => ?_⟩
  · obtain ⟨hex, hhex, hc⟩ := Option.bind_eq_some_iff.1 h
    obtain ⟨hstarts, hwidth⟩ := takeBytes?_eq_some hhex
    rw [byteWidth_of_hexCode hc] at hwidth
    have hlength := hstarts.length_le
    rw [if_neg (by omega), ← hwidth, ← List.prefix_iff_eq_take.1 hstarts]
    exact hc
  · split at h
    · cases h
    · have hwidth := byteWidth_of_hexCode h
      have htake := takeBytes?_append (rest.take 4) (rest.drop 4)
      rw [hwidth, List.length_take, Nat.min_eq_left (by omega), List.take_append_drop] at htake
      rw [htake]
      exact h

theorem unicodeBytes?_eq (rest : List Char) : unicodeBytes? rest = some (unicodeEscape? rest) := by
  unfold unicodeBytes?
  split
  · rename_i braced
    have hsplit := List.takeWhile_append_dropWhile (p := (· != '}')) (l := braced)
    rw [unicodeEscape?_braced, firstOffset?]
    dsimp only
    generalize braced.takeWhile (· != '}') = hex at hsplit
    cases hclose : braced.dropWhile (· != '}') with
    | nil => rfl
    | cons c cs =>
      have hslice : slice? braced ⟨0, byteWidth hex⟩ = some hex := by
        rw [hclose] at hsplit
        have h := At.slice (hsplit ▸ At.zero braced : At braced 0 (hex ++ c :: cs))
        rwa [Nat.zero_add] at h
      dsimp only [bind, Option.bind, pure]
      rw [hslice]
      simp only [List.isEmpty_cons, Bool.false_or]
      split
      · rfl
      · cases hcode : hexCode? hex with
        | none => rfl
        | some value =>
          rw [byteWidth_of_hexCode hcode]
  · rename_i hbrace
    have hmap : ((takeBytes? 4 rest).bind fun hex => (hexCode? hex).map (·, 4)) = ((takeBytes? 4 rest).bind hexCode?).map (·, 4) := by
      cases takeBytes? 4 rest <;> rfl
    rw [unicodeEscape?_four hbrace, hmap, hexCode?_four]
    split <;> rfl

/-- A Unicode escape takes one byte for each of its characters. -/
theorem byteWidth_of_unicodeEscape {rest : List Char} {value : Char} {n : Nat}
    (h : unicodeEscape? rest = some (value, n)) : byteWidth (rest.take n) = n := by
  by_cases hbrace : ∃ braced, rest = '{' :: braced
  · obtain ⟨braced, rfl⟩ := hbrace
    have hsplit := List.takeWhile_append_dropWhile (p := (· != '}')) (l := braced)
    rw [unicodeEscape?_braced] at h
    dsimp only at h
    split at h
    · cases h
    · rename_i hwhole
      obtain ⟨c, hc, hpair⟩ := Option.map_eq_some_iff.1 h
      obtain ⟨rfl, rfl⟩ := Prod.mk.inj hpair
      have hwidth := byteWidth_of_hexCode hc
      cases hclose : braced.dropWhile (· != '}') with
      | nil => simp [hclose] at hwhole
      | cons d cs =>
        obtain rfl : d = '}' := by simpa [hclose] using List.head_dropWhile_not (· != '}') (l := braced) (by simp [hclose])
        rw [hclose] at hsplit
        generalize braced.takeWhile (· != '}') = hex at hsplit hwidth
        have htake : braced.take (hex.length + 1) = hex ++ ['}'] := by
          rw [← hsplit, List.take_length_add_append]
          rfl
        have hopening : '{'.utf8Size = 1 := by decide
        have hclosing : byteWidth ['}'] = 1 := by decide
        rw [List.take_succ_cons, htake, byteWidth_cons, byteWidth_append, hwidth, hopening, hclosing]
        omega
  · rw [unicodeEscape?_four fun braced heq => hbrace ⟨braced, heq⟩] at h
    split at h
    · cases h
    · obtain ⟨c, hc, hpair⟩ := Option.map_eq_some_iff.1 h
      obtain ⟨rfl, rfl⟩ := Prod.mk.inj hpair
      rw [byteWidth_of_hexCode hc, List.length_take, Nat.min_eq_left (by omega)]

theorem escape?_cons (c : Char) (cs : List Char) :
    escape? (c :: cs) =
      match simpleEscape? c with
      | some value => some (value, 1)
      | none => if c = 'u' then (unicodeEscape? cs).map fun (value, n) => (value, n + 1) else none := by
  unfold escape? simpleEscape?
  split
  all_goals simp_all

theorem utf8Size_of_simpleEscape {c value : Char} (h : simpleEscape? c = some value) : c.utf8Size = 1 := by
  unfold simpleEscape? at h
  split at h
  all_goals first
    | decide
    | cases h

/-- An escape is read, and takes as many bytes as its characters do. -/
theorem escapeBytes?_eq (rest : List Char) :
    escapeBytes? rest = some (match escape? rest with
      | some (value, n) => (some value, byteWidth (rest.take n))
      | none => (none, byteWidth (rest.take 1))) := by
  cases rest with
  | nil => rfl
  | cons c cs =>
    rw [escapeBytes?, escape?_cons]
    cases hsimple : simpleEscape? c with
    | some value =>
      have hc := utf8Size_of_simpleEscape hsimple
      simp [hc]
    | none =>
      dsimp only
      split
      · rename_i hu
        subst hu
        have hslice := ((At.zero ('u' :: cs)).ascii (by decide)).slice_rest
        rw [Nat.zero_add] at hslice
        dsimp only [bind, Option.bind, pure]
        rw [hslice]
        dsimp only
        rw [unicodeBytes?_eq]
        cases hunicode : unicodeEscape? cs with
        | none => rfl
        | some found =>
          obtain ⟨value, n⟩ := found
          have hwidth := byteWidth_of_unicodeEscape hunicode
          have hu : 'u'.utf8Size = 1 := by decide
          dsimp only [Option.map_some]
          rw [List.take_succ_cons, byteWidth_cons, hwidth, hu, Nat.add_comm]
      · simp

end JuiceSyntax
