/-
  The scan of a literal step by step. `Scan modes text modes' rest`: from the open modes `modes`
  before `text`, the scan gets to the open modes `modes'` before `rest`. What follows stays in
  sight, so that no step is cut in two: `${`, `//` and escapes are seen whole.

  `literalLength_eq_some_iff`: the length of a literal is that of a scan that closes all modes.
  What the scan passes until then depends neither on what follows (`literalLength_congr`) nor on
  the modes that stay open below (`Scan.frame`, `literalLength_frame`).

  `closingBrace?_eq`: a count of braces that scans each literal in a fragment anew finds the same
  brace as the scan that keeps all modes.
-/
import JuiceSyntax.Proofs.Token.Places
import Mathlib.Data.List.TakeWhile

namespace JuiceSyntax

/-- One step of the scan: the modes that are open after it, and the text that follows. -/
def scanStep? : List QuoteMode → List Char → Option (List QuoteMode × List Char)
  | [], _ => none
  | _ :: _, [] => none
  | .text :: modes, '"' :: cs => some (modes, cs)
  | .text :: _, ['\\'] => none
  | .text :: modes, '\\' :: _ :: cs => some (.text :: modes, cs)
  | .text :: modes, '$' :: '{' :: cs => some (.code 0 :: .text :: modes, cs)
  | .text :: modes, _ :: cs => some (.text :: modes, cs)
  | .code braces :: modes, '{' :: cs => some (.code (braces + 1) :: modes, cs)
  | .code 0 :: modes, '}' :: cs => some (modes, cs)
  | .code (braces + 1) :: modes, '}' :: cs => some (.code braces :: modes, cs)
  | .code braces :: modes, '"' :: cs => some (.text :: .code braces :: modes, cs)
  | .code braces :: modes, '/' :: '/' :: cs => some (.comment :: .code braces :: modes, cs)
  | .code braces :: modes, _ :: cs => some (.code braces :: modes, cs)
  | .comment :: modes, c :: cs => some (if c = '\n' then modes else .comment :: modes, cs)

/-! ## Steps -/

section

variable {modes mid : List QuoteMode} {text next : List Char}

/-- A step takes characters from the front of the text. -/
theorem append_of_scanStep (h : scanStep? modes text = some (mid, next)) : ∃ front, text = front ++ next ∧ front ≠ [] := by
  unfold scanStep? at h
  split at h
  all_goals first
    | contradiction
    | cases h
      exact ⟨[_], rfl, by simp⟩
    | cases h
      exact ⟨[_, _], rfl, by simp⟩

theorem open_of_scanStep {after : List QuoteMode × List Char} (h : scanStep? modes text = some after) : modes ≠ [] := by
  rintro rfl
  simp [scanStep?] at h

/-- The length of a literal, by the first step of its scan. -/
theorem literalLength_step (hopen : modes ≠ []) (text : List Char) :
    literalLength modes text =
      (scanStep? modes text).bind fun after =>
        (literalLength after.1 after.2).map (· + (text.length - after.2.length)) := by
  fun_cases scanStep? modes text
  all_goals simp_all [literalLength, Nat.add_assoc]

/-- A step sees no more of the open modes than the innermost, and leaves the others open. -/
theorem scanStep?_frame (hopen : modes ≠ []) (text : List Char) (below : List QuoteMode) :
    scanStep? (modes ++ below) text = (scanStep? modes text).map fun after => (after.1 ++ below, after.2) := by
  fun_cases scanStep? modes text
  all_goals simp_all [scanStep?]
  split <;> rfl

/-- A character of a literal that means nothing to the scan. -/
theorem scanStep?_text {c : Char} (modes : List QuoteMode) (hquote : c ≠ '"') (hescape : c ≠ '\\')
    (hfragment : c = '$' → next.head? ≠ some '{') : scanStep? (.text :: modes) (c :: next) = some (.text :: modes, next) := by
  cases next with
  | nil => simp_all [scanStep?]
  | cons d ds => rw [scanStep?] <;> simp_all

/-- A character of a fragment that means nothing to the scan. -/
theorem scanStep?_code {c : Char} (braces : Nat) (modes : List QuoteMode) (hopening : c ≠ '{') (hclosing : c ≠ '}')
    (hquote : c ≠ '"') (hcomment : c = '/' → next.head? ≠ some '/') :
    scanStep? (.code braces :: modes) (c :: next) = some (.code braces :: modes, next) := by
  cases next with
  | nil => rw [scanStep?] <;> simp_all
  | cons d ds => rw [scanStep?] <;> simp_all

/-- A step sees of what follows it no more than the first character, and of that nothing if it
closes the last mode. -/
theorem scanStep?_congr {front next' : List Char} (h : scanStep? modes (front ++ next) = some (mid, next))
    (hhead : mid = [] ∨ next'.head? = next.head?) : scanStep? modes (front ++ next') = some (mid, next') := by
  generalize htext : front ++ next = text at h
  fun_cases scanStep? modes text
  all_goals simp only [scanStep?, reduceCtorEq] at h
  all_goals
    cases h
    first
      | obtain rfl : front = [_] := List.append_cancel_right htext
      | obtain rfl : front = [_, _] := List.append_cancel_right htext
  case case7 hquote hbare hescape hfragment =>
    obtain hnil | hhead := hhead
    · cases hnil
    refine scanStep?_text _ hquote (fun hc => ?_) fun hc hopen => ?_
    · cases next with
      | nil => exact hbare hc rfl
      | cons d ds => exact hescape d ds hc rfl
    · obtain ⟨ds, hds⟩ := List.head?_eq_some_iff.1 (hhead.symm.trans hopen)
      exact hfragment ds hc hds
  case case13 braces _ _ hopening hlast hclosing hquote hcomment =>
    obtain hnil | hhead := hhead
    · cases hnil
    refine scanStep?_code _ _ hopening (fun hc => ?_) hquote fun hc hslash => ?_
    · cases braces with
      | zero => exact hlast rfl hc
      | succ braces => exact hclosing braces rfl hc
    · obtain ⟨ds, hds⟩ := List.head?_eq_some_iff.1 (hhead.symm.trans hslash)
      exact hcomment ds hc hds
  all_goals simp_all [scanStep?]

end

/-! ## Runs -/

/-- A number of steps of the scan. -/
inductive Scan : List QuoteMode → List Char → List QuoteMode → List Char → Prop
  | here {modes : List QuoteMode} {text : List Char} : Scan modes text modes text
  | step {modes mid out : List QuoteMode} {text next rest : List Char} (first : scanStep? modes text = some (mid, next))
    (others : Scan mid next out rest) : Scan modes text out rest

section

variable {modes mid out : List QuoteMode} {text next rest : List Char} {n : Nat}

theorem Scan.one (h : scanStep? modes text = some (mid, next)) : Scan modes text mid next := .step h .here

theorem Scan.trans (h : Scan modes text mid next) (h' : Scan mid next out rest) : Scan modes text out rest := by
  induction h with
  | here => exact h'
  | step first _ ih => exact .step first (ih h')

theorem Scan.suffix (h : Scan modes text out rest) : rest <:+ text := by
  induction h with
  | here => exact List.suffix_rfl
  | step first _ ih =>
    obtain ⟨front, rfl, -⟩ := append_of_scanStep first
    exact ih.trans (List.suffix_append _ _)

/-- Modes that are open below those of a scan stay open. -/
theorem Scan.frame (h : Scan modes text out rest) (below : List QuoteMode) : Scan (modes ++ below) text (out ++ below) rest := by
  induction h with
  | here => exact .here
  | step first _ ih =>
    exact .step (by rw [scanStep?_frame (open_of_scanStep first), first]; rfl) ih

/-- The length of a literal is what is passed of it and the length of the rest. -/
theorem Scan.literalLength (h : Scan modes text out rest) :
    literalLength modes text = (literalLength out rest).map (· + (text.length - rest.length)) := by
  induction h with
  | here => simp
  | step first others ih =>
    obtain ⟨front, rfl, -⟩ := append_of_scanStep first
    have hlength := others.suffix.length_le
    rw [literalLength_step (open_of_scanStep first), first, Option.bind_some, ih, Option.map_map]
    refine congrArg (fun f => Option.map f _) (funext fun k => ?_)
    simp only [Function.comp_apply, List.length_append]
    omega

/-- Where a text ends with the last character of a literal, so does what a scan leaves of it. -/
theorem Scan.literalLength_eq (h : Scan modes text out rest)
    (hlength : JuiceSyntax.literalLength modes text = some text.length) :
    JuiceSyntax.literalLength out rest = some rest.length := by
  rw [h.literalLength] at hlength
  obtain ⟨n, hn, hsum⟩ := Option.map_eq_some_iff.1 hlength
  have hle := h.suffix.length_le
  rw [hn, Option.some.injEq]
  omega

theorem scan_of_literalLength (h : literalLength modes text = some n) :
    n ≤ text.length ∧ Scan modes text [] (text.drop n) := by
  induction hk : text.length using Nat.strongRecOn generalizing modes text n with
  | _ k ih =>
    subst hk
    by_cases hopen : modes = []
    · subst hopen
      simp only [JuiceSyntax.literalLength, Option.some.injEq] at h
      subst h
      exact ⟨Nat.zero_le _, .here⟩
    · rw [literalLength_step hopen] at h
      obtain ⟨⟨mid, next⟩, hfirst, h⟩ := Option.bind_eq_some_iff.1 h
      obtain ⟨k, hk, rfl⟩ := Option.map_eq_some_iff.1 h
      obtain ⟨front, rfl, hne⟩ := append_of_scanStep hfirst
      have hpos := List.length_pos_iff.2 hne
      simp only [List.length_append, Nat.add_sub_cancel] at ih ⊢
      obtain ⟨hle, hothers⟩ := ih next.length (by omega) hk rfl
      refine ⟨by omega, .step hfirst ?_⟩
      rwa [Nat.add_comm k, List.drop_length_add_append]

/-- The length of a literal is that of a scan that closes all modes. -/
theorem literalLength_eq_some_iff :
    literalLength modes text = some n ↔ n ≤ text.length ∧ Scan modes text [] (text.drop n) := by
  refine ⟨scan_of_literalLength, fun ⟨hle, h⟩ => ?_⟩
  rw [h.literalLength, List.length_drop, JuiceSyntax.literalLength, Option.map_some, Nat.zero_add, Nat.sub_sub_self hle]

/-- What a scan passes does not depend on what follows it but for one character, and not on that
either if the scan closes all modes. -/
theorem Scan.congr {front next' : List Char} (h : Scan modes (front ++ next) out next)
    (hhead : out = [] ∨ next'.head? = next.head?) : Scan modes (front ++ next') out next' := by
  generalize htext : front ++ next = text at h
  induction h generalizing front with
  | here =>
    obtain rfl := List.append_left_eq_self.1 htext
    exact .here
  | @step modes mid out text text' rest first others ih =>
    obtain ⟨front', rfl, -⟩ := append_of_scanStep first
    obtain ⟨others', rfl⟩ := others.suffix
    obtain rfl : front = front' ++ others' := List.append_cancel_right (htext.trans (List.append_assoc ..).symm)
    rw [List.append_assoc]
    refine .step (scanStep?_congr first ?_) (ih hhead rfl)
    cases others' with
    | cons c cs => exact .inr rfl
    | nil =>
      -- Nothing is passed after the first step, which leads to the last modes.
      cases others with
      | here => exact hhead
      | step second others =>
        obtain ⟨front, heq, hne⟩ := append_of_scanStep second
        have hlength := others.suffix.length_le
        have hsame := congrArg List.length heq
        have hpos := List.length_pos_iff.2 hne
        simp only [List.nil_append, List.length_append] at hsame
        omega

theorem literalLength_congr {front : List Char} (h : literalLength modes (front ++ next) = some front.length)
    (next' : List Char) : literalLength modes (front ++ next') = some front.length := by
  rw [literalLength_eq_some_iff, List.drop_left] at h ⊢
  exact ⟨by simp, h.2.congr (.inl rfl)⟩

/-- A text that holds all of a literal is enough to see its length. -/
theorem literalLength_left {more : List Char} (h : literalLength modes (text ++ more) = some n) (hle : n ≤ text.length) :
    literalLength modes text = some n := by
  obtain ⟨front, back, rfl, rfl⟩ : ∃ front back, text = front ++ back ∧ front.length = n :=
    ⟨text.take n, text.drop n, (List.take_append_drop n text).symm, by rw [List.length_take, Nat.min_eq_left hle]⟩
  rw [List.append_assoc] at h
  exact literalLength_congr h back

/-- Of two groups of open modes the first is closed before the second. -/
theorem literalLength_frame (modes below : List QuoteMode) (text : List Char) :
    literalLength (modes ++ below) text =
      (literalLength modes text).bind fun n => (literalLength below (text.drop n)).map (· + n) := by
  induction hk : text.length using Nat.strongRecOn generalizing modes text with
  | _ k ih =>
    subst hk
    by_cases hopen : modes = []
    · subst hopen
      simp [JuiceSyntax.literalLength]
    rw [literalLength_step (List.append_ne_nil_of_left_ne_nil hopen _), literalLength_step hopen, scanStep?_frame hopen]
    cases hfirst : scanStep? modes text with
    | none => rfl
    | some after =>
      obtain ⟨mid, next⟩ := after
      obtain ⟨front, rfl, hne⟩ := append_of_scanStep hfirst
      have hpos := List.length_pos_iff.2 hne
      simp only [Option.map_some, Option.bind_some, List.length_append, Nat.add_sub_cancel] at ih ⊢
      rw [ih next.length (by omega) mid next rfl]
      cases literalLength mid next with
      | none => rfl
      | some n =>
        simp only [Option.bind_some, Option.map_some, Option.map_map]
        rw [Nat.add_comm n, List.drop_length_add_append]
        exact congrArg (fun f => Option.map f _) (funext fun m => by simp only [Function.comp_apply]; omega)

end

/-! ## The closing character -/

/-- What closes a mode. -/
def QuoteMode.closer : QuoteMode → Char
  | text => '"'
  | code _ => '}'
  | comment => '\n'

section

variable {modes mid : List QuoteMode} {mode last : QuoteMode} {text next rest : List Char} {n : Nat}

theorem getLast?_pop (h : (mode :: modes).getLast? = some last) :
    modes = [] ∧ mode = last ∨ ∃ mode', modes.getLast? = some mode' ∧ mode'.closer = last.closer := by
  cases modes with
  | nil => exact .inl ⟨rfl, by simpa using h⟩
  | cons below modes => exact .inr ⟨last, by simpa using h, rfl⟩

theorem getLast?_replace (h : (mode :: modes).getLast? = some last) {top : QuoteMode} (hcloser : top.closer = mode.closer) :
    ∃ mode', (top :: modes).getLast? = some mode' ∧ mode'.closer = last.closer := by
  cases modes with
  | nil =>
    obtain rfl : mode = last := by simpa using h
    exact ⟨top, rfl, hcloser⟩
  | cons below modes => exact ⟨last, by simpa using h, rfl⟩

theorem getLast?_push (h : (mode :: modes).getLast? = some last) (top : QuoteMode) :
    ∃ mode', (top :: mode :: modes).getLast? = some mode' ∧ mode'.closer = last.closer :=
  ⟨last, by simpa using h, rfl⟩

/-- The outermost mode is closed by its character, or goes on to be closed by that. -/
theorem closer_of_scanStep (h : scanStep? modes text = some (mid, next)) (hlast : modes.getLast? = some mode) :
    mid = [] ∧ text = mode.closer :: next ∨ ∃ mode', mid.getLast? = some mode' ∧ mode'.closer = mode.closer := by
  have hpop {top : QuoteMode} {below : List QuoteMode} (hlast : (top :: below).getLast? = some mode) :
      below = [] ∧ top.closer :: next = mode.closer :: next ∨
        ∃ mode', below.getLast? = some mode' ∧ mode'.closer = mode.closer :=
    (getLast?_pop hlast).imp_left fun ⟨hbelow, htop⟩ => ⟨hbelow, by rw [htop]⟩
  fun_cases scanStep? modes text
  all_goals simp only [scanStep?, reduceCtorEq] at h
  all_goals cases h
  case case3 | case9 => exact hpop hlast
  case case5 | case7 | case13 => exact .inr ⟨mode, hlast, rfl⟩
  case case6 | case11 | case12 => exact .inr (getLast?_push hlast _)
  case case8 | case10 => exact .inr (getLast?_replace hlast rfl)
  case case14 =>
    split
    · rename_i hline
      subst hline
      exact hpop hlast
    · exact .inr ⟨mode, hlast, rfl⟩

theorem Scan.closer (h : Scan modes text [] rest) (hlast : modes.getLast? = some mode) :
    ∃ inner, text = inner ++ mode.closer :: rest := by
  generalize hout : [] = out at h
  induction h generalizing mode with
  | here =>
    subst hout
    cases hlast
  | step first others ih =>
    obtain ⟨front, rfl, -⟩ := append_of_scanStep first
    obtain ⟨rfl, htext⟩ | ⟨mode', hlast', hcloser⟩ := closer_of_scanStep first hlast
    · cases others with
      | here => exact ⟨[], htext⟩
      | step second _ => simp [scanStep?] at second
    · obtain ⟨inner, rfl⟩ := ih hlast' hout
      exact ⟨front ++ inner, by rw [hcloser, List.append_assoc]⟩

/-- A literal ends with the character that closes it. -/
theorem exists_inner_of_literalLength (h : literalLength [mode] text = some n) :
    ∃ inner, inner.length + 1 = n ∧ text = inner ++ mode.closer :: text.drop n := by
  obtain ⟨hle, hscan⟩ := literalLength_eq_some_iff.1 h
  obtain ⟨inner, hinner⟩ := hscan.closer rfl
  refine ⟨inner, ?_, hinner⟩
  have hlength := congrArg List.length hinner
  simp only [List.length_append, List.length_cons, List.length_drop] at hlength
  omega

end

/-- The text is what stands before the character that closes the mode. -/
def QuoteMode.Holds (mode : QuoteMode) (inner : List Char) : Prop :=
  literalLength [mode] (inner ++ [mode.closer]) = some (inner.length + 1)

theorem QuoteMode.holds_iff {mode : QuoteMode} {inner : List Char} (rest : List Char) :
    mode.Holds inner ↔ literalLength [mode] (inner ++ mode.closer :: rest) = some (inner.length + 1) := by
  have hcongr {rest : List Char} (h : literalLength [mode] (inner ++ mode.closer :: rest) = some (inner.length + 1))
      (rest' : List Char) : literalLength [mode] (inner ++ mode.closer :: rest') = some (inner.length + 1) := by
    have hfront : inner ++ mode.closer :: rest = (inner ++ [mode.closer]) ++ rest := by simp
    have hlength : inner.length + 1 = (inner ++ [mode.closer]).length := by simp
    rw [hfront, hlength] at h
    simpa using literalLength_congr h rest'
  exact ⟨fun h => hcongr h rest, fun h => hcongr h []⟩

/-- From where it opens the mode, the scan gets behind the character that closes it. -/
theorem QuoteMode.Holds.scan {mode : QuoteMode} {inner : List Char} (h : mode.Holds inner) (modes : List QuoteMode)
    (rest : List Char) : Scan (mode :: modes) (inner ++ mode.closer :: rest) modes rest := by
  obtain ⟨-, hscan⟩ := literalLength_eq_some_iff.1 ((mode.holds_iff rest).1 h)
  have hrest : (inner ++ mode.closer :: rest).drop (inner.length + 1) = rest := by
    rw [List.drop_length_add_append]
    rfl
  rw [hrest] at hscan
  exact hscan.frame modes

/-- A text in which the scan closes the mode is what stands before that, and the rest. -/
theorem QuoteMode.exists_holds {mode : QuoteMode} {text : List Char} {n : Nat} (h : literalLength [mode] text = some n) :
    ∃ inner rest, text = inner ++ mode.closer :: rest ∧ inner.length + 1 = n ∧ mode.Holds inner := by
  obtain ⟨inner, rfl, htext⟩ := exists_inner_of_literalLength h
  refine ⟨inner, _, htext, rfl, (mode.holds_iff (text.drop (inner.length + 1))).2 ?_⟩
  rw [← htext]
  exact h

/-! ## Comments -/

section

variable {modes : List QuoteMode} {braces : Nat}

/-- The scan stays in a comment to the end of its line. -/
theorem scan_comment (modes : List QuoteMode) {body : List Char} (h : ∀ c ∈ body, c ≠ '\n') (more : List Char) :
    Scan (.comment :: modes) (body ++ more) (.comment :: modes) more := by
  induction body with
  | nil => exact .here
  | cons c body ih =>
    have hfirst : scanStep? (.comment :: modes) (c :: (body ++ more)) = some (.comment :: modes, body ++ more) := by
      simp [scanStep?, h c List.mem_cons_self]
    exact .step hfirst (ih fun d hd => h d (List.mem_cons_of_mem _ hd))

/-- The line break after a comment is as good as one before which the comment is closed. -/
theorem literalLength_newline (braces : Nat) (modes : List QuoteMode) (text : List Char) :
    literalLength (.comment :: .code braces :: modes) ('\n' :: text) = literalLength (.code braces :: modes) ('\n' :: text) := by
  have hplain : scanStep? (.code braces :: modes) ('\n' :: text) = some (.code braces :: modes, text) :=
    scanStep?_code braces modes (by decide) (by decide) (by decide) nofun
  rw [(Scan.one hplain).literalLength]
  simp [literalLength]

/-- In a fragment a comment is passed up to its line break. -/
theorem literalLength_comment (braces : Nat) (modes : List QuoteMode) (text : List Char) :
    literalLength (.comment :: .code braces :: modes) text =
      (literalLength (.code braces :: modes) (text.dropWhile (· != '\n'))).map
        (· + (text.takeWhile (· != '\n')).length) := by
  have hbody : ∀ c ∈ text.takeWhile (· != '\n'), c ≠ '\n' := fun c hc => by
    simpa using List.mem_takeWhile_imp hc
  have hscan := (scan_comment (.code braces :: modes) hbody (text.dropWhile (· != '\n'))).literalLength
  have hlength := congrArg List.length (List.takeWhile_append_dropWhile (p := (· != '\n')) (l := text))
  rw [List.length_append] at hlength
  rw [List.takeWhile_append_dropWhile] at hscan
  rw [hscan, show text.length - (text.dropWhile (· != '\n')).length = (text.takeWhile (· != '\n')).length by omega]
  cases hrest : text.dropWhile (· != '\n') with
  | nil => simp [literalLength]
  | cons c rest =>
    obtain rfl : c = '\n' := by simpa [hrest] using List.head_dropWhile_not (· != '\n') (l := text) (by simp [hrest])
    rw [literalLength_newline]

end

/-! ## Counting braces -/

/-- The number of characters before the brace that closes a fragment, by a count of the open
braces alone: a literal is passed by a scan of its own, a comment up to its line break. -/
def closingBrace? (braces : Nat) : List Char → Option Nat
  | [] => none
  | '{' :: cs => (closingBrace? (braces + 1) cs).map (· + 1)
  | '}' :: cs =>
    match braces with
    | 0 => some 0
    | braces + 1 => (closingBrace? braces cs).map (· + 1)
  | '"' :: cs =>
    match literalLength [.text] cs with
    | some n => (closingBrace? braces (cs.drop n)).map (· + (n + 1))
    | none => none
  | '/' :: '/' :: cs =>
    (closingBrace? braces (cs.dropWhile (· != '\n'))).map (· + ((cs.takeWhile (· != '\n')).length + 2))
  | _ :: cs => (closingBrace? braces cs).map (· + 1)
termination_by text => text.length
decreasing_by
  all_goals simp only [List.length_cons, List.length_drop]
  all_goals try omega
  have := (List.dropWhile_suffix (· != '\n') (l := cs)).length_le
  omega

/-- The count finds the brace at which the scan leaves the fragment. -/
theorem closingBrace?_eq (braces : Nat) (text : List Char) :
    closingBrace? braces text = (literalLength [.code braces] text).map (· - 1) := by
  have hsucc {mode : QuoteMode} {modes : List QuoteMode} {cs : List Char} (k : Nat) (hk : 0 < k) :
      ((literalLength (mode :: modes) cs).map (· - 1)).map (· + k) =
        ((literalLength (mode :: modes) cs).map (· + k)).map (· - 1) := by
    cases hlength : literalLength (mode :: modes) cs with
    | none => rfl
    | some n =>
      have hpos := literalLength_pos hlength
      simp only [Option.map_some, Option.some.injEq]
      omega
  fun_induction closingBrace? braces text
  case case1 => simp [literalLength]
  case case2 braces cs ih =>
    rw [ih, literalLength]
    exact hsucc 1 Nat.one_pos
  case case3 cs =>
    simp [literalLength]
  case case4 cs braces ih =>
    rw [ih, literalLength]
    exact hsucc 1 Nat.one_pos
  case case5 braces cs n hlength ih =>
    have hframe := literalLength_frame [.text] [.code braces] cs
    rw [List.singleton_append, hlength, Option.bind_some] at hframe
    rw [ih, hsucc (n + 1) (Nat.succ_pos n), literalLength, hframe, Option.map_map, Option.map_map, Option.map_map]
    rfl
  case case6 braces cs hlength =>
    have hframe := literalLength_frame [.text] [.code braces] cs
    rw [List.singleton_append, hlength] at hframe
    rw [literalLength, hframe]
    rfl
  case case7 braces cs ih =>
    rw [ih, hsucc _ (Nat.succ_pos _), literalLength, literalLength_comment, Option.map_map, Option.map_map, Option.map_map]
    rfl
  case case8 braces c cs hopening hclosing hquote hcomment ih =>
    have hplain : scanStep? [.code braces] (c :: cs) = some ([.code braces], cs) :=
      scanStep?_code braces [] hopening hclosing hquote fun hc hslash => by
        obtain ⟨ds, hds⟩ := List.head?_eq_some_iff.1 hslash
        exact hcomment ds hc hds
    rw [ih, (Scan.one hplain).literalLength, List.length_cons, Nat.add_sub_cancel_left]
    exact hsucc 1 Nat.one_pos

end JuiceSyntax
