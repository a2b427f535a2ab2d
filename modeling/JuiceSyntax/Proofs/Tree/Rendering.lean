/-
  An S-expression can be read from its text. No character of a word ends a word, so each item ends
  where it does, whatever follows it (`chars_append`); and of two programs with one dump the items are
  the same S-expressions (`sexpr_eq_of_dump`).
-/
import JuiceSyntax.Proofs.Text.Quoted
import JuiceSyntax.Tree.Sexpr

namespace JuiceSyntax

/-! ## Words -/

/-- The character ends a word. -/
def separates (c : Char) : Bool := c == ' ' || c == '\n' || c == '(' || c == ')' || c == '"'

/-- The text of a word is not empty, and no character in it ends it. -/
structure Unbroken (text : String) : Prop where
  ne_nil : text.toList ≠ []
  within : ∀ c ∈ text.toList, separates c = false

theorem unbroken_iff {text : String} : Unbroken text ↔ (!text.toList.isEmpty && text.toList.all (!separates ·)) = true := by
  simp only [Bool.and_eq_true, Bool.not_eq_true', List.isEmpty_eq_false_iff, List.all_eq_true]
  exact ⟨fun h => ⟨h.ne_nil, h.within⟩, fun h => ⟨h.1, h.2⟩⟩

instance (text : String) : Decidable (Unbroken text) := decidable_of_iff _ unbroken_iff.symm

/-- A word may end before this text. -/
def EndsWord (rest : List Char) : Prop := ∀ c, rest.head? = some c → separates c = true

theorem endsWord_cons {c : Char} (h : separates c = true) (rest : List Char) : EndsWord (c :: rest) := by
  intro d hd
  obtain rfl := Option.some.inj hd
  exact h

theorem takeWhile_of_endsWord {rest : List Char} (h : EndsWord rest) : rest.takeWhile (!separates ·) = [] := by
  cases rest with
  | nil => rfl
  | cons c cs => rw [List.takeWhile_cons_of_neg (by rw [h c rfl]; decide)]

namespace Unbroken

variable {text text' : String} {rest rest' : List Char}

theorem append (h : Unbroken text) (h' : Unbroken text') (hrest : EndsWord rest) (hrest' : EndsWord rest')
    (heq : text.toList ++ rest = text'.toList ++ rest') : text = text' ∧ rest = rest' := by
  have htake := congrArg (List.takeWhile (!separates ·)) heq
  rw [List.takeWhile_append_of_pos (fun c hc => by rw [h.within c hc]; rfl), takeWhile_of_endsWord hrest, List.append_nil,
    List.takeWhile_append_of_pos (fun c hc => by rw [h'.within c hc]; rfl), takeWhile_of_endsWord hrest', List.append_nil] at htake
  rw [htake] at heq
  exact ⟨String.toList_inj.1 htake, List.append_cancel_left heq⟩

/-- A word begins with a character of its own. -/
theorem exists_cons (h : Unbroken text) : ∃ c cs, text.toList = c :: cs ∧ separates c = false := by
  obtain ⟨c, cs, heq⟩ := List.exists_cons_of_ne_nil h.ne_nil
  exact ⟨c, cs, heq, h.within c (heq ▸ List.mem_cons_self)⟩

end Unbroken

/-! ## Items -/

namespace Sexpr

mutual

/-- Its words can be read from its text. -/
def Plain : Sexpr → Prop
  | word text => Unbroken text
  | quote _ => True
  | node items => AllPlain items

def AllPlain : List Sexpr → Prop
  | [] => True
  | item :: rest => item.Plain ∧ AllPlain rest

end

theorem allPlain_iff (items : List Sexpr) : AllPlain items ↔ ∀ item ∈ items, item.Plain := by
  induction items with
  | nil => simp [AllPlain]
  | cons item rest ih => rw [AllPlain, ih, List.forall_mem_cons]

mutual

def chars : Sexpr → List Char
  | word text => text.toList
  | quote text => (quoted text).toList
  | node items => '(' :: (joined ' ' items ++ [')'])

/-- The items with a character between them. -/
def joined (separator : Char) : List Sexpr → List Char
  | [] => []
  | [item] => item.chars
  | item :: next :: rest => item.chars ++ separator :: joined separator (next :: rest)

end

theorem intercalate_map_chars (separator : Char) (items : List Sexpr) :
    List.intercalate [separator] (items.map chars) = joined separator items := by
  induction items with
  | nil => rfl
  | cons item rest ih =>
    cases rest with
    | nil => simp [List.intercalate, joined]
    | cons next rest =>
      rw [joined, ← ih]
      simp [List.intercalate]

mutual

theorem toList_render : (s : Sexpr) → s.render.toList = s.chars
  | word _ => rfl
  | quote _ => rfl
  | node items => by
    rw [render, chars, String.toList_append, String.toList_append, String.toList_intercalate, map_toList_renderAll items]
    rw [show (" " : String).toList = [' '] from rfl, intercalate_map_chars]
    rfl

theorem map_toList_renderAll : (items : List Sexpr) → (renderAll items).map String.toList = items.map chars
  | [] => rfl
  | item :: rest => by rw [renderAll, List.map_cons, List.map_cons, toList_render item, map_toList_renderAll rest]

end

mutual

/-- An item stands on one line. -/
theorem feed_notMem_chars : (s : Sexpr) → s.Plain → '\n' ∉ s.chars
  | word _, h => fun hmem => absurd (Unbroken.within h _ hmem) (by decide)
  | quote text, _ => feed_notMem_quoted text
  | node items, h => by
    rw [chars, List.mem_cons, List.mem_append, not_or, not_or]
    exact ⟨by decide, feed_notMem_joined (by decide) items h, by decide⟩

theorem feed_notMem_joined {separator : Char} (hseparator : '\n' ≠ separator) :
    (items : List Sexpr) → AllPlain items → '\n' ∉ joined separator items
  | [], _ => List.not_mem_nil
  | [item], h => feed_notMem_chars item h.1
  | item :: next :: rest, h => by
    rw [joined, List.mem_append, List.mem_cons, not_or, not_or]
    exact ⟨feed_notMem_chars item h.1, hseparator, feed_notMem_joined hseparator (next :: rest) h.2⟩

end

/-! ## Reading -/

variable {s s' : Sexpr} {rest rest' : List Char}

/-- No item begins with what ends the items of a node. -/
theorem exists_chars (h : s.Plain) : ∃ c cs, s.chars = c :: cs ∧ c ≠ ')' := by
  cases s with
  | word text =>
    obtain ⟨c, cs, heq, hc⟩ := Unbroken.exists_cons h
    refine ⟨c, cs, heq, ?_⟩
    rintro rfl
    exact absurd hc (by decide)
  | quote text => exact ⟨_, _, toList_quoted text, by decide⟩
  | node items => exact ⟨_, _, rfl, by decide⟩

/-- The end of the items of a node or of a text. -/
def Stops (rest : List Char) : Prop := rest = [] ∨ ∃ more, rest = ')' :: more

theorem Stops.endsWord (h : Stops rest) : EndsWord rest := by
  obtain rfl | ⟨more, rfl⟩ := h
  · intro c hc
    cases hc
  · exact endsWord_cons (by decide) _

theorem Stops.ne_append (h : Stops rest) (hs : s.Plain) (more : List Char) : rest ≠ s.chars ++ more := by
  obtain ⟨c, cs, heq, hc⟩ := exists_chars hs
  rw [heq]
  obtain rfl | ⟨after, rfl⟩ := h
  · exact (List.cons_ne_nil _ _).symm
  · exact fun hcons => hc (List.cons.inj hcons).1.symm

theorem Stops.ne_separator {separator : Char} (h : Stops rest) (hseparator : separator ≠ ')') (more : List Char) :
    rest ≠ separator :: more := by
  obtain rfl | ⟨after, rfl⟩ := h
  · exact (List.cons_ne_nil _ _).symm
  · exact fun hcons => hseparator (List.cons.inj hcons).1.symm

mutual

/-- An item ends where it does, whatever follows. -/
theorem chars_append : (s s' : Sexpr) → s.Plain → s'.Plain → ∀ {rest rest' : List Char}, EndsWord rest → EndsWord rest' →
    s.chars ++ rest = s'.chars ++ rest' → s = s' ∧ rest = rest'
  | word text, word text', h, h', rest, rest', hrest, hrest', heq => by
    obtain ⟨rfl, htail⟩ := Unbroken.append h h' hrest hrest' heq
    exact ⟨rfl, htail⟩
  | word text, quote text', h, _, rest, rest', _, _, heq => by
    obtain ⟨c, cs, htext, hc⟩ := Unbroken.exists_cons h
    rw [chars, chars, htext, toList_quoted] at heq
    rw [(List.cons.inj heq).1] at hc
    exact absurd hc (by decide)
  | word text, node items, h, _, rest, rest', _, _, heq => by
    obtain ⟨c, cs, htext, hc⟩ := Unbroken.exists_cons h
    rw [chars, chars, htext] at heq
    rw [(List.cons.inj heq).1] at hc
    exact absurd hc (by decide)
  | quote text, word text', _, h, rest, rest', _, _, heq => by
    obtain ⟨c, cs, htext, hc⟩ := Unbroken.exists_cons h
    rw [chars, chars, htext, toList_quoted] at heq
    rw [← (List.cons.inj heq).1] at hc
    exact absurd hc (by decide)
  | quote text, quote text', _, _, rest, rest', _, _, heq => by
    obtain ⟨rfl, htail⟩ := quoted_append heq
    exact ⟨rfl, htail⟩
  | quote text, node items, _, _, rest, rest', _, _, heq => by
    rw [chars, chars, toList_quoted] at heq
    exact absurd (List.cons.inj heq).1 (by decide)
  | node items, word text, _, h, rest, rest', _, _, heq => by
    obtain ⟨c, cs, htext, hc⟩ := Unbroken.exists_cons h
    rw [chars, chars, htext] at heq
    rw [← (List.cons.inj heq).1] at hc
    exact absurd hc (by decide)
  | node items, quote text, _, _, rest, rest', _, _, heq => by
    rw [chars, chars, toList_quoted] at heq
    exact absurd (List.cons.inj heq).1 (by decide)
  | node items, node items', h, h', rest, rest', _, _, heq => by
    rw [chars, chars, List.cons_append, List.cons_append, List.append_assoc, List.append_assoc] at heq
    have hsep : separates ' ' = true := by decide
    obtain ⟨rfl, htail⟩ := joined_append hsep (by decide) items items' h h'
      (.inr ⟨rest, rfl⟩) (.inr ⟨rest', rfl⟩) (List.cons.inj heq).2
    exact ⟨rfl, (List.cons.inj htail).2⟩

theorem joined_append {separator : Char} (hends : separates separator = true) (hseparator : separator ≠ ')') :
    (items items' : List Sexpr) → AllPlain items → AllPlain items' → ∀ {rest rest' : List Char}, Stops rest → Stops rest' →
    joined separator items ++ rest = joined separator items' ++ rest' → items = items' ∧ rest = rest'
  | [], [], _, _, _, _, _, _, heq => ⟨rfl, heq⟩
  | [], [item], _, h, rest, rest', hrest, _, heq => absurd heq (hrest.ne_append h.1 _)
  | [], item :: next :: items, _, h, rest, rest', hrest, _, heq => by
    rw [joined, joined, List.append_assoc] at heq
    exact absurd heq (hrest.ne_append h.1 _)
  | [item], [], h, _, rest, rest', _, hrest, heq => absurd heq.symm (hrest.ne_append h.1 _)
  | item :: next :: items, [], h, _, rest, rest', _, hrest, heq => by
    rw [joined, joined, List.append_assoc] at heq
    exact absurd heq.symm (hrest.ne_append h.1 _)
  | [item], [item'], h, h', rest, rest', hrest, hrest', heq => by
    obtain ⟨rfl, htail⟩ := chars_append item item' h.1 h'.1 hrest.endsWord hrest'.endsWord heq
    exact ⟨rfl, htail⟩
  | [item], item' :: next :: items, h, h', rest, rest', hrest, _, heq => by
    rw [joined, joined, List.append_assoc] at heq
    obtain ⟨-, htail⟩ := chars_append item item' h.1 h'.1 hrest.endsWord (endsWord_cons hends _) heq
    exact absurd htail (hrest.ne_separator hseparator _)
  | item :: next :: items, [item'], h, h', rest, rest', _, hrest, heq => by
    rw [joined, joined, List.append_assoc] at heq
    obtain ⟨-, htail⟩ := chars_append item item' h.1 h'.1 (endsWord_cons hends _) hrest.endsWord heq
    exact absurd htail.symm (hrest.ne_separator hseparator _)
  | item :: next :: items, item' :: next' :: items', h, h', rest, rest', hrest, hrest', heq => by
    rw [joined, joined, List.append_assoc, List.append_assoc] at heq
    obtain ⟨rfl, htail⟩ := chars_append item item' h.1 h'.1 (endsWord_cons hends _) (endsWord_cons hends _) heq
    obtain ⟨hitems, htail⟩ := joined_append hends hseparator (next :: items) (next' :: items') h.2 h'.2 hrest hrest'
      (List.cons.inj htail).2
    exact ⟨congrArg (item :: ·) hitems, htail⟩

end

end Sexpr

/-! ## Programs -/

theorem Program.toList_dump (program : Program) : program.dump.toList = Sexpr.joined '\n' (program.items.map Item.sexpr) := by
  have hlines : (program.items.map fun item => item.sexpr.render).map String.toList =
      (program.items.map Item.sexpr).map Sexpr.chars := by
    simp only [List.map_map]
    exact List.map_congr_left fun item _ => item.sexpr.toList_render
  rw [dump, String.toList_intercalate, hlines]
  exact Sexpr.intercalate_map_chars '\n' _

/-- Programs with one dump have the same S-expressions. -/
theorem Program.sexpr_eq_of_dump {program program' : Program} (h : ∀ item ∈ program.items, item.sexpr.Plain)
    (h' : ∀ item ∈ program'.items, item.sexpr.Plain) (heq : program.dump = program'.dump) :
    program.items.map Item.sexpr = program'.items.map Item.sexpr := by
  have hchars := congrArg String.toList heq
  rw [toList_dump, toList_dump, ← List.append_nil (Sexpr.joined _ _),
    ← List.append_nil (Sexpr.joined _ (program'.items.map _))] at hchars
  have hplain := (Sexpr.allPlain_iff (program.items.map Item.sexpr)).2 (by simpa using h)
  have hplain' := (Sexpr.allPlain_iff (program'.items.map Item.sexpr)).2 (by simpa using h')
  exact (Sexpr.joined_append (by decide) (by decide) _ _ hplain hplain' (.inl rfl) (.inl rfl) hchars).1

end JuiceSyntax
