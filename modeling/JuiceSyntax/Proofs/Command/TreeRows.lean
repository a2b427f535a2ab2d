/-
  The rows of a printed tree. No S-expression and no comment has a line feed in it, so each item and each
  comment is a line of its own (`breakLines_tree`).

  The queue holds back what begins behind the next item, and gives the rest before it. So nothing is left out or
  given twice (`rows_perm`), and as items and comments come in turn, the rows do (`rows_rising`).
-/
import JuiceSyntax.Command.Run
import JuiceSyntax.Proofs.Comment
import JuiceSyntax.Proofs.Grammar.DumpFidelity
import JuiceSyntax.Proofs.Grammar.ItemOrder
import JuiceSyntax.Proofs.Source.LineMap
import JuiceSyntax.Proofs.Token.Comments

namespace JuiceSyntax

/-! ## Painted text -/

theorem feed_notMem_reopen {opening text : List Char} (hopening : '\n' ∉ opening) (h : '\n' ∉ text) :
    '\n' ∉ reopen opening text := by
  induction text using reopen.induct with
  | case1 => exact List.not_mem_nil
  | case2 rest ih =>
    have hrest : '\n' ∉ rest := fun hmem => h (List.mem_append_right styleEnd hmem)
    rw [reopen, List.mem_append, List.mem_append, not_or, not_or]
    exact ⟨⟨by decide, hopening⟩, ih hrest⟩
  | case3 c rest hend ih =>
    rw [List.mem_cons, not_or] at h
    rw [reopen, List.mem_cons, not_or]
    · exact ⟨h.1, ih h.2⟩
    · exact hend

theorem feed_notMem_paint (colour : Bool) {style : Style} {text : String} (hstyle : '\n' ∉ style.opening)
    (h : '\n' ∉ text.toList) : '\n' ∉ (paint colour style text).toList := by
  cases colour with
  | false => exact h
  | true =>
    show '\n' ∉ (String.ofList _).toList
    rw [String.toList_ofList, List.mem_append, List.mem_append, not_or, not_or]
    exact ⟨⟨hstyle, feed_notMem_reopen hstyle h⟩, by decide⟩

/-! ## Rows -/

/-- A row of a printed tree, and where begins what it shows. -/
structure TreeRow where
  start : Nat
  text : String

def Item.row (item : Item) : TreeRow := ⟨item.span.start, item.sexpr.render⟩

def Comment.row (colour : Bool) (comment : Comment) : TreeRow :=
  ⟨comment.span.start, paint colour .dimmed comment.text⟩

theorem Comment.feed_notMem_row {comment : Comment} (h : '\n' ∉ comment.text.toList) (colour : Bool) :
    '\n' ∉ (comment.row colour).text.toList :=
  feed_notMem_paint colour (by decide) h

theorem Item.feed_notMem_row {item : Item} (h : item.sexpr.Plain) : '\n' ∉ item.row.text.toList := by
  rw [row, Sexpr.toList_render]
  exact Sexpr.feed_notMem_chars _ h

namespace Surroundings

/-- The rows of items, each after the comments that begin before it, and those of the other comments. -/
def rows (s : Surroundings) : Comment.Queue → List Item → List TreeRow
  | queue, [] => queue.waiting.map (Comment.row s.colour)
  | queue, item :: rest =>
    (queue.takeBefore item.span.start).1.map (Comment.row s.colour) ++
      item.row :: s.rows (queue.takeBefore item.span.start).2 rest

variable (s : Surroundings)

theorem toList_commentRows (comments : List Comment) :
    (s.commentRows comments).toList = withFeeds ((comments.map (Comment.row s.colour)).map (·.text.toList)) := by
  rw [commentRows, String.toList_join, withFeeds, List.flatMap_map, List.flatMap_map, List.flatMap_map]
  exact congrArg (comments.flatMap ·) (funext fun c => String.toList_append)

theorem toList_treeRows (queue : Comment.Queue) (items : List Item) :
    (s.treeRows queue items).toList = withFeeds ((s.rows queue items).map (·.text.toList)) := by
  induction items generalizing queue with
  | nil => exact s.toList_commentRows queue.waiting
  | cons item rest ih =>
    rw [treeRows, rows, List.map_append, List.map_cons, withFeeds, List.flatMap_append, List.flatMap_cons]
    dsimp only
    simp only [String.toList_append, s.toList_commentRows, ih]
    simp [withFeeds, Item.row]

/-- Every item has its row, and so does every comment. -/
theorem rows_perm (queue : Comment.Queue) (items : List Item) :
    (s.rows queue items).Perm (items.map Item.row ++ queue.waiting.map (Comment.row s.colour)) := by
  induction items generalizing queue with
  | nil => exact .refl _
  | cons item rest ih =>
    have hsplit := queue.takeBefore_append item.span.start
    have hmoved := (ih (queue.takeBefore item.span.start).2).append_left
      ((queue.takeBefore item.span.start).1.map (Comment.row s.colour))
    rw [rows, List.map_cons, List.cons_append]
    refine List.perm_middle.trans (.cons _ (hmoved.trans ?_))
    conv => rhs; rw [← hsplit, List.map_append]
    exact List.perm_append_comm_assoc _ _ _

/-- The rows come in turn if the items and the comments do and none of them begin at one place. -/
theorem rows_rising {queue : Comment.Queue} {items : List Item}
    (hitems : items.Pairwise fun a b => a.span.start < b.span.start) (hcomments : InTurn queue.waiting)
    (hapart : ∀ comment ∈ queue.waiting, ∀ item ∈ items, comment.span.start ≠ item.span.start) :
    (s.rows queue items).Pairwise fun a b => a.start < b.start := by
  induction items generalizing queue with
  | nil => exact List.pairwise_map.2 hcomments
  | cons item rest ih =>
    obtain ⟨hbehind, hrest⟩ := List.pairwise_cons.1 hitems
    have horder : Comment.InOrder queue.waiting := hcomments.imp Nat.le_of_lt
    have hlater : ∀ row ∈ s.rows (queue.takeBefore item.span.start).2 rest, item.span.start < row.start := by
      intro row hrow
      obtain hmem | hmem := List.mem_append.1 ((s.rows_perm _ rest).mem_iff.1 hrow)
      · obtain ⟨next, hnext, rfl⟩ := List.mem_map.1 hmem
        exact hbehind next hnext
      · obtain ⟨comment, hcomment, rfl⟩ := List.mem_map.1 hmem
        rw [Comment.Queue.takeBefore_eq horder, List.mem_filter] at hcomment
        have hle := of_decide_eq_true hcomment.2
        exact Nat.lt_of_le_of_ne hle (hapart comment hcomment.1 item List.mem_cons_self).symm
    have hearlier : ∀ row ∈ (queue.takeBefore item.span.start).1.map (Comment.row s.colour),
        row.start < item.span.start := by
      intro row hrow
      obtain ⟨comment, hcomment, rfl⟩ := List.mem_map.1 hrow
      rw [Comment.Queue.takeBefore_eq horder, List.mem_filter] at hcomment
      exact of_decide_eq_true hcomment.2
    have hleft : (queue.takeBefore item.span.start).2.waiting.Sublist queue.waiting := List.dropWhile_sublist _
    have hrows := ih hrest (hcomments.sublist hleft) fun comment hmem next hnext =>
      hapart comment (hleft.subset hmem) next (List.mem_cons_of_mem _ hnext)
    have htaken : InTurn (queue.takeBefore item.span.start).1 := hcomments.sublist (List.takeWhile_sublist _)
    rw [rows, List.pairwise_append]
    refine ⟨List.pairwise_map.2 htaken, List.pairwise_cons.2 ⟨hlater, hrows⟩, fun row hrow row' hrow' => ?_⟩
    obtain rfl | hmem := List.mem_cons.1 hrow'
    · exact hearlier row hrow
    · exact Nat.lt_trans (hearlier row hrow) (hlater row' hmem)

end Surroundings

/-! ## Documents -/

section

variable (source : String) (options : Options)

theorem Document.read_comments : (Document.read source options).comments = (lex source).comments := by
  unfold read
  dsimp only
  split <;> rfl

/-- The comments of a document wait as they were found. -/
theorem waiting_ofList_comments :
    (Comment.Queue.ofList (Document.read source options).comments).waiting = (Document.read source options).comments := by
  rw [Document.read_comments]
  exact List.mergeSort_of_pairwise ((inTurn_comments_lex source).imp fun hlt => decide_eq_true (Nat.le_of_lt hlt))

theorem Document.read_plain : ∀ item ∈ (Document.read source options).program.items, item.sexpr.Plain :=
  fun item hitem => item.plain fun node hnode =>
    Document.read_lawful source options node (List.mem_flatMap.2 ⟨item, hitem, hnode⟩)

end

namespace Surroundings

/-- What a printed tree has: each item and each comment of the document as a line of its own, in the order in
which they begin. -/
structure Shows (s : Surroundings) (document : Document) (rows : List TreeRow) : Prop where
  /-- Behind the last line feed nothing is left. -/
  lines : breakLines (s.tree document).toList = rows.map (·.text.toList) ++ [[]]
  once : rows.Perm (document.program.items.map Item.row ++ document.comments.map (Comment.row s.colour))
  rising : rows.Pairwise fun a b => a.start < b.start

theorem shows_read (s : Surroundings) (source : String) (options : Options) :
    s.Shows (Document.read source options)
      (s.rows (.ofList (Document.read source options).comments) (Document.read source options).program.items) := by
  have hperm := s.rows_perm (.ofList (Document.read source options).comments) (Document.read source options).program.items
  rw [waiting_ofList_comments] at hperm
  refine ⟨?_, hperm, ?_⟩
  · rw [tree, toList_treeRows]
    refine breakLines_withFeeds fun line hline => ?_
    obtain ⟨row, hrow, rfl⟩ := List.mem_map.1 hline
    obtain hmem | hmem := List.mem_append.1 (hperm.mem_iff.1 hrow)
    · obtain ⟨item, hitem, rfl⟩ := List.mem_map.1 hmem
      exact Item.feed_notMem_row (Document.read_plain source options item hitem)
    · obtain ⟨comment, hcomment, rfl⟩ := List.mem_map.1 hmem
      rw [Document.read_comments] at hcomment
      exact Comment.feed_notMem_row (mem_comments_lex.1 hcomment).feed_notMem s.colour
  · refine s.rows_rising (Document.read_items_rising source options) ?_ fun comment hcomment item hitem => ?_
    · rw [waiting_ofList_comments, Document.read_comments]
      exact inTurn_comments_lex source
    · rw [waiting_ofList_comments, Document.read_comments] at hcomment
      have hstart := (Document.read_item_starts source options).subset (List.mem_map_of_mem hitem)
      obtain ⟨token, htoken, heq⟩ := List.mem_map.1 hstart
      rw [← heq]
      exact start_ne_of_token hcomment htoken

/-- The printed tree of a document has all items and all comments, those inside items and inside fragments of
strings too, each on one line and once, in the order in which they begin. -/
theorem tree_shows_all (s : Surroundings) (source : String) (options : Options) :
    let document := Document.read source options
    (∃ rows, s.Shows document rows) ∧
      ∀ comment, comment ∈ document.comments ↔ comment.StandsInDocument source := by
  refine ⟨⟨_, s.shows_read source options⟩, fun comment => ?_⟩
  rw [Document.read_comments]
  exact mem_comments_lex

end Surroundings

end JuiceSyntax
