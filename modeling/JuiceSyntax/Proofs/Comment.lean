/-
  Runs of requests to a queue of comments. A queue is in order from the start on, so what a request takes off
  the front is all that is asked for, wherever it stands in the queue (`takeBefore_eq`, `takeWithin_eq`).

  What a request hands out is a part of what it passes, and the rest goes on waiting (`handle_splits`); only a
  request for the inside of a span passes comments that it does not hand out (`handle_keeps`). So it is with a
  whole run (`run_splits`, `run_keeps`).
-/
import JuiceSyntax.Comment
import JuiceSyntax.Proofs.Sorting

namespace JuiceSyntax

namespace Comment

/-- Each comment begins at or behind the start of the one before. -/
def InOrder (comments : List Comment) : Prop := comments.Pairwise fun a b => a.span.start ≤ b.span.start

/-- The comments in the order of their starts. -/
def sorted (comments : List Comment) : List Comment :=
  comments.mergeSort fun a b => decide (a.span.start ≤ b.span.start)

theorem inOrder_sorted (comments : List Comment) : InOrder (sorted comments) :=
  pairwise_mergeSort_key (fun c : Comment => c.span.start) comments

/-- Comments with one start keep their order. -/
theorem filter_sorted (comments : List Comment) (offset : Nat) :
    (sorted comments).filter (·.span.start == offset) = comments.filter (·.span.start == offset) :=
  filter_mergeSort_key (fun c : Comment => c.span.start) comments offset

namespace Queue

/-! ## Single requests -/

section

variable {q : Queue}

/-- What begins before an offset stands at the front of a queue that is in order. -/
theorem takeBefore_eq (h : InOrder q.waiting) (offset : Nat) :
    q.takeBefore offset =
      (q.waiting.filter (·.span.start < offset), ⟨q.waiting.filter fun c => decide (offset ≤ c.span.start)⟩) := by
  have hfront : q.waiting.Pairwise fun a b => decide (b.span.start < offset) = true → decide (a.span.start < offset) = true :=
    h.imp fun hle hlt => decide_eq_true (Nat.lt_of_le_of_lt hle (of_decide_eq_true hlt))
  rw [takeBefore, takeWhile_eq_filter hfront, dropWhile_eq_filter hfront]
  simp only [← decide_not, Nat.not_lt]

theorem inOrder_takeBefore (h : InOrder q.waiting) (offset : Nat) : InOrder (q.takeBefore offset).2.waiting :=
  h.sublist (List.dropWhile_sublist _)

theorem takeWithin_eq (h : InOrder q.waiting) (span : Span) :
    q.takeWithin span =
      (q.waiting.filter fun c =>
          decide (span.start ≤ c.span.start ∧ c.span.start < span.stop ∧ c.span.stop ≤ span.stop),
        ⟨q.waiting.filter fun c => decide (span.start ≤ c.span.start ∧ span.stop ≤ c.span.start)⟩) := by
  rw [takeWithin]
  dsimp only
  rw [takeBefore_eq (inOrder_takeBefore h span.start), takeBefore_eq h]
  simp only [List.filter_filter, Span.holds, ← Bool.decide_and]
  congr 2
  · funext c
    exact decide_eq_decide.2 (by omega)
  · congr 1
    funext c
    exact decide_eq_decide.2 (by omega)

end

/-! ## Runs -/

/-- What can be asked of a queue. -/
inductive Request where
  | before (offset : Nat)
  | within (span : Span)
  | rest
  /-- To see the next comment, which goes on waiting. -/
  | peek
deriving DecidableEq, Repr

/-- What a request hands out, and the queue after it. -/
def handle (q : Queue) : Request → List Comment × Queue
  | .before offset => q.takeBefore offset
  | .within span => q.takeWithin span
  | .rest => q.takeRest
  | .peek => ([], q)

/-- What each of the requests hands out, and the queue after them. -/
def run (q : Queue) : List Request → List (List Comment) × Queue
  | [] => ([], q)
  | request :: requests =>
    let (taken, q) := q.handle request
    let (later, q) := q.run requests
    (taken :: later, q)

section

variable (q : Queue)

theorem run_cons (request : Request) (requests : List Request) :
    q.run (request :: requests) = ((q.handle request).1 :: ((q.handle request).2.run requests).1,
      ((q.handle request).2.run requests).2) := rfl

/-- A request passes a front part of the queue, and hands out comments of that in their order. -/
theorem handle_splits (request : Request) :
    ∃ passed, q.waiting = passed ++ (q.handle request).2.waiting ∧ (q.handle request).1.Sublist passed := by
  cases request with
  | before offset => exact ⟨_, (q.takeBefore_append offset).symm, List.Sublist.refl _⟩
  | within span =>
    have hlost := q.takeBefore_append span.start
    have hmiddle := (q.takeBefore span.start).2.takeBefore_append span.stop
    refine ⟨(q.takeBefore span.start).1 ++ ((q.takeBefore span.start).2.takeBefore span.stop).1, ?_, ?_⟩
    · rw [List.append_assoc]
      exact (hlost ▸ congrArg ((q.takeBefore span.start).1 ++ ·) hmiddle).symm
    · exact List.filter_sublist.trans (List.sublist_append_right _ _)
  | rest => exact ⟨q.waiting, (List.append_nil _).symm, List.Sublist.refl _⟩
  | peek => exact ⟨[], rfl, List.Sublist.refl _⟩

/-- Only comments that do not lie inside a span asked for are lost. -/
theorem handle_keeps {request : Request} (h : ∀ span, request ≠ .within span) :
    (q.handle request).1 ++ (q.handle request).2.waiting = q.waiting := by
  cases request with
  | before offset => exact q.takeBefore_append offset
  | within span => exact absurd rfl (h span)
  | rest => exact List.append_nil _
  | peek => rfl

theorem run_splits (requests : List Request) :
    ∃ passed, q.waiting = passed ++ (q.run requests).2.waiting ∧ (q.run requests).1.flatten.Sublist passed := by
  induction requests generalizing q with
  | nil => exact ⟨[], rfl, List.Sublist.refl _⟩
  | cons request requests ih =>
    obtain ⟨first, hsplit, hfirst⟩ := q.handle_splits request
    obtain ⟨later, hrest, hlater⟩ := ih (q.handle request).2
    refine ⟨first ++ later, ?_, ?_⟩
    · rw [run_cons, List.append_assoc, ← hrest, ← hsplit]
    · rw [run_cons, List.flatten_cons]
      exact hfirst.append hlater

theorem run_keeps {requests : List Request} (h : ∀ span, .within span ∉ requests) :
    (q.run requests).1.flatten ++ (q.run requests).2.waiting = q.waiting := by
  induction requests generalizing q with
  | nil => rfl
  | cons request requests ih =>
    have hfirst : ∀ span, request ≠ .within span := fun span heq => h span (heq ▸ List.mem_cons_self)
    have hrest := ih (q.handle request).2 fun span hmem => h span (List.mem_cons_of_mem _ hmem)
    rw [run_cons, List.flatten_cons, List.append_assoc, hrest, q.handle_keeps hfirst]

end

/-- What waits after a run of a queue that is in order is in order. -/
theorem inOrder_run {q : Queue} (h : InOrder q.waiting) (requests : List Request) : InOrder (q.run requests).2.waiting := by
  obtain ⟨passed, hsplit, -⟩ := q.run_splits requests
  rw [hsplit] at h
  exact h.sublist (List.sublist_append_right _ _)

end Queue

end Comment

open Comment in
/-- Whatever is asked of a queue of comments, it hands them out in the order of their starts, comments with one
start as they were given, and none twice. At any time a request for what begins before an offset gives just the
waiting comments that do, and one for the inside of a span just those that lie in it and begin before its end;
what begins behind that goes on waiting. Without requests for the inside of a span nothing is lost. -/
theorem Comment.Queue.run_exact (comments : List Comment) (requests : List Queue.Request) :
    let (handed, last) := (Queue.ofList comments).run requests
    (sorted comments).Perm comments ∧
      InOrder (sorted comments) ∧
      (∀ offset, (sorted comments).filter (·.span.start == offset) = comments.filter (·.span.start == offset)) ∧
      (∃ passed, sorted comments = passed ++ last.waiting ∧ handed.flatten.Sublist passed) ∧
      last.next? = last.waiting.head? ∧
      (∀ offset,
        (last.takeBefore offset).1 = last.waiting.filter (·.span.start < offset) ∧
          (last.takeBefore offset).2.waiting = last.waiting.filter fun c => decide (offset ≤ c.span.start)) ∧
      (∀ span,
        (last.takeWithin span).1 = last.waiting.filter (fun c =>
            decide (span.start ≤ c.span.start ∧ c.span.start < span.stop ∧ c.span.stop ≤ span.stop)) ∧
          (last.takeWithin span).2.waiting = last.waiting.filter fun c =>
            decide (span.start ≤ c.span.start ∧ span.stop ≤ c.span.start)) ∧
      ((∀ span, .within span ∉ requests) → handed.flatten ++ last.waiting = sorted comments) := by
  have horder : InOrder ((Queue.ofList comments).run requests).2.waiting :=
    Queue.inOrder_run (inOrder_sorted comments) requests
  refine ⟨List.mergeSort_perm _ _, inOrder_sorted comments, filter_sorted comments,
    (Queue.ofList comments).run_splits requests, rfl, fun offset => ?_, fun span => ?_,
    (Queue.ofList comments).run_keeps⟩
  · rw [Queue.takeBefore_eq horder]
    exact ⟨rfl, rfl⟩
  · rw [Queue.takeWithin_eq horder]
    exact ⟨rfl, rfl⟩

/-- Three comments that are given out of order are all handed out, two of them to requests for a place. -/
theorem Comment.Queue.run_exact_three :
    let comments : List Comment := [⟨⟨30, 34⟩, "// c"⟩, ⟨⟨0, 4⟩, "// a"⟩, ⟨⟨10, 14⟩, "// b"⟩]
    let requests : List Queue.Request := [.before 10, .peek, .before 20, .rest]
    (∀ span, .within span ∉ requests) ∧
      ((Queue.ofList comments).run requests).1.flatten ++ ((Queue.ofList comments).run requests).2.waiting =
        Comment.sorted comments := by
  have hnone : ∀ span, Queue.Request.within span ∉ [.before 10, .peek, .before 20, .rest] := fun span => by simp
  exact ⟨hnone, (Queue.run_exact _ _).2.2.2.2.2.2.2 hnone⟩

end JuiceSyntax
