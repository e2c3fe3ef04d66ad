import ServiceIdl.Proofs.Syntax.OpenNodes

/-!
# Which sequences of events make a tree

`Tree.ofEvents` accepts a sequence of events exactly if those that count are one
bracketing with ascending offsets between the characters of the text, and the
tree of an accepted sequence spells it again (`Tree.ofEvents_ok_iff_bracketed`).

What an accepted sequence looks like is read off the invariant of `OpenNodes`. That
such a sequence is accepted goes along its forest: inside an open node every
balanced sequence can be read, and leaves the same nodes open
(`Assembly.run_forest`).
-/

namespace ServiceIdl

open Text (byteLength IsBoundary)
open ServiceIdl.Tree (Tiles eventsOfAll charsOfAll)

namespace Assembly

variable {text : List Char} {seen : List Event} {a : Assembly}

/-! ## Events that can be read -/

/-- If the offsets ascend, the next event does not lie before the cursor. -/
theorem Reads.cursor_le {event : Event} {later : List Event} (reads : a.Reads text seen)
    (sorted : Event.Ascending (seen ++ event :: later)) : a.cursor ≤ event.offset := by
  rcases reads.reached with start | ⟨last, member, offset⟩
  · rw [start]
    exact Nat.zero_le _
  · rw [Event.Ascending, List.map_append, List.pairwise_append] at sorted
    rw [← offset]
    exact sorted.2.2 _ (List.mem_map_of_mem member) _ (by simp)

/-- An open node was entered by one of the events read. -/
theorem Open.mem_events {frames : List Frame} {passed : List Char} {cursor : Nat} {frame : Frame}
    (opened : Open frames seen passed cursor) (member : frame ∈ frames) :
    .enter frame.kind frame.entered ∈ seen := by
  induction opened with
  | root =>
    rw [List.mem_singleton.mp member]
    simp [Frame.events]
  | inner _ _ _ ih =>
    rcases List.mem_cons.mp member with rfl | outer
    · simp [Frame.events]
    · exact List.mem_append_left _ (ih outer)

/-- Inside an open node a node can be entered at every place ahead. -/
theorem Reads.enter_ok {kind : Kind} {offset : Nat} (reads : a.Reads text seen)
    (frames : a.frames ≠ []) (ahead : a.cursor ≤ offset) (boundary : IsBoundary text offset) :
    ∃ b, a.enter kind offset = .ok b ∧
      b.frames.map Frame.key = (kind, offset) :: a.frames.map Frame.key := by
  obtain ⟨passed, stage, split⟩ := reads.stage
  cases stage with
  | fresh noFrames _ _ => exact absurd noFrames frames
  | closed noFrames _ _ => exact absurd noFrames frames
  | building opened _ =>
    obtain ⟨b, moved⟩ := advance_ok split opened.stop_eq ahead boundary
    obtain ⟨-, -, -, keys, -⟩ := opened.advance split moved
    refine ⟨{ b with frames := ⟨kind, offset, offset, []⟩ :: b.frames }, ?_,
      congrArg (List.cons (kind, offset)) keys⟩
    rw [Assembly.enter, if_neg (by simpa using frames), moved]
    rfl

/-- The innermost open node can be closed at every place ahead. -/
theorem Reads.exit_ok {kind : Kind} {entered offset : Nat} {keys : List (Kind × Nat)}
    (reads : a.Reads text seen) (innermost : a.frames.map Frame.key = (kind, entered) :: keys)
    (ahead : a.cursor ≤ offset) (boundary : IsBoundary text offset) :
    ∃ b, a.exit kind offset = .ok b ∧ b.frames.map Frame.key = keys := by
  obtain ⟨passed, stage, split⟩ := reads.stage
  cases stage with
  | fresh noFrames _ _ => simp [noFrames] at innermost
  | closed noFrames _ _ => simp [noFrames] at innermost
  | building opened _ =>
    obtain ⟨b, moved⟩ := advance_ok split opened.stop_eq ahead boundary
    obtain ⟨-, -, -, stays, -⟩ := opened.advance split moved
    cases before : a.frames with
    | nil => simp [before] at innermost
    | cons frame outer =>
      rw [innermost] at stays
      simp only [before, List.map_cons, List.cons.injEq, Frame.key, Prod.mk.injEq] at innermost
      rcases innermost with ⟨⟨sameKind, sameEntered⟩, -⟩
      -- It was entered by an event read, so not behind the cursor.
      have wasEntered := opened.mem_events (by rw [before]; exact List.mem_cons_self)
      have after : frame.entered ≤ offset := by
        have bound : frame.entered ≤ a.cursor := (reads.bounded _ wasEntered).1
        omega
      cases now : b.frames with
      | nil => simp [now] at stays
      | cons inner others =>
        rw [now, List.map_cons, List.cons.injEq] at stays
        rw [Assembly.exit, before]
        simp only [sameKind, ne_eq, not_true_eq_false, ↓reduceIte, Nat.not_lt.mpr after, moved,
          Except.map, now]
        refine ⟨_, rfl, ?_⟩
        rw [← stays.2]
        cases others <;> rfl

/-- A node is read by entering it, reading what is inside, and closing it. -/
theorem foldlM_node {b c d : Assembly} {kind : Kind} {start stop : Nat} {inside : List Event}
    (significant : kind.isTrivia = false) (entered : a.enter kind start = .ok b)
    (ran : inside.foldlM step b = .ok c) (exited : c.exit kind stop = .ok d)
    (rest : List Event) :
    (.enter kind start :: (inside ++ .exit kind stop :: rest)).foldlM step a =
      rest.foldlM step d := by
  rw [List.foldlM_cons, step_enter significant, entered]
  change List.foldlM step b (inside ++ .exit kind stop :: rest) = _
  rw [List.foldlM_append, ran]
  change List.foldlM step c (.exit kind stop :: rest) = _
  rw [List.foldlM_cons, step_exit significant, exited]
  rfl

/-- Inside an open node every forest whose offsets ascend can be read, and leaves
the same nodes open. -/
theorem run_forest {forest : Forest} (reads : a.Reads text seen) (frames : a.frames ≠ [])
    (sorted : Event.Ascending (seen ++ forest.events))
    (boundary : ∀ event ∈ forest.events, IsBoundary text event.offset)
    (significant : ∀ event ∈ forest.events, event.kind.isTrivia = false) :
    ∃ b, forest.events.foldlM step a = .ok b ∧
      b.frames.map Frame.key = a.frames.map Frame.key ∧
      b.Reads text (seen ++ forest.events) := by
  induction forest generalizing a seen with
  | nil =>
    rw [Forest.events, List.append_nil]
    exact ⟨a, rfl, rfl, reads⟩
  | cons kind start stop inside rest inner outer =>
    simp only [Forest.events, List.mem_cons, List.mem_append, or_imp, forall_and, forall_eq]
      at boundary significant
    rcases boundary with ⟨startBoundary, insideBoundary, stopBoundary, restBoundary⟩
    rcases significant with ⟨notable, insideNotable, -, restNotable⟩
    have counts : kind.isTrivia = false := notable
    have front : seen ++ (Forest.cons kind start stop inside rest).events =
        (seen ++ [.enter kind start] ++ inside.events) ++ (.exit kind stop :: rest.events) := by
      simp [Forest.events]
    have whole : seen ++ (Forest.cons kind start stop inside rest).events =
        (seen ++ [.enter kind start] ++ inside.events ++ [.exit kind stop]) ++ rest.events := by
      simp [Forest.events]
    -- The node is entered.
    have entry : ∃ b, a.enter kind start = .ok b ∧
        b.frames.map Frame.key = (kind, start) :: a.frames.map Frame.key :=
      reads.enter_ok frames (reads.cursor_le sorted) startBoundary
    rcases entry with ⟨b, entered, keys⟩
    have readsEnter := reads.enter entered
    rw [front] at sorted
    have sortedInside := sorted.sublist (List.sublist_append_left ..)
    -- What is inside it is read.
    obtain ⟨c, insideRan, insideKeys, readsInside⟩ :=
      inner readsEnter (by intro closed; simp [closed] at keys) sortedInside insideBoundary
        insideNotable
    -- The node is closed.
    rw [keys] at insideKeys
    have ahead : c.cursor ≤ stop := readsInside.cursor_le sorted
    obtain ⟨d, exited, exitKeys⟩ := readsInside.exit_ok insideKeys ahead stopBoundary
    have readsExit := readsInside.exit exited
    rw [← front, whole] at sorted
    -- What follows it is read.
    have stillOpen : d.frames ≠ [] := by
      intro closed
      rw [closed] at exitKeys
      exact frames (by simpa using exitKeys.symm)
    obtain ⟨e, restRan, restKeys, readsRest⟩ :=
      outer readsExit stillOpen sorted restBoundary restNotable
    refine ⟨e, ?_, restKeys.trans exitKeys, ?_⟩
    · rw [Forest.events, foldlM_node counts entered insideRan exited]
      exact restRan
    · rw [whole]
      exact readsRest

/-- At the beginning a root can be entered at every place. -/
theorem enter_root_ok {text : String} {kind : Kind} {offset : Nat}
    (boundary : IsBoundary text.toList offset) :
    ∃ b, (ofText text).enter kind offset = .ok b ∧ b.frames.map Frame.key = [(kind, offset)] := by
  have opened : Open [(⟨kind, offset, 0, []⟩ : Frame)] [.enter kind offset] [] 0 := .root rfl .nil
  have split : text.toList = [] ++ text.toList := rfl
  obtain ⟨b, moved⟩ := advance_ok (a := { ofText text with frames := [⟨kind, offset, 0, []⟩] })
    split rfl (Nat.zero_le _) boundary
  obtain ⟨-, -, -, keys, -⟩ :=
    Open.advance (a := { ofText text with frames := [⟨kind, offset, 0, []⟩] }) opened split moved
  exact ⟨b, moved, keys⟩

/-- If something was read and no node is open, the root is closed. -/
theorem Stage.finish_ok {passed : List Char} (stage : a.Stage seen passed) (read : seen ≠ [])
    (noFrames : a.frames = []) : ∃ tree, a.finish = .ok tree := by
  cases stage with
  | fresh _ _ _ => exact absurd rfl read
  | building opened _ => exact absurd noFrames opened.ne_nil
  | closed _ root _ => exact ⟨_, by rw [Assembly.finish, noFrames, root]⟩

end Assembly

namespace Tree

variable {text : String} {events : List Event}

/-- A bracketing whose offsets ascend between the characters of the text makes a
tree. -/
theorem exists_ofEvents_ok (bracketed : Event.Bracketed (Event.significant events))
    (sorted : Event.Ascending (Event.significant events))
    (boundary : ∀ event ∈ Event.significant events, IsBoundary text.toList event.offset) :
    ∃ tree, Tree.ofEvents text events = .ok tree := by
  rcases bracketed with ⟨kind, start, stop, inside, balanced, spelled⟩
  obtain ⟨forest, rfl⟩ := Event.balanced_iff_exists_forest.mp balanced
  have significant : ∀ event ∈ Event.significant events, event.kind.isTrivia = false := by
    intro event member
    simpa [Event.significant] using (List.mem_filter.mp member).2
  rw [spelled] at sorted boundary significant
  have counts : kind.isTrivia = false := significant (.enter kind start) (by simp)
  have front : Event.enter kind start :: (forest.events ++ [.exit kind stop]) =
      [.enter kind start] ++ forest.events ++ [.exit kind stop] := rfl
  -- The root is entered, what is inside it is read, and it is closed.
  have entry : ∃ b, (Assembly.ofText text).enter kind start = .ok b ∧
      b.frames.map Frame.key = [(kind, start)] :=
    Assembly.enter_root_ok (boundary (.enter kind start) (by simp))
  rcases entry with ⟨b, entered, keys⟩
  have readsEnter := (Assembly.reads_ofText text).enter entered
  rw [front] at sorted
  obtain ⟨c, insideRan, insideKeys, readsInside⟩ :=
    Assembly.run_forest readsEnter (by intro closed; simp [closed] at keys)
      (sorted.sublist (List.sublist_append_left ..))
      (fun event member => boundary event (by simp [member]))
      (fun event member => significant event (by simp [member]))
  rw [keys] at insideKeys
  have ahead : c.cursor ≤ stop := readsInside.cursor_le sorted
  obtain ⟨d, exited, exitKeys⟩ :=
    readsInside.exit_ok insideKeys ahead (boundary (.exit kind stop) (by simp))
  have ran : events.foldlM Assembly.step (Assembly.ofText text) = .ok d := by
    rw [Assembly.foldlM_significant, spelled,
      Assembly.foldlM_node counts entered insideRan exited]
    rfl
  -- No node is open at the end, so the root is closed.
  have noFrames : d.frames = [] := List.map_eq_nil_iff.mp exitKeys
  obtain ⟨passed, stage, -⟩ := (readsInside.exit exited).stage
  obtain ⟨tree, finished⟩ := stage.finish_ok (by simp) noFrames
  refine ⟨tree, ?_⟩
  rw [Tree.ofEvents, ran]
  exact finished

/-- What makes a tree is a bracketing whose offsets ascend between the characters
of the text, and the tree spells it. -/
theorem of_ofEvents_ok {tree : Tree} (made : Tree.ofEvents text events = .ok tree) :
    Event.Ascending (Event.significant events) ∧
    (∀ event ∈ Event.significant events, IsBoundary text.toList event.offset) ∧
    ∃ kind start stop children,
      tree = .node kind ⟨0, stop⟩ children ∧
      Event.significant events =
        .enter kind start :: (eventsOfAll children ++ [.exit kind stop]) ∧
      tree.Sits text.toList := by
  obtain ⟨a, ran, finished⟩ := Outcome.bind_eq_ok_iff.mp made
  have reads := Assembly.reads_run ran
  refine ⟨reads.sorted, fun event member => (reads.bounded event member).2, ?_⟩
  obtain ⟨passed, stage, split⟩ := reads.stage
  generalize Event.significant events = seen at stage
  cases stage with
  | fresh noFrames noRoot _ => simp [Assembly.finish, noFrames, noRoot] at finished
  | building opened noRoot =>
    cases frames : a.frames with
    | nil => exact absurd frames opened.ne_nil
    | cons frame outer => simp [Assembly.finish, frames] at finished
  | @closed kind start children noFrames root tiles =>
    simp only [Assembly.finish, noFrames, root, Except.ok.injEq] at finished
    subst finished
    refine ⟨kind, start, a.cursor, children, rfl, rfl, ?_, ?_, fun _ => tiles⟩
    · exact ⟨[], a.rest, split, rfl, tiles.stop_eq⟩
    · intro token
      cases token

/-- A sequence of events makes a tree over a text exactly if the events that count
are one bracketing of a root, and their offsets ascend and lie between the
characters of the text. The tree spells these events again, with the spans of the
nodes as offsets (only the root begins at the start of the text, wherever it was
entered); every part of it stands in the text where its span says, and no token
is empty. -/
theorem ofEvents_ok_iff_bracketed (text : String) (events : List Event) :
    ((∃ tree, Tree.ofEvents text events = .ok tree) ↔
      Event.Bracketed (Event.significant events) ∧
      Event.Ascending (Event.significant events) ∧
      ∀ event ∈ Event.significant events,
        event.offset ≤ byteLength text.toList ∧ IsBoundary text.toList event.offset) ∧
    ∀ tree, Tree.ofEvents text events = .ok tree →
      ∃ kind start stop children,
        tree = .node kind ⟨0, stop⟩ children ∧
        Event.significant events =
          .enter kind start :: (eventsOfAll children ++ [.exit kind stop]) ∧
        Text.Holds text.toList ⟨0, stop⟩ tree.text.toList ∧
        ∀ part, Occurs part tree →
          Text.Holds text.toList part.span part.text.toList ∧
            (part.isNode = false → part.text ≠ "") := by
  refine ⟨⟨?_, ?_⟩, ?_⟩
  · intro ⟨tree, made⟩
    obtain ⟨sorted, boundary, kind, start, stop, children, -, spelled, -⟩ := of_ofEvents_ok made
    refine ⟨⟨kind, start, stop, eventsOfAll children, ?_, spelled⟩, sorted, ?_⟩
    · rw [← Forest.events_ofTrees]
      exact Forest.balanced_events _
    · intro event member
      exact ⟨(boundary event member).le, boundary event member⟩
  · intro ⟨bracketed, sorted, boundary⟩
    exact exists_ofEvents_ok bracketed sorted fun event member => (boundary event member).2
  · intro tree made
    obtain ⟨-, -, kind, start, stop, children, root, spelled, sits⟩ := of_ofEvents_ok made
    refine ⟨kind, start, stop, children, root, spelled, ?_, ?_⟩
    · have whole := sits.holds
      rwa [show tree.span = ⟨0, stop⟩ by rw [root]; rfl] at whole
    · intro part occurs
      have placed := sits.of_occurs occurs
      exact ⟨placed.holds, placed.content⟩

-- The text in front of the root is part of it.
example : ofEvents "x y" [.enter .idl 1, .exit .idl 3] =
    .ok (.node .idl ⟨0, 3⟩ [.token ⟨0, 1⟩ "x", .token ⟨1, 3⟩ " y"]) := by
  rfl

end Tree

end ServiceIdl
