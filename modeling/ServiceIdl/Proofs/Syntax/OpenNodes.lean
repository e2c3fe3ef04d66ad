import ServiceIdl.Proofs.Outcome
import ServiceIdl.Proofs.Syntax.Forest
import ServiceIdl.Proofs.Syntax.Layout

/-!
# The open nodes of a tree under construction

What an `Assembly` holds after any number of events: the open nodes spell the
events read so far (`Assembly.Open`), together with the root if it is closed
(`Assembly.Stage`), and the offsets of these events ascend up to the cursor
(`Assembly.Reads`). Every event that is read keeps this (`Assembly.Reads.step`),
so it holds after every sequence that is not refused (`Assembly.Reads.run`).
-/

namespace ServiceIdl

open Text (byteLength IsBoundary)
open ServiceIdl.Tree (Tiles eventsOfAll charsOfAll)

namespace Frame

/-- The events of an open node and of what is inside it so far. -/
def events (frame : Frame) : List Event :=
  .enter frame.kind frame.entered :: eventsOfAll frame.children.reverse

/-- The text inside an open node so far. -/
def chars (frame : Frame) : List Char := charsOfAll frame.children.reverse

/-- What of an open node does not change while it is open. -/
def key (frame : Frame) : Kind × Nat := (frame.kind, frame.entered)

/-- The open node with one more tree inside. -/
def push (frame : Frame) (tree : Tree) : Frame :=
  { frame with children := tree :: frame.children }

theorem eventsOfAll_append (front behind : List Tree) :
    eventsOfAll (front ++ behind) = eventsOfAll front ++ eventsOfAll behind := by
  induction front with
  | nil => rfl
  | cons tree rest ih => simp [eventsOfAll, ih]

/-- A tree that is put into a frame adds its events. -/
theorem events_push (frame : Frame) (tree : Tree) :
    (frame.push tree).events = frame.events ++ tree.events := by
  simp [events, push, eventsOfAll_append, eventsOfAll]

theorem chars_push (frame : Frame) (tree : Tree) :
    (frame.push tree).chars = frame.chars ++ tree.text.toList := by
  rw [chars, push, List.reverse_cons, Tree.charsOfAll_append, Tree.charsOfAll_singleton, chars]

end Frame

namespace Assembly

/-! ## The invariant -/

/-- The open nodes, the innermost first, spell the events `seen`, hold the text
`passed` and reach up to the cursor. Only the outermost may have text of its own
before the place where it was entered. -/
inductive Open : List Frame → List Event → List Char → Nat → Prop
  | root {frame : Frame} {cursor : Nat} :
    frame.start = 0 → Tiles 0 frame.children.reverse cursor →
    Open [frame] frame.events frame.chars cursor
  | inner {frame : Frame} {outer : List Frame} {seen : List Event} {passed : List Char}
      {cursor : Nat} :
    Open outer seen passed frame.start → frame.entered = frame.start →
    Tiles frame.start frame.children.reverse cursor →
    Open (frame :: outer) (seen ++ frame.events) (passed ++ frame.chars) cursor

/-- What is built from the events `seen`, out of the text `passed`: nothing, some
open nodes, or the closed root. -/
inductive Stage (a : Assembly) : List Event → List Char → Prop
  | fresh : a.frames = [] → a.root = none → a.cursor = 0 → Stage a [] []
  | building {seen : List Event} {passed : List Char} :
    Open a.frames seen passed a.cursor → a.root = none → Stage a seen passed
  | closed {kind : Kind} {start : Nat} {children : List Tree} :
    a.frames = [] → a.root = some (.node kind ⟨0, a.cursor⟩ children) →
    Tiles 0 children a.cursor →
    Stage a (.enter kind start :: (eventsOfAll children ++ [.exit kind a.cursor]))
      (charsOfAll children)

/-- The assembly has read the events `seen` over a text. -/
structure Reads (text : List Char) (seen : List Event) (a : Assembly) : Prop where
  stage : ∃ passed, a.Stage seen passed ∧ text = passed ++ a.rest
  /-- The offsets ascend. -/
  sorted : Event.Ascending seen
  /-- They lie between characters, up to the cursor. -/
  bounded : ∀ event ∈ seen, event.offset ≤ a.cursor ∧ IsBoundary text event.offset
  /-- The cursor is the offset of an event, or at the start. -/
  reached : a.cursor = 0 ∨ ∃ event ∈ seen, event.offset = a.cursor

theorem Open.stop_eq {frames : List Frame} {seen : List Event} {passed : List Char}
    {cursor : Nat} (opened : Open frames seen passed cursor) : cursor = byteLength passed := by
  induction opened with
  | root _ tiles =>
    have stop := tiles.stop_eq
    rwa [Nat.zero_add] at stop
  | inner _ _ tiles ih =>
    rw [tiles.stop_eq, Text.byteLength_append, ← ih]
    rfl

theorem Open.ne_nil {frames : List Frame} {seen : List Event} {passed : List Char} {cursor : Nat}
    (opened : Open frames seen passed cursor) : frames ≠ [] := by
  cases opened <;> simp

/-- A tree at the cursor goes into the innermost open node. -/
theorem Open.push {frame : Frame} {outer : List Frame} {seen : List Event} {passed : List Char}
    {cursor stop : Nat} {tree : Tree} (opened : Open (frame :: outer) seen passed cursor)
    (tiles : Tiles cursor [tree] stop) :
    Open (frame.push tree :: outer) (seen ++ tree.events) (passed ++ tree.text.toList) stop := by
  have children : (frame.push tree).children.reverse = frame.children.reverse ++ [tree] := by
    simp [Frame.push]
  cases opened with
  | root start inside =>
    rw [← Frame.events_push, ← Frame.chars_push]
    refine .root start ?_
    rw [children]
    exact inside.append tiles
  | inner below entered inside =>
    rw [List.append_assoc, ← Frame.events_push, List.append_assoc, ← Frame.chars_push]
    refine .inner below entered ?_
    rw [children]
    exact inside.append tiles

/-- Whatever the stage, the cursor is behind what was passed. -/
theorem Stage.cursor_eq {a : Assembly} {seen : List Event} {passed : List Char}
    (stage : a.Stage seen passed) : a.cursor = byteLength passed := by
  cases stage with
  | fresh _ _ start => rw [start]; rfl
  | building opened _ => exact opened.stop_eq
  | closed _ _ tiles =>
    have stop := tiles.stop_eq
    rwa [Nat.zero_add] at stop

theorem reads_ofText (text : String) : (ofText text).Reads text.toList [] where
  stage := ⟨[], .fresh rfl rfl rfl, rfl⟩
  sorted := .nil
  bounded := by simp
  reached := Or.inl rfl

/-! ## Putting trees into open nodes -/

theorem cursor_place (a : Assembly) (tree : Tree) : (a.place tree).cursor = a.cursor := by
  unfold place
  split <;> rfl

theorem rest_place (a : Assembly) (tree : Tree) : (a.place tree).rest = a.rest := by
  unfold place
  split <;> rfl

/-- Where a node is open, a tree that is finished goes into the innermost one. -/
theorem Open.place {seen : List Event} {passed : List Char} {start stop : Nat} {a : Assembly}
    {tree : Tree} (opened : Open a.frames seen passed start) (tiles : Tiles start [tree] stop) :
    Open (a.place tree).frames (seen ++ tree.events) (passed ++ tree.text.toList) stop ∧
      (a.place tree).root = a.root ∧
      (a.place tree).frames.map Frame.key = a.frames.map Frame.key := by
  unfold Assembly.place
  cases frames : a.frames with
  | nil => exact absurd frames opened.ne_nil
  | cons frame outer =>
    rw [frames] at opened
    exact ⟨opened.push tiles, rfl, rfl⟩

/-! ## Moving the cursor -/

/-- Moving the cursor keeps what the open nodes spell, and takes the text passed
into the innermost one. -/
theorem Open.advance {text : List Char} {seen : List Event} {passed : List Char} {a b : Assembly}
    {offset : Nat} (opened : Open a.frames seen passed a.cursor) (split : text = passed ++ a.rest)
    (moved : a.advance offset = .ok b) :
    b.cursor = offset ∧ a.cursor ≤ offset ∧ b.root = a.root ∧
      b.frames.map Frame.key = a.frames.map Frame.key ∧
      ∃ now, Open b.frames seen now offset ∧ text = now ++ b.rest := by
  unfold Assembly.advance at moved
  split at moved
  · cases moved
  · rename_i ahead
    split at moved
    · rename_i here
      cases moved
      rw [here]
      exact ⟨rfl, Nat.le_refl _, rfl, rfl, passed, opened, split⟩
    · rename_i elsewhere
      split at moved
      · rename_i before after cut
        cases moved
        obtain ⟨rest, length⟩ := Text.cut?_eq_some_iff.mp cut
        have stop : a.cursor + byteLength (String.ofList before).toList = offset := by
          rw [String.toList_ofList, length]
          omega
        have content : String.ofList before ≠ "" := by
          intro empty
          rw [empty] at stop
          simp only [String.toList_empty, byteLength] at stop
          omega
        have token : Tiles a.cursor [.token ⟨a.cursor, offset⟩ (String.ofList before)] offset := by
          rw [← stop]
          exact .token content .nil
        obtain ⟨grown, root, keys⟩ :=
          Open.place (a := { a with cursor := offset, rest := after }) opened token
        refine ⟨cursor_place .., by omega, root, keys, passed ++ before, ?_, ?_⟩
        · simpa [Tree.events, Tree.text] using grown
        · rw [rest_place, split, rest, List.append_assoc]
      · cases moved

/-- The cursor can be moved to every place between characters that lies ahead. -/
theorem advance_ok {text passed : List Char} {a : Assembly} {offset : Nat}
    (split : text = passed ++ a.rest) (cursor : a.cursor = byteLength passed)
    (ahead : a.cursor ≤ offset) (boundary : IsBoundary text offset) :
    ∃ b, a.advance offset = .ok b := by
  unfold Assembly.advance
  rw [if_neg (Nat.not_lt.mpr ahead)]
  by_cases here : offset = a.cursor
  · rw [if_pos here]
    exact ⟨a, rfl⟩
  · rw [if_neg here]
    rcases boundary with ⟨front, behind, whole, length⟩
    obtain ⟨before, rfl, rest⟩ :=
      Text.exists_append_of_byteLength_le (split.symm.trans whole) (by omega)
    have cut : Text.cut? (offset - a.cursor) a.rest = some (before, behind) := by
      rw [Text.cut?_eq_some_iff]
      refine ⟨rest, ?_⟩
      rw [Text.byteLength_append] at length
      omega
    rw [cut]
    exact ⟨_, rfl⟩

/-! ## Reading an event -/

/-- An event is read if it leaves the assembly at its own offset, not before the
cursor, and with a stage that spells it too. -/
theorem Reads.extend {text : List Char} {seen : List Event} {a b : Assembly} {event : Event}
    {now : List Char} (reads : a.Reads text seen) (ahead : a.cursor ≤ event.offset)
    (cursor : b.cursor = event.offset) (stage : b.Stage (seen ++ [event]) now)
    (split : text = now ++ b.rest) : b.Reads text (seen ++ [event]) where
  stage := ⟨now, stage, split⟩
  sorted := by
    rw [Event.Ascending, List.map_append, List.pairwise_append]
    refine ⟨reads.sorted, by simp, ?_⟩
    intro earlier member later last
    obtain ⟨old, oldMember, rfl⟩ := List.mem_map.mp member
    simp only [List.map_cons, List.map_nil, List.mem_singleton] at last
    rw [last]
    have passed : old.offset ≤ a.cursor := (reads.bounded old oldMember).1
    omega
  bounded := by
    intro other member
    rw [cursor]
    rcases List.mem_append.mp member with old | last
    · obtain ⟨passed, boundary⟩ := reads.bounded other old
      exact ⟨by omega, boundary⟩
    · rw [List.mem_singleton.mp last]
      refine ⟨Nat.le_refl _, now, b.rest, split, ?_⟩
      rw [← cursor, stage.cursor_eq]
  reached := Or.inr ⟨event, by simp, cursor.symm⟩

/-- Entering a node keeps the invariant, with one event more. -/
theorem Reads.enter {text : List Char} {seen : List Event} {a b : Assembly} {kind : Kind}
    {offset : Nat} (reads : a.Reads text seen) (entered : a.enter kind offset = .ok b) :
    b.Reads text (seen ++ [.enter kind offset]) := by
  obtain ⟨passed, stage, split⟩ := reads.stage
  unfold Assembly.enter at entered
  cases stage with
  | fresh noFrames noRoot start =>
    simp only [noFrames, noRoot, List.isEmpty_nil, Option.isSome_none, Bool.false_eq_true,
      ↓reduceIte] at entered
    have opened : Open [(⟨kind, offset, 0, []⟩ : Frame)] [.enter kind offset] [] a.cursor := by
      rw [start]
      exact .root rfl .nil
    obtain ⟨cursor, ahead, root, -, now, grown, rest⟩ :=
      Open.advance (a := ⟨a.size, a.cursor, a.rest, [⟨kind, offset, 0, []⟩], none⟩) opened split
        entered
    refine reads.extend ahead cursor (.building ?_ root) rest
    rw [cursor]
    exact grown
  | building opened noRoot =>
    rw [if_neg (by simpa using opened.ne_nil), Outcome.map_eq_ok_iff] at entered
    rcases entered with ⟨c, moved, rfl⟩
    obtain ⟨cursor, ahead, root, -, now, grown, rest⟩ := opened.advance split moved
    have inside : Open (⟨kind, offset, offset, []⟩ :: c.frames) (seen ++ [.enter kind offset])
        (now ++ []) offset := .inner grown rfl .nil
    rw [List.append_nil] at inside
    refine reads.extend ahead cursor (.building ?_ ?_) rest
    · change Open _ _ _ c.cursor
      rw [cursor]
      exact inside
    · exact root.trans noRoot
  | closed noFrames root tiles =>
    simp [noFrames, root] at entered

/-- Closing the innermost open node at the cursor spells its end as well. -/
theorem Open.close {a : Assembly} {frame : Frame} {outer : List Frame} {seen : List Event}
    {passed : List Char} (opened : Open (frame :: outer) seen passed a.cursor)
    (noRoot : a.root = none) :
    Stage ({ a with frames := outer }.place
        (.node frame.kind ⟨frame.start, a.cursor⟩ frame.children.reverse))
      (seen ++ [.exit frame.kind a.cursor]) passed := by
  cases opened with
  | root start tiles =>
    rw [start]
    exact .closed rfl rfl tiles
  | @inner _ _ seen passed _ below entered tiles =>
    have tiled : Tiles frame.start
        [.node frame.kind ⟨frame.start, a.cursor⟩ frame.children.reverse] a.cursor :=
      .node tiles .nil
    have spelled : seen ++ frame.events ++ [.exit frame.kind a.cursor] =
        seen ++ (Tree.node frame.kind ⟨frame.start, a.cursor⟩ frame.children.reverse).events := by
      rw [List.append_assoc, Frame.events, entered, Tree.events]
      rfl
    obtain ⟨grown, root, -⟩ := Open.place (a := { a with frames := outer }) below tiled
    rw [spelled]
    refine .building ?_ (root.trans noRoot)
    rw [cursor_place]
    exact grown

theorem Reads.exit {text : List Char} {seen : List Event} {a b : Assembly} {kind : Kind}
    {offset : Nat} (reads : a.Reads text seen) (exited : a.exit kind offset = .ok b) :
    b.Reads text (seen ++ [.exit kind offset]) := by
  obtain ⟨passed, stage, split⟩ := reads.stage
  unfold Assembly.exit at exited
  cases stage with
  | fresh noFrames noRoot start => simp [noFrames] at exited
  | closed noFrames root tiles => simp [noFrames] at exited
  | building opened noRoot =>
    cases frames : a.frames with
    | nil => exact absurd frames opened.ne_nil
    | cons frame outer =>
      simp only [frames, ne_eq, ite_not] at exited
      split at exited
      · rename_i sameKind
        split at exited
        · cases exited
        · obtain ⟨c, moved, built⟩ := Outcome.map_eq_ok_iff.mp exited
          obtain ⟨cursor, ahead, root, keys, now, grown, rest⟩ := opened.advance split moved
          cases innermost : c.frames with
          | nil => exact absurd innermost grown.ne_nil
          | cons inner others =>
            rw [innermost, frames, List.map_cons, List.map_cons, List.cons.injEq] at keys
            have innerKind : inner.kind = kind := by
              have same : inner.kind = frame.kind := congrArg Prod.fst keys.1
              rw [same, sameKind]
            rw [innermost] at grown built
            subst cursor innerKind
            subst built
            refine reads.extend ahead (cursor_place ..) (grown.close (root.trans noRoot)) ?_
            change text = now ++ (place _ _).rest
            rw [rest_place]
            exact rest
      · cases exited

theorem step_enter {kind : Kind} (significant : kind.isTrivia = false) (a : Assembly)
    (offset : Nat) : a.step (.enter kind offset) = a.enter kind offset := by
  rw [Assembly.step, significant, if_neg Bool.false_ne_true]

theorem step_exit {kind : Kind} (significant : kind.isTrivia = false) (a : Assembly)
    (offset : Nat) : a.step (.exit kind offset) = a.exit kind offset := by
  rw [Assembly.step, significant, if_neg Bool.false_ne_true]

/-- An event that counts is read, if it is not refused. -/
theorem Reads.step {text : List Char} {seen : List Event} {a b : Assembly} {event : Event}
    (reads : a.Reads text seen) (significant : event.kind.isTrivia = false)
    (stepped : a.step event = .ok b) : b.Reads text (seen ++ [event]) := by
  cases event with
  | enter kind offset =>
    have counts : kind.isTrivia = false := significant
    rw [step_enter counts] at stepped
    exact reads.enter stepped
  | exit kind offset =>
    have counts : kind.isTrivia = false := significant
    rw [step_exit counts] at stepped
    exact reads.exit stepped

/-- An event of a trivia kind changes nothing. -/
theorem step_trivia {event : Event} (trivial : event.kind.isTrivia = true) (a : Assembly) :
    a.step event = .ok a := by
  cases event <;> exact if_pos trivial

theorem foldlM_significant (events : List Event) (a : Assembly) :
    events.foldlM Assembly.step a = (Event.significant events).foldlM Assembly.step a := by
  induction events generalizing a with
  | nil => rfl
  | cons event rest ih =>
    by_cases trivial : event.kind.isTrivia = true
    · rw [List.foldlM_cons, step_trivia trivial, Event.significant_cons_of_trivia trivial, ← ih]
      rfl
    · rw [Event.significant_cons trivial, List.foldlM_cons, List.foldlM_cons]
      exact congrArg (a.step event >>= ·) (funext ih)

/-- A sequence that is not refused was read, apart from events of trivia kinds. -/
theorem reads_run {text : String} {events : List Event} {a : Assembly}
    (ran : events.foldlM Assembly.step (ofText text) = .ok a) :
    a.Reads text.toList (Event.significant events) := by
  have start : (ofText text).Reads text.toList (Event.significant []) := reads_ofText text
  refine Outcome.foldlM_induction
    (fun seen a => Reads text.toList (Event.significant seen) a) ?_ start ran
  intro seen b event c reads stepped
  rw [Event.significant_append]
  by_cases trivial : event.kind.isTrivia = true
  · rw [step_trivia trivial] at stepped
    cases stepped
    rw [Event.significant_cons_of_trivia trivial]
    simpa [Event.significant] using reads
  · rw [Event.significant_cons trivial]
    exact reads.step (Bool.eq_false_iff.mpr trivial) stepped

end Assembly

end ServiceIdl
