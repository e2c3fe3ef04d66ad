import ServiceIdl.Proofs.Grammar.ChildKinds
import ServiceIdl.Proofs.Syntax.Bracketing
import ServiceIdl.Syntax.Document

/-!
# Trees of documents

A text that the grammar accepts has a derivation that reads all of it
(`derives_of_recognise`). The events of the matches are a bracketing whose offsets
ascend in the text, so they make a tree; and since a sequence of events spells one
forest only, the nodes of the tree are the matches of the derivation. A node
stands for a match of its rule (`Tree.IsMatch`): the rule reads exactly the text of
the node, and makes exactly the nodes inside it.

`Tree.IsDocument` puts together what holds of the tree of every document.
-/

namespace ServiceIdl

open Peg (Expr Mode Derives Match)
open Text (byteLength Follows IsBoundary)
open ServiceIdl.Tree (eventsOfAll)

/-! ## Events of a derivation -/

/-- The events ascend from `start` to `stop`, between the characters of the text. -/
structure Event.Placed (text : List Char) (start stop : Nat) (events : List Event) : Prop where
  le : start ≤ stop
  sorted : Ascending events
  within : ∀ event ∈ events,
    start ≤ event.offset ∧ event.offset ≤ stop ∧ IsBoundary text event.offset

namespace Event.Placed

variable {text : List Char} {start middle stop : Nat} {front behind : List Event}

theorem nil (le : start ≤ stop) : Placed text start stop [] := ⟨le, .nil, by simp⟩

theorem single {event : Event} {offset : Nat} (place : event.offset = offset)
    (boundary : IsBoundary text offset) : Placed text offset offset [event] :=
  ⟨Nat.le_refl _, by simp [Ascending], by simpa [place] using boundary⟩

/-- Events of a first stretch and of the one behind it. -/
theorem append (before : Placed text start middle front)
    (after : Placed text middle stop behind) : Placed text start stop (front ++ behind) := by
  have low : start ≤ middle := before.le
  have high : middle ≤ stop := after.le
  refine ⟨by omega, ?_, ?_⟩
  · rw [Ascending, List.map_append, List.pairwise_append]
    refine ⟨before.sorted, after.sorted, ?_⟩
    intro earlier frontMember later behindMember
    obtain ⟨a, aMember, rfl⟩ := List.mem_map.mp frontMember
    obtain ⟨b, bMember, rfl⟩ := List.mem_map.mp behindMember
    have earlierBound : a.offset ≤ middle := (before.within a aMember).2.1
    have laterBound : middle ≤ b.offset := (after.within b bMember).1
    omega
  · intro event member
    rcases List.mem_append.mp member with here | there
    · obtain ⟨above, below, boundary⟩ := before.within event here
      exact ⟨above, by omega, boundary⟩
    · obtain ⟨above, below, boundary⟩ := after.within event there
      exact ⟨by omega, below, boundary⟩

end Event.Placed

/-- The events of matches in a row are the events of each of them. -/
theorem Event.ofMatches_append (front behind : List (Match Rule)) :
    Event.ofMatches (front ++ behind) = Event.ofMatches front ++ Event.ofMatches behind := by
  induction front with
  | nil => rfl
  | cons m rest ih => simp [Event.ofMatches, ih]

/-- The matches of a derivation lie in order in what it reads. -/
theorem Event.placed_of_derives {mode : Mode} {e : Expr Rule} {offset : Nat}
    {read rest text : List Char} {trace : List (Match Rule)}
    (derives : Derives documentGrammar mode e offset read rest trace)
    (follows : Follows text offset (read ++ rest)) :
    Event.Placed text offset (offset + byteLength read) (Event.ofMatches trace) := by
  induction derives with
  | empty | start | finish | char | literal | stop | absent => exact .nil (Nat.le_add_right ..)
  | @traced _ name offset read rest inside _ _ ih =>
    have opening : Placed text offset offset [.enter (.ofRule name) offset] :=
      .single rfl follows.isBoundary
    have closing : Placed text (offset + byteLength read) (offset + byteLength read)
        [.exit (.ofRule name) (offset + byteLength read)] :=
      .single rfl follows.skip.isBoundary
    have whole := opening.append ((ih follows).append closing)
    simpa [Event.ofMatches, Event.ofMatch] using whole
  | untraced _ _ ih => exact ih follows
  | tight _ _ _ first second | round _ _ first second =>
    rw [List.append_assoc] at follows
    rw [Event.ofMatches_append, Text.byteLength_append, ← Nat.add_assoc]
    exact (first follows).append (second follows.skip)
  | loose _ _ _ first gap second =>
    simp only [List.append_assoc] at follows
    simp only [Event.ofMatches_append, Text.byteLength_append, ← Nat.add_assoc]
    exact (first follows).append ((gap follows.skip).append (second follows.skip.skip))
  | left _ ih => exact ih follows
  | right _ _ ih => exact ih follows

/-! ## What a node stands for -/

/-- A node of this kind, from `start` to `stop` of the text and with these nodes
inside it, stands for a match of a rule that leaves a trace. -/
def IsMatchOf (text : List Char) (kind : Kind) (start stop : Nat) (inside : Forest) : Prop :=
  ∃ name mode read rest trace,
    Kind.ofRule name = kind ∧ kind.isTrivia = false ∧ name.modifier.outer mode ≠ .atomic ∧
    Follows text start (read ++ rest) ∧ stop = start + byteLength read ∧
    Derives documentGrammar (name.modifier.inner mode) name.body start read rest trace ∧
    Forest.ofMatches trace = inside

/-- The nodes that a derivation makes stand for matches, at every depth. -/
theorem Forest.all_isMatchOf_of_derives {mode : Mode} {e : Expr Rule} {offset : Nat}
    {read rest text : List Char} {trace : List (Match Rule)}
    (derives : Derives documentGrammar mode e offset read rest trace)
    (follows : Follows text offset (read ++ rest)) :
    (Forest.ofMatches trace).All (IsMatchOf text) := by
  induction derives with
  | empty | start | finish | char | literal | stop | absent =>
    rw [Forest.ofMatches_nil]
    exact trivial
  | @traced mode name offset read rest inside traces body ih =>
    have inner := ih follows
    by_cases dropped : (Kind.ofRule name).isTrivia = true
    · rw [Forest.ofMatches_singleton_of_trivia dropped]
      exact inner
    · rw [Forest.ofMatches_singleton_of_not_trivia dropped]
      refine ⟨?_, inner, trivial⟩
      exact ⟨name, mode, read, rest, inside, rfl, Bool.eq_false_iff.mpr dropped, traces, follows,
        rfl, body, rfl⟩
  | untraced _ _ ih => exact ih follows
  | tight _ _ _ first second | round _ _ first second =>
    rw [List.append_assoc] at follows
    rw [Forest.ofMatches_append]
    exact (first follows).append (second follows.skip)
  | loose _ _ _ first gap second =>
    simp only [List.append_assoc] at follows
    rw [Forest.ofMatches_append, Forest.ofMatches_append]
    exact (first follows).append ((gap follows.skip).append (second follows.skip.skip))
  | left _ ih => exact ih follows
  | right _ _ ih => exact ih follows

/-- What holds of a forest holds of each of its trees. -/
theorem Forest.All.of_mem {holds : Kind → Nat → Nat → Forest → Prop} {trees : List Tree}
    {tree : Tree} (all : (Forest.ofTrees trees).All holds) (member : tree ∈ trees) :
    (Forest.ofTrees [tree]).All holds := by
  fun_induction Forest.ofTrees trees with
  | case1 => cases member
  | case2 span text rest ih =>
    rcases List.mem_cons.mp member with rfl | later
    · simp [Forest.ofTrees, Forest.All]
    · exact ih all later
  | case3 kind span children rest _ ih =>
    rcases List.mem_cons.mp member with rfl | later
    · simpa [Forest.ofTrees, Forest.All] using ⟨all.1, all.2.1⟩
    · exact ih all.2.2 later

/-- What holds of every node of a forest holds of every node inside its trees. -/
theorem Forest.All.of_occurs {holds : Kind → Nat → Nat → Forest → Prop} {tree part : Tree}
    (all : (Forest.ofTrees [tree]).All holds) (occurs : part.Occurs tree)
    (node : part.isNode = true) :
    holds part.kind part.span.start part.span.stop (Forest.ofTrees part.children) := by
  induction occurs with
  | self =>
    cases part with
    | token => cases node
    | node kind span children =>
      rw [Forest.ofTrees] at all
      exact all.1
  | @inside tree child member _ ih =>
    cases tree with
    | token => cases member
    | node kind span children =>
      rw [Forest.ofTrees] at all
      exact ih (all.2.1.of_mem member)

/-! ## Documents -/

/-- What matches as a document is followed by nothing. -/
theorem rest_eq_nil_of_derives_idl {mode : Mode} {offset : Nat} {read rest : List Char}
    {trace : List (Match Rule)}
    (derives : Derives documentGrammar mode Rule.idl.body offset read rest trace) :
    rest = [] := by
  obtain ⟨_, _, _, control⟩ := Derives.second derives
  obtain ⟨_, _, _, metadata⟩ := Derives.second control
  obtain ⟨_, _, _, shapes⟩ := Derives.second metadata
  obtain ⟨_, _, _, ending⟩ := Derives.second shapes
  cases ending with
  | traced _ finish =>
    cases finish
    rfl
  | untraced _ finish =>
    cases finish
    rfl

/-- The match of an accepted text reads all of it. -/
theorem derives_of_recognise {text : String} {ms : List (Match Rule)}
    (accepted : recognise text = .ok ms) :
    ∃ inside, ms = [.mk .idl 0 (byteLength text.toList) inside] ∧
      Derives documentGrammar .loose Rule.idl.body 0 text.toList [] inside := by
  unfold recognise at accepted
  simp only at accepted
  split at accepted
  · rename_i t matched
    cases accepted
    obtain ⟨read, trace, advances, derives⟩ := Peg.Matches.of_run matched
    have rest : text.toList = read ++ t.rest := advances.rest
    have trail : t.trail.reverse = trace := by
      rw [advances.trail, initialState, List.append_nil, List.reverse_reverse]
    rw [trail]
    cases derives with
    | untraced silent _ => cases silent
    | traced _ body =>
      rw [rest_eq_nil_of_derives_idl body, List.append_nil] at rest
      have whole := rest_eq_nil_of_derives_idl body
      rw [whole] at body
      rw [rest]
      exact ⟨_, by rw [initialState, Nat.zero_add], body⟩
  · cases accepted
  · cases accepted

/-- The rule of documents traces the match of an accepted text. -/
theorem traced_of_recognise {text : String} {ms : List (Match Rule)}
    (accepted : recognise text = .ok ms) :
    Derives documentGrammar .loose (.rule .idl) 0 text.toList [] ms := by
  obtain ⟨inside, rfl, body⟩ := derives_of_recognise accepted
  have traced : Derives documentGrammar .loose (.rule .idl) 0 text.toList []
      [.mk .idl 0 (0 + byteLength text.toList) inside] :=
    .traced (by decide) body
  rwa [Nat.zero_add] at traced

/-- A node of a document stands for a match of a rule: the rule leaves a trace, it
reads the text of the node where the node is, and the nodes inside it are those
of the match. -/
def Tree.IsMatch (text : List Char) (node : Tree) : Prop :=
  ∃ name mode rest trace,
    Kind.ofRule name = node.kind ∧ node.kind.isTrivia = false ∧
    name.modifier.outer mode ≠ .atomic ∧
    Follows text node.span.start (node.text.toList ++ rest) ∧
    Derives documentGrammar (name.modifier.inner mode) name.body node.span.start
      node.text.toList rest trace ∧
    Forest.ofMatches trace = Forest.ofTrees node.children

/-- The kinds of the nodes directly inside a tree. -/
def Tree.childKinds (tree : Tree) : List Kind := (tree.children.filter Tree.isNode).map Tree.kind

namespace Tree.IsMatch

variable {text : List Char} {node : Tree}

/-- A node that stands for a match is not one of trivia. -/
theorem notable (stands : node.IsMatch text) : node.kind.isTrivia = false := by
  rcases stands with ⟨_, _, _, _, -, notable, -⟩
  exact notable

/-- The nodes inside a node are of kinds that the body of its rule generates. -/
theorem generates (stands : node.IsMatch text) :
    ∃ name, Kind.ofRule name = node.kind ∧
      Generates (name.modifier.inner .loose) name.body node.childKinds := by
  rcases stands with ⟨name, mode, rest, trace, kind, -, traces, -, body, inside⟩
  have generated := Generates.of_derives body
  rw [inside, Forest.kinds_ofTrees] at generated
  refine ⟨name, kind, ?_⟩
  cases modifier : name.modifier with
  | plain =>
    rw [modifier] at generated traces
    exact generated.loose traces
  | atomic =>
    rw [modifier] at generated
    exact generated
  | compound =>
    rw [modifier] at generated
    exact generated

end Tree.IsMatch

/-- What holds of the tree of a document: it covers the whole text, each of its
parts stands where its span says, and its nodes stand for matches of rules. -/
structure Tree.IsDocument (text : List Char) (tree : Tree) : Prop where
  kind : tree.kind = .idl
  span : tree.span = ⟨0, byteLength text⟩
  sits : tree.Sits text
  isMatch : ∀ part, Occurs part tree → part.isNode = true → part.IsMatch text

theorem Tree.IsDocument.text_eq {text : List Char} {tree : Tree}
    (document : tree.IsDocument text) : tree.text.toList = text := by
  have whole : Text.Holds text tree.span text := by
    rw [document.span]
    exact ⟨[], [], by simp, rfl, by simp⟩
  exact document.sits.holds.unique whole

/-- A node that stands for a match where it sits reads its own text. -/
theorem Tree.isMatch_of_isMatchOf {text : List Char} {node : Tree} (sits : node.Sits text)
    (stands : IsMatchOf text node.kind node.span.start node.span.stop
      (Forest.ofTrees node.children)) : node.IsMatch text := by
  obtain ⟨name, mode, read, rest, trace, kind, notable, traces, follows, stop, body, inside⟩ :=
    stands
  have same : node.text.toList = read := by
    have here := follows.holds
    rw [← stop] at here
    exact sits.holds.unique here
  refine ⟨name, mode, rest, trace, kind, notable, traces, ?_, ?_, inside⟩
  · rw [same]
    exact follows
  · rw [same]
    exact body

/-- The tree of an accepted text is assembled from its events. -/
theorem documentTree_of_events {text : String} {events : List Event}
    (accepted : documentEvents text = .ok events) :
    documentTree text = (Tree.ofEvents text events).map .ok := by
  delta documentTree
  rw [accepted]

/-- The tree of one match of the whole text is a node of that match. -/
theorem Tree.exists_root_of_ofEvents {text : String} {inside : List (Peg.Match Rule)}
    {tree : Tree} (made : Tree.ofEvents text
      (Event.ofMatches [.mk .idl 0 (byteLength text.toList) inside]) = .ok tree) :
    ∃ children, tree = .node .idl ⟨0, byteLength text.toList⟩ children ∧
      Forest.ofTrees children = Forest.ofMatches inside ∧ tree.Sits text.toList := by
  obtain ⟨-, -, kind, start, stop, children, rfl, same, sits⟩ := Tree.of_ofEvents_ok made
  -- The tree spells the events of the match, so its nodes are the matches.
  rw [← Forest.events_ofTrees, ← Forest.events_ofMatches,
    Forest.ofMatches_singleton_of_not_trivia (by decide)] at same
  have agree : Forest.cons .idl 0 (byteLength text.toList) (Forest.ofMatches inside) .nil =
      .cons kind start stop (Forest.ofTrees children) .nil := Forest.events_injective same
  simp only [Forest.cons.injEq] at agree
  rcases agree with ⟨rfl, rfl, rfl, nodes, -⟩
  exact ⟨children, rfl, nodes.symm, sits⟩

/-- An accepted text has a tree, and this is the tree of a document. -/
theorem exists_documentTree {text : String} {events : List Event}
    (accepted : documentEvents text = .ok events) :
    ∃ tree, documentTree text = .ok (.ok tree) ∧ tree.IsDocument text.toList := by
  obtain ⟨ms, recognised, rfl⟩ := Outcome.map_eq_ok_iff.mp accepted
  have derives := traced_of_recognise recognised
  obtain ⟨inside, rfl, -⟩ := derives_of_recognise recognised
  have follows : Follows text.toList 0 (text.toList ++ []) := ⟨[], by simp, rfl⟩
  have placed := Event.placed_of_derives derives follows
  have all := Forest.all_isMatchOf_of_derives derives follows
  -- The events that count are those of the one root.
  have forest : Forest.ofMatches [.mk .idl 0 (byteLength text.toList) inside] =
      .cons .idl 0 (byteLength text.toList) (Forest.ofMatches inside) .nil :=
    Forest.ofMatches_singleton_of_not_trivia (by decide)
  have spelled := Forest.events_ofMatches [.mk .idl 0 (byteLength text.toList) inside]
  rw [forest] at spelled all
  have bracketed : Event.Bracketed (Event.significant
      (Event.ofMatches [.mk .idl 0 (byteLength text.toList) inside])) :=
    ⟨.idl, 0, byteLength text.toList, (Forest.ofMatches inside).events,
      Forest.balanced_events _, spelled.symm⟩
  obtain ⟨tree, made⟩ := Tree.exists_ofEvents_ok bracketed
    (placed.sorted.sublist List.filter_sublist)
    (fun event member => (placed.within event (List.mem_filter.mp member).1).2.2)
  obtain ⟨children, rfl, nodes, sits⟩ := Tree.exists_root_of_ofEvents made
  refine ⟨_, ?_, rfl, rfl, sits, ?_⟩
  · rw [documentTree_of_events accepted, made]
    rfl
  · intro part occurs node
    have root : Forest.ofTrees [.node .idl ⟨0, byteLength text.toList⟩ children] =
        .cons .idl 0 (byteLength text.toList) (Forest.ofTrees children) .nil := by
      rw [Forest.ofTrees, Forest.ofTrees]
    rw [← nodes, ← root] at all
    exact Tree.isMatch_of_isMatchOf (sits.of_occurs occurs) (all.of_occurs occurs node)

/-- A text that has a tree is a document. -/
theorem exists_events_of_documentTree {text : String} {tree : Tree}
    (made : documentTree text = .ok (.ok tree)) :
    ∃ events, documentEvents text = .ok events ∧ tree.IsDocument text.toList := by
  cases accepted : documentEvents text with
  | error rejection =>
    unfold documentTree at made
    rw [accepted] at made
    cases made
  | ok events =>
    obtain ⟨tree', made', document⟩ := exists_documentTree accepted
    cases made.symm.trans made'
    exact ⟨events, rfl, document⟩

end ServiceIdl
