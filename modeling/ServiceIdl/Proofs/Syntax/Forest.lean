import ServiceIdl.Syntax.Assembly

/-!
# Bracketings of events

Matches, trees and flat sequences of events say the same thing about how nodes
nest: the first two hold text or rules besides, and the last spells every node as
a pair of brackets. A `Forest` is what they share: for each node its kind, where
it begins and ends, and the forest inside it.

`Event.Balanced` is the property of a sequence of events that it is a well-nested
bracketing, said without any forest, and `Event.balanced_iff_exists_forest` ties
the two together. A sequence of events spells one forest at most
(`Forest.events_injective`), so two descriptions of one sequence nest alike.
-/

namespace ServiceIdl

/-! ## Balanced sequences of events -/

namespace Event

/-- The kind of node that begins or ends. -/
def kind : Event → Kind
  | .enter kind _ => kind
  | .exit kind _ => kind

/-- Where the node begins or ends. -/
def offset : Event → Nat
  | .enter _ offset => offset
  | .exit _ offset => offset

/-- The events that count: those that are not of trivia kinds. -/
def significant (events : List Event) : List Event :=
  events.filter fun event => !event.kind.isTrivia

/-- A balanced sequence: pairs of brackets of one kind with a balanced sequence
inside each pair and behind it. -/
inductive Balanced : List Event → Prop
  | nil : Balanced []
  | cons {kind : Kind} {start stop : Nat} {inside rest : List Event} :
    Balanced inside → Balanced rest →
    Balanced (.enter kind start :: (inside ++ .exit kind stop :: rest))

/-- A balanced sequence with one outermost pair of brackets, which its first and
its last event are. -/
def Bracketed (events : List Event) : Prop :=
  ∃ kind start stop inside, Balanced inside ∧
    events = .enter kind start :: (inside ++ [.exit kind stop])

/-- The offsets of the events never fall back. -/
def Ascending (events : List Event) : Prop := (events.map Event.offset).Pairwise (· ≤ ·)

theorem Ascending.sublist {part events : List Event} (sorted : Ascending events)
    (sublist : part.Sublist events) : Ascending part :=
  List.Pairwise.sublist (sublist.map _) sorted

theorem significant_cons {event : Event} (counts : ¬ event.kind.isTrivia = true)
    (rest : List Event) : significant (event :: rest) = event :: significant rest := by
  simp [significant, counts]

theorem significant_cons_of_trivia {event : Event} (trivial : event.kind.isTrivia = true)
    (rest : List Event) : significant (event :: rest) = significant rest := by
  simp [significant, trivial]

/-- Trivia are left out on either side of a place. -/
theorem significant_append (earlier later : List Event) :
    significant (earlier ++ later) = significant earlier ++ significant later :=
  List.filter_append ..

end Event

/-! ## Forests -/

/-- Nodes one behind the other, each with its kind, where it begins and ends, and
the nodes inside it. -/
inductive Forest where
  | nil
  | cons (kind : Kind) (start stop : Nat) (inside rest : Forest)

namespace Forest

/-- The events of the nodes in the order of the text. -/
def events : Forest → List Event
  | .nil => []
  | .cons kind start stop inside rest =>
    .enter kind start :: (inside.events ++ .exit kind stop :: rest.events)

/-- The kinds of the outermost nodes. -/
def kinds : Forest → List Kind
  | .nil => []
  | .cons kind _ _ _ rest => kind :: rest.kinds

/-- The nodes of two forests one behind the other. -/
def append : Forest → Forest → Forest
  | .nil, behind => behind
  | .cons kind start stop inside rest, behind =>
    .cons kind start stop inside (rest.append behind)

@[simp] theorem append_nil (forest : Forest) : forest.append .nil = forest := by
  induction forest with
  | nil => rfl
  | cons kind start stop inside rest _ ih => rw [append, ih]

theorem append_assoc (front middle behind : Forest) :
    (front.append middle).append behind = front.append (middle.append behind) := by
  induction front with
  | nil => rfl
  | cons kind start stop inside rest _ ih => rw [append, append, append, ih]

@[simp] theorem events_append (front behind : Forest) :
    (front.append behind).events = front.events ++ behind.events := by
  induction front with
  | nil => rfl
  | cons kind start stop inside rest _ ih => simp [append, events, ih]

@[simp] theorem kinds_append (front behind : Forest) :
    (front.append behind).kinds = front.kinds ++ behind.kinds := by
  induction front with
  | nil => rfl
  | cons kind start stop inside rest _ ih => simp [append, kinds, ih]

/-- A property of every node of a forest, at any depth. -/
def All (holds : Kind → Nat → Nat → Forest → Prop) : Forest → Prop
  | .nil => True
  | .cons kind start stop inside rest =>
    holds kind start stop inside ∧ inside.All holds ∧ rest.All holds

/-- What holds of two forests holds of them in a row. -/
theorem All.append {holds : Kind → Nat → Nat → Forest → Prop} {front behind : Forest}
    (before : front.All holds) (after : behind.All holds) : (front.append behind).All holds := by
  induction front with
  | nil => exact after
  | cons kind start stop inside rest _ ih => exact ⟨before.1, before.2.1, ih before.2.2⟩

/-- The events of a forest open and close in pairs. -/
theorem balanced_events (forest : Forest) : Event.Balanced forest.events := by
  induction forest with
  | nil => exact .nil
  | cons kind start stop inside rest inner outer => exact .cons inner outer

/-- Up to the bracket that closes them, two forests with the same events agree. -/
theorem eq_of_events_append_exit {front other : Forest} {kind kind' : Kind}
    {stop stop' : Nat} {behind behind' : List Event}
    (same : front.events ++ .exit kind stop :: behind =
      other.events ++ .exit kind' stop' :: behind') :
    front = other ∧ Event.exit kind stop = .exit kind' stop' ∧ behind = behind' := by
  induction front generalizing other kind kind' stop stop' behind behind' with
  | nil =>
    cases other with
    | nil =>
      simp only [events, List.nil_append, List.cons.injEq] at same
      exact ⟨rfl, same⟩
    | cons => simp [events] at same
  | cons k a b inside rest inner outer =>
    cases other with
    | nil => simp [events] at same
    | cons k' a' b' inside' rest' =>
      simp only [events, List.cons_append, List.append_assoc, List.cons.injEq,
        Event.enter.injEq] at same
      rcases same with ⟨⟨sameKind, sameStart⟩, same⟩
      obtain ⟨sameInside, closed, behindInside⟩ := inner same
      obtain ⟨sameRest, last, behindRest⟩ := outer behindInside
      cases closed
      exact ⟨by rw [sameKind, sameStart, sameInside, sameRest], last, behindRest⟩

/-- A sequence of events spells one forest at most. -/
theorem events_injective {front other : Forest} (same : front.events = other.events) :
    front = other := by
  have closed : front.events ++ [.exit .idl 0] = other.events ++ [.exit .idl 0] := by rw [same]
  exact (eq_of_events_append_exit closed).1

end Forest

/-- The balanced sequences are those that spell a forest. -/
theorem Event.balanced_iff_exists_forest {events : List Event} :
    Balanced events ↔ ∃ forest : Forest, forest.events = events := by
  constructor
  · intro balanced
    induction balanced with
    | nil => exact ⟨.nil, rfl⟩
    | @cons kind start stop inside rest _ _ inner outer =>
      rcases inner with ⟨innerForest, rfl⟩
      rcases outer with ⟨outerForest, rfl⟩
      exact ⟨.cons kind start stop innerForest outerForest, rfl⟩
  · intro ⟨forest, spelled⟩
    rw [← spelled]
    exact forest.balanced_events

/-! ## The forest of trees -/

mutual

/-- The events of a tree: a node begins before what is inside it and ends after. -/
def Tree.events : Tree → List Event
  | .token .. => []
  | .node kind span children =>
    .enter kind span.start :: (Tree.eventsOfAll children ++ [.exit kind span.stop])

/-- The events of trees that follow each other. -/
def Tree.eventsOfAll : List Tree → List Event
  | [] => []
  | tree :: rest => tree.events ++ Tree.eventsOfAll rest

end

/-- The nodes of trees that follow each other, without their text. -/
def Forest.ofTrees : List Tree → Forest
  | [] => .nil
  | .token .. :: rest => ofTrees rest
  | .node kind span children :: rest =>
    .cons kind span.start span.stop (ofTrees children) (ofTrees rest)

namespace Forest

/-- Trees and the forest of them have the same events. -/
theorem events_ofTrees (trees : List Tree) : (ofTrees trees).events = Tree.eventsOfAll trees := by
  fun_induction ofTrees trees with
  | case1 => rfl
  | case2 span text rest ih => simpa [Tree.eventsOfAll, Tree.events] using ih
  | case3 kind span children rest inner outer =>
    simp [events, Tree.eventsOfAll, Tree.events, inner, outer]

/-- The outermost nodes are the trees that are nodes. -/
theorem kinds_ofTrees (trees : List Tree) :
    (ofTrees trees).kinds = (trees.filter Tree.isNode).map Tree.kind := by
  fun_induction ofTrees trees with
  | case1 => rfl
  | case2 span text rest ih => simpa [Tree.isNode] using ih
  | case3 kind span children rest inner outer =>
    rw [List.filter_cons_of_pos rfl, List.map_cons, kinds, outer]
    rfl

end Forest

/-! ## The forest of matches -/

mutual

/-- The node that a match makes, unless it is of a trivia kind: then what is inside
it stands in its place. -/
def Forest.ofMatch : Peg.Match Rule → Forest
  | .mk name start stop inside =>
    if (Kind.ofRule name).isTrivia then Forest.ofMatches inside
    else .cons (.ofRule name) start stop (Forest.ofMatches inside) .nil

/-- The nodes of matches that follow each other. -/
def Forest.ofMatches : List (Peg.Match Rule) → Forest
  | [] => .nil
  | m :: rest => (Forest.ofMatch m).append (Forest.ofMatches rest)

end

namespace Forest

@[simp] theorem ofMatches_nil : ofMatches [] = .nil := rfl

/-- Trivia leave what is inside them in their place. -/
theorem ofMatches_singleton_of_trivia {name : Rule} {start stop : Nat}
    {inside : List (Peg.Match Rule)} (trivial : (Kind.ofRule name).isTrivia = true) :
    ofMatches [.mk name start stop inside] = ofMatches inside := by
  rw [ofMatches, ofMatch, if_pos trivial, ofMatches_nil, append_nil]

/-- Any other match makes a node around what is inside. -/
theorem ofMatches_singleton_of_not_trivia {name : Rule} {start stop : Nat}
    {inside : List (Peg.Match Rule)} (notable : ¬ (Kind.ofRule name).isTrivia = true) :
    ofMatches [.mk name start stop inside] =
      .cons (.ofRule name) start stop (ofMatches inside) .nil := by
  rw [ofMatches, ofMatch, if_neg notable, ofMatches_nil, append_nil]

theorem ofMatches_append (front behind : List (Peg.Match Rule)) :
    ofMatches (front ++ behind) = (ofMatches front).append (ofMatches behind) := by
  induction front with
  | nil => rfl
  | cons m rest ih => rw [List.cons_append, ofMatches, ofMatches, ih, append_assoc]

end Forest

mutual

/-- The forest of a match has its events, without those of trivia. -/
theorem Forest.events_ofMatch (m : Peg.Match Rule) :
    (Forest.ofMatch m).events = Event.significant (Event.ofMatch m) := by
  rcases m with ⟨name, start, stop, inside⟩
  have inner := Forest.events_ofMatches inside
  rw [Event.significant] at inner
  by_cases trivial : (Kind.ofRule name).isTrivia = true
  · simp [Forest.ofMatch, Event.ofMatch, Event.significant, Event.kind, trivial, inner]
  · simp [Forest.ofMatch, Forest.events, Event.ofMatch, Event.significant, Event.kind, trivial,
      inner]

/-- The events of the nodes are the events of the matches that count. -/
theorem Forest.events_ofMatches (ms : List (Peg.Match Rule)) :
    (Forest.ofMatches ms).events = Event.significant (Event.ofMatches ms) := by
  cases ms with
  | nil => rfl
  | cons m rest =>
    rw [Forest.ofMatches, Forest.events_append, Forest.events_ofMatch m,
      Forest.events_ofMatches rest, Event.ofMatches, Event.significant_append]

end

end ServiceIdl
