import Mathlib.Data.List.Forall2
import Mathlib.Data.List.Induction
import Mathlib.Data.List.Infix
import Mathlib.Data.List.TakeWhile

/-!
# The first, the last and each once

What other modules ask of lists: what the first element gives that gives anything (`First`), the
last element with a property (`IsLast`), and the elements without repetition in the order of their
first occurrences (`IsFirstOccurrences`). Before and behind these stand facts about lists that
agree element by element, that fall apart into runs, and that have separators.
-/

namespace ServiceIdl

/-! ## Element by element -/

section Elements

variable {α β γ : Type} {as : List α}

/-- Every element of a list that is related to another has a partner there. -/
theorem exists_mem_of_forall₂ {related : α → β → Prop} {bs : List β}
    (each : List.Forall₂ related as bs) {a : α} (member : a ∈ as) : ∃ b ∈ bs, related a b := by
  induction each with
  | nil => cases member
  | cons head _ ih =>
    rcases List.mem_cons.mp member with rfl | later
    · exact ⟨_, List.mem_cons_self, head⟩
    · obtain ⟨b, inside, held⟩ := ih later
      exact ⟨b, List.mem_cons_of_mem _ inside, held⟩

/-- What has the name of each element of a list has the names of the list. -/
theorem map_eq_of_forall₂ {f : α → γ} {g : β → γ} {bs : List β}
    (alike : List.Forall₂ (fun a b => g b = f a) as bs) : bs.map g = as.map f := by
  induction alike with
  | nil => rfl
  | cons head _ ih => rw [List.map_cons, List.map_cons, head, ih]

/-- Lists are told apart by what tells their elements apart. -/
theorem eq_of_map_eq {f : α → β} {bs : List α} (apart : ∀ a ∈ as, ∀ b, f a = f b → a = b)
    (same : as.map f = bs.map f) : as = bs := by
  induction as generalizing bs with
  | nil => exact (List.map_eq_nil_iff.mp same.symm).symm
  | cons a as ih =>
    cases bs with
    | nil => cases same
    | cons b bs =>
      rw [List.map_cons, List.map_cons, List.cons.injEq] at same
      rw [apart a List.mem_cons_self b same.1,
        ih (fun a' later => apart a' (List.mem_cons_of_mem a later)) same.2]

end Elements

/-! ## Runs -/

section Runs

variable {α : Type} {p : α → Bool} {run rest : List α}

/-- A run of elements of a class ends where none of them follows. -/
theorem takeWhile_run (inside : ∀ a ∈ run, p a = true)
    (stop : ∀ a, rest.head? = some a → p a = false) :
    (run ++ rest).takeWhile p = run ∧ (run ++ rest).dropWhile p = rest := by
  rw [List.takeWhile_append_of_pos inside, List.dropWhile_append_of_pos inside]
  cases rest with
  | nil => simp
  | cons a rest => simp [stop a rfl]

/-- What is left behind a run of elements begins with none of them. -/
theorem not_of_head?_dropWhile {as : List α} {a : α} (head : (as.dropWhile p).head? = some a) :
    p a = false := by
  have first := List.head?_dropWhile_not p as
  rw [head] at first
  exact first

/-- If both fronts consist of what does not begin anything, and what follows begins something or
is nothing, there is one way to take the whole apart. -/
theorem append_inj_of_runs {begins : α → Bool} {run' rest' : List α}
    (inner : ∀ a ∈ run, begins a = false) (inner' : ∀ a ∈ run', begins a = false)
    (next : ∀ a ∈ rest.head?, begins a = true) (next' : ∀ a ∈ rest'.head?, begins a = true)
    (same : run ++ rest = run' ++ rest') : run = run' ∧ rest = rest' := by
  have inside {run : List α} (inner : ∀ a ∈ run, begins a = false) :
      ∀ a ∈ run, (!begins a) = true := by
    intro a member
    rw [inner a member, Bool.not_false]
  have stop {rest : List α} (next : ∀ a ∈ rest.head?, begins a = true) :
      ∀ a, rest.head? = some a → (!begins a) = false := by
    intro a head
    rw [next a head, Bool.not_true]
  obtain ⟨front, behind⟩ := takeWhile_run (inside inner) (stop next)
  obtain ⟨front', behind'⟩ := takeWhile_run (inside inner') (stop next')
  rw [same] at front behind
  exact ⟨front.symm.trans front', behind.symm.trans behind'⟩

/-- A list between two marks that are the same on both sides. -/
theorem eq_of_cons_append_singleton_eq {mark : α} {as bs : List α}
    (same : mark :: as ++ [mark] = mark :: bs ++ [mark]) : as = bs :=
  (List.cons.inj (List.append_cancel_right same)).2

end Runs

/-! ## The first of a list -/

/-- What the first element of a list that has anything to do with a `b` has. -/
inductive First {α β : Type} (holds : α → β → Prop) : List α → β → Prop
  | here {a : α} {rest : List α} {b : β} : holds a b → First holds (a :: rest) b
  | later {a : α} {rest : List α} {b : β} :
    (∀ c, ¬ holds a c) → First holds rest b → First holds (a :: rest) b

namespace First

variable {α β γ : Type} {holds : α → γ → Prop}

/-- An element that nothing can be found at is passed over. -/
theorem cons_iff_of_forall_not {a : α} {rest : List α} {c : γ} (nothing : ∀ c, ¬ holds a c) :
    First holds (a :: rest) c ↔ First holds rest c := by
  constructor
  · intro first
    cases first with
    | here found => exact absurd found (nothing c)
    | later _ later => exact later
  · exact .later nothing

/-- An element that something is found at decides. -/
theorem cons_iff_of_holds {a : α} {rest : List α} {c d : γ} (found : holds a d) :
    First holds (a :: rest) c ↔ holds a c := by
  constructor
  · intro first
    cases first with
    | here found => exact found
    | later nothing _ => exact absurd found (nothing d)
  · exact .here

/-- A search finds what the first element has for which there is anything. -/
theorem iff_findSome? {f : α → Option β} {as : List α} {b : β} :
    First (fun a b => f a = some b) as b ↔ as.findSome? f = some b := by
  induction as with
  | nil =>
    constructor
    · intro first
      cases first
    · intro same
      cases same
  | cons a rest ih =>
    rw [List.findSome?_cons]
    cases own : f a with
    | none =>
      have nothing : ∀ c, ¬ f a = some c := by simp [own]
      rw [cons_iff_of_forall_not nothing, ih]
    | some c =>
      have here : First (fun a b => f a = some b) (a :: rest) b ↔ f a = some b :=
        cons_iff_of_holds own
      rw [here, own]

/-- If an element has to do with one thing at most, so has the list. -/
theorem unique {b c : γ} (functional : ∀ a b c, holds a b → holds a c → b = c) {as : List α}
    (left : First holds as b) (right : First holds as c) : b = c := by
  induction left with
  | here found =>
    cases right with
    | here found' => exact functional _ _ _ found found'
    | later nothing _ => exact absurd found (nothing _)
  | later nothing _ ih =>
    cases right with
    | here found' => exact absurd found' (nothing _)
    | later _ right => exact ih right

/-- If an element has to do with anything, some element is the first that has. -/
theorem exists_of_mem {as : List α} {a : α} {c : γ} (member : a ∈ as) (found : holds a c) :
    ∃ d, First holds as d := by
  induction as with
  | nil => cases member
  | cons b rest ih =>
    by_cases nothing : ∀ d, ¬ holds b d
    · rcases List.mem_cons.mp member with rfl | later
      · exact absurd found (nothing c)
      · obtain ⟨d, first⟩ := ih later
        exact ⟨d, .later nothing first⟩
    · push Not at nothing
      obtain ⟨d, here⟩ := nothing
      exact ⟨d, .here here⟩

/-- What the first element has to do with, an element of the list has. -/
theorem exists_mem {as : List α} {c : γ} (first : First holds as c) : ∃ a ∈ as, holds a c := by
  induction first with
  | here found => exact ⟨_, List.mem_cons_self, found⟩
  | later _ _ ih =>
    obtain ⟨a, member, found⟩ := ih
    exact ⟨a, List.mem_cons_of_mem _ member, found⟩

/-- Backwards, the first element is the last, behind which there is nothing. -/
theorem exists_append_of_reverse {as : List α} {c : γ} (first : First holds as.reverse c) :
    ∃ earlier a later, as = earlier ++ a :: later ∧ holds a c ∧
      ∀ b ∈ later, ∀ d, ¬ holds b d := by
  induction as using List.reverseRecOn with
  | nil => cases first
  | append_singleton as a ih =>
    rw [List.reverse_append, List.reverse_singleton, List.singleton_append] at first
    cases first with
    | here found => exact ⟨as, a, [], rfl, found, List.forall_mem_nil _⟩
    | later nothing first =>
      obtain ⟨earlier, b, later, rfl, found, behind⟩ := ih first
      refine ⟨earlier, b, later ++ [a], by simp, found, ?_⟩
      exact List.forall_mem_append.mpr ⟨behind, List.forall_mem_singleton.mpr nothing⟩

/-- What stands in front of the last element has no say. -/
theorem reverse_append_of_forall_not {earlier later : List α} {a : α} {c : γ} (found : holds a c)
    (nothing : ∀ b ∈ later, ∀ d, ¬ holds b d) : First holds (earlier ++ a :: later).reverse c := by
  induction later using List.reverseRecOn with
  | nil =>
    rw [List.reverse_append, List.reverse_singleton]
    exact .here found
  | append_singleton later b ih =>
    obtain ⟨before, last⟩ := List.forall_mem_append.mp nothing
    rw [← List.cons_append, ← List.append_assoc, List.reverse_append, List.reverse_singleton]
    exact .later (List.forall_mem_singleton.mp last) (ih before)

end First

/-! ## The last of a list -/

section Last

variable {α β : Type} {p : α → Prop} {as : List α} {a : α}

/-- The last element of the list with the property. -/
def IsLast (p : α → Prop) (as : List α) (a : α) : Prop :=
  ∃ earlier later, as = earlier ++ a :: later ∧ p a ∧ ∀ b ∈ later, ¬ p b

/-- The first hit from the end is the last one with the property. -/
theorem find?_reverse_eq_some_iff [DecidablePred p] :
    as.reverse.find? (fun a => p a) = some a ↔ IsLast p as a := by
  rw [List.find?_eq_some_iff_append]
  constructor
  · intro hit
    rcases hit with ⟨found, later, earlier, split, behind⟩
    refine ⟨earlier.reverse, later.reverse, ?_, of_decide_eq_true found, ?_⟩
    · rw [← List.reverse_reverse as, split]
      simp
    · intro b member
      simpa using behind b (List.mem_reverse.mp member)
  · intro last
    rcases last with ⟨earlier, later, rfl, found, behind⟩
    refine ⟨decide_eq_true found, later.reverse, earlier.reverse, by simp, ?_⟩
    intro b member
    simpa using behind b (List.mem_reverse.mp member)

/-- Lists that agree element by element have their last ones at the same place. -/
theorem IsLast.exists_of_forall₂ {q : β → Prop} {related : α → β → Prop} {bs : List β}
    (agree : ∀ a b, related a b → (p a ↔ q b)) (each : List.Forall₂ related as bs)
    (last : IsLast p as a) : ∃ b, related a b ∧ IsLast q bs b := by
  obtain ⟨earlier, later, rfl, found, behind⟩ := last
  induction earlier generalizing bs with
  | nil =>
    cases each with
    | @cons _ b _ rest here others =>
      refine ⟨b, here, [], rest, rfl, (agree _ _ here).mp found, ?_⟩
      intro other member held
      obtain ⟨own, member, related⟩ := exists_mem_of_forall₂ others.flip member
      exact behind own member ((agree _ _ related).mpr held)
  | cons first earlier ih =>
    cases each with
    | @cons _ b _ rest _ others =>
      obtain ⟨found', here, earlier', later', rfl, held, behind'⟩ := ih others
      exact ⟨found', here, b :: earlier', later', rfl, held, behind'⟩

end Last

/-! ## Lists without repetition -/

section Repetition

variable {α β : Type} [BEq α] [LawfulBEq α] [BEq β] [LawfulBEq β]

/-- A further element is kept only if it is new, and then it comes last. -/
theorem eraseDups_concat (l : List α) (a : α) :
    (l ++ [a]).eraseDups = if a ∈ l then l.eraseDups else l.eraseDups ++ [a] := by
  rw [List.eraseDups_append]
  by_cases known : a ∈ l
  · have nothing : [a].removeAll l = [] := by simp [List.removeAll, known]
    rw [nothing, List.eraseDups_nil, List.append_nil, if_pos known]
  · have new : [a].removeAll l = [a] := by simp [List.removeAll, known]
    have alone : [a].eraseDups = [a] := by simp [List.eraseDups_cons]
    rw [new, alone, if_neg known]

/-- It does not matter whether repetitions are dropped before or after a choice that keeps
different elements apart. -/
theorem eraseDups_filterMap {f : α → Option β}
    (apart : ∀ a b c, f a = some c → f b = some c → a = b) (l : List α) :
    (l.filterMap f).eraseDups = l.eraseDups.filterMap f := by
  induction l using List.reverseRecOn with
  | nil => simp
  | append_singleton l a ih =>
    rw [List.filterMap_append, eraseDups_concat]
    cases chosen : f a with
    | none =>
      rw [List.filterMap_cons_none chosen, List.filterMap_nil, List.append_nil, ih]
      split
      · rfl
      · rw [List.filterMap_append, List.filterMap_cons_none chosen, List.filterMap_nil,
          List.append_nil]
    | some c =>
      have known : c ∈ l.filterMap f ↔ a ∈ l := by
        rw [List.mem_filterMap]
        constructor
        · intro listed
          rcases listed with ⟨b, member, same⟩
          rwa [← apart b a c same chosen]
        · exact fun member => ⟨a, member, chosen⟩
      rw [List.filterMap_cons_some chosen, List.filterMap_nil, eraseDups_concat, ih]
      by_cases member : a ∈ l
      · rw [if_pos member, if_pos (known.mpr member)]
      · rw [if_neg member, if_neg (mt known.mp member), List.filterMap_append,
          List.filterMap_cons_some chosen, List.filterMap_nil]

/-- The same for a choice that leaves elements as they are. -/
theorem eraseDups_filter (p : α → Bool) (l : List α) :
    (l.filter p).eraseDups = l.eraseDups.filter p := by
  rw [← List.filterMap_eq_filter]
  refine eraseDups_filterMap ?_ l
  intro a b c left right
  rw [(Option.guard_eq_some_iff.mp left).1, (Option.guard_eq_some_iff.mp right).1]

/-- Without repetitions, lists that are equal at the same places still correspond. -/
theorem forall₂_eraseDups_map {γ : Type} {f : γ → α} {g : γ → β}
    (same : ∀ a b, f a = f b ↔ g a = g b) (as : List γ) :
    List.Forall₂ (fun b c => ∃ a, b = f a ∧ c = g a) (as.map f).eraseDups
      (as.map g).eraseDups := by
  match as with
  | [] => exact .nil
  | a :: rest =>
    -- Behind the first element, both lists lose the images of the same elements.
    have others : (fun b => !g b == g a) = fun b => !f b == f a := by
      funext b
      rw [Bool.eq_iff_iff]
      simp [same]
    rw [List.map_cons, List.map_cons, List.eraseDups_cons, List.eraseDups_cons, List.filter_map,
      List.filter_map, Function.comp_def, Function.comp_def, others]
    exact .cons ⟨a, rfl, rfl⟩ (forall₂_eraseDups_map same _)
termination_by as.length
decreasing_by
  exact Nat.lt_succ_of_le (List.length_filter_le ..)

end Repetition

/-- The elements of `all`, each once and in the order of their first occurrences. -/
structure IsFirstOccurrences {α : Type} [DecidableEq α] (kept all : List α) : Prop where
  nodup : kept.Nodup
  mem_iff : ∀ a, a ∈ kept ↔ a ∈ all
  order : kept.Pairwise fun a b => all.idxOf a < all.idxOf b

/-- The standard removal of duplicates keeps the first occurrences. -/
theorem isFirstOccurrences_eraseDups {α : Type} [DecidableEq α] (all : List α) :
    IsFirstOccurrences all.eraseDups all := by
  have order : all.eraseDups.Pairwise fun a b => all.idxOf a < all.idxOf b := by
    induction all using List.reverseRecOn with
    | nil => simp
    | append_singleton all last ih =>
      have old : ∀ a ∈ all.eraseDups, (all ++ [last]).idxOf a = all.idxOf a := by
        intro a member
        exact List.idxOf_append_of_mem (List.mem_eraseDups.mp member)
      have kept : all.eraseDups.Pairwise
          fun a b => (all ++ [last]).idxOf a < (all ++ [last]).idxOf b := by
        refine ih.imp_of_mem ?_
        intro a b inA inB before
        rwa [old a inA, old b inB]
      rw [eraseDups_concat]
      by_cases known : last ∈ all
      · rwa [if_pos known]
      · rw [if_neg known, List.pairwise_append]
        refine ⟨kept, by simp, ?_⟩
        intro a member b isLast
        rw [List.mem_singleton.mp isLast, old a member, List.idxOf_append, if_neg known]
        have inside := List.idxOf_lt_length_iff.mpr (List.mem_eraseDups.mp member)
        omega
  refine ⟨order.imp ?_, fun a => List.mem_eraseDups, order⟩
  intro a b before same
  rw [same] at before
  exact absurd before (Nat.lt_irrefl _)

/-! ## Lists between separators -/

/-- Each of the parts stands in the whole. -/
theorem infix_intercalate {α : Type} {separator l : List α} {ls : List (List α)}
    (member : l ∈ ls) : l <:+: separator.intercalate ls := by
  match ls with
  | [] => cases member
  | [a] =>
    obtain rfl := List.mem_singleton.mp member
    rw [List.intercalate_singleton]
  | a :: b :: rest =>
    rw [List.intercalate_cons_cons]
    rcases List.mem_cons.mp member with rfl | later
    · exact ((List.prefix_append l separator).trans (List.prefix_append _ _)).isInfix
    · exact (infix_intercalate later).trans (List.suffix_append _ _).isInfix

end ServiceIdl
