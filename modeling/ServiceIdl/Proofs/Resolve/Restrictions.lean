import ServiceIdl.Proofs.Resolve.Collector
import ServiceIdl.Proofs.Resolve.Rules
import ServiceIdl.Proofs.Shape.Arrival
import ServiceIdl.Proofs.Shape.Entries

/-!
# What traits stand for

A trait stands for constraints if it is one of five (`restrictionIds`), and its body says which
(`Trait.StandsFor`). A list of traits has the constraints of each in turn, without the ones that
an earlier trait has. So the constraints of one list behind another are those of the first with
the new ones behind them (`Constraint.ofTraits_append`), and the order of the traits matters for
nothing but the order of the constraints (`Constraint.perm_ofTraits`). Every other trait is
reported instead, to a log that keeps what it has (`collectRules_restrictions`).
-/

namespace ServiceIdl

/-! ## Bodies -/

namespace Trait

/-- The last entry of the body with the key is an integer. -/
def HasBound (t : Trait) (key : String) (n : Int) : Prop :=
  ∃ body, t.body = some body ∧ body.HasLast key (.number (.integer n))

/-- The body is one text: quoted, and then the pattern is what is written between the quotes, or
a block. -/
def HasPattern (t : Trait) (text : String) : Prop :=
  t.verbatim = some text ∨ t.verbatim = none ∧ t.body = some (.value (.string text))

/-- A bound is the integer of the last entry with its key. -/
theorem bound?_eq_some_iff {t : Trait} {key : String} {n : Int} :
    t.bound? key = some n ↔ t.HasBound key n := by
  have integer (value : Value) :
      value.number?.bind Numeric.integer? = some n ↔ value = .number (.integer n) := by
    cases value with
    | number number => cases number <;> simp [Value.number?, Numeric.integer?]
    | _ => simp [Value.number?]
  unfold bound? field? HasBound
  rw [Option.bind_assoc, Option.bind_assoc, Option.bind_eq_some_iff]
  simp only [Option.bind_eq_some_iff, integer, exists_eq_right, TraitBody.field?_eq_some_iff]

theorem length?_eq_some_iff {t : Trait} {key : String} {n : Nat} :
    t.length? key = some n ↔ t.HasBound key n := by
  unfold length?
  rw [Option.map_eq_some_iff, ← bound?_eq_some_iff]
  constructor
  · rintro ⟨bound, found, rfl⟩
    obtain ⟨found, natural⟩ := Option.filter_eq_some_iff.mp found
    rw [found, Int.toNat_of_nonneg (of_decide_eq_true natural)]
  · intro found
    refine ⟨n, ?_, Int.toNat_natCast n⟩
    exact Option.filter_eq_some_iff.mpr ⟨found, decide_eq_true (Int.natCast_nonneg n)⟩

/-- A pattern is the text that the trait has as its value. -/
theorem pattern?_eq_some_iff {t : Trait} {text : String} :
    t.pattern? = some text ↔ t.HasPattern text := by
  have value : t.value?.bind Value.string? = some text ↔ t.body = some (.value (.string text)) := by
    unfold value?
    cases t.body with
    | none => simp
    | some body =>
      cases body with
      | entries => simp [TraitBody.value?]
      | value v => cases v <;> simp [TraitBody.value?, Value.string?]
  unfold pattern? HasPattern
  cases t.verbatim with
  | some raw => simp
  | none => simp [value]

end Trait

/-! ## Single traits -/

/-- The traits that are restrictions. -/
def restrictionIds : List String := ["required", "length", "pattern", "range", "uniqueItems"]

/-- The constraint is one of those that the trait is about. -/
inductive Trait.StandsFor (t : Trait) : Constraint → Prop
  | required : t.id = "required" → t.StandsFor .required
  | minLength {n : Nat} : t.id = "length" → t.HasBound "min" n → t.StandsFor (.minLength n)
  | maxLength {n : Nat} : t.id = "length" → t.HasBound "max" n → t.StandsFor (.maxLength n)
  | pattern {text : String} :
    t.id = "pattern" → t.HasPattern text → t.StandsFor (.pattern text)
  | atLeast {n : Int} : t.id = "range" → t.HasBound "min" n → t.StandsFor (.atLeast n)
  | atMost {n : Int} : t.id = "range" → t.HasBound "max" n → t.StandsFor (.atMost n)
  | uniqueItems : t.id = "uniqueItems" → t.StandsFor .uniqueItems

namespace Constraint

/-- The two bound the same from below and from above. -/
inductive Encloses : Constraint → Constraint → Prop
  | length (n m : Nat) : Encloses (.minLength n) (.maxLength m)
  | range (n m : Int) : Encloses (.atLeast n) (.atMost m)

section Bounds

variable {α : Type} {least most : Option α} {lower upper : α → Constraint} {c : Constraint}

theorem mem_bounds_iff :
    c ∈ (least.map lower).toList ++ (most.map upper).toList ↔
      (∃ n, least = some n ∧ lower n = c) ∨ ∃ n, most = some n ∧ upper n = c := by
  simp only [List.mem_append, Option.mem_toList, Option.map_eq_some_iff]

theorem pairwise_bounds (encloses : ∀ n m, Encloses (lower n) (upper m)) :
    ((least.map lower).toList ++ (most.map upper).toList).Pairwise Encloses := by
  cases least <;> cases most <;> simp [encloses]

end Bounds

/-- A trait is translated into what it stands for. -/
theorem mem_ofTrait_iff {t : Trait} {c : Constraint} : c ∈ ofTrait t ↔ t.StandsFor c := by
  constructor
  · intro member
    unfold ofTrait ofTrait? at member
    split at member <;> rename_i id
    · obtain rfl := List.mem_singleton.mp member
      exact .required id
    · rcases mem_bounds_iff.mp member with ⟨n, found, rfl⟩ | ⟨n, found, rfl⟩
      · exact .minLength id (Trait.length?_eq_some_iff.mp found)
      · exact .maxLength id (Trait.length?_eq_some_iff.mp found)
    · obtain ⟨text, found, rfl⟩ := Option.map_eq_some_iff.mp (Option.mem_toList.mp member)
      exact .pattern id (Trait.pattern?_eq_some_iff.mp found)
    · rcases mem_bounds_iff.mp member with ⟨n, found, rfl⟩ | ⟨n, found, rfl⟩
      · exact .atLeast id (Trait.bound?_eq_some_iff.mp found)
      · exact .atMost id (Trait.bound?_eq_some_iff.mp found)
    · obtain rfl := List.mem_singleton.mp member
      exact .uniqueItems id
    · cases member
  · intro stands
    cases stands with
    | required id | uniqueItems id => simp [ofTrait, ofTrait?, id]
    | minLength id bound | maxLength id bound =>
      simp [ofTrait, ofTrait?, id, Trait.length?_eq_some_iff.mpr bound]
    | pattern id given => simp [ofTrait, ofTrait?, id, Trait.pattern?_eq_some_iff.mpr given]
    | atLeast id bound | atMost id bound =>
      simp [ofTrait, ofTrait?, id, Trait.bound?_eq_some_iff.mpr bound]

/-- A trait stands for at most two constraints, the lower bound before the upper one. -/
theorem pairwise_ofTrait (t : Trait) : (ofTrait t).Pairwise Encloses := by
  unfold ofTrait ofTrait?
  split
  · exact List.pairwise_singleton _ _
  · exact pairwise_bounds .length
  · cases t.pattern? <;> simp
  · exact pairwise_bounds .range
  · exact List.pairwise_singleton _ _
  · exact .nil

/-- The traits that are not translated are those whose ids are no restrictions. -/
theorem ofTrait?_eq_none_iff {t : Trait} : ofTrait? t = none ↔ t.id ∉ restrictionIds := by
  unfold ofTrait?
  split <;> simp_all [restrictionIds]

/-! ## Lists of traits -/

theorem ofTraits_append (traits later : List Trait) :
    ofTraits (traits ++ later) =
      ofTraits traits ++ (ofTraits later).filter fun c => c ∉ ofTraits traits := by
  have known (c : Constraint) : (traits.flatMap ofTrait).elem c = true ↔ c ∈ ofTraits traits := by
    rw [List.elem_iff, (isFirstOccurrences_ofTraits traits).mem_iff]
  have new : (fun c => !(traits.flatMap ofTrait).elem c) =
      fun c => decide (c ∉ ofTraits traits) := by
    funext c
    rw [Bool.eq_iff_iff, decide_eq_true_iff, ← known, Bool.not_eq_true', Bool.not_eq_true]
  change ((traits ++ later).flatMap ofTrait).eraseDups =
    (traits.flatMap ofTrait).eraseDups ++ (later.flatMap ofTrait).eraseDups.filter _
  rw [List.flatMap_append, List.eraseDups_append, List.removeAll, eraseDups_filter, new]

/-- The order of traits changes the order of constraints only. -/
theorem perm_ofTraits {traits others : List Trait} (same : traits.Perm others) :
    (ofTraits traits).Perm (ofTraits others) := by
  have left := isFirstOccurrences_ofTraits traits
  have right := isFirstOccurrences_ofTraits others
  refine (List.perm_ext_iff_of_nodup left.nodup right.nodup).mpr fun c => ?_
  rw [left.mem_iff, right.mem_iff, (same.flatMap_right ofTrait).mem_iff]

/-- The diagnostic about a trait that is no restriction, at the trait. -/
def unknown (path : String) (lines : LineIndex) (t : Trait) : Diagnostic where
  code := .unknownTrait
  message := (Finding.unknownTrait t.id).message
  severity := .info
  sourcePath := path
  location := lines.locate t.span

/-- What is reported about the traits of a list, in their order. -/
theorem map_reports (path : String) (lines : LineIndex) (traits : List Trait) :
    (reports traits).map (.ofReport path lines) =
      (traits.filter fun t => t.id ∉ restrictionIds).map (unknown path lines) := by
  induction traits with
  | nil => rfl
  | cons t rest ih =>
    rw [reports, List.filterMap_cons, report?]
    cases form : ofTrait? t with
    | none =>
      have unlisted : t.id ∉ restrictionIds := ofTrait?_eq_none_iff.mp form
      rw [List.filter_cons_of_pos (by simpa using unlisted), List.map_cons, ← ih]
      rfl
    | some own =>
      have listed : ¬ t.id ∉ restrictionIds := by simp [← ofTrait?_eq_none_iff, form]
      rw [List.filter_cons_of_neg (by simpa using listed), ← ih]
      rfl

end Constraint

/-! ## What lists of traits give -/

/-- A list of traits gives the constraints of each in turn without repetitions, and behind what a
log has, a diagnostic about each trait that is no restriction, unless the log has it by then. So
more traits add what is new, and another order of them gives the same constraints. -/
theorem collectRules_restrictions (path : String) (lines : LineIndex) (traits : List Trait)
    (log : Log) :
    (∃ added,
      (collectRules path lines traits).on log =
        (.ok (Constraint.ofTraits traits), ⟨log.entries ++ added⟩) ∧
      log.insertReports path lines (Constraint.reports traits) = ⟨log.entries ++ added⟩ ∧
      IsFirstOccurrences added
        (((traits.filter fun t => t.id ∉ restrictionIds).map
          (Constraint.unknown path lines)).filter fun d => d ∉ log.entries)) ∧
    IsFirstOccurrences (Constraint.ofTraits traits) (traits.flatMap Constraint.ofTrait) ∧
    (∀ t, (∀ c, c ∈ Constraint.ofTrait t ↔ t.StandsFor c) ∧
      (Constraint.ofTrait t).Pairwise Constraint.Encloses) ∧
    (∀ later, Constraint.ofTraits (traits ++ later) =
      Constraint.ofTraits traits ++
        (Constraint.ofTraits later).filter fun c => c ∉ Constraint.ofTraits traits) ∧
    ∀ others, traits.Perm others →
      (Constraint.ofTraits traits).Perm (Constraint.ofTraits others) := by
  refine ⟨?_, Constraint.isFirstOccurrences_ofTraits traits, ?_, Constraint.ofTraits_append traits,
    fun others => Constraint.perm_ofTraits⟩
  · obtain ⟨reports, ran, known⟩ : Collecting.Mirrors path lines _ _ := mirrors_collectRules traits
    obtain rfl := known _ _ rfl
    have after : log.insertReports path lines (Constraint.reports traits) =
        ⟨log.entries ++ log.fresh path lines (Constraint.reports traits)⟩ :=
      congrArg Log.mk (Log.entries_insertReports log _)
    refine ⟨_, (ran log).trans ?_, after, ?_⟩
    · rw [after]
      rfl
    · rw [Log.fresh, Constraint.map_reports]
      exact isFirstOccurrences_eraseDups _
  · exact fun t => ⟨fun c => Constraint.mem_ofTrait_iff, Constraint.pairwise_ofTrait t⟩

/-- A length with both bounds and a mark that is no restriction, in front of two more traits: the
length again, and one that is required. -/
theorem collectRules_swapped :
    let length : Trait :=
      { id := "length", verbatim := none, span := ⟨0, 23⟩,
        body := some (.entries [("min", .number (.integer 1)), ("max", .number (.integer 9))]) }
    let mark : Trait := { id := "internal", body := none, verbatim := none, span := ⟨24, 33⟩ }
    let required : Trait :=
      { id := "required", body := none, verbatim := none, span := ⟨34, 43⟩ }
    let traits := [length, mark] ++ [length, required]
    let others := [length, required] ++ [length, mark]
    traits.Perm others ∧
      (Constraint.ofTraits traits).Perm (Constraint.ofTraits others) ∧
      Constraint.ofTraits traits = [.minLength 1, .maxLength 9, .required] ∧
      (collectRules "a" (.ofText "") traits).on .empty =
        (.ok [.minLength 1, .maxLength 9, .required],
          ⟨[.located "a" (.ofText "") .unknownTrait ⟨24, 33⟩
            (Finding.unknownTrait "internal").message]⟩) := by
  intro length mark required traits others
  have swapped : traits.Perm others := List.perm_append_comm
  have translated := collectRules_restrictions "a" (.ofText "") traits .empty
  have rules : Constraint.ofTraits traits = [.minLength 1, .maxLength 9, .required] := by
    decide +kernel
  have logged : Log.empty.insertReports "a" (.ofText "") (Constraint.reports traits) =
      ⟨[.located "a" (.ofText "") .unknownTrait ⟨24, 33⟩
        (Finding.unknownTrait "internal").message]⟩ := by
    decide +kernel
  obtain ⟨⟨added, ran, after, -⟩, -, -, -, order⟩ := translated
  rw [rules, ← after, logged] at ran
  exact ⟨swapped, order others swapped, rules, ran⟩

end ServiceIdl
