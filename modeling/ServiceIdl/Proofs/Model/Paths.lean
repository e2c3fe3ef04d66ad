import ServiceIdl.Model.Http

/-!
# Methods of paths

A binding adds one method to the table of paths, so what holds of the methods that bindings
give holds of all methods in the table (`HttpPaths.All.addAll`).
-/

namespace ServiceIdl

/-- A change that keeps a property of values keeps it for all entries of a table. -/
theorem Table.forall_entries_alter {κ α : Type} [DecidableEq κ] {P : α → Prop} {table : Table κ α}
    {key : κ} {change : Option α → α} (old : ∀ entry ∈ table.entries, P entry.2)
    (changed : ∀ present, (∀ a, present = some a → P a) → P (change present)) :
    ∀ entry ∈ (table.alter key change).entries, P entry.2 := by
  rcases table with ⟨entries⟩
  change ∀ entry ∈ alterEntries key change entries, P entry.2
  induction entries with
  | nil => exact List.forall_mem_singleton.mpr (changed none (by simp))
  | cons head rest ih =>
    rcases head with ⟨k, a⟩
    obtain ⟨front, behind⟩ := List.forall_mem_cons.mp old
    unfold alterEntries
    split
    · refine List.forall_mem_cons.mpr ⟨changed (some a) ?_, behind⟩
      intro b same
      cases same
      exact front
    · exact List.forall_mem_cons.mpr ⟨front, ih behind⟩

namespace HttpPaths

variable {P : HttpMethod → Prop} {paths : HttpPaths} {lines : LineIndex} {code : Nat}

/-- All methods in the table are of this kind. -/
def All (P : HttpMethod → Prop) (paths : HttpPaths) : Prop :=
  ∀ entry ∈ paths.entries, ∀ m ∈ entry.2, P m

theorem All.empty : All P Table.empty := List.forall_mem_nil _

/-- A property of methods survives an added binding that has it. -/
theorem All.add (all : paths.All P) {operation : String} {binding : HttpBinding}
    (made : P ⟨binding.verb, binding.code.getD code, operation, lines.locate binding.span⟩) :
    (paths.add lines code operation binding).All P := by
  refine Table.forall_entries_alter
    (P := fun methods : List HttpMethod => ∀ m ∈ methods, P m) all ?_
  intro present known
  refine List.forall_mem_append.mpr ⟨?_, List.forall_mem_singleton.mpr made⟩
  cases present with
  | none => exact List.forall_mem_nil _
  | some methods => exact known methods rfl

theorem All.addAll {bindings : List (String × HttpBinding)} (all : paths.All P)
    (made : ∀ bound ∈ bindings,
      P ⟨bound.2.verb, bound.2.code.getD code, bound.1, lines.locate bound.2.span⟩) :
    All P (bindings.foldl (fun paths (operation, binding) => paths.add lines code operation binding)
      paths) := by
  induction bindings generalizing paths with
  | nil => exact all
  | cons bound rest ih =>
    obtain ⟨front, behind⟩ := List.forall_mem_cons.mp made
    exact ih (all.add front) behind

theorem All.toList (all : paths.All P) : ∀ p ∈ paths.toList, ∀ m ∈ p.methods, P m := by
  intro p member
  obtain ⟨entry, present, rfl⟩ := List.mem_map.mp member
  exact all entry present

end HttpPaths

end ServiceIdl
