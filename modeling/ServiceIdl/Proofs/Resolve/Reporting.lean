import Mathlib.Data.List.Perm.Basic
import ServiceIdl.Proofs.Outcome
import ServiceIdl.Resolve.Reporting

/-!
# Lists of computations with reports

A list of computations succeeds if each of them does, and what it gives and reports comes
row by row (`Reporting.mapM_eq_ok_iff`). So what is known of each computation is known of the
list (`Reporting.forall₂_of_mapM_eq_ok`), and it does not matter in which order the list is
taken, but for the order of the rows (`Reporting.perm_of_mapM`).
-/

namespace ServiceIdl.Reporting

variable {α β : Type} {f : α → Reporting β} {as other : List α} {bs : List β}
  {reports : List Report}

/-- What the computations of a list give and report is what each of them does, in their
order. -/
theorem mapM_eq_ok_iff :
    as.mapM f = .ok (bs, reports) ↔
      ∃ rows : List (β × List Report), List.Forall₂ (fun a row => f a = .ok row) as rows ∧
        bs = rows.map Prod.fst ∧ reports = rows.flatMap Prod.snd := by
  induction as generalizing bs reports with
  | nil =>
    constructor
    · intro success
      cases success
      exact ⟨[], .nil, rfl, rfl⟩
    · rintro ⟨rows, each, rfl, rfl⟩
      cases each
      rfl
  | cons a as ih =>
    rw [List.mapM_cons, bind_eq_ok_iff]
    constructor
    · rintro ⟨b, own, rest, head, success, rfl⟩
      obtain ⟨bs', others, last, tail, final, rfl⟩ := bind_eq_ok_iff.mp success
      obtain ⟨rows, each, rfl, rfl⟩ := ih.mp tail
      cases final
      exact ⟨(b, own) :: rows, .cons head each, rfl, by simp⟩
    · rintro ⟨rows, each, rfl, rfl⟩
      cases each with
      | @cons _ row _ rows head each =>
        have tail := ih.mpr ⟨rows, each, rfl, rfl⟩
        refine ⟨row.1, row.2, rows.flatMap Prod.snd, head, ?_, rfl⟩
        exact bind_eq_ok_iff.mpr ⟨_, _, [], tail, rfl, by simp⟩

/-- What is known of each computation of a list is known of what the list gives. -/
theorem forall₂_of_mapM_eq_ok {holds : α → β → Prop}
    (each : ∀ a ∈ as, ∀ b own, f a = .ok (b, own) → holds a b)
    (success : as.mapM f = .ok (bs, reports)) : List.Forall₂ holds as bs := by
  obtain ⟨rows, computed, rfl, -⟩ := mapM_eq_ok_iff.mp success
  clear success
  induction computed with
  | nil => exact .nil
  | @cons a row as rows head _ ih =>
    refine .cons (each a List.mem_cons_self row.1 row.2 head) (ih ?_)
    exact fun a' later => each a' (List.mem_cons_of_mem a later)

/-- What the computations of a list give and report is what each of them does. -/
theorem mapM_eq_ok (success : as.mapM f = .ok (bs, reports)) :
    (∀ a ∈ as, ∃ b own, f a = .ok (b, own) ∧ b ∈ bs ∧ ∀ report ∈ own, report ∈ reports) ∧
      (∀ b ∈ bs, ∃ a ∈ as, ∃ own, f a = .ok (b, own)) ∧
      ∀ report ∈ reports, ∃ a ∈ as, ∃ b own, f a = .ok (b, own) ∧ report ∈ own := by
  obtain ⟨rows, each, rfl, rfl⟩ := mapM_eq_ok_iff.mp success
  refine ⟨?_, ?_, ?_⟩
  · intro a member
    obtain ⟨row, inside, computed⟩ := exists_mem_of_forall₂ each member
    exact ⟨row.1, row.2, computed, List.mem_map_of_mem inside,
      fun report own => List.mem_flatMap.mpr ⟨row, inside, own⟩⟩
  · intro b member
    obtain ⟨row, inside, rfl⟩ := List.mem_map.mp member
    obtain ⟨a, present, computed⟩ := exists_mem_of_forall₂ each.flip inside
    exact ⟨a, present, row.2, computed⟩
  · intro report member
    obtain ⟨row, inside, own⟩ := List.mem_flatMap.mp member
    obtain ⟨a, present, computed⟩ := exists_mem_of_forall₂ each.flip inside
    exact ⟨a, present, row.1, row.2, computed, own⟩

/-- In another order, the computations give and report the same in another order. -/
theorem perm_of_mapM (order : as.Perm other) (success : as.mapM f = .ok (bs, reports)) :
    ∃ cs reports', other.mapM f = .ok (cs, reports') ∧ bs.Perm cs ∧ reports.Perm reports' := by
  obtain ⟨rows, each, rfl, rfl⟩ := mapM_eq_ok_iff.mp success
  obtain ⟨rows', each', order'⟩ := List.perm_comp_forall₂ order.symm each
  exact ⟨_, _, mapM_eq_ok_iff.mpr ⟨rows', each', rfl, rfl⟩, (order'.map _).symm,
    (order'.flatMap_right _).symm⟩

end ServiceIdl.Reporting
