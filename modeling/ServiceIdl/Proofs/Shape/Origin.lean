import ServiceIdl.Proofs.Shape.Named
import ServiceIdl.Proofs.Syntax.Nesting

/-!
# Where shapes and traits come from

All that an index has comes from the tree of its document: shapes and `apply` statements are
parts of the tree, and traits are what applications in the tree say
(`ShapeIndex.isFrom_ofIdl`).
-/

namespace ServiceIdl

open Outcome (bind_eq_ok_iff)

/-! ## Parts of a tree -/

namespace View

variable {root : Tree} {c d : Category} {v : View c} {child : View d}

theorem occurs_of_optional (occurs : v.tree.Occurs root) (found : v.optional d = some child) :
    child.tree.Occurs root :=
  occurs.child (mem_children_of_optional found)

theorem occurs_of_required (occurs : v.tree.Occurs root) (read : v.required d = .ok child) :
    child.tree.Occurs root :=
  occurs.child (mem_children_of_required read)

theorem occurs_of_mem_many (occurs : v.tree.Occurs root) (member : child ∈ v.many d) :
    child.tree.Occurs root :=
  occurs.child (mem_children_of_mem_many member)

end View

/-- The form of a declaration stands where the declaration does. -/
theorem ShapeDecl.occurs_of_form {root : Tree} {decl : ShapeDecl} {form : ShapeDecl.Form}
    (occurs : decl.tree.Occurs root) (same : ShapeDecl.form decl = form) :
    form.tree.Occurs root := by
  rw [← same, ShapeDecl.tree_form]
  exact occurs

/-! ## Traits -/

namespace Trait

variable {root : Tree} {t : Trait}

/-- The trait is what an application in the tree says. -/
def IsFrom (root : Tree) (t : Trait) : Prop :=
  ∃ application : TraitApplication, application.tree.Occurs root ∧ Trait.ofNode application = .ok t

/-- A trait is where its application is. -/
theorem span_of_ofNode {application : TraitApplication} (read : Trait.ofNode application = .ok t) :
    t.span = application.span := by
  obtain ⟨id, -, read⟩ := bind_eq_ok_iff.mp read
  cases given : TraitApplication.body application with
  | none =>
    rw [given] at read
    cases read
    rfl
  | some body =>
    simp only [given] at read
    cases form : TraitBodyNode.structure? body with
    | some entries =>
      simp only [form] at read
      obtain ⟨_, -, final⟩ := bind_eq_ok_iff.mp read
      cases final
      rfl
    | none =>
      cases single : TraitBodyNode.value? body with
      | none =>
        simp only [form, single] at read
        cases read
        rfl
      | some node =>
        simp only [form, single] at read
        obtain ⟨_, -, read⟩ := bind_eq_ok_iff.mp read
        obtain ⟨_, -, final⟩ := bind_eq_ok_iff.mp read
        cases final
        rfl

/-- The traits of a declaration are applied inside of it. -/
theorem isFrom_of_ofStatements {statements : TraitStatements} {traits : List Trait}
    (occurs : statements.tree.Occurs root) (read : Trait.ofStatements statements = .ok traits) :
    ∀ t ∈ traits, t.IsFrom root := by
  have each : Outcome.Ensures (Trait.ofStatements statements) fun traits =>
      ∀ t ∈ traits, t.IsFrom root :=
    .mapM fun application member t read =>
      ⟨application, View.occurs_of_mem_many occurs member, read⟩
  exact each traits read

end Trait

/-! ## Indexes -/

/-- What the index has is part of the tree or said there. -/
structure ShapeIndex.IsFrom (root : Tree) (index : ShapeIndex) : Prop where
  shapes : ∀ category, ∀ record ∈ index.records category, record.decl.tree.Occurs root
  traits : ∀ id, ∀ t ∈ index.traitsOf id, t.IsFrom root
  applies : ∀ statement ∈ index.applies, statement.tree.Occurs root

namespace ShapeIndex

variable {root : Tree} {index : ShapeIndex}

/-- A shape that is looked up was declared in the tree. -/
theorem IsFrom.lookedUp (origin : index.IsFrom root) {id : String} {record : ShapeRecord}
    (found : index.lookup? id = some record) : record.decl.tree.Occurs root := by
  obtain ⟨category, -, found⟩ := List.exists_of_findSome?_eq_some found
  exact origin.shapes category record (mem_records_of_find? found)

/-- The `apply` statements of an index are those of the document. -/
theorem occurs_of_mem_applies {idl : Idl} (indexed : ShapeIndex.ofIdl idl = .ok index) :
    ∀ statement ∈ index.applies, statement.tree.Occurs idl.tree := by
  obtain ⟨part, namespaceName, readPart, filled⟩ := exists_ofStatements?_of_ofIdl indexed
  have within := View.occurs_of_required .self readPart
  cases written : ShapeSection.statements part with
  | none =>
    rw [written] at filled
    cases filled
    exact List.forall_mem_nil _
  | some statements =>
    rw [written] at filled
    obtain ⟨_, -, final⟩ := bind_eq_ok_iff.mp filled
    cases final
    intro statement member
    exact View.occurs_of_mem_many (View.occurs_of_optional within written) member

/-- The statements of a document stand in its tree. -/
theorem occurs_of_hasShapes {idl : Idl} {statements : List ShapeStatement}
    (shapes : idl.HasShapes statements) {statement : ShapeStatement}
    (member : statement ∈ statements) : statement.tree.Occurs idl.tree := by
  obtain ⟨part, readPart, rfl⟩ := shapes
  have within := View.occurs_of_required .self readPart
  cases written : ShapeSection.statements part with
  | none =>
    rw [written] at member
    cases member
  | some section_ =>
    rw [written] at member
    exact View.occurs_of_mem_many (View.occurs_of_optional within written) member

/-- The index of a document has its shapes and traits from the tree. -/
theorem isFrom_ofIdl {idl : Idl} (indexed : ShapeIndex.ofIdl idl = .ok index) :
    index.IsFrom idl.tree := by
  obtain ⟨statements, shapes⟩ := exists_hasShapes indexed
  have keeps := keepsLast_ofIdl indexed shapes
  refine ⟨?_, ?_, occurs_of_mem_applies indexed⟩
  · intro category record member
    obtain ⟨name, inside⟩ := mem_records_iff.mp member
    obtain ⟨statement, present, read⟩ := keeps.declared _ inside
    exact View.occurs_of_required (occurs_of_hasShapes shapes present) read
  · intro id t member
    unfold traitsOf at member
    cases found : (index.localName? id).bind index.traits.get? with
    | none =>
      rw [found] at member
      cases member
    | some traits =>
      rw [found] at member
      obtain ⟨name, -, stored⟩ := Option.bind_eq_some_iff.mp found
      have last := (keeps.traits name traits).mpr stored
      obtain ⟨earlier, statement, later, rfl, declares, -⟩ := First.exists_append_of_reverse last
      obtain ⟨_, _, part, -, -, -, readPart, readTraits⟩ := declares
      have occurs : statement.tree.Occurs idl.tree := occurs_of_hasShapes shapes (by simp)
      have within := View.occurs_of_required occurs readPart
      exact Trait.isFrom_of_ofStatements within readTraits t member

end ShapeIndex

end ServiceIdl
