import ServiceIdl.Proofs.Shape.Arrival

/-!
# What is declared with which word

Every declaration begins with a word, and the word decides the category of the shape:
`ShapeCategory.keywords` lists the words of each category, and no word is in two lists. So
what an index has of a category can be told from the words and names at the head of the
statements (`ShapeStatement.head`) without looking at categories.
-/

namespace ServiceIdl

open Outcome (bind_eq_ok_iff)

/-- The words that declare the shapes of a category. -/
def ShapeCategory.keywords : ShapeCategory → List String
  | .simple => Rule.simpleTypeWords
  | .enum => ["enum", "intEnum"]
  | .list => ["list"]
  | .map => ["map"]
  | .union => ["union"]
  | .structureShape => ["structure"]
  | .service => ["service"]
  | .resource => ["resource"]
  | .operation => ["operation"]

/-- No word declares shapes of two categories. -/
theorem ShapeCategory.eq_of_mem_keywords {category other : ShapeCategory} {keyword : String}
    (left : keyword ∈ category.keywords) (right : keyword ∈ other.keywords) :
    category = other := by
  have checked : ∀ c ∈ ShapeCategory.all, ∀ d ∈ ShapeCategory.all, ∀ word ∈ c.keywords,
      word ∈ d.keywords → c = d := by
    decide +kernel
  exact checked _ (mem_all _) _ (mem_all _) keyword left right

/-- The word that a declaration begins with. -/
def ShapeDecl.keyword (decl : ShapeDecl) : Except Defect String :=
  match ShapeDecl.form decl with
  | .simple shape => (SimpleShape.typeName shape).map View.text
  | .enum shape => (EnumShape.typeName shape).map View.text
  | .aggregate shape => (AggregateShape.typeName shape).map View.text
  | .entity shape => (EntityShape.typeName shape).map View.text
  | .operation _ => .ok "operation"

/-- The word that the declaration of a statement begins with, and the name that it
declares. -/
def ShapeStatement.head (statement : ShapeStatement) : Except Defect (String × String) := do
  let decl ← ShapeStatement.shape statement
  let keyword ← ShapeDecl.keyword decl
  let name ← ShapeDecl.name decl
  return (keyword, name.text)

/-- The names that are declared with one of the words, in the order of the declarations. -/
def declaredNames (keywords : List String) (heads : List (String × String)) : List String :=
  (heads.filter fun head => head.1 ∈ keywords).map Prod.snd

/-! ## Words and categories -/

/-- A part has the word that its category demands, and it is one of the vocabulary. -/
theorem View.exists_word {text : List Char} {c : Category} {v : View c}
    (part : v.tree.IsPart text) (d : Category) (guaranteed : c.guarantees d = true) (name : Rule)
    (kinds : d.kinds = [.ofRule name]) (some : name.vocabulary ≠ []) :
    ∃ child, v.required d = .ok child ∧ child.text ∈ name.vocabulary := by
  obtain ⟨child, read, inside⟩ := View.gives_required part guaranteed
  obtain ⟨_, form⟩ := View.exists_form inside name kinds
  exact ⟨child, read, form.mem_vocabulary some⟩

/-- A declaration begins with a word of its category. -/
theorem ShapeDecl.exists_keyword {text : List Char} {decl : ShapeDecl} {category : ShapeCategory}
    (part : decl.tree.IsPart text) (filed : ShapeCategory.ofDecl decl = .ok category) :
    ∃ keyword ∈ category.keywords, ShapeDecl.keyword decl = .ok keyword := by
  unfold ShapeCategory.ofDecl at filed
  unfold ShapeDecl.keyword
  cases form : ShapeDecl.form decl with
  | simple shape =>
    obtain ⟨name, read, word⟩ := View.exists_word (ShapeDecl.isPart_of_form part form)
      .simpleTypeName (by decide) .simpleTypeName rfl (by decide)
    rw [form] at filed
    cases filed
    simp only [SimpleShape.typeName, read]
    exact ⟨name.text, word, rfl⟩
  | enum shape =>
    obtain ⟨name, read, word⟩ := View.exists_word (ShapeDecl.isPart_of_form part form)
      .enumTypeName (by decide) .enumTypeName rfl (by decide)
    rw [form] at filed
    cases filed
    simp only [EnumShape.typeName, read]
    exact ⟨name.text, word, rfl⟩
  | aggregate shape =>
    obtain ⟨name, read, word⟩ := View.exists_word (ShapeDecl.isPart_of_form part form)
      .aggregateTypeName (by decide) .aggregateTypeName rfl (by decide)
    have own : ∀ word ∈ Rule.aggregateTypeName.vocabulary,
        word ∈ (ShapeCategory.ofAggregateName word).keywords := by
      decide
    rw [form] at filed
    simp only [AggregateShape.typeName, read] at filed ⊢
    cases filed
    exact ⟨name.text, own _ word, rfl⟩
  | entity shape =>
    obtain ⟨name, read, word⟩ := View.exists_word (ShapeDecl.isPart_of_form part form)
      .entityTypeName (by decide) .entityTypeName rfl (by decide)
    have own : ∀ word ∈ Rule.entityTypeName.vocabulary,
        word ∈ (ShapeCategory.ofEntityName word).keywords := by
      decide
    rw [form] at filed
    simp only [EntityShape.typeName, read] at filed ⊢
    cases filed
    exact ⟨name.text, own _ word, rfl⟩
  | operation shape =>
    rw [form] at filed
    cases filed
    exact ⟨_, List.mem_singleton_self _, rfl⟩

/-- The head of a statement has a word of the category of its shape, and its name. -/
theorem ShapeStatement.DeclaresShape.exists_head {text : List Char} {statement : ShapeStatement}
    {record : ShapeRecord} {traits : List Trait}
    (declares : ShapeStatement.DeclaresShape statement record traits)
    (part : statement.tree.IsPart text) :
    ∃ keyword ∈ record.category.keywords,
      ShapeStatement.head statement = .ok (keyword, record.name) := by
  obtain ⟨decl, identifier, _, readDecl, readName, named, -⟩ := declares.traits
  cases declares.shape.symm.trans readDecl
  obtain ⟨keyword, word, read⟩ := ShapeDecl.exists_keyword
    (View.isPart_of_required part declares.shape) declares.category
  refine ⟨keyword, word, ?_⟩
  unfold head
  rw [declares.shape]
  simp only [Outcome.ok_bind, read, readName, ← named]
  rfl

/-- The shape statements of a document are parts of it. -/
theorem Idl.HasShapes.isPart {text : List Char} {idl : Idl} {statements : List ShapeStatement}
    (shapes : idl.HasShapes statements) (part : idl.tree.IsPart text) :
    ∀ statement ∈ statements, statement.tree.IsPart text := by
  obtain ⟨shapeSection, read, rfl⟩ := shapes
  have inside := View.isPart_of_required part read
  cases found : ShapeSection.statements shapeSection with
  | none => exact List.forall_mem_nil _
  | some listed =>
    have insideListed := View.isPart_of_optional inside found
    exact fun statement member => View.isPart_of_mem_many insideListed member

/-! ## Heads and keys -/

section Heads

variable {text : List Char} {statements : List ShapeStatement}

/-- The names with keys of a category are those declared with its words. -/
theorem exists_heads {keys : List (ShapeCategory × String)}
    (each : List.Forall₂ ShapeStatement.HasKey statements keys)
    (parts : ∀ statement ∈ statements, statement.tree.IsPart text) :
    ∃ heads, List.Forall₂ (fun statement head => ShapeStatement.head statement = .ok head)
        statements heads ∧
      (∀ head ∈ heads, ∃ category, head.1 ∈ ShapeCategory.keywords category) ∧
      ∀ category, keys.filterMap (ShapeIndex.nameIn category) =
        declaredNames category.keywords heads := by
  induction each with
  | nil => exact ⟨[], .nil, List.forall_mem_nil _, fun _ => rfl⟩
  | @cons statement key statements keys has each ih =>
    obtain ⟨heads, read, words, names⟩ :=
      ih fun statement member => parts statement (List.mem_cons_of_mem _ member)
    obtain ⟨record, rfl, traits, declares⟩ := has
    obtain ⟨keyword, word, head⟩ := declares.exists_head (parts statement List.mem_cons_self)
    refine ⟨(keyword, record.name) :: heads, .cons head read, ?_, fun category => ?_⟩
    · exact List.forall_mem_cons.mpr ⟨⟨record.category, word⟩, words⟩
    · rw [List.filterMap_cons, names, declaredNames, declaredNames, List.filter_cons,
        ShapeIndex.nameIn]
      by_cases filed : record.category = category
      · rw [← filed]
        simp [word]
      · have other : keyword ∉ category.keywords := by
          intro same
          exact filed (ShapeCategory.eq_of_mem_keywords word same)
        simp [filed, other]

/-- The last of the statements that declare the name with one of the words has this
declaration. -/
def IsLastDeclared (statements : List ShapeStatement) (keywords : List String) (name : String)
    (decl : ShapeDecl) : Prop :=
  ∃ earlier statement later, statements = earlier ++ statement :: later ∧
    ShapeStatement.shape statement = .ok decl ∧
    (∃ keyword ∈ keywords, ShapeStatement.head statement = .ok (keyword, name)) ∧
    ∀ other ∈ later, ∀ keyword ∈ keywords, ShapeStatement.head other ≠ .ok (keyword, name)

/-- The last declaration of a key, in terms of the keyword and the name that are written. -/
theorem HasLastShape.isLastDeclared {category : ShapeCategory} {name : String}
    {record : ShapeRecord} (last : HasLastShape statements (category, name) record)
    (parts : ∀ statement ∈ statements, statement.tree.IsPart text)
    (each : ∀ statement ∈ statements, ∃ record traits,
      ShapeStatement.DeclaresShape statement record traits) :
    IsLastDeclared statements category.keywords name record.decl := by
  obtain ⟨earlier, statement, later, rfl, ⟨key, traits, declares⟩, behind⟩ :=
    First.exists_append_of_reverse last
  obtain ⟨rfl, rfl⟩ := Prod.mk.inj key
  obtain ⟨keyword, word, head⟩ := declares.exists_head (parts statement (by simp))
  refine ⟨earlier, statement, later, rfl, declares.shape, ⟨keyword, word, head⟩, ?_⟩
  intro other member keyword' word' head'
  have present : other ∈ earlier ++ statement :: later := by simp [member]
  obtain ⟨record', traits', declares'⟩ := each other present
  obtain ⟨own, ownWord, ownHead⟩ := declares'.exists_head (parts other present)
  obtain ⟨rfl, same⟩ := Prod.mk.inj (Except.ok.inj (ownHead.symm.trans head'))
  have filed := ShapeCategory.eq_of_mem_keywords ownWord word'
  exact behind other member record' ⟨Prod.ext filed same, traits', declares'⟩

end Heads

end ServiceIdl
