import ServiceIdl.Proofs.Shape.Entries
import ServiceIdl.Resolve.Service

/-!
# What `http` traits bind

The last `http` trait of an operation binds it if the body has entries with a text as the last
`method`, a text as the last `uri` and, if there is a `code`, an integer of 16 bits as the last one
(`HttpBinding.ofTraits?_eq_some_iff`). The methods that bindings give are grouped by path: each
path has its methods in their order, and the paths stand in the order in which they first occur
(`HttpPaths.Groups.addAll`).
-/

namespace ServiceIdl

theorem Value.string?_eq_some_iff {value : Value} {text : String} :
    value.string? = some text ↔ value = .string text := by
  cases value <;> simp [string?]

/-- A key of a body with entries has the value of the last entry with it. -/
theorem Trait.field?_eq_some_iff {t : Trait} {entries : List (String × Value)}
    (body : t.body = some (.entries entries)) {key : String} {value : Value} :
    t.field? key = some value ↔ HasLastEntry entries key value := by
  unfold field?
  rw [body, Option.bind_some, TraitBody.field?_eq_some_iff_hasLastEntry rfl]

/-- A field is missing exactly when no entry has its key. -/
theorem Trait.field?_eq_none_iff {t : Trait} {entries : List (String × Value)}
    (body : t.body = some (.entries entries)) {key : String} :
    t.field? key = none ↔ ∀ entry ∈ entries, entry.1 ≠ key := by
  unfold field?
  rw [body, Option.bind_some, TraitBody.field?_eq_none_iff rfl]

/-! ## Bindings -/

/-- The code that the entries give, if they give one. -/
inductive HasCode (entries : List (String × Value)) : Option Nat → Prop
  | absent : (∀ entry ∈ entries, entry.1 ≠ "code") → HasCode entries none
  | given {n : Nat} : n < 65536 → HasLastEntry entries "code" (.number (.integer n)) →
    HasCode entries (some n)

namespace HttpBinding

/-- The last `http` trait of these binds what has them: its body has entries, with texts as the
last `method` and the last `uri`, and either no `code` or a success code as the last one. -/
def IsGivenBy (traits : List Trait) (binding : HttpBinding) : Prop :=
  ∃ t entries, IsLast (fun t => t.id = "http") traits t ∧ t.body = some (.entries entries) ∧
    HasLastEntry entries "method" (.string binding.method) ∧
    HasLastEntry entries "uri" (.string binding.uri) ∧ HasCode entries binding.code ∧
    binding.span = t.span

/-- A code is an integer of sixteen bits without a sign. -/
theorem code?_eq_some_iff {value : Value} {n : Nat} :
    code? value = some n ↔ value = .number (.integer n) ∧ n < 65536 := by
  cases value with
  | number number =>
    cases number with
    | float => simp [code?, Value.number?, Numeric.integer?]
    | integer i =>
      simp only [code?, Value.number?, Numeric.integer?, Option.bind_some, Option.map_eq_some_iff,
        Option.filter_eq_some_iff, Option.some.injEq, decide_eq_true_eq, Value.number.injEq,
        Numeric.integer.injEq]
      constructor
      · rintro ⟨_, ⟨rfl, low, high⟩, rfl⟩
        omega
      · rintro ⟨rfl, small⟩
        exact ⟨n, ⟨rfl, by omega, by omega⟩, rfl⟩
  | string | shapeId | bool | null | array | object => simp [code?, Value.number?]

section Trait

variable {t : Trait} {entries : List (String × Value)} (body : t.body = some (.entries entries))

include body

theorem text_eq_some_iff {key text : String} :
    (t.field? key).bind Value.string? = some text ↔ HasLastEntry entries key (.string text) := by
  simp only [Option.bind_eq_some_iff, Value.string?_eq_some_iff, exists_eq_right,
    Trait.field?_eq_some_iff body]

/-- The code of a trait is what its entries give; a last `code` of another kind is none. -/
theorem hasCode_iff {code : Option Nat} :
    HasCode entries code ↔
      (code = none ∧ t.field? "code" = none) ∨
        ∃ value n, t.field? "code" = some value ∧ code? value = some n ∧ code = some n := by
  constructor
  · intro has
    cases has with
    | absent none => exact .inl ⟨rfl, (Trait.field?_eq_none_iff body).mpr none⟩
    | @given n small last =>
      exact .inr ⟨_, n, (Trait.field?_eq_some_iff body).mpr last,
        code?_eq_some_iff.mpr ⟨rfl, small⟩, rfl⟩
  · rintro (⟨rfl, none⟩ | ⟨value, n, found, read, rfl⟩)
    · exact .absent ((Trait.field?_eq_none_iff body).mp none)
    · obtain ⟨rfl, small⟩ := code?_eq_some_iff.mp read
      exact .given small ((Trait.field?_eq_some_iff body).mp found)

end Trait

/-- A binding in terms of the entries of its trait, without any reader. -/
theorem ofTrait?_eq_some_iff {t : Trait} {binding : HttpBinding} :
    ofTrait? t = some binding ↔
      ∃ entries, t.body = some (.entries entries) ∧
        HasLastEntry entries "method" (.string binding.method) ∧
        HasLastEntry entries "uri" (.string binding.uri) ∧ HasCode entries binding.code ∧
        binding.span = t.span := by
  unfold ofTrait?
  cases body : t.body with
  | none => simp
  | some given =>
    cases given with
    | value => simp
    | entries entries =>
      simp only [Option.some.injEq, TraitBody.entries.injEq, exists_eq_left',
        ← text_eq_some_iff body, hasCode_iff body]
      constructor
      · intro bound
        obtain ⟨method, readMethod, bound⟩ := Option.bind_eq_some_iff.mp bound
        obtain ⟨uri, readUri, bound⟩ := Option.bind_eq_some_iff.mp bound
        cases found : t.field? "code" with
        | none =>
          rw [found] at bound
          cases bound
          exact ⟨readMethod, readUri, .inl ⟨rfl, rfl⟩, rfl⟩
        | some value =>
          rw [found] at bound
          obtain ⟨code, readCode, final⟩ := Option.bind_eq_some_iff.mp bound
          obtain ⟨n, read, rfl⟩ := Option.map_eq_some_iff.mp readCode
          cases final
          exact ⟨readMethod, readUri, .inr ⟨value, n, rfl, read, rfl⟩, rfl⟩
      · rintro ⟨readMethod, readUri, given, place⟩
        obtain ⟨method, uri, code, span⟩ := binding
        cases place
        rcases given with ⟨rfl, none⟩ | ⟨value, n, found, read, rfl⟩
        · simp [readMethod, readUri, none]
        · simp [readMethod, readUri, found, read]

/-- What binds an operation is its last `http` trait. -/
theorem ofTraits?_eq_some_iff {traits : List Trait} {binding : HttpBinding} :
    ofTraits? traits = some binding ↔ binding.IsGivenBy traits := by
  unfold ofTraits? IsGivenBy Trait.find?
  rw [Option.bind_eq_some_iff]
  simp only [find?_reverse_eq_some_iff, ofTrait?_eq_some_iff, exists_and_left]

end HttpBinding

/-! ## Methods -/

/-- The literals of the verbs that are known. -/
def HttpVerb.literals : List String :=
  ["GET", "POST", "PUT", "PATCH", "DELETE", "HEAD", "OPTIONS", "TRACE"]

/-- The verbs that are known are those with a literal. -/
theorem HttpVerb.ofLiteral?_eq_none_iff {literal : String} :
    HttpVerb.ofLiteral? literal = none ↔ literal ∉ HttpVerb.literals := by
  unfold HttpVerb.ofLiteral?
  split <;> simp_all [HttpVerb.literals]

/-- How a document writes the verb. -/
def HttpVerb.literal : HttpVerb → String
  | .get => "GET"
  | .post => "POST"
  | .put => "PUT"
  | .patch => "PATCH"
  | .delete => "DELETE"
  | .head => "HEAD"
  | .options => "OPTIONS"
  | .trace => "TRACE"

theorem HttpVerb.eq_literal_of_ofLiteral? {literal : String} {verb : HttpVerb}
    (found : HttpVerb.ofLiteral? literal = some verb) : literal = verb.literal := by
  unfold HttpVerb.ofLiteral? at found
  split at found <;> cases found <;> rfl

/-- The method that a binding makes of an operation. -/
structure HttpMethod.IsBoundBy (lines : LineIndex) (defaultCode : Nat) (operation : String)
    (binding : HttpBinding) (m : HttpMethod) : Prop where
  name : m.name = operation
  location : m.location = lines.locate binding.span
  code : m.successCode = binding.code.getD defaultCode
  /-- A literal that names no verb counts as GET. -/
  verb : m.verb.literal = binding.method ∨ binding.method ∉ HttpVerb.literals ∧ m.verb = .get

/-- The method that the table of paths gets for a binding. -/
def HttpMethod.ofBinding (lines : LineIndex) (defaultCode : Nat) (operation : String)
    (binding : HttpBinding) : HttpMethod :=
  { verb := binding.verb
    successCode := binding.code.getD defaultCode
    name := operation
    location := lines.locate binding.span }

/-- The method of a binding has the verb, the code and the place the binding gives it. -/
theorem HttpMethod.isBoundBy_ofBinding (lines : LineIndex) (defaultCode : Nat)
    (operation : String) (binding : HttpBinding) :
    HttpMethod.IsBoundBy lines defaultCode operation binding
      (.ofBinding lines defaultCode operation binding) := by
  refine ⟨rfl, rfl, rfl, ?_⟩
  change binding.verb.literal = _ ∨ _ ∧ binding.verb = _
  unfold HttpBinding.verb
  cases found : HttpVerb.ofLiteral? binding.method with
  | none => exact .inr ⟨HttpVerb.ofLiteral?_eq_none_iff.mp found, rfl⟩
  | some verb => exact .inl (HttpVerb.eq_literal_of_ofLiteral? found).symm

/-! ## Grouping -/

/-- The paths group these methods by the paths that they are added at: each path stands once, in
the order in which the paths first occur, with its methods in their order. -/
structure HttpPath.Group (added : List (String × HttpMethod)) (paths : List HttpPath) : Prop where
  order : IsFirstOccurrences (paths.map HttpPath.path) (added.map Prod.fst)
  methods : ∀ p ∈ paths, p.methods = (added.filter (·.1 = p.path)).map Prod.snd
  nonempty : ∀ p ∈ paths, p.methods ≠ []

namespace HttpPaths

variable {added : List (String × HttpMethod)} {paths : HttpPaths}

/-- The table has the methods that were added to it under their paths. -/
structure Groups (added : List (String × HttpMethod)) (paths : HttpPaths) : Prop where
  keys : paths.keys = (added.map Prod.fst).eraseDups
  methods : ∀ path, (paths.get? path).getD [] = (added.filter (·.1 = path)).map Prod.snd

theorem Groups.empty : Groups [] Table.empty := ⟨rfl, fun _ => rfl⟩

/-- One more binding joins the methods of its own address and leaves the others alone. -/
theorem Groups.add (groups : paths.Groups added) (lines : LineIndex) (code : Nat)
    (operation : String) (binding : HttpBinding) :
    (paths.add lines code operation binding).Groups
      (added ++ [(binding.uri, .ofBinding lines code operation binding)]) := by
  change Groups _ (paths.alter binding.uri fun present =>
    present.getD [] ++ [HttpMethod.ofBinding lines code operation binding])
  constructor
  · rw [Table.keys_alter, List.map_append, List.map_singleton, eraseDups_concat, groups.keys]
    simp only [List.mem_eraseDups]
  · intro path
    rw [List.filter_append, List.map_append, ← groups.methods path]
    by_cases same : path = binding.uri
    · subst same
      rw [Table.get?_alter_self, Option.getD_some, List.filter_cons_of_pos (by simp),
        List.filter_nil, List.map_singleton]
    · rw [Table.get?_alter_of_ne same, List.filter_cons_of_neg (by simpa using Ne.symm same),
        List.filter_nil, List.map_nil, List.append_nil]

/-- All the bindings of a service, by induction on the list with the paths so far. -/
theorem Groups.addAll (groups : paths.Groups added) (lines : LineIndex) (code : Nat)
    (bindings : List (String × HttpBinding)) :
    Groups (added ++ bindings.map fun (operation, binding) =>
        (binding.uri, .ofBinding lines code operation binding))
      (bindings.foldl (fun paths (operation, binding) => paths.add lines code operation binding)
        paths) := by
  induction bindings generalizing added paths with
  | nil =>
    rw [List.map_nil, List.append_nil]
    exact groups
  | cons bound rest ih =>
    rw [List.foldl_cons, List.map_cons, ← List.singleton_append, ← List.append_assoc]
    exact ih (groups.add lines code bound.1 bound.2)

theorem Groups.toList (groups : paths.Groups added) : HttpPath.Group added paths.toList := by
  have names : paths.toList.map HttpPath.path = (added.map Prod.fst).eraseDups := by
    rw [← groups.keys, HttpPaths.toList, List.map_map]
    rfl
  have order : IsFirstOccurrences (paths.toList.map HttpPath.path) (added.map Prod.fst) := by
    rw [names]
    exact isFirstOccurrences_eraseDups _
  have distinct : paths.keys.Nodup := by
    rw [groups.keys, ← names]
    exact order.nodup
  have methods : ∀ p ∈ paths.toList,
      p.methods = (added.filter (·.1 = p.path)).map Prod.snd := by
    intro p member
    obtain ⟨⟨path, methods⟩, inside, rfl⟩ := List.mem_map.mp member
    rw [← groups.methods path, (Table.get?_eq_some_iff distinct).mpr inside, Option.getD_some]
  refine ⟨order, methods, ?_⟩
  -- A path is there because a method was added at it.
  intro p member
  obtain ⟨occurrence, isIn, same⟩ :=
    List.mem_map.mp ((order.mem_iff p.path).mp (List.mem_map_of_mem member))
  rw [methods p member]
  exact List.ne_nil_of_mem
    (List.mem_map_of_mem (List.mem_filter.mpr ⟨isIn, decide_eq_true same⟩))

end HttpPaths

end ServiceIdl
