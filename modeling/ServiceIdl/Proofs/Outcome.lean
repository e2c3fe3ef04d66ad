import ServiceIdl.Proofs.Lists

/-!
# Steps that can fail

When a sequence of fallible steps succeeds, said about each of its parts. Three views are
kept apart: `bind_eq_ok_iff` and its kin take a success apart, `Gives` puts one together, with
what is known about the value, and `Ensures` says what is known about the value if there
is one.
-/

namespace ServiceIdl.Outcome

variable {ε α β : Type}

/-- A sequence succeeds if both of its steps do. -/
theorem bind_eq_ok_iff {first : Except ε α} {next : α → Except ε β} {b : β} :
    first >>= next = .ok b ↔ ∃ a, first = .ok a ∧ next a = .ok b := by
  cases first with
  | error e =>
    constructor
    · intro same
      cases same
    · intro ⟨a, same, _⟩
      cases same
  | ok a =>
    constructor
    · intro same
      exact ⟨a, rfl, same⟩
    · intro ⟨a', same, rest⟩
      cases same
      exact rest

theorem exists_ok_of_isOk {read : Except ε α} (success : read.isOk = true) :
    ∃ a, read = .ok a := by
  cases read with
  | error e => cases success
  | ok a => exact ⟨a, rfl⟩

theorem eq_ok_of_toOption {read : Except ε α} {a : α} (some : read.toOption = some a) :
    read = .ok a := by
  cases read with
  | error e => cases some
  | ok a =>
    cases some
    rfl

theorem ok_bind (a : α) (next : α → Except ε β) : Except.ok a >>= next = next a := rfl

/-- A list gives the values of its elements, in their order. -/
theorem mapM_eq_ok_iff {f : α → Except ε β} {as : List α} {bs : List β} :
    as.mapM f = .ok bs ↔ List.Forall₂ (fun a b => f a = .ok b) as bs := by
  constructor
  · intro success
    induction as generalizing bs with
    | nil =>
      cases success
      exact .nil
    | cons a as ih =>
      rw [List.mapM_cons] at success
      obtain ⟨b, head, success⟩ := bind_eq_ok_iff.mp success
      obtain ⟨rest, tail, final⟩ := bind_eq_ok_iff.mp success
      cases final
      exact .cons head (ih tail)
  · intro each
    induction each with
    | nil => rfl
    | cons head _ ih =>
      rw [List.mapM_cons, head, ok_bind, ih]
      rfl

/-- A list gives a further value only through a further element. -/
theorem exists_cons_of_mapM {f : α → Except ε β} {as : List α} {b : β} {bs : List β}
    (success : as.mapM f = .ok (b :: bs)) :
    ∃ a rest, as = a :: rest ∧ f a = .ok b ∧ rest.mapM f = .ok bs := by
  obtain ⟨a, rest, head, tail, rfl⟩ := List.forall₂_cons_right_iff.mp (mapM_eq_ok_iff.mp success)
  exact ⟨a, rest, rfl, head, mapM_eq_ok_iff.mpr tail⟩

/-- A mapped computation succeeds where the computation does. -/
theorem map_eq_ok_iff {read : Except ε α} {f : α → β} {b : β} :
    read.map f = .ok b ↔ ∃ a, read = .ok a ∧ f a = b := by
  cases read with
  | error e => simp [Except.map]
  | ok a => simp [Except.map]

/-- What goes on with a changed value goes on with the value. -/
theorem bind_of_map {γ : Type} {read : Except ε α} {f : α → β} {next : β → Except ε γ} :
    read.map f >>= next = read >>= fun a => next (f a) := by
  cases read <;> rfl

/-- What is made of the result of a sequence is made in its last step. -/
theorem map_of_bind {γ : Type} {read : Except ε α} {next : α → Except ε β} {f : β → γ} :
    (read >>= next).map f = read >>= fun a => (next a).map f := by
  cases read <;> rfl

/-- A list is read alike if each of its elements is. -/
theorem mapM_congr {f g : α → Except ε β} {as : List α} (alike : ∀ a ∈ as, f a = g a) :
    as.mapM f = as.mapM g := by
  induction as with
  | nil => rfl
  | cons a as ih =>
    have tail := ih fun a' later => alike a' (List.mem_cons_of_mem a later)
    rw [List.mapM_cons, List.mapM_cons, alike a List.mem_cons_self, tail]

/-- A search over mapped elements is a search with the composed function. -/
theorem findSomeM?_map {γ : Type} {f : β → Except ε (Option γ)} {h : α → β} {as : List α} :
    (as.map h).findSomeM? f = as.findSomeM? fun a => f (h a) := by
  induction as with
  | nil => rfl
  | cons a as ih => rw [List.map_cons, List.findSomeM?_cons, List.findSomeM?_cons, ih]

/-- A search that asks each element in turn finds what the first has. -/
theorem first_iff_of_findSomeM? {γ : Type} {holds : α → γ → Prop} {f : α → Except ε (Option β)}
    {g : β → γ} {as : List α} {found : Option β}
    (each : ∀ a ∈ as, ∀ own, f a = .ok own → ∀ c, holds a c ↔ own.map g = some c)
    (read : as.findSomeM? f = .ok found) (c : γ) :
    First holds as c ↔ found.map g = some c := by
  induction as with
  | nil =>
    cases read
    constructor
    · intro first
      cases first
    · intro same
      cases same
  | cons a rest ih =>
    rw [List.findSomeM?_cons, bind_eq_ok_iff] at read
    rcases read with ⟨own, asked, read⟩
    have here := each a List.mem_cons_self own asked
    cases own with
    | none =>
      have nothing : ∀ c, ¬ holds a c := by
        intro c held
        cases (here c).mp held
      rw [First.cons_iff_of_forall_not nothing]
      exact ih (fun a' later => each a' (List.mem_cons_of_mem a later)) read
    | some b =>
      cases read
      rw [First.cons_iff_of_holds ((here (g b)).mpr rfl)]
      exact here c

/-- If each step commutes with a change of what is folded, so does the fold. -/
theorem foldlM_map {γ : Type} {step : β → α → Except ε β} {step' : γ → α → Except ε γ} {f : β → γ}
    (commutes : ∀ b a, step' (f b) a = (step b a).map f) (as : List α) (b : β) :
    as.foldlM step' (f b) = (as.foldlM step b).map f := by
  induction as generalizing b with
  | nil => rfl
  | cons a as ih =>
    rw [List.foldlM_cons, List.foldlM_cons, commutes, bind_of_map]
    cases step b a with
    | error => rfl
    | ok c => exact ih c

/-- What every step of a fold keeps, the whole fold keeps. -/
theorem foldlM_induction {step : β → α → Except ε β} (holds : List α → β → Prop)
    (keeps : ∀ seen b a c, holds seen b → step b a = .ok c → holds (seen ++ [a]) c)
    {seen as : List α} {b c : β} (before : holds seen b) (folded : as.foldlM step b = .ok c) :
    holds (seen ++ as) c := by
  induction as generalizing seen b with
  | nil =>
    cases folded
    simpa using before
  | cons a as ih =>
    rw [List.foldlM_cons, bind_eq_ok_iff] at folded
    rcases folded with ⟨middle, stepped, rest⟩
    have after := ih (keeps seen b a middle before stepped) rest
    rwa [List.append_assoc] at after

/-! ## Steps that succeed -/

/-- The computation succeeds with a value of which `holds` holds. -/
def Gives (read : Except ε α) (holds : α → Prop) : Prop := ∃ a, read = .ok a ∧ holds a

/-- The computation succeeds. -/
abbrev Succeeds (read : Except ε α) : Prop := Gives read fun _ => True

namespace Gives

variable {holds : α → Prop} {holdsNext : β → Prop}

theorem ok {a : α} (known : holds a) : Gives (.ok a : Except ε α) holds := ⟨a, rfl, known⟩

theorem pure {a : α} (known : holds a) : Gives (pure a : Except ε α) holds := ⟨a, rfl, known⟩

theorem mono {read : Except ε α} {weaker : α → Prop} (gives : Gives read holds)
    (implies : ∀ a, holds a → weaker a) : Gives read weaker := by
  rcases gives with ⟨a, success, known⟩
  exact ⟨a, success, implies a known⟩

/-- What the first step gives is what the next one may rely on. -/
theorem bind {first : Except ε α} {next : α → Except ε β} (gives : Gives first holds)
    (rest : ∀ a, holds a → Gives (next a) holdsNext) : Gives (first >>= next) holdsNext := by
  rcases gives with ⟨a, success, known⟩
  rw [success]
  exact rest a known

theorem map {read : Except ε α} {f : α → β} (gives : Gives read holds)
    (rest : ∀ a, holds a → holdsNext (f a)) : Gives (read.map f) holdsNext := by
  rcases gives with ⟨a, success, known⟩
  exact ⟨f a, by rw [success]; rfl, rest a known⟩

theorem mapM {f : α → Except ε β} {as : List α}
    (each : ∀ a ∈ as, Gives (f a) holdsNext) :
    Gives (as.mapM f) fun bs => ∀ b ∈ bs, holdsNext b := by
  induction as with
  | nil => exact pure (by simp)
  | cons a as ih =>
    rw [List.mapM_cons]
    refine (each a List.mem_cons_self).bind fun b head => ?_
    refine (ih fun a' later => each a' (List.mem_cons_of_mem a later)).bind fun bs tail => ?_
    refine pure ?_
    intro b' member
    rcases List.mem_cons.mp member with rfl | later
    · exact head
    · exact tail b' later

/-- A fold, with the property as the invariant of its steps. -/
theorem foldlM {step : β → α → Except ε β} {as : List α} {b : β} (start : holdsNext b)
    (keeps : ∀ b, holdsNext b → ∀ a ∈ as, Gives (step b a) holdsNext) :
    Gives (as.foldlM step b) holdsNext := by
  induction as generalizing b with
  | nil => exact pure start
  | cons a as ih =>
    rw [List.foldlM_cons]
    refine (keeps b start a List.mem_cons_self).bind fun c known => ?_
    exact ih known fun b' known' a' later => keeps b' known' a' (List.mem_cons_of_mem a later)

end Gives

namespace Succeeds

/-- A first step of whose value nothing needs to be known. -/
theorem bind {holds : β → Prop} {first : Except ε α} {next : α → Except ε β}
    (succeeds : Succeeds first) (rest : ∀ a, Gives (next a) holds) : Gives (first >>= next) holds :=
  Gives.bind succeeds fun a _ => rest a

theorem map {read : Except ε α} (f : α → β) (succeeds : Succeeds read) : Succeeds (read.map f) :=
  Gives.map succeeds fun _ _ => trivial

/-- Steps over the elements succeed when each of them does. -/
theorem mapM {f : α → Except ε β} {as : List α} (each : ∀ a ∈ as, Succeeds (f a)) :
    Succeeds (as.mapM f) :=
  (Gives.mapM each).mono fun _ _ => trivial

/-- A search succeeds when each of its steps does, whether it finds anything or not. -/
theorem findSomeM? {f : α → Except ε (Option β)} {as : List α}
    (each : ∀ a ∈ as, Succeeds (f a)) : Succeeds (as.findSomeM? f) := by
  induction as with
  | nil => exact .pure trivial
  | cons a as ih =>
    rw [List.findSomeM?_cons]
    refine (each a List.mem_cons_self).bind fun found => ?_
    cases found with
    | none => exact ih fun a' later => each a' (List.mem_cons_of_mem a later)
    | some b => exact .pure trivial

end Succeeds

/-! ## What a success ensures -/

/-- If the computation succeeds, `holds` holds of its value. -/
def Ensures (read : Except ε α) (holds : α → Prop) : Prop := ∀ a, read = .ok a → holds a

namespace Ensures

variable {holds : α → Prop} {holdsNext : β → Prop}

theorem ok {a : α} (known : holds a) : Ensures (.ok a : Except ε α) holds := by
  intro b same
  cases same
  exact known

theorem error {e : ε} : Ensures (.error e : Except ε α) holds := by
  intro a same
  cases same

theorem pure {a : α} (known : holds a) : Ensures (pure a : Except ε α) holds := ok known

/-- What follows a step only has to be looked at where the step succeeds. -/
theorem read {first : Except ε α} {next : α → Except ε β}
    (rest : ∀ a, first = .ok a → Ensures (next a) holdsNext) :
    Ensures (first >>= next) holdsNext := by
  intro b both
  obtain ⟨a, success, success'⟩ := bind_eq_ok_iff.mp both
  exact rest a success b success'

/-- What the first step ensures is what the next one may rely on. -/
theorem bind {first : Except ε α} {next : α → Except ε β} (ensures : Ensures first holds)
    (rest : ∀ a, holds a → Ensures (next a) holdsNext) : Ensures (first >>= next) holdsNext :=
  read fun a success => rest a (ensures a success)

/-- Steps over the elements, each of which ensures the property. -/
theorem mapM {f : α → Except ε β} {as : List α} (each : ∀ a ∈ as, Ensures (f a) holdsNext) :
    Ensures (as.mapM f) fun bs => ∀ b ∈ bs, holdsNext b := by
  intro bs success b member
  obtain ⟨a, isIn, computed⟩ := exists_mem_of_forall₂ (mapM_eq_ok_iff.mp success).flip member
  exact each a isIn b computed

/-- A fold, with the property as the invariant of its steps. -/
theorem foldlM {step : β → α → Except ε β} {as : List α} {b : β} (start : holdsNext b)
    (keeps : ∀ b, holdsNext b → ∀ a ∈ as, Ensures (step b a) holdsNext) :
    Ensures (as.foldlM step b) holdsNext := by
  induction as generalizing b with
  | nil => exact pure start
  | cons a as ih =>
    rw [List.foldlM_cons]
    refine (keeps b start a List.mem_cons_self).bind fun c known => ?_
    exact ih known fun b' known' a' later => keeps b' known' a' (List.mem_cons_of_mem a later)

/-- A search ensures what each of its steps ensures of what it finds. -/
theorem findSomeM? {f : α → Except ε (Option β)} {as : List α}
    (each : ∀ a ∈ as, Ensures (f a) fun found => ∀ b, found = some b → holdsNext b) :
    Ensures (as.findSomeM? f) fun found => ∀ b, found = some b → holdsNext b := by
  induction as with
  | nil => exact pure (by simp)
  | cons a as ih =>
    rw [List.findSomeM?_cons]
    refine (each a List.mem_cons_self).bind fun found known => ?_
    cases found with
    | none => exact ih fun a' later => each a' (List.mem_cons_of_mem a later)
    | some b => exact pure known

end Ensures

end ServiceIdl.Outcome
