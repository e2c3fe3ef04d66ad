import ServiceIdl.Grammar.Table
import ServiceIdl.Proofs.Peg.Sight
import ServiceIdl.Proofs.Syntax.Forest

/-!
# What is read here, and the nodes that it makes

`Makes mode e offset read rest nodes` puts a derivation together with the forest of its
trace: behind `offset` bytes the expression `e` reads `read`, and this makes `nodes`.
There is one rule for each way to put expressions together, so that the nodes of a
written document are read off the way it is written. What fails on the way is settled by
the next character (`Peg.Grammar.sight`).

Between the items of a rule there may be trivia, which make no nodes. `Skips` says what
is passed over: blanks, up to a character with which no trivia begin.
-/

namespace ServiceIdl

open Peg (Expr Gap Mode Derives Fails)
open Text (byteLength)

/-! ## Making nodes -/

/-- Whether a rule makes a node in a mode. -/
def Rule.isVisible (name : Rule) (mode : Mode) : Bool :=
  name.modifier.outer mode != .atomic && !(Kind.ofRule name).isTrivia

/-- Whether a rule leaves the nodes inside it in its place. -/
def Rule.isTransparent (name : Rule) (mode : Mode) : Bool :=
  name.modifier.outer mode != .atomic && (Kind.ofRule name).isTrivia

/-- Behind `offset` bytes the expression reads `read` in front of `rest`, and this makes
`nodes`. -/
def Makes (mode : Mode) (e : Expr Rule) (offset : Nat) (read rest : List Char)
    (nodes : Forest) : Prop :=
  ∃ trace, Derives documentGrammar mode e offset read rest trace ∧ Forest.ofMatches trace = nodes

namespace Makes

variable {mode : Mode} {gap : Gap} {e first second : Expr Rule} {name : Rule} {offset : Nat}
  {read a b between rest : List Char} {nodes ms ns : Forest}

/-- What leaves no trace makes nothing. -/
theorem silent (derives : Derives documentGrammar mode e offset read rest []) :
    Makes mode e offset read rest .nil :=
  ⟨[], derives, Forest.ofMatches_nil⟩

theorem empty : Makes mode .empty offset [] rest .nil := silent .empty

theorem literal {text : List Char} : Makes mode (.literal text) offset text rest .nil :=
  silent .literal

/-- A rule makes a node of its kind with the nodes inside. -/
theorem node (visible : name.isVisible mode = true)
    (body : Makes (name.modifier.inner mode) name.body offset read rest nodes) :
    Makes mode (.rule name) offset read rest
      (.cons (.ofRule name) offset (offset + byteLength read) nodes .nil) := by
  rcases body with ⟨trace, derives, rfl⟩
  rw [Rule.isVisible, Bool.and_eq_true, bne_iff_ne] at visible
  refine ⟨_, .traced visible.1 derives, ?_⟩
  exact Forest.ofMatches_singleton_of_not_trivia (by simpa using visible.2)

/-- A rule of a trivia kind leaves what is inside in its place. -/
theorem trivia (transparent : name.isTransparent mode = true)
    (body : Makes (name.modifier.inner mode) name.body offset read rest nodes) :
    Makes mode (.rule name) offset read rest nodes := by
  rcases body with ⟨trace, derives, rfl⟩
  rw [Rule.isTransparent, Bool.and_eq_true, bne_iff_ne] at transparent
  exact ⟨_, .traced transparent.1 derives, Forest.ofMatches_singleton_of_trivia transparent.2⟩

/-- Without trivia in between, the nodes of two items stand next to each other. -/
theorem tight (closed : ¬ (gap = .loose ∧ mode = .loose))
    (front : Makes mode first offset a (b ++ rest) ms)
    (behind : Makes mode second (offset + byteLength a) b rest ns) :
    Makes mode (.seq gap first second) offset (a ++ b) rest (ms.append ns) := by
  rcases front with ⟨trace, derives, rfl⟩
  rcases behind with ⟨trace', derives', rfl⟩
  exact ⟨_, .tight closed derives derives', Forest.ofMatches_append trace trace'⟩

/-- The second of two items may match the empty text. -/
theorem beforeNothing (closed : ¬ (gap = .loose ∧ mode = .loose))
    (front : Makes mode first offset a rest ms)
    (behind : Makes mode second (offset + byteLength a) [] rest ns) :
    Makes mode (.seq gap first second) offset a rest (ms.append ns) := by
  have both := tight closed front behind
  rwa [List.append_nil] at both

theorem left (matched : Makes mode first offset read rest nodes) :
    Makes mode (.choice first second) offset read rest nodes := by
  rcases matched with ⟨trace, derives, same⟩
  exact ⟨trace, .left derives, same⟩

/-- The second alternative, if the first fails here. -/
theorem right (fails : Fails documentGrammar mode first offset (read ++ rest))
    (matched : Makes mode second offset read rest nodes) :
    Makes mode (.choice first second) offset read rest nodes := by
  rcases matched with ⟨trace, derives, same⟩
  exact ⟨trace, .right fails derives, same⟩

theorem stop (fails : Fails documentGrammar mode e offset rest) :
    Makes mode (.star e) offset [] rest .nil :=
  silent (.stop fails)

theorem round (front : Makes mode e offset a (b ++ rest) ms)
    (behind : Makes mode (.star e) (offset + byteLength a) b rest ns) :
    Makes mode (.star e) offset (a ++ b) rest (ms.append ns) := by
  rcases front with ⟨trace, derives, rfl⟩
  rcases behind with ⟨trace', derives', rfl⟩
  exact ⟨_, .round derives derives', Forest.ofMatches_append trace trace'⟩

end Makes

/-! ## Passing over blanks -/

/-- Trivia are passed over here. -/
def Skips (offset : Nat) (between rest : List Char) : Prop :=
  Makes .loose documentGrammar.trivia offset between rest .nil

/-- No trivia begin in front of this character, or the end. -/
def Solid (next : Option Char) : Prop :=
  documentGrammar.refuses next 1 .whitespace = true ∧
    documentGrammar.refuses next 1 .comment = true

instance (next : Option Char) : Decidable (Solid next) := inferInstanceAs (Decidable (_ ∧ _))

namespace Skips

variable {offset : Nat} {between rest : List Char}

/-- Blanks are passed over as a whole, up to a character that begins no trivia. -/
theorem star_whitespace (blank : ∀ c ∈ between, c = ' ' ∨ c = '\n' ∨ c = ',')
    (solid : Solid rest.head?) (offset : Nat) :
    Makes .loose (.star (.rule .whitespace)) offset between rest .nil := by
  induction between generalizing offset with
  | nil => exact .stop (Peg.Grammar.fails_of_refuses solid.1 rfl)
  | cons c between ih =>
    have others := ih (fun d later => blank d (List.mem_cons_of_mem c later))
      (offset + byteLength [c])
    have body : Makes .atomic Rule.whitespace.body offset [c] (between ++ rest) .nil := by
      rcases blank c List.mem_cons_self with rfl | rfl | rfl
      · exact .left .literal
      · exact .right (.literal (by simp)) (.right (.literal (by simp)) (.left (.left .literal)))
      · refine .right (.literal (by simp)) (.right (.literal (by simp)) (.right ?_ .literal))
        exact .choice (.literal (by simp)) (.choice (.literal (by simp)) (.literal (by simp)))
    have whitespace : Makes .loose (.rule .whitespace) offset [c] (between ++ rest) .nil :=
      .trivia (by decide) body
    exact .round whitespace others

/-- Blanks are passed over up to a character with which no trivia begin. -/
theorem blanks (blank : ∀ c ∈ between, c = ' ' ∨ c = '\n' ∨ c = ',')
    (solid : Solid rest.head?) : Skips offset between rest := by
  have front := star_whitespace blank solid offset
  have behind : Makes .loose
      (.star (.seq .tight (.rule documentGrammar.comment) (.star (.rule documentGrammar.blank))))
      (offset + byteLength between) [] rest .nil :=
    .stop (.inFirst (Peg.Grammar.fails_of_refuses solid.2 rfl))
  exact .beforeNothing (by simp) front behind

/-- Nothing is passed over in front of such a character. -/
theorem nothing (solid : Solid rest.head?) : Skips offset [] rest := blanks (by simp) solid

/-- A round of a repetition fails behind the trivia before it. -/
theorem fails {e : Expr Rule} (skips : Skips offset between rest)
    (fails : Fails documentGrammar .loose e (offset + byteLength between) rest) :
    Fails documentGrammar .loose (.seq .loose .empty e) offset (between ++ rest) := by
  rcases skips with ⟨trace, derives, -⟩
  exact .behindTrivia .empty derives fails

end Skips

/-- Items with trivia between them. -/
theorem Makes.loose {first second : Expr Rule} {offset : Nat} {a between b rest : List Char}
    {ms ns : Forest} (front : Makes .loose first offset a (between ++ (b ++ rest)) ms)
    (gap : Skips (offset + byteLength a) between (b ++ rest))
    (behind : Makes .loose second (offset + byteLength a + byteLength between) b rest ns) :
    Makes .loose (.seq .loose first second) offset (a ++ (between ++ b)) rest (ms.append ns) := by
  rcases front with ⟨trace, derives, rfl⟩
  rcases gap with ⟨skipped, skips, nothing⟩
  rcases behind with ⟨trace', derives', rfl⟩
  refine ⟨_, .loose derives skips derives', ?_⟩
  rw [Forest.ofMatches_append, Forest.ofMatches_append, nothing]
  rfl

/-- Items with nothing between them, where trivia could be. -/
theorem Makes.adjacent {first second : Expr Rule} {offset : Nat} {a b rest : List Char}
    {ms ns : Forest} (front : Makes .loose first offset a (b ++ rest) ms)
    (solid : Solid (b ++ rest).head?)
    (behind : Makes .loose second (offset + byteLength a) b rest ns) :
    Makes .loose (.seq .loose first second) offset (a ++ b) rest (ms.append ns) :=
  front.loose (.nothing solid) behind

end ServiceIdl
