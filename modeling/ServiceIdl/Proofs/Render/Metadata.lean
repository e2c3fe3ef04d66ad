import ServiceIdl.Proofs.Grammar.Rank
import ServiceIdl.Proofs.Render.Json
import ServiceIdl.Syntax.Section

/-!
# JSON as metadata

A document of one metadata statement, with the JSON of a datum as its value: the grammar
accepts it, and the metadata of its tree are the key and the value of the datum
(`exists_documentTree_of_fits`). The sections around the metadata are empty.
-/

namespace ServiceIdl

open Peg (Expr Derives)
open Text (byteLength Follows)

/-! ## Metadata -/

/-- The key and the value of a metadata statement. -/
def MetadataStatement.entry (statement : MetadataStatement) : Except Defect (String × Value) := do
  let name ← NodeObjectKey.name (← MetadataStatement.key statement)
  return (name, ← Value.ofNode (← MetadataStatement.value statement))

/-- The keys and the values of the statements of a metadata section. -/
def MetadataSection.entries (part : MetadataSection) : Except Defect (List (String × Value)) :=
  (MetadataSection.statements part).mapM MetadataStatement.entry

/-- The keys and the values of the metadata of a document. -/
def Idl.metadata (idl : Idl) : Except Defect (List (String × Value)) := do
  MetadataSection.entries (← Idl.metadataSection idl)

/-! ## The tree of what is made -/

/-- The nodes in the tree of an accepted text are those that its matches make. -/
theorem ofTrees_children_of_documentTree {text : String} {inside : List (Peg.Match Rule)}
    {tree : Tree}
    (accepted : recognise text = .ok [.mk .idl 0 (byteLength text.toList) inside])
    (made : documentTree text = .ok (.ok tree)) :
    Forest.ofTrees tree.children = Forest.ofMatches inside := by
  have events : documentEvents text =
      .ok (Event.ofMatches [.mk .idl 0 (byteLength text.toList) inside]) := by
    rw [documentEvents, accepted]
    rfl
  rw [documentTree_of_events events] at made
  obtain ⟨found, assembled, same⟩ := Outcome.map_eq_ok_iff.mp made
  cases same
  obtain ⟨children, rfl, nodes, -⟩ := Tree.exists_root_of_ofEvents assembled
  exact nodes

/-- A text from which the rule of documents makes nodes is accepted, and its tree shows
these nodes. -/
theorem exists_documentTree_of_makes {text : String} {nodes : Forest}
    (makes : Makes .loose Rule.idl.body 0 text.toList [] nodes) :
    ∃ tree, documentTree text = .ok (.ok tree) ∧
      tree.Shows text.toList .idl 0 (byteLength text.toList) nodes := by
  rcases makes with ⟨inside, derives, rfl⟩
  have accepted := recognise_eq_ok_iff.mpr ⟨_, rfl, derives⟩
  have events : documentEvents text =
      .ok (Event.ofMatches [.mk .idl 0 (byteLength text.toList) inside]) := by
    rw [documentEvents, accepted]
    rfl
  obtain ⟨tree, made, document⟩ := exists_documentTree events
  exact ⟨tree, made, document.sits, document.kind, document.span,
    ofTrees_children_of_documentTree accepted made⟩

/-! ## A statement -/

variable {offset : Nat} {rest : List Char}

/-- The keyword of a metadata statement makes no node. -/
theorem makes_keywordMetadata :
    Makes .loose (.rule .keywordMetadata) offset "metadata".toList (' ' :: rest) .nil := by
  have refused : (documentGrammar.sight (some ' ') 0 Rule.identifierChar).refuses = true := by
    decide
  have ended (offset : Nat) :
      Makes .atomic (.not Rule.identifierChar) offset [] (' ' :: rest) .nil :=
    .silent (.absent ((documentGrammar.holds_sight _ _ _).fails refused _ _ _ rfl))
  have body : Makes .atomic Rule.keywordMetadata.body offset "metadata".toList (' ' :: rest) .nil :=
    .beforeNothing (by simp) .literal (ended _)
  exact .trivia (by decide) body

/-- The name `m` is an identifier, and its parts make no nodes. -/
theorem makes_identifier :
    Makes .compound Rule.identifier.body offset ['m'] (' ' :: rest) .nil := by
  have settled : (documentGrammar.sight (some 'm') 0 (Rule.many (Rule.text "_"))).skips = true ∧
      (documentGrammar.sight (some ' ') 0 Rule.identifierChars.body).skips = true := by
    decide
  have noMark := (documentGrammar.holds_sight _ _ _).derives settled.1 .compound offset
    ('m' :: ' ' :: rest) rfl
  have letter (offset : Nat) :
      Makes .compound (.char .letter) offset ['m'] (' ' :: rest) .nil :=
    .silent (.char rfl)
  have first : Makes .compound Rule.identifierStart.body offset ([] ++ ['m']) (' ' :: rest) .nil :=
    .tight (by simp) (.silent noMark) (letter _)
  have start : Makes .compound (.rule .identifierStart) offset ['m'] (' ' :: rest) .nil :=
    .trivia (by decide) first
  have noMore (offset : Nat) := (documentGrammar.holds_sight _ _ _).derives settled.2 .compound
    offset (' ' :: rest) rfl
  have chars (offset : Nat) :
      Makes .compound (.rule .identifierChars) offset [] (' ' :: rest) .nil :=
    .trivia (by decide) (.silent (noMore offset))
  exact .beforeNothing (by simp) start (chars _)

/-- The key `m` is a bare name. -/
theorem denotes_bareKey :
    Denotes (.rule .nodeObjectKey) NodeObjectKey.name offset ['m'] (' ' :: rest) ["m"] := by
  have refused : documentGrammar.refuses (some 'm') 1 .quotedText = true := by decide
  let named : Identifier → Except Defect String := fun name => .ok name.text
  have bare : Denotes (.rule .identifier) named offset ['m'] (' ' :: rest) ["m"] := by
    refine .leaf (by decide) (by decide) makes_identifier ?_
    intro v _ written
    exact congrArg Except.ok (String.toList_inj.mp written)
  have choice : Denotes Rule.nodeObjectKey.body named offset ['m'] (' ' :: rest) ["m"] :=
    .right (Peg.Grammar.fails_of_refuses refused rfl) bare
  rcases choice with ⟨nodes, makes, means⟩
  refine ⟨_, .node (by decide) makes, ?_⟩
  intro text follows
  refine .single (by decide) fun v shown => ?_
  have inside := means text follows
  -- A key is read off its quoted text first, and here is none.
  have unquoted : (v.many .quotedText).mapM QuotedText.value = .ok [] :=
    shown.mapM_many (inside.absent (by decide))
  have absent : v.optional .quotedText = none := View.optional_eq_none_of_mapM unquoted
  obtain ⟨name, found, same⟩ := View.exists_required_of_mapM (shown.mapM_many inside.reads)
  rw [NodeObjectKey.name, absent, found]
  exact same

/-! ## The document -/

/-- A metadata statement of the key `m` denotes the key with the value. -/
theorem denotes_metadataStatement {written : List Char} {value : Value}
    (solid : ∀ behind, Solid (written ++ behind).head?)
    (denotes : ∀ offset, Denotes (.rule .nodeValue) Value.ofNode offset written rest [value]) :
    Denotes (.rule .metadataStatement) MetadataStatement.entry offset
      ("metadata m = ".toList ++ written) rest [("m", value)] := by
  have spaced (offset : Nat) {c : Char} {behind : List Char} (solid : Solid (some c)) :
      Skips offset [' '] (c :: behind) := by
    refine .blanks ?_ solid
    simp
  have assigned (offset : Nat) : Skips offset [' '] (written ++ rest) :=
    .blanks (by simp) (solid rest)
  have pair (offset : Nat) : DenotesPair
      (Rule.inOrder [.rule .nodeObjectKey, .literal ['='], .rule .nodeValue]) offset
      (['m'] ++ ([' '] ++ (['='] ++ ([' '] ++ written)))) rest "m" value :=
    Denotes.pair denotes_bareKey (spaced _ (by decide)) (assigned _) (denotes _)
  have statement : DenotesPair Rule.metadataStatement.body offset
      ("metadata".toList ++ ([' '] ++ (['m'] ++ ([' '] ++ (['='] ++ ([' '] ++ written)))))) rest "m"
      value :=
    .behindWord makes_keywordMetadata (spaced _ (by decide)) (pair _)
  refine .ofPair (by decide) statement ?_
  intro v keyNode valueNode keyFound keyRead valueFound valueRead
  rw [MetadataStatement.entry, MetadataStatement.key, MetadataStatement.value, keyFound,
    Outcome.ok_bind, keyRead, Outcome.ok_bind, valueFound, Outcome.ok_bind, valueRead]
  rfl

/-- The metadata section of a document that ends with its one statement. -/
theorem denotes_metadataSection {written : List Char} {value : Value}
    (solid : ∀ behind, Solid (written ++ behind).head?)
    (denotes : ∀ offset, Denotes (.rule .nodeValue) Value.ofNode offset written [] [value])
    (offset : Nat) :
    Denotes (.rule .metadataSection) MetadataSection.entries offset
      ("metadata m = ".toList ++ written) [] [[("m", value)]] := by
  have refused : documentGrammar.refuses none 2 .metadataStatement = true := by decide
  have nothing (offset : Nat) : Skips offset [] [] := .nothing (by decide)
  have ended (offset : Nat) :
      Denotes (.star (.seq .loose .empty (.rule .metadataStatement))) MetadataStatement.entry offset
        [] [] [] :=
    .stop ((nothing offset).fails (Peg.Grammar.fails_of_refuses refused rfl))
  have statement : Denotes (.rule .metadataStatement) MetadataStatement.entry offset
      ("metadata m = ".toList ++ written) [] [("m", value)] :=
    denotes_metadataStatement solid denotes
  have statements : Denotes Rule.metadataSection.body MetadataStatement.entry offset
      ("metadata m = ".toList ++ written) [] [("m", value)] := by
    have many := statement.many (ended _)
    rwa [List.append_nil] at many
  refine .node (by decide) statements ?_
  intro v _ known
  exact known

/-- A metadata section by itself is a document, with empty sections around it. -/
theorem makes_idl_of_metadataSection {whole : List Char} {nodes : Forest}
    (begins : whole.head? = some 'm')
    (metadata : Makes .loose (.rule .metadataSection) 0 whole [] nodes) :
    Makes .loose Rule.idl.body 0 whole []
      (.cons .controlSection 0 0 .nil (nodes.append
        (.cons .shapeSection (0 + byteLength whole) (0 + byteLength whole) .nil .nil))) := by
  have settled : Solid (some 'm') ∧
      (documentGrammar.sight (some 'm') 2 Rule.controlSection.body).skips = true ∧
      (documentGrammar.sight none 2 Rule.shapeSection.body).skips = true := by
    decide
  rcases settled with ⟨solid, noControl, noShapes⟩
  have ahead : (whole ++ [] ++ []).head? = some 'm' := by
    rw [List.append_nil, List.append_nil, begins]
  have ended : Solid none := by decide
  have controlBody : Makes .loose Rule.controlSection.body 0 [] (whole ++ [] ++ []) .nil :=
    .silent ((documentGrammar.holds_sight _ _ _).derives noControl _ _ _ ahead)
  have shapesBody : Makes .loose Rule.shapeSection.body (0 + byteLength whole) [] [] .nil :=
    .silent ((documentGrammar.holds_sight _ _ _).derives noShapes _ _ _ rfl)
  have control : Makes .loose (.rule .controlSection) 0 [] (whole ++ [] ++ [])
      (.cons .controlSection 0 0 .nil .nil) :=
    .node (by decide) controlBody
  have shapes : Makes .loose (.rule .shapeSection) (0 + byteLength whole) [] []
      (.cons .shapeSection (0 + byteLength whole) (0 + byteLength whole) .nil .nil) :=
    .node (by decide) shapesBody
  have finish : Makes .loose (.rule .endOfInput) (0 + byteLength whole) [] [] .nil :=
    .trivia (by decide) (.silent .finish)
  have tail : Makes .loose (.seq .loose (.rule .shapeSection) (.rule .endOfInput))
      (0 + byteLength whole) [] [] _ :=
    shapes.adjacent (b := []) ended finish
  have sections : Makes .loose (.seq .loose (.rule .metadataSection)
      (.seq .loose (.rule .shapeSection) (.rule .endOfInput))) 0 (whole ++ []) [] _ :=
    metadata.adjacent (b := []) ended tail
  have start : Makes .loose .start 0 [] (whole ++ [] ++ []) .nil := .silent .start
  have opened : Solid (whole ++ [] ++ []).head? := by
    rw [ahead]
    exact solid
  have document := start.adjacent opened (control.adjacent opened sections)
  rwa [List.append_nil] at document

/-- A document of a metadata section has the entries that the section denotes. -/
theorem exists_document_of_metadataSection {text : String} {entries : List (String × Value)}
    (begins : text.toList.head? = some 'm')
    (denotes :
      Denotes (.rule .metadataSection) MetadataSection.entries 0 text.toList [] [entries]) :
    ∃ tree idl, documentTree text = .ok (.ok tree) ∧ Idl.ofTree tree = .ok idl ∧
      Idl.metadata idl = .ok entries := by
  rcases denotes with ⟨nodes, metadata, means⟩
  obtain ⟨tree, made, shown⟩ :=
    exists_documentTree_of_makes (makes_idl_of_metadataSection begins metadata)
  have accepted : tree.kind ∈ Category.idl.kinds := List.mem_singleton.mpr shown.kind
  have root : Idl.ofTree tree = .ok ⟨tree, accepted⟩ := Idl.ofTree_eq_ok_iff.mpr rfl
  have follows : Follows text.toList 0 (text.toList ++ []) := ⟨[], by simp, rfl⟩
  have before : (Forest.cons .controlSection 0 0 .nil .nil).Reads text.toList
      MetadataSection.entries [] :=
    .absent (by simp [Forest.kinds, Category.kinds])
  have behind : (Forest.cons .shapeSection (0 + byteLength text.toList)
      (0 + byteLength text.toList) .nil .nil).Reads text.toList MetadataSection.entries [] :=
    .absent (by simp [Forest.kinds, Category.kinds])
  have reads := before.append ((means text.toList follows).reads.append behind)
  have known : (View.many (⟨tree, accepted⟩ : Idl) .metadataSection).mapM
      MetadataSection.entries = .ok [entries] :=
    shown.mapM_many reads
  exact ⟨tree, ⟨tree, accepted⟩, made, root, View.required_bind_of_mapM known⟩

/-- The JSON of a datum is accepted as the value of a metadata statement, and read back as
the value of the datum. -/
theorem exists_document_of_fits (layout : Json.Layout) {d : Datum} (fits : d.Fits) :
    ∃ tree idl, documentTree ("metadata m = " ++ Json.text layout d) = .ok (.ok tree) ∧
      Idl.ofTree tree = .ok idl ∧ Idl.metadata idl = .ok [("m", d.value)] := by
  have spelled : ("metadata m = " ++ Json.text layout d).toList =
      "metadata m = ".toList ++ Json.write layout 0 d := by
    simp only [Json.text, String.toList_append, String.toList_ofList]
  have ended : Closes [] := List.mem_cons_self
  have solid (behind : List Char) : Solid (Json.write layout 0 d ++ behind).head? := by
    obtain ⟨head, more, written, solid⟩ := Json.exists_cons_of_write layout 0 d
    rw [written]
    exact solid
  have metadata := denotes_metadataSection solid
    (fun offset => Json.denotes_write layout d fits 0 offset [] ended) 0
  rw [← spelled] at metadata
  refine exists_document_of_metadataSection ?_ metadata
  rw [spelled]
  rfl

end ServiceIdl
