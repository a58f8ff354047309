import FlowTree.Document
import FlowTree.Json.Decode
import FlowTree.Json.Lexer

/-!
# Reading documents

* **`Document.read`** reads a document, **`Document.readTree`** a single tree.

A tree may be nested as deep as the budget allows: each node takes one pair of brackets for itself
and one for the list of its children.
-/

namespace FlowTree

open Json (Source Numeral Result Record Field)

namespace NodeKind

/-- The kind with the given name; a name that is not known stands for some other kind. -/
def ofName (name : String) : NodeKind :=
  if name == "Well" then .well else if name == "Group" then .group else .other

/-- Reads a kind: its name, or an object that gives the name the value `null`. -/
def read (budget : Nat) : Source Numeral → Result NodeKind
  | .text t => (Source.orFault t.read).map ofName
  | .object fields brackets =>
    match budget, fields with
    | 0, _ => .error (.fault .malformed)
    | _, [] => .error (.fault (match brackets.finish with
      | .closed => .malformed
      | .broken f => f))
    | _, (name, value) :: rest => do
      let kind ← (Source.orFault name.read).map ofName
      match value with
      | .null =>
        if rest.isEmpty then Source.close brackets.finish else .error (.fault .malformed)
      | value => .error (value.mismatch "unit")
      return kind
  | .broken f => .error (.fault f)
  | _ => .error (.fault .malformed)

end NodeKind

/-- Reads the values of all dates by attribute. -/
def Attributes.read (budget : Nat) (s : Source Numeral) : Result (Attributes Float) :=
  s.asMap budget (fun budget => Source.asList budget fun _ => Source.asOption Source.asFloat)
    Attributes.insert {}

namespace Document

/-- A node while it is read: what is said about it and its children. -/
abbrev NodeDraft := NodeInfo Float × List (Tree (NodeInfo Float))

/-- The fields of a node; `children` reads the list of its children. -/
def nodeRecord (children : Nat → Source Numeral → Result (List (Tree (NodeInfo Float)))) :
    Record NodeDraft where
  name := "RecursiveTreeNode"
  fields :=
    [.required "node_label" (fun _ => Source.asText) fun s d => ({ d.1 with label := s }, d.2),
      .optional "edge_label" (fun _ => Source.asText) fun s d =>
        ({ d.1 with edgeLabel := s }, d.2),
      .optional "node_type" NodeKind.read fun k d => ({ d.1 with kind := k }, d.2),
      .optional "node_data" Attributes.read fun a d => ({ d.1 with nodeData := a }, d.2),
      .optional "edge_data" Attributes.read fun a d => ({ d.1 with edgeData := a }, d.2),
      .optional "children" children fun cs d => (d.1, cs)]

/-- Reads a tree. -/
def readNode : Nat → Source Numeral → Result (Tree (NodeInfo Float))
  | 0, s => ((nodeRecord fun _ _ => .ok []).read ({ label := "" }, []) 0 s).map fun d =>
    .node d.1 d.2
  | budget + 1, s =>
    let children (_ : Nat) (s : Source Numeral) : Result (List (Tree (NodeInfo Float))) :=
      match budget with
      | 0 => s.asList 0 fun _ _ => .error (.fault .malformed)
      | inner + 1 => s.asList (inner + 1) fun _ => readNode inner
    ((nodeRecord children).read ({ label := "" }, []) (budget + 1) s).map fun d => .node d.1 d.2

/-- A dated tree while it is read. -/
abbrev DatedDraft := List String × Option (Tree (NodeInfo Float))

/-- Reads a dated tree. -/
def readDated (budget : Nat) (s : Source Numeral) : Result (DatedTree Float) := do
  let record : Record DatedDraft :=
    { name := "DatedTree"
      fields :=
        [.required "dates" (fun budget => Source.asList budget fun _ => Source.asText)
            fun ds d => (ds, d.2),
          .required "tree" readNode fun t d => (d.1, some t)] }
  let d ← record.read ([], none) budget s
  match d.2 with
  | some t => return ⟨d.1, t⟩
  | none => .error (.data (.missingField "tree"))

/-- Reads an entry of a table of attributes. -/
def readMetadataEntry (budget : Nat) (s : Source Numeral) : Result MetadataEntry :=
  let record : Record MetadataEntry :=
    { name := "MetadataEntry"
      fields :=
        [.required "key" (fun _ => Source.asText) fun s e => { e with key := s },
          .required "label" (fun _ => Source.asText) fun s e => { e with label := s },
          .optional "unit" (fun _ => Source.asOption Source.asText) fun u e =>
            { e with unit := u }] }
  record.read { key := "", label := "" } budget s

/-- The fields of a document. -/
def record : Record (Document Float) where
  name := "InputDocument"
  fields :=
    [.optional "data" (fun budget => Source.asList budget readDated) fun ts d =>
        { d with data := ts },
      .optional "edge_metadata_list" (fun budget => Source.asList budget readMetadataEntry)
        fun es d => { d with edgeMetadata := es },
      .optional "node_metadata_list" (fun budget => Source.asList budget readMetadataEntry)
        fun es d => { d with nodeMetadata := es }]

/-- Reads the text of a document. -/
def read (text : String) : Result (Document Float) :=
  Json.readText (record.read {}) (Json.source text)

/-- Reads the text of a tree. -/
def readTree (text : String) : Result (Tree (NodeInfo Float)) :=
  Json.readText readNode (Json.source text)

end Document

end FlowTree
