import Mathlib.Data.List.Basic
import SocioWorkspace.Lib.Sha256

/-!
# Cells and edges of the blast-radius graph

The types of `gbrg/crates/gbrg-core/src/lib.rs` that the parser writes and the what-if simulation reads. The
hash function belongs to the graph substrate; `cell_iri_to_node_id` and `ast_hash_of` are parameters.
`written` and `writtenEdges` are the write path: all cells, then every edge whose ends have been written.
-/

namespace SocioWorkspace.Gbrg
open List

/-- Node identifier of the substrate (Rust `NodeId`). -/
abbrev NodeId := UInt64

/-- Rust `CellKind`. -/
inductive CellKind where
  | function
  | cls
  | import_
  | module
  | pattern
deriving DecidableEq

/-- Rust `SemanticCell`. -/
structure SemanticCell where
  cellId : String
  kind : CellKind
  language : String
  filePath : String
  symbolName : String
  astHash : String
  locStart : Nat
  locEnd : Nat
  generated : Bool
deriving DecidableEq

/-- Rust `EdgeKind`. -/
inductive EdgeKind where
  | calls
  | inherits
  | imports
  | testedBy
  | churnsWith
deriving DecidableEq

/-- Rust `as_label`. -/
def EdgeKind.asLabel : EdgeKind → String
  | .calls => "CALLS"
  | .inherits => "INHERITS"
  | .imports => "IMPORTS"
  | .testedBy => "TESTED_BY"
  | .churnsWith => "CHURNS_WITH"

/-- Rust `GraphEdge`. -/
structure GraphEdge where
  source : NodeId
  target : NodeId
  kind : EdgeKind
  weight : Float

def hexValue (c : Char) : Nat := if c ≤ '9' then c.toNat - 48 else c.toNat - 87

/-- Rust `cell_iri_to_node_id`: the first sixteen hexadecimal digits of the hash of the IRI. -/
def cellIriToNodeId (sha256Hex : List Char → String) (iri : String) : NodeId :=
  (((sha256Hex iri.toList).toList.take 16).foldl (fun n c => 16 * n + hexValue c) 0).toUInt64

section
variable (nodeId : String → NodeId) {cells : List SemanticCell} {id : NodeId}

/-- The ids under which some cells are written (Rust `written`). -/
def written (cells : List SemanticCell) : List NodeId :=
  cells.foldl (fun ids c => ids.insert (nodeId c.cellId)) []

variable {nodeId}

lemma mem_written : id ∈ written nodeId cells ↔ ∃ c ∈ cells, nodeId c.cellId = id := by
  induction cells using reverseRecOn with
  | nil => simp [written]
  | append_singleton cells c ih =>
    rw [written, foldl_concat, mem_insert_iff, ← written, ih]
    simp only [mem_append, mem_singleton, or_and_right, exists_or, exists_eq_left]
    rw [or_comm, eq_comm]

lemma mem_written_append {c} :
    id ∈ written nodeId (cells ++ [c]) ↔ id ∈ written nodeId cells ∨ id = nodeId c.cellId := by
  simp only [mem_written, mem_append, mem_singleton, or_and_right, exists_or,
    exists_eq_left, eq_comm (a := id)]

variable (nodeId)

section
variable (cells : List SemanticCell)

def GraphEdge.writable (e : GraphEdge) : Bool :=
  e.source ∈ written nodeId cells && e.target ∈ written nodeId cells

def writtenEdges (edges : List GraphEdge) : List GraphEdge := edges.filter (·.writable nodeId cells)

def skippedEdges (edges : List GraphEdge) : Nat := edges.countP fun e => ! e.writable nodeId cells

end

end

end SocioWorkspace.Gbrg
