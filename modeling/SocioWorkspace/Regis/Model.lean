import SocioWorkspace.Lib.SortedMap

/-!
# The Regis decision ledger

Model of `gbrg/crates/regis-core/src/ledger.rs`: the append-only log of merges and unmerges, its hash chain,
and `replay`, which rebuilds the clustering with a union-find structure.

* `codeDigest` is the digest of the code for a given `hg_analytics::sha256_hex`; the ledger itself takes the
  digest as a parameter.
* `find` stops with `missingKey` where the code would panic, and with `endless` after as many steps as there
  are keys: a loop that is still running then is on a cycle.
* The order in which a `HashMap` yields its keys is a parameter.
-/

namespace SocioWorkspace.Regis

/-- Rust `LedgerOp`. -/
inductive LedgerOp where
  | merge
  | unmerge
deriving DecidableEq

/-- Rust `{:?}` of `LedgerOp`. -/
def LedgerOp.debug : LedgerOp → String
  | .merge => "Merge"
  | .unmerge => "Unmerge"

/-- Rust `DecisionLedgerEntry`. -/
structure DecisionLedgerEntry where
  schemaVersion : String
  entryId : String
  seq : Nat
  op : LedgerOp
  decisionRef : String
  subjects : List String
  reversesEntryRef : Option String
  prevEntryRef : Option String
  entryHash : String
  createdAt : String
deriving DecidableEq

def ENTRY_SCHEMA : String := "regis.decision-ledger-entry.v1"

def sort (subjects : List String) : List String := subjects.insertionSort (· ≤ ·)

@[ext] structure Preimage where
  prevHash : Option String
  op : LedgerOp
  decisionRef : String
  subjects : List String
  reverses : Option String
deriving DecidableEq

/-- The text that is hashed (the `format!` of Rust `preimage`). -/
def Preimage.text (t : Preimage) : List Char :=
  (t.prevHash.getD "").toList ++ '|' :: t.op.debug.toList ++ '|' :: t.decisionRef.toList ++
    '|' :: (",".intercalate t.subjects).toList ++ '|' :: (t.reverses.getD "").toList

/-- Rust `preimage`: the subjects are hashed in sorted order. -/
def preimage (prevHash : Option String) (op : LedgerOp) (decisionRef : String)
    (subjects : List String) (reverses : Option String) : Preimage :=
  ⟨prevHash, op, decisionRef, sort subjects, reverses⟩

def codeDigest (sha256Hex : List Char → String) (t : Preimage) : String := sha256Hex t.text

/-- Rust `DecisionLedger`. -/
structure DecisionLedger where
  entries : List DecisionLedgerEntry

/-- Rust `new`. -/
def DecisionLedger.new : DecisionLedger := ⟨[]⟩

/-- The id of an entry (Rust `format!("dl_{seq}_{}", &hash[..8])`). -/
def entryId (seq : Nat) (hash : String) : String :=
  .ofList ('d' :: 'l' :: '_' :: Nat.toDigits 10 seq ++ '_' :: hash.toList.take 8)

section
variable (digest : Preimage → String)

/-- Rust `append`. -/
def DecisionLedger.append (l : DecisionLedger) (op : LedgerOp) (decisionRef : String)
    (subjects : List String) (reverses : Option String) (createdAt : String) :
    DecisionLedger × String :=
  let seq := l.entries.length
  let prevHash := l.entries.getLast?.map (·.entryHash)
  let prevEntryRef := l.entries.getLast?.map (·.entryId)
  let hash := digest (preimage prevHash op decisionRef subjects reverses)
  let id := entryId seq hash
  (⟨l.entries ++ [{
    schemaVersion := ENTRY_SCHEMA
    entryId := id
    seq := seq
    op := op
    decisionRef := decisionRef
    subjects := subjects
    reversesEntryRef := reverses
    prevEntryRef := prevEntryRef
    entryHash := hash
    createdAt := createdAt }]⟩, id)

/-- Rust `merge`. -/
def DecisionLedger.merge (l : DecisionLedger) (decisionRef : String) (subjects : List String)
    (createdAt : String) : DecisionLedger × String :=
  l.append digest .merge decisionRef subjects none createdAt

/-- Rust `unmerge`. -/
def DecisionLedger.unmerge (l : DecisionLedger) (decisionRef reversesEntryId createdAt : String) :
    DecisionLedger × String :=
  l.append digest .unmerge decisionRef [] (some reversesEntryId) createdAt

/-- The loop of Rust `verify_chain`. -/
def verifyLoop : Option String → Option String → List DecisionLedgerEntry → Bool
  | _, _, [] => true
  | prevHash, prevId, e :: rest =>
    if e.prevEntryRef ≠ prevId then false
    else if digest (preimage prevHash e.op e.decisionRef e.subjects e.reversesEntryRef) ≠
        e.entryHash then false
    else verifyLoop (some e.entryHash) (some e.entryId) rest

/-- Rust `verify_chain`. -/
def DecisionLedger.verifyChain (l : DecisionLedger) : Bool := verifyLoop digest none none l.entries

/-- The ledgers that `merge` and `unmerge` build. -/
inductive Built : DecisionLedger → Prop where
  | new : Built .new
  | merge {l} (h : Built l) (decisionRef subjects createdAt) :
    Built (l.merge digest decisionRef subjects createdAt).1
  | unmerge {l} (h : Built l) (decisionRef reversesEntryId createdAt) :
    Built (l.unmerge digest decisionRef reversesEntryId createdAt).1
end

inductive FindError where
  | missingKey (key : String)
  | endless

/-- Rust `UnionFind`. -/
structure UnionFind where
  parent : SortedMap String String

def UnionFind.default : UnionFind := ⟨.empty⟩

/-- Rust `add`. -/
def UnionFind.add (uf : UnionFind) (x : String) : UnionFind :=
  if (uf.parent.get? x).isSome then uf else ⟨uf.parent.insert x x⟩

/-- The loop of Rust `find`. -/
def findLoop (parent : SortedMap String String) : Nat → String → Except FindError String
  | 0, _ => .error .endless
  | n + 1, r =>
    match parent.get? r with
    | none => .error (.missingKey r)
    | some q => if q = r then .ok r else findLoop parent n q

/-- Rust `find`. -/
def UnionFind.find (uf : UnionFind) (x : String) : Except FindError (String × UnionFind) := do
  let uf := uf.add x
  return (← findLoop uf.parent uf.parent.keys.length x, uf)

/-- Rust `union`. -/
def UnionFind.union (uf : UnionFind) (a b : String) : Except FindError UnionFind := do
  let (ra, uf) ← uf.find a
  let (rb, uf) ← uf.find b
  return if ra ≠ rb then ⟨uf.parent.insert ra rb⟩ else uf

/-- An order in which the keys of a `HashMap` may come. -/
structure KeyOrder where
  order : List String → List String
  perm : ∀ keys, (order keys).Perm keys

def pushKey (out : SortedMap String (List String)) (r k : String) :
    SortedMap String (List String) :=
  out.insert r ((out.get? r).getD [] ++ [k])

/-- The loop of Rust `clusters`. -/
def clustersLoop : UnionFind → SortedMap String (List String) → List String →
    Except FindError (SortedMap String (List String))
  | _, out, [] => .ok out
  | uf, out, k :: keys => do
    let (r, uf) ← uf.find k
    clustersLoop uf (pushKey out r k) keys

/-- Rust `clusters`. -/
def UnionFind.clusters (uf : UnionFind) (keyOrder : KeyOrder) :
    Except FindError (SortedMap String (List String)) := do
  return (← clustersLoop uf .empty (keyOrder.order uf.parent.keys)).map sort

def reversed (entries : List DecisionLedgerEntry) : List String := entries.filterMap (·.reversesEntryRef)

/-- The inner loop of `replay`: all other subjects are joined to the first. -/
def unionAll (first : String) : UnionFind → List String → Except FindError UnionFind
  | uf, [] => .ok uf
  | uf, s :: rest => do unionAll first (← uf.union first s) rest

def joinSubjects (uf : UnionFind) : List String → Except FindError UnionFind
  | [] => .ok uf
  | first :: rest => unionAll first (uf.add first) rest

/-- The outer loop of `replay`. -/
def replayLoop (reversed : List String) :
    UnionFind → List DecisionLedgerEntry → Except FindError UnionFind
  | uf, [] => .ok uf
  | uf, e :: rest =>
    if e.op = .merge ∧ e.entryId ∉ reversed then do
      replayLoop reversed (← joinSubjects uf e.subjects) rest
    else replayLoop reversed uf rest

/-- Rust `replay`. -/
def DecisionLedger.replay (l : DecisionLedger) (keyOrder : KeyOrder) :
    Except FindError (SortedMap String (List String)) := do
  let uf ← replayLoop (reversed l.entries) .default l.entries
  uf.clusters keyOrder

end SocioWorkspace.Regis
