import SocioWorkspace.Triad.Assess

/-!
# Collecting the receipts

Model of `automation/triad_receipts.py`: `collect_receipts` keeps the first well-formed receipt of each master
and records why it rejects the other files. Reading a file gives its value or the text of the error that is
caught. The other members of the document and its copy on disk are left out.
-/

namespace SocioWorkspace.Triad
open List SocioWorkspace.Lists

/-- A member of `rejected`; that of an unreadable file has no cluster. -/
structure Rejected where
  path : String
  cluster : Option Value
  reason : String

structure Collected where
  receipts : List Value := []
  rejected : List Rejected := []
  seenMasters : Finset String := ∅

section
variable (py : Builtins)

/-- The turn of one file in the loop of `collect_receipts`. -/
def Collected.add (c : Collected) (file : String × Except String Value) : Collected :=
  let reject cluster reason := { c with rejected := c.rejected ++ [⟨file.1, cluster, reason⟩] }
  match file.2 with
  | .error exc => reject none ("unreadable: " ++ exc)
  | .ok raw =>
    match lintReceipt py raw with
    | .error errors =>
      reject (some ((raw.asDict.bind (·.get? "cluster")).getD .null)) ("; ".intercalate errors)
    | .ok receipt =>
      if receipt.cluster ∈ c.seenMasters then
        reject (some (.str receipt.cluster)) "duplicate master in this round"
      else ⟨c.receipts ++ [raw], c.rejected, insert receipt.cluster c.seenMasters⟩

/-- Python `collect_receipts`. -/
def collectReceipts (files : List (String × Except String Value)) : Collected := files.foldl (·.add py) {}

/-- One well-formed receipt of each master, and no file that is neither kept nor rejected. -/
structure Assembled (files : List (String × Except String Value)) (c : Collected) : Prop where
  wellFormed : ∀ raw ∈ c.receipts, ∃ r, lintReceipt py raw = .ok r ∧ r.cluster ∈ c.seenMasters
  once : (c.receipts.map rawCluster).Nodup
  total : c.receipts.length + c.rejected.length = files.length

end

variable {py : Builtins} {files : List (String × Except String Value)} {quorum : ℤ}

lemma Assembled.add {c} (h : Assembled py files c) (file) : Assembled py (files ++ [file]) (c.add py file) := by
  have hreject : ∀ r, Assembled py (files ++ [file]) { c with rejected := c.rejected ++ [r] } :=
    fun r => ⟨h.wellFormed, h.once, by simp [← h.total, Nat.add_assoc]⟩
  unfold Collected.add
  split
  · exact hreject _
  split
  · exact hreject _
  split_ifs with hseen
  · exact hreject _
  rename_i raw _ _ receipt hlint
  refine ⟨?_, ?_, by simp [← h.total, Nat.add_right_comm]⟩
  · refine forall_mem_append.2 ⟨fun raw' hraw => ?_, ?_⟩
    · obtain ⟨r, hr, hmem⟩ := h.wellFormed raw' hraw
      exact ⟨r, hr, Finset.mem_insert_of_mem hmem⟩
    · exact forall_mem_singleton.2 ⟨receipt, hlint, Finset.mem_insert_self ..⟩
  · rw [map_append, map_singleton, ← concat_eq_append]
    refine h.once.concat fun hmem => ?_
    obtain ⟨raw', hraw, hname⟩ := mem_map.1 hmem
    obtain ⟨r, hr, hmem⟩ := h.wellFormed raw' hraw
    rw [rawCluster_of_ok hr, rawCluster_of_ok hlint] at hname
    exact hseen (Value.str_inj (Option.some.inj hname) ▸ hmem)

lemma assembled_collectReceipts (py : Builtins) (files) : Assembled py files (collectReceipts py files) := by
  induction files using reverseRecOn with
  | nil => exact ⟨nofun, nodup_nil, rfl⟩
  | append_singleton files file ih =>
    rw [collectReceipts, foldl_concat]
    exact ih.add file

/-- The quorum of what is collected is one of distinct masters, when it is more than half of the files. -/
theorem distinctMasters_collectReceipts (h : files.length < 2 * quorum) :
    DistinctMasters py (collectReceipts py files).receipts quorum := by
  have hc := assembled_collectReceipts py files
  have hnodup : ((collectReceipts py files).receipts.filterMap rawCluster).Nodup := by
    have hsome := (hc.once.filterMap (f := id)) fun _ _ _ ha hb => ha.trans hb.symm
    rwa [filterMap_map] at hsome
  rw [distinctMasters_iff_of_nodup hnodup]
  intro root helected r hr
  by_contra hle
  have hvoters := length_filterMap_le (vote py) (collectReceipts py files).receipts
  have htotal := hc.total
  have hquorum := helected.quorum
  simp only [votes, ← countP_eq_length_filter] at hle hquorum
  generalize (collectReceipts py files).receipts.filterMap (vote py) = voters at *
  -- two roots with more than half of the votes would share one
  have hroot : voters.length < 2 * voters.countP (·.stateRoot = root) := by omega
  have hother : voters.length < 2 * voters.countP (·.stateRoot = r) := by omega
  obtain ⟨receipt, -, he, he'⟩ := exists_of_majorities hroot hother
  exact hr ((of_decide_eq_true he').symm.trans (of_decide_eq_true he))

/-- A master that hands in two receipts counts once. -/
theorem distinctMasters_collectReceipts_repeated :
    let receipt cluster := soundReceipt cluster '0' "0000000"
    DistinctMasters asciiText (collectReceipts asciiText [("a", .ok (receipt "did:key:a")),
      ("a2", .ok (receipt "did:key:a")), ("b", .ok (receipt "did:key:b"))]).receipts 2 :=
  distinctMasters_collectReceipts (by decide)

end SocioWorkspace.Triad
