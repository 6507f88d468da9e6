import Mathlib.Data.List.Chain
import Mathlib.Data.List.Infix
import SocioWorkspace.Lib.PyPath

/-!
# Checkpoints of connectors

Model of `CheckpointStore` of `tools/fabric/checkpoints.py`. A file is the checkpoint that its JSON gives back;
where the system finds a path, or that it refuses it, is a parameter. `PlainKey` says which ids are told apart.
-/

namespace SocioWorkspace.Fabric
open List

structure ConnectorCheckpoint where
  (checkpointId connectorId datasetRef cursorOrMarker lastSuccessfulScanAt lastAppliedChangeId : String)
  (integrityDigest executorVersion createdAt updatedAt : String)

def ConnectorCheckpoint.key (c : ConnectorCheckpoint) : String × String := (c.connectorId, c.datasetRef)

abbrev Files := List String → Option ConnectorCheckpoint

/-- `find` is the place of a path, if the directories on the way are there. The system refuses a path with a name
of more than 255 bytes: a call raises `OSError`. -/
structure CheckpointStore where
  root : PyPath
  find : PyPath → Except Unit (Option (List String))

/-- Python `dataset_ref.replace('/', '__')`. -/
def safeDataset (datasetRef : List Char) : List Char :=
  datasetRef.flatMap fun c => if c = '/' then ['_', '_'] else [c]

def fileName (key : String × String) : String :=
  key.1 ++ "--" ++ .ofList (safeDataset key.2.toList) ++ ".json"

namespace CheckpointStore
section
variable (store : CheckpointStore)

/-- Python `CheckpointStore.path_for`. -/
def pathFor (connectorId datasetRef : String) : PyPath :=
  store.root.join (.ofText (fileName (connectorId, datasetRef)))

def place (key : String × String) : Except Unit (Option (List String)) := store.find (store.pathFor key.1 key.2)

/-- Without a place the call raises, and nothing is saved. -/
def save (files : Files) (c : ConnectorCheckpoint) : Files :=
  match store.place c.key with
  | .ok (some place) => Function.update files place (some c)
  | .ok none => files
  | .error _ => files

/-- Python `load`; `exists` raises for a path that the system refuses. -/
def load (files : Files) (connectorId datasetRef : String) : Except Unit (Option ConnectorCheckpoint) := do
  return (← store.place (connectorId, datasetRef)).bind files

def run (saves : List ConnectorCheckpoint) : Files := saves.foldl store.save fun _ => none

/-- The last checkpoint of the key whose `save` did not raise. -/
def lastSaved (saves : List ConnectorCheckpoint) (key : String × String) : Option ConnectorCheckpoint :=
  saves.reverse.find? fun c => c.key = key ∧ ∃ place ∈ (store.place key).toOption, place.isSome

/-- With these keys, `load` gives the last checkpoint of a key, and all files are beneath the root. -/
structure BehavesAsMap (keys : Set (String × String)) : Prop where
  load_eq : ∀ saves, (∀ c ∈ saves, c.key ∈ keys) → ∀ key ∈ keys,
    store.load (store.run saves) key.1 key.2 = .ok (store.lastSaved saves key)
  beneath : ∀ saves, (∀ c ∈ saves, c.key ∈ keys) → ∀ place,
    store.run saves place ≠ none → ∀ root, store.find store.root = .ok (some root) → root <+: place

/-- The root is a directory, and the system finds a short name in it as an entry of that directory. -/
structure Serves (directory : List String) : Prop where
  root : store.find store.root = .ok (some directory)
  entry : ∀ name : String, '/' ∉ name.toList → '\x00' ∉ name.toList → name ≠ "" → name ≠ "." → name ≠ ".." →
    name.utf8ByteSize ≤ 255 → store.find (store.root.join ⟨false, [name]⟩) = .ok (some (directory ++ [name]))
end

/-- Characters of a dataset ref that may follow each other: `_` stands next to neither `_` nor `/`. -/
def Apart (a b : Char) : Prop := (a = '_' → b ≠ '_' ∧ b ≠ '/') ∧ (a = '/' → b ≠ '_')

instance : DecidableRel Apart := fun _ _ => inferInstanceAs (Decidable (_ ∧ _))

/-- The ids of a key can be read off its file name, and the name is short enough for the system. -/
structure PlainKey (key : String × String) : Prop where
  noSlash : '/' ∉ key.1.toList
  noNul : '\x00' ∉ key.1.toList ∧ '\x00' ∉ key.2.toList
  delimited : ¬ ['-', '-'] <:+: key.1.toList ++ ['-']
  apart : key.2.toList.IsChain Apart
  short : (fileName key).utf8ByteSize ≤ 255

lemma mem_safeDataset {c : Char} {d : List Char} (h : c ∈ safeDataset d) : c = '_' ∨ c ≠ '/' ∧ c ∈ d := by
  obtain ⟨x, hx, hc⟩ := mem_flatMap.1 h
  split_ifs at hc with hslash
  · left
    simpa using hc
  · rw [mem_singleton] at hc
    exact .inr ⟨hc ▸ hslash, hc ▸ hx⟩

lemma safeDataset_cons (c : Char) (d : List Char) :
    safeDataset (c :: d) = (if c = '/' then ['_', '_'] else [c]) ++ safeDataset d := rfl

/-- Behind a `_` that stands for itself there is no other one. -/
lemma head_safeDataset {d : List Char} (h : ('_' :: d).IsChain Apart) {s} : safeDataset d ≠ '_' :: s := by
  intro he
  cases d with
  | nil => cases he
  | cons b d =>
    have hapart := (isChain_cons_cons.1 h).1.1 rfl
    rw [safeDataset_cons, if_neg hapart.2] at he
    exact hapart.1 (cons.inj he).1

lemma safeDataset_inj {d d' : List Char} (h : d.IsChain Apart) (h' : d'.IsChain Apart)
    (he : safeDataset d = safeDataset d') : d = d' := by
  induction d generalizing d' with
  | nil =>
    cases d' with
    | nil => rfl
    | cons c d' =>
      rw [safeDataset_cons] at he
      split_ifs at he <;> cases he
  | cons c d ih =>
    cases d' with
    | nil =>
      rw [safeDataset_cons] at he
      split_ifs at he <;> cases he
    | cons c' d' =>
      rw [safeDataset_cons, safeDataset_cons] at he
      split_ifs at he with hc hc' hc'
      · have htail : d = d' := ih h.tail h'.tail (append_cancel_left he)
        rw [hc, hc', htail]
      · obtain ⟨hunderscore, hrest⟩ := cons.inj he
        exact absurd hrest.symm (head_safeDataset (hunderscore ▸ h'))
      · obtain ⟨hunderscore, hrest⟩ := cons.inj he
        exact absurd hrest (head_safeDataset (hunderscore ▸ h))
      · obtain ⟨rfl, hrest⟩ := cons.inj he
        have htail : d = d' := ih h.tail h'.tail hrest
        rw [htail]

lemma delimited_inj {a b s t : List Char} (ha : ¬ ['-', '-'] <:+: a ++ ['-']) (hb : ¬ ['-', '-'] <:+: b ++ ['-'])
    (h : a ++ '-' :: '-' :: s = b ++ '-' :: '-' :: t) : a = b ∧ s = t := by
  have hle : ∀ {a b s t : List Char}, ¬ ['-', '-'] <:+: b ++ ['-'] →
      a ++ '-' :: '-' :: s = b ++ '-' :: '-' :: t → b.length ≤ a.length := by
    intro a b s t hb h
    by_contra hlt
    -- The hyphens behind the shorter id would be in the longer one.
    obtain ⟨r, rfl⟩ : a <+: b :=
      prefix_of_prefix_length_le (h ▸ prefix_append _ _) (prefix_append b _) (by omega)
    rw [append_assoc] at h
    have h := append_cancel_left h
    rcases r with _ | ⟨x, _ | ⟨y, r⟩⟩
    · simp at hlt
    · obtain ⟨rfl, -⟩ := cons.inj h
      exact hb ⟨a, [], by simp⟩
    · obtain ⟨rfl, hrest⟩ := cons.inj h
      obtain ⟨rfl, -⟩ := cons.inj hrest
      exact hb ⟨a, r ++ ['-'], by simp⟩
  obtain ⟨hab, hst⟩ := append_inj h (Nat.le_antisymm (hle ha h.symm) (hle hb h))
  exact ⟨hab, (cons.inj (cons.inj hst).2).2⟩

lemma toList_fileName (key : String × String) : (fileName key).toList =
    key.1.toList ++ '-' :: '-' :: (safeDataset key.2.toList ++ ".json".toList) := by
  simp [fileName]

lemma fileName_inj {key key'} (h : PlainKey key) (h' : PlainKey key') (he : fileName key = fileName key') :
    key = key' := by
  have hchars := congrArg String.toList he
  rw [toList_fileName, toList_fileName] at hchars
  obtain ⟨hid, hrest⟩ := delimited_inj h.delimited h'.delimited hchars
  exact Prod.ext (String.toList_inj.1 hid)
    (String.toList_inj.1 (safeDataset_inj h.apart h'.apart (append_cancel_right hrest)))

variable {store : CheckpointStore} {keys : Set (String × String)} {root : List String}

/-- A plain key has a file of its own in the root. -/
lemma place_eq (hserves : store.Serves root) {key} (h : PlainKey key) :
    store.place key = .ok (some (root ++ [fileName key])) := by
  have hslash : '/' ∉ (fileName key).toList := by
    rw [toList_fileName]
    simp only [mem_append, mem_cons, not_or]
    exact ⟨h.noSlash, by decide, by decide, fun hm => by simpa using mem_safeDataset hm, by decide⟩
  have hnul : '\x00' ∉ (fileName key).toList := by
    rw [toList_fileName]
    simp only [mem_append, mem_cons, not_or]
    refine ⟨h.noNul.1, by decide, by decide, fun hm => ?_, by decide⟩
    exact (mem_safeDataset hm).elim (by decide) fun hm => h.noNul.2 hm.2
  have hhyphen : '-' ∈ (fileName key).toList := by simp [toList_fileName]
  have hne : ∀ s : String, '-' ∉ s.toList → fileName key ≠ s := fun s hs he => hs (he ▸ hhyphen)
  have hpath : PyPath.ofText (fileName key) = ⟨false, [fileName key]⟩ := by
    rw [PyPath.ofText, splitOn_eq_singleton hslash]
    have hchars : (fileName key).toList ≠ [] ∧ (fileName key).toList ≠ ['.'] :=
      ⟨fun he => by simp [he] at hhyphen, fun he => by simp [he] at hhyphen⟩
    have hhead : (fileName key).toList.head? ≠ some '/' := fun he => hslash (mem_of_mem_head? he)
    simp [hchars, hhead]
  rw [place, pathFor, hpath]
  exact hserves.entry _ hslash hnul (hne _ (by decide)) (hne _ (by decide)) (hne _ (by decide)) h.short

/-- A place holds the last checkpoint that was written to it. -/
lemma run_eq (saves : List ConnectorCheckpoint) (place : List String) : store.run saves place =
    saves.reverse.find? fun c => (store.place c.key).toOption = some (some place) := by
  induction saves using List.reverseRecOn with
  | nil => rfl
  | append_singleton saves c ih =>
    rw [run, foldl_append, reverse_append, reverse_singleton, singleton_append, find?_cons]
    change store.save (store.run saves) c place = _
    rw [save]
    rcases hc : store.place c.key with e | (_ | place')
    · simpa [Except.toOption] using ih
    · simpa [Except.toOption] using ih
    · by_cases hp : place' = place
      · simp [Except.toOption, hp]
      · simpa [Except.toOption, hp, Function.update_of_ne (Ne.symm hp)] using ih

/-- Python `CheckpointStore`: a map on plain keys, with all files beneath the root. -/
theorem behavesAsMap_of_plain (hserves : store.Serves root) (hplain : ∀ key ∈ keys, PlainKey key) :
    store.BehavesAsMap keys := by
  refine ⟨fun saves hsaves key hkey => ?_, fun saves hsaves place hplace root' hroot' => ?_⟩
  · rw [load, place_eq hserves (hplain key hkey), lastSaved]
    refine congrArg Except.ok ?_
    rw [Option.bind_some, run_eq, ← head?_filter, ← head?_filter]
    refine congrArg head? (filter_congr fun c hc => decide_eq_decide.2 ⟨fun hc' => ?_, fun hc' => ?_⟩)
    · have hc := hplain _ (hsaves c (mem_reverse.1 hc))
      rw [place_eq hserves hc] at hc'
      have hname := append_cancel_left (Option.some.inj (Option.some.inj hc'))
      exact ⟨fileName_inj hc (hplain key hkey) (cons.inj hname).1, by
        simp [place_eq hserves (hplain key hkey), Except.toOption]⟩
    · rw [hc'.1, place_eq hserves (hplain key hkey)]
      rfl
  · rw [run_eq, Ne, find?_eq_none] at hplace
    push Not at hplace
    obtain ⟨c, hc, hc'⟩ := hplace
    have hc' := of_decide_eq_true hc'
    rw [place_eq hserves (hplain _ (hsaves c (mem_reverse.1 hc)))] at hc'
    cases hserves.root.symm.trans hroot'
    rw [← Option.some.inj (Option.some.inj hc')]
    exact prefix_append _ _

end CheckpointStore

/-- A store at `/srv/checkpoints`, in a system that finds every path with names of at most 255 bytes. -/
def srvStore : CheckpointStore where
  root := .ofText "/srv/checkpoints"
  find p := if p.parts.all (·.utf8ByteSize ≤ 255) then .ok (some (p.location [])) else .error ()

/-- Two connectors with two datasets each. -/
theorem behavesAsMap_of_plain_srv : srvStore.BehavesAsMap
    {key | key ∈ ([("git-hub", "a/b"), ("git-hub", "a_b"), ("drive", "a/b"), ("drive", "a")] :
      List (String × String))} := by
  have hserves : srvStore.Serves ["srv", "checkpoints"] := by
    refine ⟨rfl, fun name _ _ _ _ hup hshort => ?_⟩
    have hparts : (srvStore.root.join ⟨false, [name]⟩) = ⟨true, ["srv", "checkpoints", name]⟩ := rfl
    have hall : ["srv", "checkpoints", name].all (·.utf8ByteSize ≤ 255) = true := by
      simpa using ⟨by decide, by decide, hshort⟩
    have hlocation : PyPath.location [] ⟨true, ["srv", "checkpoints", name]⟩ =
        ["srv", "checkpoints"] ++ [name] := by
      simp [PyPath.location, PyPath.enter, hup]
    rw [hparts, ← hlocation]
    exact if_pos hall
  have hplain : ∀ key ∈ ([("git-hub", "a/b"), ("git-hub", "a_b"), ("drive", "a/b"), ("drive", "a")] :
      List (String × String)), ('/' ∉ key.1.toList) ∧ ('\x00' ∉ key.1.toList ∧ '\x00' ∉ key.2.toList) ∧
        (¬ ['-', '-'] <:+: key.1.toList ++ ['-']) ∧ key.2.toList.IsChain CheckpointStore.Apart ∧
        (fileName key).utf8ByteSize ≤ 255 := by
    decide +kernel
  refine CheckpointStore.behavesAsMap_of_plain hserves fun key hkey => ?_
  obtain ⟨hslash, hnul, hdelimited, hapart, hshort⟩ := hplain key hkey
  exact ⟨hslash, hnul, hdelimited, hapart, hshort⟩

/-- Two keys are one file, and a connector id can lead out of the root. -/
theorem checkpoints_collide :
    ¬srvStore.BehavesAsMap {key | key = ("a--b", "c") ∨ key = ("a", "b--c")} ∧
      ¬srvStore.BehavesAsMap {key | key = ("../a", "b")} := by
  refine ⟨fun h => ?_, fun h => ?_⟩
  · have hload := h.load_eq [⟨"", "a--b", "c", "", "", "", "", "", "", ""⟩]
      (forall_mem_singleton.2 (.inl rfl)) ("a", "b--c") (.inr rfl)
    have hsome := congrArg (fun r => r.toOption.map Option.isSome) hload
    revert hsome
    decide
  · have hout := h.beneath [⟨"", "../a", "b", "", "", "", "", "", "", ""⟩] (forall_mem_singleton.2 rfl)
      ["srv", "a--b.json"] (by decide) ["srv", "checkpoints"] rfl
    revert hout
    decide

end SocioWorkspace.Fabric
