import SocioWorkspace.Lib.Basic
import SocioWorkspace.Lib.PyValue

/-!
# JSON documents and comparisons

The `json` module and the comparisons of decoded values. What a text without a value raises, and how values
that are not texts compare, is left to the implementation (`JsonCodec`, `Compare`).
-/

namespace SocioWorkspace

namespace Value

def asStr (v : Value) : Option String :=
  match v.json with
  | .str s => some s
  | _ => none

@[simp] lemma asStr_str (s : String) : (str s).asStr = some s := rfl

lemma asStr_eq_some {v s} : v.asStr = some s ↔ v = str s := by
  rw [Value.ext_iff]
  unfold asStr str
  cases v.json <;> simp

/-- A member of a set can be anything but a list or a dict. -/
def hashable (v : Value) : Bool :=
  match v.json with
  | .arr _ => false
  | .obj _ => false
  | _ => true

end Value

namespace Python

/-- Python `json.dumps(v, sort_keys=True).encode()` and `json.loads`. -/
structure JsonCodec (B : Type) where
  dumps : Value → B
  loads : B → Except PyError Value
  loads_dumps : ∀ v, loads (dumps v) = .ok v

/-- Python `==` of two members of tuples, `>`, and `sorted` of a set. -/
structure Compare where
  eq : Value → Value → Except PyError Bool
  gt : Value → Value → Except PyError Bool
  sorted : Finset Value → Except PyError (List Value)
  eq_str : ∀ s t : String, eq (.str s) (.str t) = .ok (s = t)
  gt_str : ∀ s t : String, gt (.str s) (.str t) = .ok (t < s)
  sorted_str : ∀ S : Finset String, sorted (S.image .str) = .ok ((S.sort (· ≤ ·)).map .str)
  sorted_singleton : ∀ v, sorted {v} = .ok [v]
  /-- A text and something else do not compare. -/
  sorted_texts : ∀ S l (s : String), sorted S = .ok l → .str s ∈ S → ∀ v ∈ S, ∃ t : String, v = .str t

/-- Python `v[k]` for a text `k`. -/
def item (v : Value) (k : String) : Except PyError Value :=
  match v.asDict with
  | none => .error .type
  | some d => orRaise .key (d.get? k)

/-- Python `list(v)`. -/
def toList (v : Value) : Except PyError (List Value) := orRaise .type v.iterate

/-- Python `set(v)`. -/
def toSet (v : Value) : Except PyError (Finset Value) := do
  let vs ← toList v
  if vs.all Value.hashable then return vs.toFinset else throw .type

lemma item_ofList {members} (nodup : (members.map Prod.fst).Nodup)
    {k v} (h : (k, v) ∈ members) : item (.dict (.ofList members)) k = .ok v := by
  rw [item, Value.asDict_dict]
  exact congrArg (orRaise .key) ((SortedMap.get?_ofList_eq_some nodup).2 h)

lemma toList_list (vs : List Value) : toList (.list vs) = .ok vs :=
  congrArg (orRaise .type) (Value.asList_list vs)

lemma toSet_of_texts {v} {texts : List String} (h : toList v = .ok (texts.map .str)) :
    toSet v = .ok (texts.toFinset.image .str) := by
  have hall : ((texts.map Value.str).all Value.hashable) = true := by
    rw [List.all_map]
    exact List.all_eq_true.2 fun s _ => rfl
  rw [toSet, h]
  refine Eq.trans (if_pos hall) ?_
  refine congrArg Except.ok (Finset.ext fun v => ?_)
  simp

lemma toSet_list_str (texts : List String) :
    toSet (.list (texts.map .str)) = .ok (texts.toFinset.image .str) :=
  toSet_of_texts (toList_list _)

lemma toSet_dict (d : Dict) : toSet (.dict d) = .ok (d.keys.toFinset.image .str) := by
  refine toSet_of_texts (congrArg Except.ok ?_)
  rw [Dict.raw, List.map_map, SortedMap.keys, List.map_map]
  rfl

/-- The canonical text; any other bytes are no JSON. -/
noncomputable def textJson : JsonCodec ByteArray where
  dumps v := (String.ofList v.json.print).toByteArray
  loads b :=
    have := Classical.dec (∃ v : Value, (String.ofList v.json.print).toByteArray = b)
    if h : ∃ v : Value, (String.ofList v.json.print).toByteArray = b then .ok h.choose
    else .error .value
  loads_dumps v := by
    have h : ∃ w : Value, (String.ofList w.json.print).toByteArray =
        (String.ofList v.json.print).toByteArray := ⟨v, rfl⟩
    rw [dif_pos h]
    refine congrArg Except.ok (Value.ext (Json.print_injective ?_))
    exact String.ofList_injective (String.toByteArray_inj.1 h.choose_spec)

def valueCodec : JsonCodec Value := ⟨id, .ok, fun _ => rfl⟩

def onlyMember (S : Finset Value) : Option Value :=
  Quotient.liftOn S.val (fun l => if l.length = 1 then l.head? else none) fun l l' (h : l.Perm l') => by
    rw [h.length_eq]
    split_ifs with hone
    · obtain ⟨v, rfl⟩ := List.length_eq_one_iff.1 hone
      rw [List.perm_singleton.1 h]
    · rfl

def textCompare : Compare where
  eq v w := .ok (v = w)
  gt v w :=
    match v.asStr, w.asStr with
    | some s, some t => .ok (t < s)
    | _, _ => .error .type
  sorted S :=
    if ∀ v ∈ S, v.asStr.isSome then
      .ok (((S.image fun v => v.asStr.getD "").sort (· ≤ ·)).map .str)
    else (onlyMember S).elim (.error .type) fun v => .ok [v]
  eq_str s t := by
    have hiff : Value.str s = Value.str t ↔ s = t := ⟨Value.str_inj, congrArg _⟩
    rw [decide_eq_decide.2 hiff]
  gt_str s t := rfl
  sorted_str S := by
    have hall : ∀ v ∈ S.image Value.str, v.asStr.isSome := by
      intro v hv
      obtain ⟨s, -, rfl⟩ := Finset.mem_image.1 hv
      rfl
    have hback : (S.image Value.str).image (fun v => v.asStr.getD "") = S := by
      rw [Finset.image_image]
      exact Finset.image_id
    rw [if_pos hall, hback]
  sorted_singleton v := by
    split_ifs with hall
    · obtain ⟨s, hs⟩ := Option.isSome_iff_exists.1 (hall v (Finset.mem_singleton_self v))
      rw [Finset.image_singleton, Finset.sort_singleton, hs, Value.asStr_eq_some.1 hs]
      rfl
    · rfl
  sorted_texts S l s h hs v hv := by
    split_ifs at h with hall
    · obtain ⟨t, ht⟩ := Option.isSome_iff_exists.1 (hall v hv)
      exact ⟨t, Value.asStr_eq_some.1 ht⟩
    · cases honly : onlyMember S with
      | none =>
        rw [honly] at h
        cases h
      | some w =>
        -- A set of one text is one of texts.
        obtain ⟨S, hnodup⟩ := S
        induction S using Quotient.inductionOn with
        | h l =>
          have hone : l.length = 1 := by
            by_contra hone
            exact absurd ((if_neg hone).symm.trans honly) (by simp)
          obtain ⟨u, rfl⟩ := List.length_eq_one_iff.1 hone
          exact ⟨s, (List.mem_singleton.1 hv).trans (List.mem_singleton.1 hs).symm⟩

end Python

end SocioWorkspace
