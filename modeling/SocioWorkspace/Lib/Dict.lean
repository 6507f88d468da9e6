import SocioWorkspace.Lib.Json
import SocioWorkspace.Lib.SortedMap

/-!
# Decoded objects

A Python `dict` decoded from JSON, or built to be written as JSON, is a sorted map of values in normal form,
so that two dicts are equal as Lean values exactly when Python's `==` holds between them.
-/

namespace SocioWorkspace
open Json List

@[ext]
structure Value where
  json : Json
  normal : json.normal = true
deriving DecidableEq

abbrev Dict := SortedMap String Value

variable {members : List (String × Json)}

lemma normalMembers_iff : normalMembers members = true ↔ ∀ m ∈ members, m.2.normal = true := by
  induction members with
  | nil => simp [normalMembers]
  | cons m rest ih =>
    obtain ⟨k, x⟩ := m
    simp [normalMembers, ih]

lemma normal_obj_iff : (obj members).normal = true ↔
    (members.map Prod.fst).Pairwise (· < ·) ∧ ∀ m ∈ members, m.2.normal = true := by
  simp [normal, normalMembers_iff]

namespace Dict

def raw (d : Dict) : List (String × Json) := d.members.map fun m => (m.1, m.2.json)

lemma raw_injective : Function.Injective raw := by
  intro ⟨ma, _⟩ ⟨mb, _⟩ h
  congr 1
  refine map_injective_iff.mpr ?_ h
  intro ⟨k, v⟩ ⟨k', v'⟩ e
  cases v
  cases v'
  cases e
  rfl

lemma normal_raw (d : Dict) : (obj d.raw).normal = true := by
  refine normal_obj_iff.mpr ⟨?_, ?_⟩
  · rw [raw, map_map]
    exact d.sorted
  · intro m hm
    obtain ⟨m', _, rfl⟩ := mem_map.mp hm
    exact m'.2.normal

end Dict

namespace Value

def null : Value := ⟨.null, rfl⟩
def bool (b : Bool) : Value := ⟨.bool b, rfl⟩
def str (s : String) : Value := ⟨.str s, rfl⟩
def int (n : Int) : Value := ⟨.num (.int n), rfl⟩
def float (f : FloatLit) : Value := ⟨.num (.float f), rfl⟩
def dict (d : Dict) : Value := ⟨.obj d.raw, d.normal_raw⟩

def truthy (v : Value) : Bool :=
  match v.json with
  | .null => false
  | .bool b => b
  | .num (.int n) => n ≠ 0
  | .num (.float f) => f.text ≠ ['0', '.', '0'] ∧ f.text ≠ ['-', '0', '.', '0']
  | .str s => s ≠ ""
  | .arr elems => !elems.isEmpty
  | .obj members => !members.isEmpty

/-- The dict that a value is, if it is one (Python `isinstance(v, dict)`). -/
def asDict : Value → Option Dict
  | ⟨.obj members, h⟩ => some
      ⟨members.attach.map fun m => (m.1.1, ⟨m.1.2, (normal_obj_iff.mp h).2 m.1 m.2⟩), by
        have e : members.attach.map (fun m => m.1.1) = members.map Prod.fst :=
          List.attach_map_val (f := Prod.fst)
        rw [List.map_map]
        show (members.attach.map (fun m => m.1.1)).Pairwise (· < ·)
        rw [e]
        exact (normal_obj_iff.mp h).1⟩
  | _ => none

lemma normalElems_iff {elems} : normalElems elems = true ↔ ∀ x ∈ elems, x.normal = true := by
  induction elems with
  | nil => simp [normalElems]
  | cons x rest ih => simp [normalElems, ih]

def list (vs : List Value) : Value where
  json := .arr (vs.map (·.json))
  normal := by
    refine normalElems_iff.mpr fun x hx => ?_
    obtain ⟨v, _, rfl⟩ := List.mem_map.mp hx
    exact v.normal

/-- The list that a value is, if it is one (Python `isinstance(v, list)`). -/
def asList : Value → Option (List Value)
  | ⟨.arr elems, h⟩ => some (elems.attach.map fun x => ⟨x.1, normalElems_iff.mp h x.1 x.2⟩)
  | _ => none

/-- What iterating over a value yields (Python `for x in v`): elements, keys or characters. -/
def iterate : Value → Option (List Value)
  | ⟨.arr elems, h⟩ => some (elems.attach.map fun x => ⟨x.1, normalElems_iff.mp h x.1 x.2⟩)
  | ⟨.obj members, _⟩ => some (members.map fun m => str m.1)
  | ⟨.str s, _⟩ => some (s.toList.map fun c => str (.singleton c))
  | _ => none

/-- The value is the given text (Python `v == s` for a string `s`). -/
def isStr (v : Value) (s : String) : Bool :=
  match v.json with
  | .str t => t = s
  | _ => false

lemma isStr_iff {v s} : v.isStr s = true ↔ v = str s := by
  rw [Value.ext_iff]
  unfold isStr str
  cases v.json <;> simp

lemma str_inj {s t} (h : str s = str t) : s = t := str.inj (congrArg Value.json h)

lemma str_injective : Function.Injective str := fun _ _ => str_inj

lemma dict_inj {a b} (h : dict a = dict b) : a = b := Dict.raw_injective (obj.inj (congrArg Value.json h))

@[simp] lemma asDict_dict (d : Dict) : (dict d).asDict = some d := by
  refine congrArg some (Dict.raw_injective ?_)
  show map _ (map _ d.raw.attach) = d.raw
  rw [map_map]
  exact (attach_map_val (f := id)).trans (map_id _)

@[simp] lemma asList_list (vs : List Value) : (list vs).asList = some vs := by
  refine congrArg some ?_
  have hval : Function.Injective Value.json := fun a b h => Value.ext h
  refine hval.list_map ?_
  rw [map_map]
  exact (attach_map_val (f := id)).trans (map_id _)

end Value

end SocioWorkspace
