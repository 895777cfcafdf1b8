namespace UnitPipeline

-- A table with one value a key. Keys stand in the order of their first put;
-- a later put for the same key replaces the value where it stands.
structure KeyedTable (κ ν : Type) where
  entries : List (κ × ν) := []
  deriving DecidableEq, Repr

namespace KeyedTable
variable {κ ν : Type} [DecidableEq κ]

def get? (t : KeyedTable κ ν) (k : κ) : Option ν :=
  (t.entries.find? fun e => e.1 = k).map (·.2)

def contains (t : KeyedTable κ ν) (k : κ) : Bool := (t.get? k).isSome

def putIn (k : κ) (v : ν) : List (κ × ν) → List (κ × ν)
  | [] => [(k, v)]
  | e :: rest => if e.1 = k then (k, v) :: rest else e :: putIn k v rest

def put (t : KeyedTable κ ν) (k : κ) (v : ν) : KeyedTable κ ν := ⟨putIn k v t.entries⟩

def erase (t : KeyedTable κ ν) (k : κ) : KeyedTable κ ν :=
  ⟨t.entries.filter fun e => e.1 ≠ k⟩

def keys (t : KeyedTable κ ν) : List κ := t.entries.map (·.1)

def length (t : KeyedTable κ ν) : Nat := t.entries.length

def isEmpty (t : KeyedTable κ ν) : Bool := t.entries.isEmpty

theorem find_putIn (k q : κ) (v : ν) (entries : List (κ × ν)) :
    ((putIn k v entries).find? fun e => e.1 = q).map (·.2) =
      if k = q then some v else (entries.find? fun e => e.1 = q).map (·.2) := by
  induction entries with
  | nil => by_cases equal : k = q <;> simp [putIn, equal]
  | cons e rest ih =>
    by_cases here : e.1 = k
    · by_cases equal : k = q
      · simp [putIn, here, equal]
      · have other : e.1 ≠ q := fun h => equal (here.symm.trans h)
        simp [putIn, here, equal]
    · by_cases found : e.1 = q
      · have other : k ≠ q := fun h => here (found.trans h.symm)
        have apart : ¬ q = k := fun h => other h.symm
        simp [putIn, found, other, apart]
      · simp [putIn, here, found, ih]

theorem get?_put (t : KeyedTable κ ν) (k q : κ) (v : ν) :
    (t.put k v).get? q = if k = q then some v else t.get? q :=
  find_putIn k q v t.entries

theorem get?_erase (t : KeyedTable κ ν) (k q : κ) :
    (t.erase k).get? q = if k = q then none else t.get? q := by
  rcases t with ⟨entries⟩
  induction entries with
  | nil => simp [erase, get?]
  | cons e rest ih =>
    simp only [erase, get?] at ih ⊢
    by_cases here : e.1 = k
    · by_cases equal : k = q
      · simp [here, equal]
      · have other : e.1 ≠ q := fun h => equal (here.symm.trans h)
        simpa [here, equal, other] using ih
    · by_cases found : e.1 = q
      · have other : k ≠ q := fun h => here (found.trans h.symm)
        have apart : ¬ q = k := fun h => other h.symm
        simp [found, other, apart]
      · simpa [here, found] using ih

theorem putIn_new (v : ν) {entries : List (κ × ν)} (new : k ∉ entries.map (·.1)) :
    putIn k v entries = entries ++ [(k, v)] := by
  induction entries with
  | nil => rfl
  | cons e rest ih =>
    obtain ⟨other, absent⟩ := not_or.mp (mt List.mem_cons.mpr new)
    rw [putIn, if_neg (Ne.symm other), ih absent, List.cons_append]

theorem put_all (t : KeyedTable κ ν) {entries : List (κ × ν)}
    (distinct : (t.keys ++ entries.map (·.1)).Nodup) :
    entries.foldl (fun t e => t.put e.1 e.2) t = ⟨t.entries ++ entries⟩ := by
  induction entries generalizing t with
  | nil => simp
  | cons e rest ih =>
    have new : e.1 ∉ t.keys := by
      intro known
      exact (List.nodup_append.mp distinct).2.2 _ known _ List.mem_cons_self rfl
    have next : t.put e.1 e.2 = ⟨t.entries ++ [e]⟩ := congrArg KeyedTable.mk (putIn_new e.2 new)
    rw [List.foldl_cons, next, ih]
    · simp
    · simpa [keys] using distinct

def without (t : KeyedTable κ ν) (gone : List κ) : KeyedTable κ ν :=
  ⟨t.entries.filter fun e => e.1 ∉ gone⟩

theorem without_nil (t : KeyedTable κ ν) : t.without [] = t :=
  congrArg KeyedTable.mk (List.filter_eq_self.mpr (by simp))

theorem erase_without (t : KeyedTable κ ν) (gone : List κ) (k : κ) :
    (t.without gone).erase k = t.without (gone ++ [k]) := by
  simp [without, erase, List.filter_filter, and_comm]

theorem get?_without (t : KeyedTable κ ν) (stays : k ∉ gone) :
    (t.without gone).get? k = t.get? k := by
  simp only [get?, without, List.find?_filter]
  refine congrArg (Option.map _) (congrArg (List.find? · t.entries) (funext fun e => ?_))
  by_cases here : e.1 = k
  · simp [here, stays]
  · simp [here]

theorem without_all (t : KeyedTable κ ν) (all : ∀ k ∈ t.keys, k ∈ gone) :
    t.without gone = {} := by
  refine congrArg KeyedTable.mk (List.filter_eq_nil_iff.mpr fun e inside => ?_)
  simpa using all e.1 (List.mem_map_of_mem inside)

end KeyedTable

end UnitPipeline
