import DaoGovernance.KeyOrder

/-!
Finite maps as lists of entries in strictly ascending key order.  Insertion changes the value at
one key only, and two maps with the same values at all keys have the same entries.
-/

namespace DaoGovernance

structure SortedMap (κ ν : Type) [KeyOrder κ] where
  entries : List (κ × ν)
  sorted : entries.Pairwise fun e f => KeyOrder.before e.1 f.1 = true

namespace SortedMap

open KeyOrder

variable {κ ν : Type} [KeyOrder κ]

def lookup (k : κ) : List (κ × ν) → Option ν
  | [] => none
  | (k', v) :: es => if same k' k then some v else lookup k es

def put (k : κ) (v : ν) : List (κ × ν) → List (κ × ν)
  | [] => [(k, v)]
  | (k', v') :: es =>
    if before k k' then (k, v) :: (k', v') :: es
    else if before k' k then (k', v') :: put k v es
    else (k, v) :: es

theorem key_of_mem_put {k : κ} {v : ν} {es : List (κ × ν)} {e : κ × ν} (h : e ∈ put k v es) :
    e = (k, v) ∨ e ∈ es := by
  induction es with
  | nil => simpa [put] using h
  | cons f es ih =>
    simp only [put] at h
    split at h
    · simpa using h
    · split at h
      · rcases List.mem_cons.1 h with rfl | h
        · exact .inr (by simp)
        · rcases ih h with rfl | h
          · exact .inl rfl
          · exact .inr (by simp [h])
      · rcases List.mem_cons.1 h with rfl | h
        · exact .inl rfl
        · exact .inr (by simp [h])

theorem put_sorted (k : κ) (v : ν) {es : List (κ × ν)}
    (h : es.Pairwise fun e f => before e.1 f.1 = true) :
    (put k v es).Pairwise fun e f => before e.1 f.1 = true := by
  induction es with
  | nil => simp [put]
  | cons e es ih =>
    rw [List.pairwise_cons] at h
    simp only [put]
    split
    · rename_i hk
      refine List.pairwise_cons.2 ⟨fun f hf => ?_, List.pairwise_cons.2 h⟩
      rcases List.mem_cons.1 hf with rfl | hf
      · exact hk
      · exact trans hk (h.1 f hf)
    · rename_i hk
      split
      · rename_i hk'
        refine List.pairwise_cons.2 ⟨fun f hf => ?_, ih h.2⟩
        rcases key_of_mem_put hf with rfl | hf
        · exact hk'
        · exact h.1 f hf
      · rename_i hk'
        obtain rfl := trichotomy (Bool.eq_false_iff.2 hk) (Bool.eq_false_iff.2 hk')
        exact List.pairwise_cons.2 h

def empty : SortedMap κ ν := ⟨[], .nil⟩

def insert (m : SortedMap κ ν) (k : κ) (v : ν) : SortedMap κ ν :=
  ⟨put k v m.entries, put_sorted k v m.sorted⟩

def get? (m : SortedMap κ ν) (k : κ) : Option ν := lookup k m.entries

def contains (m : SortedMap κ ν) (k : κ) : Bool := (m.get? k).isSome

def keys (m : SortedMap κ ν) : List κ := m.entries.map Prod.fst

def size (m : SortedMap κ ν) : Nat := m.entries.length

def isEmpty (m : SortedMap κ ν) : Bool := m.entries.isEmpty

instance : Inhabited (SortedMap κ ν) := ⟨empty⟩

theorem ext {m n : SortedMap κ ν} (h : m.entries = n.entries) : m = n := by
  cases m
  cases n
  simp_all

@[simp] theorem entries_empty : (empty : SortedMap κ ν).entries = [] := rfl

@[simp] theorem get?_empty (k : κ) : (empty : SortedMap κ ν).get? k = none := rfl

theorem lookup_put (k k' : κ) (v : ν) {es : List (κ × ν)} :
    lookup k' (put k v es) = if same k k' then some v else lookup k' es := by
  induction es with
  | nil => simp [put, lookup]
  | cons e es ih =>
    simp only [put]
    split
    · simp only [lookup]
    · rename_i hk
      split
      · rename_i hk'
        simp only [lookup, ih]
        by_cases he : same e.1 k' = true
        · obtain rfl := same_iff.1 he
          have : same k e.1 = false := by
            rw [Bool.eq_false_iff, Ne, same_iff]
            exact (ne_of_before hk').symm
          simp [this]
        · simp [he]
      · rename_i hk'
        obtain rfl := trichotomy (Bool.eq_false_iff.2 hk) (Bool.eq_false_iff.2 hk')
        simp only [lookup]
        split <;> rfl

theorem get?_insert (m : SortedMap κ ν) (k k' : κ) (v : ν) :
    (m.insert k v).get? k' = if same k k' then some v else m.get? k' :=
  lookup_put k k' v

@[simp] theorem get?_insert_self (m : SortedMap κ ν) (k : κ) (v : ν) :
    (m.insert k v).get? k = some v := by
  simp [get?_insert]

theorem get?_insert_of_ne (m : SortedMap κ ν) {k k' : κ} (v : ν) (h : k ≠ k') :
    (m.insert k v).get? k' = m.get? k' := by
  rw [get?_insert, if_neg (by simpa using h)]

theorem lookup_eq_some_iff {k : κ} {v : ν} {es : List (κ × ν)}
    (h : es.Pairwise fun e f => before e.1 f.1 = true) : lookup k es = some v ↔ (k, v) ∈ es := by
  induction es with
  | nil => simp [lookup]
  | cons e es ih =>
    rw [List.pairwise_cons] at h
    simp only [lookup, List.mem_cons]
    by_cases he : same e.1 k = true
    · obtain rfl := same_iff.1 he
      have : (e.1, v) ∉ es := fun hm => by simpa [KeyOrder.irrefl] using h.1 _ hm
      simp [this, Prod.ext_iff, eq_comm]
    · rw [if_neg he, ih h.2]
      have : (k, v) ≠ e := by
        rintro rfl
        simp at he
      simp [this]

theorem get?_eq_some_iff (m : SortedMap κ ν) {k : κ} {v : ν} :
    m.get? k = some v ↔ (k, v) ∈ m.entries :=
  lookup_eq_some_iff m.sorted

end SortedMap

end DaoGovernance
