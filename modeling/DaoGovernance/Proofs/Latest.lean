import Mathlib

/-!
Lists in which a later member replaces the earlier ones of its key.
-/

namespace DaoGovernance

variable {α κ ν : Type} [DecidableEq κ] {key : α → κ} {value : α → ν} {as : List α}

def latest (key : α → κ) : List α → List α
  | [] => []
  | a :: as => if key a ∈ as.map key then latest key as else a :: latest key as

def overwrite (key : α → κ) (value : α → ν) (f : κ → Option ν) : List α → κ → Option ν
  | [] => f
  | a :: as => overwrite key value (Function.update f (key a) (some (value a))) as

theorem latest_sublist (key : α → κ) (as : List α) : (latest key as).Sublist as := by
  induction as with
  | nil => exact .slnil
  | cons a as ih =>
    rw [latest]
    split
    · exact ih.cons a
    · exact ih.cons_cons a

theorem mem_map_latest {k : κ} : k ∈ (latest key as).map key ↔ k ∈ as.map key := by
  induction as with
  | nil => exact Iff.rfl
  | cons a as ih =>
    rw [latest, List.map_cons, List.mem_cons]
    split
    · rename_i ha
      rw [ih]
      constructor
      · exact .inr
      · rintro (rfl | hk)
        · exact ha
        · exact hk
    · rw [List.map_cons, List.mem_cons, ih]

theorem nodup_map_latest (key : α → κ) (as : List α) : ((latest key as).map key).Nodup := by
  induction as with
  | nil => exact .nil
  | cons a as ih =>
    rw [latest]
    split
    · exact ih
    · rename_i ha
      rw [List.map_cons, List.nodup_cons, mem_map_latest]
      exact ⟨ha, ih⟩

theorem latest_eq_self (h : (as.map key).Nodup) : latest key as = as := by
  induction as with
  | nil => rfl
  | cons a as ih =>
    rw [List.map_cons, List.nodup_cons] at h
    rw [latest, if_neg h.1, ih h.2]

theorem latest_perm_iff : (latest key as).Perm as ↔ (as.map key).Nodup := by
  constructor
  · intro h
    have hs := (latest_sublist key as).eq_of_length h.length_eq
    have hn := nodup_map_latest key as
    rwa [hs] at hn
  · intro h
    rw [latest_eq_self h]

theorem overwrite_eq_some {f : κ → Option ν} {k : κ} {v : ν} :
    overwrite key value f as k = some v ↔
      (∃ a ∈ latest key as, key a = k ∧ value a = v) ∨ (k ∉ as.map key ∧ f k = some v) := by
  induction as generalizing f with
  | nil => simp [overwrite, latest]
  | cons a as ih =>
    have absent : k ∉ as.map key → ¬ ∃ b ∈ latest key as, key b = k ∧ value b = v := by
      rintro hk ⟨b, hb, rfl, -⟩
      exact hk (mem_map_latest.1 (List.mem_map_of_mem hb))
    rw [overwrite, ih, latest, List.map_cons, List.mem_cons]
    by_cases hk : k ∈ as.map key
    · by_cases ha : key a ∈ as.map key
      · simp [ha, hk]
      · have hne : key a ≠ k := by
          rintro rfl
          exact ha hk
        simp [ha, hk, hne]
    · by_cases hak : k = key a
      · subst hak
        simp [hk, absent hk]
      · split <;> simp [hk, hak, Ne.symm hak, absent hk]

end DaoGovernance
