import DaoGovernance.Label
import DaoGovernance.Proofs.Store.View
import DaoGovernance.Registry
import Mathlib

/-!
Labels in normal form.  Normalising twice is normalising once, and a normalised label that passes the
check is one of the labels that may be registered.  The registry permits what was permitted before
and the label that is added.
-/

namespace DaoGovernance

namespace Text

variable {p : Char → Bool}

theorem strip_strip (p : Char → Bool) (cs : List Char) : strip p (strip p cs) = strip p cs := by
  -- What is left keeps the front that the first pass found.
  have hfront : (strip p cs).dropWhile p = strip p cs := by
    obtain ⟨t, ht⟩ := List.rdropWhile_prefix p (cs.dropWhile p)
    change strip p cs ++ t = cs.dropWhile p at ht
    cases hs : strip p cs with
    | nil => rfl
    | cons c cs' =>
      rw [hs] at ht
      have hc := List.head?_dropWhile_not p cs
      rw [← ht] at hc
      simp only [List.cons_append, List.head?_cons] at hc
      exact List.dropWhile_cons_of_neg (by simp [hc])
  rw [strip, hfront]
  exact List.rdropWhile_idempotent p (cs.dropWhile p)

theorem strip_map {f : Char → Char} (h : ∀ c, p (f c) = p c) (cs : List Char) :
    strip p (cs.map f) = (strip p cs).map f := by
  have hp : p ∘ f = p := funext h
  simp only [strip, List.dropWhile_map, hp, ← List.map_reverse]

end Text

namespace Label

theorem toLower_eq_dot (c : Char) : decide (c.toLower = '.') = decide (c = '.') := by
  rw [decide_eq_decide, Char.toLower]
  split
  · rename_i h
    refine iff_of_false (fun hc => ?_) ?_
    · have hv := congrArg Char.toNat hc
      simp only [Char.toNat, UInt32.le_iff_toNat_le] at h hv
      rw [UInt32.toNat_add] at hv
      have : ('.' : Char).val.toNat = 46 := rfl
      have : ('A' : Char).val.toNat = 65 := rfl
      have : ('Z' : Char).val.toNat = 90 := rfl
      have : ('a'.val - 'A'.val).toNat = 32 := rfl
      omega
    · rintro rfl
      exact absurd h (by decide)
  · rfl

theorem normalize_normalize (l : String) : normalize (normalize l) = normalize l := by
  simp only [normalize, Text.lower, String.toList_ofList]
  rw [Text.strip_map toLower_eq_dot, Text.strip_strip, List.map_map]
  refine congrArg String.ofList (List.map_congr_left fun c _ => ?_)
  simp

structure Registrable (l : String) : Prop where
  size : 1 ≤ l.utf8ByteSize ∧ l.utf8ByteSize ≤ 63
  chars : ∀ c ∈ l.toList, 'a' ≤ c ∧ c ≤ 'z' ∨ '0' ≤ c ∧ c ≤ '9' ∨ c = '-'
  ends : l.toList.head? ≠ some '-' ∧ l.toList.getLast? ≠ some '-'
  free : l ∉ reserved
  normal : normalize l = l

theorem isLabelChar_eq_true {c : Char} (h : isLabelChar c = true) :
    'a' ≤ c ∧ c ≤ 'z' ∨ '0' ≤ c ∧ c ≤ '9' ∨ c = '-' := by
  simp only [isLabelChar, Char.isLower, Char.isDigit, Bool.or_eq_true, Bool.and_eq_true,
    decide_eq_true_eq] at h
  simpa only [Char.le_def, or_assoc] using h

theorem registrable_of_check {l : String} (h : check l = .ok ()) (hn : normalize l = l) :
    Registrable l := by
  simp only [check] at h
  split_ifs at h with hempty hlong hchars hends hreserved
  refine ⟨⟨?_, Nat.le_of_not_lt hlong⟩, fun c hc => isLabelChar_eq_true ?_, ?_, fun hl => ?_, hn⟩
  · rw [Nat.one_le_iff_ne_zero, Ne, String.utf8ByteSize_eq_zero_iff]
    rintro rfl
    exact hempty rfl
  · simp only [Bool.not_eq_true', Bool.not_eq_false, List.all_eq_true] at hchars
    exact hchars c hc
  · simpa [not_or] using hends
  · rw [isReserved, hn, List.contains_iff_mem] at hreserved
    exact hreserved hl

end Label

/-! ### The registry -/

namespace Registry

variable {r r' : Registry} {l : String} {e : RegistryError}

theorem isPermitted_iff : r.isPermitted l = true ↔ l ∈ r.labels := by
  simp only [isPermitted, SortedMap.contains, Option.isSome_iff_exists, SortedMap.get?_eq_some_iff,
    labels, SortedMap.keys, List.mem_map, Prod.exists, exists_and_right, exists_eq_right]

theorem nodup_labels (r : Registry) : r.labels.Nodup := r.permitted.ascending.nodup_keys

theorem isPermitted_preload (r : Registry) (l l' : String) :
    (r.preload l).isPermitted l' = true ↔ l' = l ∨ r.isPermitted l' = true := by
  simp only [isPermitted, preload, SortedMap.contains, SortedMap.get?_insert_eq,
    Function.update_apply]
  split <;> simp [*]

theorem permit_eq_ok (h : r.permit l = .ok r') : r.isPermitted l = false ∧ r' = r.preload l := by
  unfold permit at h
  split at h
  · cases h
  · split at h
    · cases h
    · rename_i hn
      cases h
      exact ⟨Bool.eq_false_iff.2 hn, rfl⟩

theorem isPermitted_of_permit {l' : String} (h : r.permit l = .error (.alreadyPermitted l')) :
    r.isPermitted l = true := by
  unfold permit at h
  split at h
  · cases h
  · split at h
    · assumption
    · cases h

end Registry

end DaoGovernance
