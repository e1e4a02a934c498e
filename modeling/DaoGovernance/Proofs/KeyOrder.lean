import DaoGovernance.KeyOrder
import Mathlib

/-!
Lists in strictly ascending order of their keys, and the order of lists that are put together from
parts.
-/

namespace DaoGovernance

open KeyOrder (before same)

variable {α β κ ι : Type} [KeyOrder κ] [KeyOrder ι]

/-! ### Ascending lists -/

abbrev Precedes (key : α → κ) (a b : α) : Prop := before (key a) (key b) = true

instance (key : α → κ) : Std.Irrefl (Precedes key) := ⟨fun a => by simp [KeyOrder.irrefl]⟩

instance (key : α → κ) : IsTrans α (Precedes key) := ⟨fun _ _ _ => KeyOrder.trans⟩

def Ascending (key : α → κ) (as : List α) : Prop := as.Pairwise (Precedes key)

namespace Ascending

variable {key : α → κ} {as bs : List α}

theorem eq_of_mem_iff (ha : Ascending key as) (hb : Ascending key bs)
    (h : ∀ a, a ∈ as ↔ a ∈ bs) : as = bs :=
  List.Pairwise.eq_of_mem_iff ha hb h

theorem keys_iff : Ascending id (as.map key) ↔ Ascending key as := by
  rw [Ascending, List.pairwise_map]
  rfl

theorem nodup_keys (h : Ascending key as) : (as.map key).Nodup := by
  rw [List.Nodup, List.pairwise_map]
  exact List.Pairwise.imp KeyOrder.ne_of_before h

theorem sublist (h : Ascending key as) (hs : bs.Sublist as) : Ascending key bs :=
  List.Pairwise.sublist hs h

theorem map {f : α → β} {key' : β → ι} (h : Ascending key as)
    (hf : ∀ a ∈ as, ∀ b ∈ as, before (key a) (key b) = true →
      before (key' (f a)) (key' (f b)) = true) :
    Ascending key' (as.map f) := by
  rw [Ascending, List.pairwise_map]
  exact List.Pairwise.imp_of_mem (fun {a b} ha hb => hf a ha b hb) h

end Ascending

/-! ### Parts -/

namespace KeyOrder

theorem before_pair (a b : κ) (c d : ι) :
    before (a, c) (b, d) = (before a b || (same a b && before c d)) := rfl

theorem before_cons (a b : κ) (as bs : List κ) :
    before (a :: as) (b :: bs) = (before a b || (same a b && before as bs)) := rfl

theorem same_cons (a b : κ) (as bs : List κ) :
    same (a :: as) (b :: bs) = (same a b && same as bs) := by
  rw [Bool.eq_iff_iff]
  simp

theorem before_append {as bs : List κ} (h : as.length = bs.length) (cs ds : List κ) :
    before (as ++ cs) (bs ++ ds) = before (as, cs) (bs, ds) := by
  induction as generalizing bs with
  | nil =>
    obtain rfl := List.eq_nil_of_length_eq_zero h.symm
    simp [before_pair, KeyOrder.irrefl]
  | cons a as ih =>
    cases bs with
    | nil => cases h
    | cons b bs =>
      rw [List.cons_append, List.cons_append, before_cons, ih (Nat.succ.inj h), before_pair,
        before_pair, before_cons, same_cons, Bool.and_or_distrib_left, Bool.or_assoc,
        Bool.and_assoc]

theorem before_map {P : ι → Prop} {f : ι → κ} {as bs : List ι}
    (hf : ∀ a b, P a → P b → before (f a) (f b) = before a b) (ha : ∀ a ∈ as, P a)
    (hb : ∀ b ∈ bs, P b) : before (as.map f) (bs.map f) = before as bs := by
  induction as generalizing bs with
  | nil => cases bs <;> rfl
  | cons a as ih =>
    cases bs with
    | nil => rfl
    | cons b bs =>
      obtain ⟨ha, has⟩ := List.forall_mem_cons.1 ha
      obtain ⟨hb, hbs⟩ := List.forall_mem_cons.1 hb
      rw [List.map_cons, List.map_cons, before_cons, before_cons, ih has hbs, same, same,
        hf a b ha hb, hf b a hb ha]

end KeyOrder

end DaoGovernance
