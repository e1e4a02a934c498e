import DaoGovernance.Json.Shape
import DaoGovernance.Proofs.Amount
import DaoGovernance.Proofs.Json.Reader
import Mathlib

/-!
What a shape writes is plain and is read back.  This holds of the simple shapes, is kept by every
way to make shapes of shapes, and holds of a record whose fields have different names.
-/

namespace DaoGovernance.Json

variable {α β : Type}

namespace Shape

structure RoundTrips (s : Shape α) : Prop where
  plain : ∀ a, (s.write a).Plain
  read : ∀ a, s.read (s.write a) = some a

variable {s : Shape α}

theorem text_roundTrips : text.RoundTrips := ⟨.string, fun _ => rfl⟩

theorem nat_roundTrips : nat.RoundTrips where
  plain := .number
  read n := by
    have hall : (Text.digits n).all Char.isDigit = true :=
      List.all_eq_true.2 fun _ => Text.isDigit_of_mem_digits
    simp only [nat, hall, if_true, Text.value_digits]

theorem RoundTrips.refine {check : α → Option β} {g : β → α} (h : s.RoundTrips)
    (hc : ∀ b, check (g b) = some b) : (s.refine check g).RoundTrips where
  plain b := h.plain (g b)
  read b := by simp only [Shape.refine, h.read, hc]

theorem RoundTrips.iso {f : α → β} {g : β → α} (h : s.RoundTrips) (hfg : ∀ b, f (g b) = b) :
    (s.iso f g).RoundTrips := h.refine fun b => congrArg some (hfg b)

theorem below_of_lt {bound n : Nat} (h : n < bound) : below bound n = some n := if_pos h

theorem uint8_roundTrips : uint8.RoundTrips :=
  nat_roundTrips.refine fun n => by simp [below_of_lt n.toNat_lt]

theorem uint64_roundTrips : uint64.RoundTrips :=
  nat_roundTrips.refine fun n => by simp [below_of_lt n.toNat_lt]

theorem amount_roundTrips : amount.RoundTrips := nat_roundTrips.refine Amount.ofNat?_toNat

theorem readAll_map (h : s.RoundTrips) (as : List α) : readAll s.read (as.map s.write) = some as := by
  induction as with
  | nil => rfl
  | cons a as ih => simp only [List.map_cons, readAll, h.read, ih]

theorem list_roundTrips (h : s.RoundTrips) : (list s).RoundTrips where
  plain as := .array fun v hv => by
    obtain ⟨a, -, rfl⟩ := List.mem_map.1 hv
    exact h.plain a
  read as := readAll_map h as

theorem choice_roundTrips {values : List α} {name : α → String}
    (h : ∀ a, values.find? (fun b => name b = name a) = some a) : (choice values name).RoundTrips :=
  ⟨fun _ => .string _, h⟩

end Shape

namespace Fields

structure RoundTrips (f : Fields α) : Prop where
  length : ∀ a, (f.write a).length = f.names.length
  plain : ∀ a, ∀ v ∈ f.write a, v.Plain
  read : ∀ a vs, f.read ((f.write a).map some ++ vs) = some (a, vs)

variable {f : Fields α} {g : Fields β} {s : Shape α} {name : String}

theorem required_roundTrips (h : s.RoundTrips) : (required name s).RoundTrips where
  length _ := rfl
  plain a v hv := by
    rw [List.mem_singleton.1 hv]
    exact h.plain a
  read a vs := by simp [required, h.read]

theorem optional_roundTrips {default : α} (h : s.RoundTrips) :
    (optional name s default).RoundTrips where
  length _ := rfl
  plain a v hv := by
    rw [List.mem_singleton.1 hv]
    exact h.plain a
  read a vs := by simp [optional, h.read]

theorem RoundTrips.pair (hf : f.RoundTrips) (hg : g.RoundTrips) : (f.pair g).RoundTrips where
  length p := by simp [Fields.pair, hf.length, hg.length]
  plain p v hv := by
    rcases List.mem_append.1 hv with hv | hv
    · exact hf.plain p.1 v hv
    · exact hg.plain p.2 v hv
  read p vs := by simp only [Fields.pair, List.map_append, List.append_assoc, hf.read, hg.read]

theorem RoundTrips.iso {i : α → β} {j : β → α} (h : f.RoundTrips) (hij : ∀ b, i (j b) = b) :
    (f.iso i j).RoundTrips where
  length b := h.length (j b)
  plain b := h.plain (j b)
  read b vs := by simp only [Fields.iso, h.read, hij]

/-! ### Records -/

theorem valuesOf_of_notMem {names : List String} {n : String} (hn : n ∉ names) (vs : List Json) :
    valuesOf n ((names.map some).zip vs) = [] := by
  induction names generalizing vs with
  | nil => rfl
  | cons m names ih =>
    rw [List.mem_cons, not_or] at hn
    obtain ⟨hm, hn⟩ := hn
    cases vs with
    | nil => rfl
    | cons v vs =>
      rw [List.map_cons, List.zip_cons_cons, valuesOf, if_neg (by simpa using Ne.symm hm), ih hn]

theorem pick_cons_of_notMem {n : String} {names : List String} (hn : n ∉ names) (v : Json)
    (ms : Members) : pick ((some n, v) :: ms) names = pick ms names := by
  induction names with
  | nil => rfl
  | cons m names ih =>
    rw [List.mem_cons, not_or] at hn
    obtain ⟨hm, hn⟩ := hn
    simp only [pick, valuesOf, Option.some.injEq, if_neg hm, ih hn]

theorem pick_zip {names : List String} (hn : names.Nodup) {vs : List Json}
    (hl : vs.length = names.length) :
    pick ((names.map some).zip vs) names = some (vs.map some) := by
  induction names generalizing vs with
  | nil =>
    rw [List.eq_nil_of_length_eq_zero hl]
    rfl
  | cons n names ih =>
    obtain ⟨hnot, hn⟩ := List.nodup_cons.1 hn
    cases vs with
    | nil => cases hl
    | cons v vs =>
      have hvalues : valuesOf n ((some n, v) :: (names.map some).zip vs) = [v] := by
        rw [valuesOf, if_pos rfl, valuesOf_of_notMem hnot]
      rw [List.map_cons, List.zip_cons_cons, pick, hvalues, pick_cons_of_notMem hnot,
        ih hn (Nat.succ.inj hl)]
      rfl

theorem shape_roundTrips (h : f.RoundTrips) (hn : f.names.Nodup) : f.shape.RoundTrips where
  plain a := by
    refine .object (fun m hm => ?_) fun m hm => ?_
    · obtain ⟨n, -, hm⟩ := List.mem_map.1 (List.of_mem_zip hm).1
      rw [← hm]
      rfl
    · exact h.plain a m.2 (List.of_mem_zip hm).2
  read a := by
    have hnamed : (((f.names.map some).zip (f.write a)).all fun m => m.1.isSome) = true := by
      rw [List.all_eq_true]
      intro m hm
      obtain ⟨n, -, hm⟩ := List.mem_map.1 (List.of_mem_zip hm).1
      rw [← hm]
      rfl
    have hread := h.read a []
    rw [List.append_nil] at hread
    simp only [shape, hnamed, if_true, pick_zip hn (h.length a), readWhole, hread]
    rfl

end Fields

end DaoGovernance.Json
