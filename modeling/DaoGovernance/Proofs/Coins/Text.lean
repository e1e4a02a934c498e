import DaoGovernance.Proofs.Amount
import DaoGovernance.Proofs.Coins.Canonical
import DaoGovernance.Proofs.Text.Digits
import Mathlib

/-!
Coins as text.  An amount and a denom need nothing between them, as the first is all digits and the
second begins with a letter, and neither has a comma or a blank, so that a valid set is read back from
its text.
-/

namespace DaoGovernance

namespace Text

variable {p : Char → Bool} {cs : List Char}

theorem strip_eq_self (h : ∀ c ∈ cs, p c = false) : strip p cs = cs := by
  have hkeep {cs : List Char} (h : ∀ c ∈ cs, p c = false) : cs.dropWhile p = cs := by
    refine List.dropWhile_eq_self_iff.2 fun hl => ?_
    rw [h _ (List.getElem_mem hl)]
    exact Bool.false_ne_true
  rw [strip, hkeep h, hkeep fun c hc => h c (List.mem_reverse.1 hc), List.reverse_reverse]

/-! ### Characters -/

variable {c : Char}

theorem isDigit_iff : c.isDigit = true ↔ 48 ≤ c.toNat ∧ c.toNat ≤ 57 := by
  simp [Char.isDigit, UInt32.le_iff_toNat_le, ← Char.toNat_val]

theorem isAlpha_iff :
    c.isAlpha = true ↔ 65 ≤ c.toNat ∧ c.toNat ≤ 90 ∨ 97 ≤ c.toNat ∧ c.toNat ≤ 122 := by
  simp [Char.isAlpha, Char.isUpper, Char.isLower, UInt32.le_iff_toNat_le, ← Char.toNat_val]

theorem isDigit_of_isAlpha (h : c.isAlpha = true) : c.isDigit = false := by
  rw [isAlpha_iff] at h
  rw [Bool.eq_false_iff, Ne, isDigit_iff]
  omega

end Text

namespace Denom

variable {c : Char} {s : String}

theorem isInner_of_isAlphanum (h : c.isAlphanum = true) : isInner c = true := by
  simp [isInner, h]

/-- All characters of denoms are from the hyphen to `z`, and the comma comes just before. -/
theorem toNat_of_isInner (h : isInner c = true) : 45 ≤ c.toNat ∧ c.toNat ≤ 122 := by
  simp only [isInner, Char.isAlphanum, Bool.or_eq_true, Text.isAlpha_iff, Text.isDigit_iff,
    decide_eq_true_eq] at h
  rcases h with ((((h | rfl) | rfl) | rfl) | rfl) | rfl
  · omega
  all_goals decide

theorem isBlank_of_isInner (h : isInner c = true) : Text.isBlank c = false := by
  obtain ⟨hl, hu⟩ := toNat_of_isInner h
  simp only [Text.isBlank, Bool.or_eq_false_iff, Bool.and_eq_false_iff, decide_eq_false_iff_not]
  omega

theorem ne_comma_of_isInner (h : isInner c = true) : c ≠ ',' := by
  rintro rfl
  exact absurd h (by decide)

theorem isValid_of_validate (h : validate s = .ok ()) : isValid s = true := by
  unfold validate at h
  split at h
  · assumption
  · cases h

theorem toList_of_isValid (h : isValid s = true) :
    ∃ c cs, s.toList = c :: cs ∧ c.isAlpha = true ∧ ∀ d ∈ cs, isInner d = true := by
  unfold isValid at h
  split at h
  · cases h
  · rename_i c cs hs
    simp only [Bool.and_eq_true, List.all_eq_true] at h
    exact ⟨c, cs, hs, h.1.1.1, h.1.1.2⟩

theorem isInner_of_mem (h : isValid s = true) : ∀ c ∈ s.toList, isInner c = true := by
  obtain ⟨c, cs, hs, hc, hcs⟩ := toList_of_isValid h
  rw [hs, List.forall_mem_cons]
  refine ⟨isInner_of_isAlphanum ?_, hcs⟩
  simp [Char.isAlphanum, hc]

end Denom

/-! ### One coin -/

namespace Coin

variable {c : Coin}

theorem toList_text (c : Coin) :
    c.text.toList = Text.digits c.amount.toNat ++ c.denom.toList := by
  rw [text, String.toList_append, Amount.text, Text.decimal, String.toList_ofList]

theorem isInner_of_mem_text (h : Denom.isValid c.denom = true) :
    ∀ d ∈ c.text.toList, Denom.isInner d = true := by
  intro d hd
  rw [toList_text, List.mem_append] at hd
  rcases hd with hd | hd
  · refine Denom.isInner_of_isAlphanum ?_
    simp [Char.isAlphanum, Text.isDigit_of_mem_digits hd]
  · exact Denom.isInner_of_mem h d hd

theorem text_toList_ne_nil (c : Coin) : c.text.toList ≠ [] := by
  rw [toList_text]
  exact List.append_ne_nil_of_left_ne_nil (Text.digits_ne_nil _) _

theorem split_text (h : Denom.isValid c.denom = true) :
    c.text.toList.takeWhile Char.isDigit = Text.digits c.amount.toNat ∧
      c.text.toList.dropWhile Char.isDigit = c.denom.toList := by
  obtain ⟨d, ds, hs, hd, -⟩ := Denom.toList_of_isValid h
  have hdigits : ∀ e ∈ Text.digits c.amount.toNat, e.isDigit = true :=
    fun _ => Text.isDigit_of_mem_digits
  have hnot : ¬ d.isDigit = true := by simp [Text.isDigit_of_isAlpha hd]
  rw [toList_text, List.takeWhile_append_of_pos hdigits, List.dropWhile_append_of_pos hdigits, hs,
    List.takeWhile_cons_of_neg hnot, List.dropWhile_cons_of_neg hnot, List.append_nil]
  exact ⟨rfl, rfl⟩

theorem ofDigits_digits (a : Amount) : Amount.ofDigits (Text.digits a.toNat) = .ok a := by
  have hne : (Text.digits a.toNat).isEmpty = false := by simp [Text.digits_ne_nil]
  simp [Amount.ofDigits, hne, Amount.ofNat?_toNat]

theorem parse_text (h : Denom.validate c.denom = .ok ()) : parse c.text = .ok c := by
  have hvalid := Denom.isValid_of_validate h
  have htrim : Text.trim c.text = c.text := by
    rw [Text.trim, Text.strip_eq_self fun d hd =>
      Denom.isBlank_of_isInner (isInner_of_mem_text hvalid d hd), String.ofList_toList]
  obtain ⟨htake, hdrop⟩ := split_text hvalid
  have hne : c.denom.isEmpty = false := by
    obtain ⟨d, ds, hs, -⟩ := Denom.toList_of_isValid hvalid
    rw [Bool.eq_false_iff, Ne, String.isEmpty_iff, ← String.toList_eq_nil_iff, hs]
    exact List.cons_ne_nil d ds
  simp only [parse, htrim, htake, hdrop, String.ofList_toList, hne, ofDigits_digits, h]
  rfl

end Coin

/-! ### Sets of coins -/

namespace Coins

variable {cs : Coins} {s : String}

theorem splitOn_eq (sep : Char) (cs : List Char) : splitOn sep cs = cs.splitOn sep := by
  rw [List.splitOn_eq_splitOnP]
  induction cs with
  | nil => rfl
  | cons c cs ih =>
    rw [splitOn, List.splitOnP_cons_eq_if_modifyHead, ih]
    cases hs : cs.splitOnP (· == sep) with
    | nil => exact absurd hs (List.splitOnP_ne_nil _ cs)
    | cons w ws => simp

theorem toList_text (cs : Coins) :
    cs.text.toList = [','].intercalate (cs.list.map fun c => c.text.toList) := by
  rw [text, String.toList_intercalate, List.map_map]
  rfl

theorem isBlankText_of_cons {c : Coin} {rest : List Coin} (hlist : cs.list = c :: rest)
    (h : Denom.isValid c.denom = true) : Text.isBlankText cs.text = false := by
  obtain ⟨d, ds, hd⟩ := List.exists_cons_of_ne_nil c.text_toList_ne_nil
  have hblank : Text.isBlank d = false :=
    Denom.isBlank_of_isInner (Coin.isInner_of_mem_text h d (hd ▸ List.mem_cons_self))
  rw [Text.isBlankText, toList_text, hlist, List.map_cons, hd]
  cases rest with
  | nil => simp [hblank]
  | cons e rest => simp [List.intercalate_cons_cons, hblank]

theorem parseEach_map {cs : List Coin} (h : ∀ c ∈ cs, c.validate = .ok ()) :
    parseEach (cs.map fun c => c.text.toList) = .ok cs := by
  induction cs with
  | nil => rfl
  | cons c cs ih =>
    obtain ⟨hc, hcs⟩ := List.forall_mem_cons.1 h
    rw [List.map_cons, parseEach, String.ofList_toList, Coin.parse_text hc, ih hcs]

theorem validate_of_mem {c : Coin} (h : cs.validate = .ok ()) (hc : c ∈ cs.list) :
    c.validate = .ok () := by
  rw [Coin.validate, Denom.validate, if_pos ((validate_eq_ok.1 h).1 c hc)]

theorem parse_text (h : cs.validate = .ok ()) : parse cs.text = .ok cs := by
  have hinner : ∀ c ∈ cs.list, ∀ d ∈ c.text.toList, Denom.isInner d = true := fun c hc =>
    Coin.isInner_of_mem_text ((validate_eq_ok.1 h).1 c hc)
  unfold parse
  cases hlist : cs.list with
  | nil =>
    obtain rfl : cs = empty := congrArg Coins.mk hlist
    rfl
  | cons c rest =>
    have hblank := isBlankText_of_cons hlist ((validate_eq_ok.1 h).1 c (by simp [hlist]))
    have hsplit : splitOn ',' cs.text.toList = cs.list.map fun c => c.text.toList := by
      rw [splitOn_eq, toList_text]
      apply List.splitOn_intercalate
      · intro w hw hcomma
        obtain ⟨c, hc, rfl⟩ := List.mem_map.1 hw
        exact Denom.ne_comma_of_isInner (hinner c hc _ hcomma) rfl
      · simp [hlist]
    rw [hblank, if_neg Bool.false_ne_true, hsplit, parseEach_map fun c => validate_of_mem h]
    exact new_of_validate h

theorem validate_of_parse (h : parse s = .ok cs) : cs.validate = .ok () := by
  unfold parse at h
  split at h
  · cases h
    rfl
  · split at h
    · cases h
    · exact (new_eq_ok.1 h).2

/-- Valid coins and sets of coins are read back from their text, and what is read is valid. -/
theorem texts_read_back :
    (∀ cs : Coins, cs.validate = .ok () → parse cs.text = .ok cs) ∧
    (∀ c : Coin, c.validate = .ok () → Coin.parse c.text = .ok c) ∧
    ∀ s cs, parse s = .ok cs → cs.validate = .ok () ∧ parse cs.text = .ok cs := by
  refine ⟨fun _ => parse_text, fun _ => Coin.parse_text, fun s cs h => ?_⟩
  have hvalid := validate_of_parse h
  exact ⟨hvalid, parse_text hvalid⟩

theorem untidy_read_back :
    Coin.parse "0x/1.2" = .ok ⟨"x/1.2", 0⟩ ∧
      ∃ cs, parse " 5udnsc,0zero,\t7a-1.0 " = .ok cs ∧ cs.validate = .ok () ∧
        cs.text = "7a-1.0,5udnsc" ∧ parse "7a-1.0,5udnsc" = .ok cs := by
  obtain ⟨-, hcoin, hread⟩ := texts_read_back
  have hparse : parse " 5udnsc,0zero,\t7a-1.0 " = .ok ⟨[⟨"a-1.0", 7⟩, ⟨"udnsc", 5⟩]⟩ := by
    decide +kernel
  obtain ⟨hvalid, hback⟩ := hread _ _ hparse
  exact ⟨hcoin ⟨"x/1.2", 0⟩ (by decide +kernel), _, hparse, hvalid, rfl, hback⟩

end Coins

end DaoGovernance
