import DaoGovernance.Text.Utf8
import Mathlib

/-!
Reading bytes as text inverts writing, and what reads as a text is how that text is written.
-/

namespace DaoGovernance.Text.Utf8

theorem toNat_ofNat {n : Nat} (h : n < 256) : (UInt8.ofNat n).toNat = n := by
  simp [Nat.mod_eq_of_lt h]

theorem toNat_char_ofNat {n : Nat} (h : n.isValidChar) : (Char.ofNat n).toNat = n := by
  simp only [Char.ofNat, h, ↓reduceDIte]
  rfl

theorem char_ofNat_eq {c : Char} {n : Nat} (h : n = c.toNat) : Char.ofNat n = c := by
  rw [h, Char.ofNat_toNat]

theorem isTail_iff {b : UInt8} : isTail b = true ↔ 0x80 ≤ b.toNat ∧ b.toNat < 0xC0 := by
  simp [isTail, UInt8.le_iff_toNat_le, UInt8.lt_iff_toNat_lt]

theorem isSecondOfThree_iff {a b : UInt8} :
    isSecondOfThree a b = true ↔
      (if a.toNat = 0xE0 then 0xA0 else 0x80) ≤ b.toNat ∧
        b.toNat < if a.toNat = 0xED then 0xA0 else 0xC0 := by
  by_cases h : a.toNat = 0xE0 <;> by_cases k : a.toNat = 0xED <;>
    simp [isSecondOfThree, isTail_iff, ← UInt8.toNat_inj, h, k, UInt8.le_iff_toNat_le,
      UInt8.lt_iff_toNat_lt]

theorem isSecondOfFour_iff {a b : UInt8} :
    isSecondOfFour a b = true ↔
      (if a.toNat = 0xF0 then 0x90 else 0x80) ≤ b.toNat ∧
        b.toNat < if a.toNat = 0xF4 then 0x90 else 0xC0 := by
  by_cases h : a.toNat = 0xF0 <;> by_cases k : a.toNat = 0xF4 <;>
    simp [isSecondOfFour, isTail_iff, ← UInt8.toNat_inj, h, k, UInt8.le_iff_toNat_le,
      UInt8.lt_iff_toNat_lt]

theorem encodeChar_eq (c : Char) : encodeChar c = String.utf8EncodeChar c := by
  have hc : c.val.toNat < 0x110000 := by
    rcases c.valid with h | h <;> omega
  simp only [encodeChar, String.utf8EncodeChar, Char.toNat]
  generalize c.val.toNat = n at hc
  -- Of the two sides only the other cuts the first byte to its range, in which it is already.
  split_ifs <;> try omega
  · rfl
  · rw [Nat.mod_eq_of_lt (a := n / 64) (b := 32) (by omega)]
    simp only [Nat.add_comm]
  · rw [Nat.mod_eq_of_lt (a := n / 4096) (b := 16) (by omega)]
    simp only [Nat.add_comm]
  · rw [Nat.mod_eq_of_lt (a := n / 262144) (b := 8) (by omega)]
    simp only [Nat.add_comm]

inductive Sequence : Bytes → Char → Prop
  | one {a} : a < 0x80 → Sequence [a] (.ofNat a.toNat)
  | two {a b} : 0xC2 ≤ a → a < 0xE0 → isTail b = true → Sequence [a, b] (two a b)
  | three {a b c} : 0xE0 ≤ a → a < 0xF0 → isSecondOfThree a b = true → isTail c = true →
      Sequence [a, b, c] (three a b c)
  | four {a b c d} : 0xF0 ≤ a → a < 0xF5 → isSecondOfFour a b = true → isTail c = true →
      isTail d = true → Sequence [a, b, c, d] (four a b c d)

theorem sequence_encodeChar (c : Char) : Sequence (encodeChar c) c := by
  have hc : c.toNat < 0xD800 ∨ 0xDFFF < c.toNat ∧ c.toNat < 0x110000 := c.valid
  simp only [encodeChar]
  split
  case isTrue h =>
    have ha := toNat_ofNat (n := c.toNat) (by omega)
    have := Sequence.one (a := .ofNat c.toNat) (by rw [UInt8.lt_iff_toNat_lt, ha]; exact h)
    rwa [char_ofNat_eq ha] at this
  split
  case isTrue h =>
    have ha := toNat_ofNat (n := 0xC0 + c.toNat / 0x40) (by omega)
    have hb := toNat_ofNat (n := 0x80 + c.toNat % 0x40) (by omega)
    generalize UInt8.ofNat (0xC0 + c.toNat / 0x40) = a at *
    generalize UInt8.ofNat (0x80 + c.toNat % 0x40) = b at *
    have : Sequence [a, b] (two a b) := by
      apply Sequence.two
      · simp only [UInt8.le_iff_toNat_le, UInt8.toNat_ofNat]; omega
      · simp only [UInt8.lt_iff_toNat_lt, UInt8.toNat_ofNat]; omega
      · exact isTail_iff.2 (by omega)
    rwa [two, char_ofNat_eq (c := c) (by simp only [bits]; omega)] at this
  split
  case isTrue h =>
    have ha := toNat_ofNat (n := 0xE0 + c.toNat / 0x1000) (by omega)
    have hb := toNat_ofNat (n := 0x80 + c.toNat / 0x40 % 0x40) (by omega)
    have hd := toNat_ofNat (n := 0x80 + c.toNat % 0x40) (by omega)
    generalize UInt8.ofNat (0xE0 + c.toNat / 0x1000) = a at *
    generalize UInt8.ofNat (0x80 + c.toNat / 0x40 % 0x40) = b at *
    generalize UInt8.ofNat (0x80 + c.toNat % 0x40) = d at *
    have : Sequence [a, b, d] (three a b d) := by
      apply Sequence.three
      · simp only [UInt8.le_iff_toNat_le, UInt8.toNat_ofNat]; omega
      · simp only [UInt8.lt_iff_toNat_lt, UInt8.toNat_ofNat]; omega
      · exact isSecondOfThree_iff.2 (by split <;> split <;> omega)
      · exact isTail_iff.2 (by omega)
    rwa [three, char_ofNat_eq (c := c) (by simp only [bits]; omega)] at this
  case isFalse =>
    have ha := toNat_ofNat (n := 0xF0 + c.toNat / 0x40000) (by omega)
    have hb := toNat_ofNat (n := 0x80 + c.toNat / 0x1000 % 0x40) (by omega)
    have hd := toNat_ofNat (n := 0x80 + c.toNat / 0x40 % 0x40) (by omega)
    have he := toNat_ofNat (n := 0x80 + c.toNat % 0x40) (by omega)
    generalize UInt8.ofNat (0xF0 + c.toNat / 0x40000) = a at *
    generalize UInt8.ofNat (0x80 + c.toNat / 0x1000 % 0x40) = b at *
    generalize UInt8.ofNat (0x80 + c.toNat / 0x40 % 0x40) = d at *
    generalize UInt8.ofNat (0x80 + c.toNat % 0x40) = e at *
    have : Sequence [a, b, d, e] (four a b d e) := by
      apply Sequence.four
      · simp only [UInt8.le_iff_toNat_le, UInt8.toNat_ofNat]; omega
      · simp only [UInt8.lt_iff_toNat_lt, UInt8.toNat_ofNat]; omega
      · exact isSecondOfFour_iff.2 (by split <;> split <;> omega)
      · exact isTail_iff.2 (by omega)
      · exact isTail_iff.2 (by omega)
    rwa [four, char_ofNat_eq (c := c) (by simp only [bits]; omega)] at this

theorem Sequence.eq_encodeChar {bs : Bytes} {c : Char} (h : Sequence bs c) : encodeChar c = bs := by
  cases h with
  | @one a ha =>
    simp only [UInt8.lt_iff_toNat_lt, UInt8.toNat_ofNat] at ha
    have hn : (Char.ofNat a.toNat).toNat = a.toNat := toNat_char_ofNat (.inl (by omega))
    simp only [encodeChar]
    rw [if_pos (by omega), hn, UInt8.ofNat_toNat]
  | @two a b ha ha' hb =>
    simp only [UInt8.le_iff_toNat_le, UInt8.toNat_ofNat] at ha
    simp only [UInt8.lt_iff_toNat_lt, UInt8.toNat_ofNat] at ha'
    rw [isTail_iff] at hb
    have hn : (Utf8.two a b).toNat = a.toNat % 0x20 * 0x40 + b.toNat % 0x40 :=
      toNat_char_ofNat (.inl (by simp only [bits]; omega))
    simp only [encodeChar]
    rw [if_neg (by omega), if_pos (by omega), hn]
    simp only [List.cons.injEq, and_true, ← UInt8.toNat_inj]
    constructor <;> rw [toNat_ofNat (by omega)] <;> omega
  | @three a b c ha ha' hb hc =>
    simp only [UInt8.le_iff_toNat_le, UInt8.toNat_ofNat] at ha
    simp only [UInt8.lt_iff_toNat_lt, UInt8.toNat_ofNat] at ha'
    rw [isSecondOfThree_iff] at hb
    rw [isTail_iff] at hc
    have hn : (Utf8.three a b c).toNat =
        (a.toNat % 0x10 * 0x40 + b.toNat % 0x40) * 0x40 + c.toNat % 0x40 :=
      toNat_char_ofNat (by simp only [bits, Nat.isValidChar]; split at hb <;> split at hb <;> omega)
    have hl : 0x800 ≤ (Utf8.three a b c).toNat := by
      rw [hn]; split at hb <;> split at hb <;> omega
    have hb' : 0x80 ≤ b.toNat ∧ b.toNat < 0xC0 := by split at hb <;> split at hb <;> omega
    simp only [encodeChar]
    rw [if_neg (by omega), if_neg (by omega), if_pos (by omega), hn]
    simp only [List.cons.injEq, and_true, ← UInt8.toNat_inj]
    refine ⟨?_, ?_, ?_⟩ <;> rw [toNat_ofNat (by omega)] <;> omega
  | @four a b c d ha ha' hb hc hd =>
    simp only [UInt8.le_iff_toNat_le, UInt8.toNat_ofNat] at ha
    simp only [UInt8.lt_iff_toNat_lt, UInt8.toNat_ofNat] at ha'
    rw [isSecondOfFour_iff] at hb
    rw [isTail_iff] at hc hd
    have hn : (Utf8.four a b c d).toNat =
        ((a.toNat % 0x08 * 0x40 + b.toNat % 0x40) * 0x40 + c.toNat % 0x40) * 0x40 +
          d.toNat % 0x40 :=
      toNat_char_ofNat (by simp only [bits, Nat.isValidChar]; split at hb <;> split at hb <;> omega)
    have hl : 0x10000 ≤ (Utf8.four a b c d).toNat := by
      rw [hn]; split at hb <;> split at hb <;> omega
    have hb' : 0x80 ≤ b.toNat ∧ b.toNat < 0xC0 := by split at hb <;> split at hb <;> omega
    simp only [encodeChar]
    rw [if_neg (by omega), if_neg (by omega), if_neg (by omega), hn]
    simp only [List.cons.injEq, and_true, ← UInt8.toNat_inj]
    refine ⟨?_, ?_, ?_, ?_⟩ <;> rw [toNat_ofNat (by omega)] <;> omega

theorem Sequence.decodeFrom_append {bs : Bytes} {c : Char} (h : Sequence bs c) (i : Nat)
    (r : Bytes) : decodeFrom i (bs ++ r) = (c :: ·) <$> decodeFrom (i + bs.length) r := by
  cases h with
  | one ha =>
    rw [List.cons_append, List.nil_append, decodeFrom.eq_def]
    simp [ha]
  | @two a b ha ha' hb =>
    simp only [UInt8.le_iff_toNat_le, UInt8.toNat_ofNat] at ha
    simp only [List.cons_append, List.nil_append]
    rw [decodeFrom.eq_def]
    simp only [UInt8.lt_iff_toNat_lt, UInt8.le_iff_toNat_le, UInt8.toNat_ofNat] at ha' ⊢
    simp [hb, ha, ha', show ¬ a.toNat < 128 by omega]
  | @three a b c ha ha' hb hc =>
    simp only [UInt8.le_iff_toNat_le, UInt8.toNat_ofNat] at ha
    simp only [List.cons_append, List.nil_append]
    rw [decodeFrom.eq_def]
    simp only [UInt8.lt_iff_toNat_lt, UInt8.le_iff_toNat_le, UInt8.toNat_ofNat] at ha' ⊢
    simp [hb, hc, ha, ha', show ¬ a.toNat < 128 by omega, show ¬ a.toNat < 224 by omega]
  | @four a b c d ha ha' hb hc hd =>
    simp only [UInt8.le_iff_toNat_le, UInt8.toNat_ofNat] at ha
    simp only [List.cons_append, List.nil_append]
    rw [decodeFrom.eq_def]
    simp only [UInt8.lt_iff_toNat_lt, UInt8.le_iff_toNat_le, UInt8.toNat_ofNat] at ha' ⊢
    simp [hb, hc, hd, ha, ha', show ¬ a.toNat < 128 by omega, show ¬ a.toNat < 224 by omega,
      show ¬ a.toNat < 240 by omega]

theorem decodeFrom_encode (i : Nat) (cs : List Char) : decodeFrom i (encode cs) = .ok cs := by
  induction cs generalizing i with
  | nil => rfl
  | cons c cs ih =>
    rw [encode, List.flatMap_cons, (sequence_encodeChar c).decodeFrom_append, ← encode, ih]
    rfl

theorem map_cons_eq_ok {c : Char} {d : Except Fault (List Char)} {cs : List Char}
    (h : (c :: ·) <$> d = .ok cs) : ∃ ds, d = .ok ds ∧ cs = c :: ds := by
  cases d with
  | error e => cases h
  | ok ds => exact ⟨ds, rfl, by cases h; rfl⟩

theorem encode_cons_of {bs r : Bytes} {c : Char} {cs : List Char} (h : Sequence bs c)
    (hr : encode cs = r) : encode (c :: cs) = bs ++ r := by
  rw [encode, List.flatMap_cons, h.eq_encodeChar, ← encode, hr]

theorem encode_of_decodeFrom {i : Nat} {bs : Bytes} {cs : List Char}
    (h : decodeFrom i bs = .ok cs) : encode cs = bs := by
  fun_induction decodeFrom i bs generalizing cs with
  | case1 i => cases h; rfl
  | case2 i a r ha ih =>
    obtain ⟨ds, hd, rfl⟩ := map_cons_eq_ok h
    exact encode_cons_of (.one ha) (ih hd)
  | case5 i a _ ha b r hb ih =>
    obtain ⟨ds, hd, rfl⟩ := map_cons_eq_ok h
    simp only [Bool.and_eq_true, decide_eq_true_eq] at ha
    exact encode_cons_of (.two ha.1 ha.2 (by simpa using hb)) (ih hd)
  | case10 i a _ _ ha b hb c r hc ih =>
    obtain ⟨ds, hd, rfl⟩ := map_cons_eq_ok h
    simp only [Bool.and_eq_true, decide_eq_true_eq] at ha
    exact encode_cons_of (.three ha.1 ha.2 (by simpa using hb) (by simpa using hc)) (ih hd)
  | case17 i a _ _ _ ha b hb c hc d r hd ih =>
    obtain ⟨ds, hds, rfl⟩ := map_cons_eq_ok h
    simp only [Bool.and_eq_true, decide_eq_true_eq] at ha
    exact encode_cons_of
      (.four ha.1 ha.2 (by simpa using hb) (by simpa using hc) (by simpa using hd)) (ih hds)
  | _ => cases h

end DaoGovernance.Text.Utf8

namespace DaoGovernance.Text

theorem toBytes_eq (s : String) : toBytes s = s.toUTF8.data.toList := by
  have hchars : Utf8.encodeChar = String.utf8EncodeChar := by
    funext c
    exact Utf8.encodeChar_eq c
  rw [String.toUTF8_eq_toByteArray, ← String.utf8Encode_toList, List.utf8Encode,
    List.toList_data_toByteArray, toBytes, Utf8.encode, hchars]

@[simp] theorem ofBytes_toBytes (s : String) : ofBytes (toBytes s) = .ok s := by
  rw [ofBytes, toBytes, Utf8.decode, Utf8.decodeFrom_encode]
  simp

theorem toBytes_of_ofBytes {bs : Bytes} {s : String} (h : ofBytes bs = .ok s) : toBytes s = bs := by
  unfold ofBytes Utf8.decode at h
  cases hd : Utf8.decodeFrom 0 bs with
  | error e => rw [hd] at h; cases h
  | ok cs =>
    rw [hd] at h
    cases h
    rw [toBytes, String.toList_ofList, Utf8.encode_of_decodeFrom hd]

end DaoGovernance.Text
