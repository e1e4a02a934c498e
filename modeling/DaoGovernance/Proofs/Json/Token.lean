import DaoGovernance.Json.Pretty
import DaoGovernance.Json.Token
import DaoGovernance.Proofs.Text.Digits
import Mathlib

/-!
A string and a number that were written are each read as one token, the string from its escapes and
the number as far as something follows that belongs to no number.
-/

namespace DaoGovernance

namespace Text

theorem hexValue?_hexDigit (n : Nat) : hexValue? (hexDigit n) = some (n % 16) := by
  have h : ∀ m < 16, hexValue? (hexDigit m) = some m := by decide
  have hd : hexDigit n = hexDigit (n % 16) := by simp only [hexDigit, Nat.mod_mod]
  rw [hd]
  exact h _ (Nat.mod_lt _ (by decide))

theorem hexNumber?_hexFour {n : Nat} (h : n < 16 ^ 4) : hexNumber? (hexFour n) = some n := by
  simp only [hexNumber?, hexFour, List.foldlM_cons, List.foldlM_nil, hexValue?_hexDigit]
  simp
  omega

theorem eq_zero_of_head_digits {n : Nat} (h : (digits n).head? = some '0') : n = 0 := by
  induction n using Nat.strongRecOn with
  | ind n ih =>
    by_cases hlt : n < 10
    · rw [digits, Nat.toDigits_of_lt_base hlt] at h
      simpa using h
    · have hle : 10 ≤ n := not_lt.1 hlt
      rw [digits, Nat.toDigits_of_base_le (by decide) hle,
        List.head?_append_of_ne_nil _ Nat.toDigits_ne_nil] at h
      have := ih (n / 10) (by omega) h
      omega

end Text

namespace Json

open Text

/-! ### Strings -/

def Piece.Is (p : Piece) (c : Char) : Prop := p = .char c ∨ p = .unit c.toNat ∧ c.toNat < 0x20

theorem joinPieces_eq {ps : List Piece} {cs : List Char} (h : List.Forall₂ Piece.Is ps cs) :
    joinPieces ps = some cs := by
  induction h with
  | nil => rfl
  | @cons p c ps cs hp _ ih =>
    rcases hp with rfl | ⟨rfl, hc⟩
    · rw [joinPieces, ih]
      rfl
    · have hlow : isLowSurrogate c.toNat = false := by
        simp only [isLowSurrogate, Bool.and_eq_false_iff, decide_eq_false_iff_not]
        omega
      have hhigh : isHighSurrogate c.toNat = false := by
        simp only [isHighSurrogate, Bool.and_eq_false_iff, decide_eq_false_iff_not]
        omega
      rw [joinPieces.eq_def]
      simp only [hlow, hhigh, ih, Char.ofNat_toNat]
      rfl

theorem lexString_escape {e c : Char} (he : escape? e = some c) (hu : e ≠ 'u') (acc : List Piece)
    (r : List Char) : lexString acc (backslash :: e :: r) = lexString (.char c :: acc) r := by
  rw [backslash, lexString.eq_def]
  split
  · simp_all
  · simp_all
  · simp_all
  · rename_i hne heq
    cases heq
    exact absurd rfl (hne e r rfl)

theorem lexString_unit {n : Nat} (hn : n < 16 ^ 4) (acc : List Piece) (r : List Char) :
    lexString acc (backslash :: 'u' :: (hexFour n ++ r)) = lexString (.unit n :: acc) r := by
  have h := hexNumber?_hexFour hn
  rw [hexFour] at h
  rw [backslash, hexFour]
  simp only [List.cons_append, List.nil_append, lexString, h]

theorem lexString_plain {c : Char} (hb : c ≠ backslash) (hq : c ≠ quote) (hc : ¬ c.toNat < 0x20)
    (acc : List Piece) (r : List Char) : lexString acc (c :: r) = lexString (.char c :: acc) r := by
  rw [lexString.eq_def]
  rw [backslash] at hb
  split
  · simp_all
  · simp_all
  · simp_all
  · simp_all

theorem lexString_escapeChar (c : Char) : ∃ p : Piece, p.Is c ∧
    ∀ acc r, lexString acc (escapeChar c ++ r) = lexString (p :: acc) r := by
  have escaped (e : Char) (he : escape? e = some c) (hu : e ≠ 'u') : ∃ p : Piece, p.Is c ∧
      ∀ acc r, lexString acc ([backslash, e] ++ r) = lexString (p :: acc) r :=
    ⟨.char c, .inl rfl, fun acc r => lexString_escape he hu acc r⟩
  unfold escapeChar
  split_ifs with h₁ h₂ h₃ h₄ h₅ h₆ h₇
  · rw [Bool.or_eq_true, decide_eq_true_eq, decide_eq_true_eq] at h₁
    rcases h₁ with rfl | rfl
    · exact escaped _ rfl (by decide)
    · exact escaped _ rfl (by decide)
  · exact escaped _ (by rw [h₂]; rfl) (by decide)
  · exact escaped _ (by rw [h₃]; rfl) (by decide)
  · exact escaped _ (by rw [h₄]; rfl) (by decide)
  · exact escaped _ (by rw [h₅]; rfl) (by decide)
  · exact escaped _ (by rw [h₆]; rfl) (by decide)
  · exact ⟨.unit c.toNat, .inr ⟨rfl, h₇⟩, fun acc r => lexString_unit (by omega) acc r⟩
  · rw [Bool.or_eq_true, decide_eq_true_eq, decide_eq_true_eq, not_or] at h₁
    exact ⟨.char c, .inl rfl, fun acc r => lexString_plain h₁.2 h₁.1 h₇ acc r⟩

theorem lexString_escaped (cs : List Char) (acc : List Piece) (r : List Char) :
    ∃ ps, List.Forall₂ Piece.Is ps cs ∧
      lexString acc (cs.flatMap escapeChar ++ quote :: r) = some (acc.reverse ++ ps, r) := by
  induction cs generalizing acc with
  | nil =>
    refine ⟨[], .nil, ?_⟩
    rw [List.append_nil]
    rfl
  | cons c cs ih =>
    obtain ⟨p, hp, hc⟩ := lexString_escapeChar c
    obtain ⟨ps, hps, hcs⟩ := ih (p :: acc)
    refine ⟨p :: ps, .cons hp hps, ?_⟩
    rw [List.flatMap_cons, List.append_assoc, hc, hcs, List.reverse_cons, List.append_assoc]
    rfl

theorem lexOne_quoted (s : String) (r : List Char) :
    lexOne (quoted s ++ r) = some (.string (some s), r) := by
  obtain ⟨ps, hps, hl⟩ := lexString_escaped s.toList [] r
  have hone (cs : List Char) : lexOne (quote :: cs) = (fun x =>
      (Token.string (String.ofList <$> joinPieces x.1), x.2)) <$> lexString [] cs := rfl
  rw [quoted, List.cons_append, List.append_assoc, List.singleton_append, hone, hl,
    List.reverse_nil, List.nil_append]
  simp only [Option.map_eq_map, Option.map_some, joinPieces_eq hps, String.ofList_toList]

/-! ### Numbers -/

def Delimited : List Char → Prop
  | [] => True
  | c :: _ => c = ',' ∨ c = newline

theorem takeWhile_digits (n : Nat) {r : List Char} (hr : Delimited r) :
    (digits n ++ r).takeWhile Char.isDigit = digits n ∧
      (digits n ++ r).dropWhile Char.isDigit = r := by
  have hall : ∀ c ∈ digits n, c.isDigit = true := fun _ => isDigit_of_mem_digits
  have hrest : r.takeWhile Char.isDigit = [] ∧ r.dropWhile Char.isDigit = r := by
    cases r with
    | nil => exact ⟨rfl, rfl⟩
    | cons c r => rcases hr with rfl | rfl <;> exact ⟨rfl, rfl⟩
  rw [List.takeWhile_append_of_pos hall, List.dropWhile_append_of_pos hall, hrest.1, hrest.2,
    List.append_nil]
  exact ⟨rfl, rfl⟩

theorem lexWhole_digits (n : Nat) {r : List Char} (hr : Delimited r) :
    lexWhole (digits n ++ r) = some (digits n, r) := by
  obtain ⟨ht, hd⟩ := takeWhile_digits n hr
  have hne : (digits n).isEmpty = false := by simp [digits_ne_nil]
  have hz : ¬ ((digits n).head? = some '0' ∧ (digits n).length ≠ 1) := by
    rintro ⟨hhead, hlen⟩
    rw [eq_zero_of_head_digits hhead] at hlen
    exact hlen rfl
  simp only [lexWhole, lexDigits, ht, hd, hne, Bool.false_eq_true, if_false, if_neg hz]

theorem lexUnsigned_digits (n : Nat) {r : List Char} (hr : Delimited r) :
    lexUnsigned (digits n ++ r) = some (digits n, r) := by
  have hfraction : lexFraction r = some ([], r) := by
    cases r with
    | nil => rfl
    | cons c r => rcases hr with rfl | rfl <;> rfl
  have hexponent : lexExponent r = some ([], r) := by
    cases r with
    | nil => rfl
    | cons c r => rcases hr with rfl | rfl <;> rfl
  simp [lexUnsigned, lexWhole_digits n hr, hfraction, hexponent]

theorem lexOne_of_isDigit {c : Char} (hc : c.isDigit = true) (cs : List Char) :
    lexOne (c :: cs) = (fun x => (Token.number x.1, x.2)) <$> lexUnsigned (c :: cs) := by
  have hnumber : lexNumber (c :: cs) = lexUnsigned (c :: cs) := by
    unfold lexNumber
    split
    · rename_i heq
      cases heq
      exact absurd hc (by decide)
    · rfl
  rw [← hnumber, lexOne.eq_def]
  split
  case h_11 => rfl
  all_goals
    rename_i heq
    cases heq
    exact absurd hc (by decide)

theorem lexOne_digits (n : Nat) {r : List Char} (hr : Delimited r) :
    lexOne (digits n ++ r) = some (.number (digits n), r) := by
  cases hd : digits n with
  | nil => exact absurd hd (digits_ne_nil n)
  | cons c cs =>
    have hc : c.isDigit = true := isDigit_of_mem_digits (n := n) (by rw [hd]; exact List.mem_cons_self)
    rw [List.cons_append, lexOne_of_isDigit hc, ← List.cons_append, ← hd, lexUnsigned_digits n hr]
    rfl

end Json

end DaoGovernance
