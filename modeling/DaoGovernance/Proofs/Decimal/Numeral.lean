import DaoGovernance.Proofs.Decimal
import Mathlib

/-!
Which texts are read as fractions, and as which.  A numeral denotes the number of its digits, the point
left out, over ten to the number of digits after the point; the reader pads the places with zeros and
keeps the two sides apart, and comes to the same.
-/

namespace DaoGovernance

namespace Text

variable {cs : List Char}

theorem value_append (cs ds : List Char) :
    value (cs ++ ds) = value cs * 10 ^ ds.length + value ds := by
  rw [value, value, value, Nat.ofDigitChars_append, Nat.ofDigitChars_eq_ofDigitChars_zero, mul_comm]

theorem value_zeros (n : Nat) : value (List.replicate n '0') = 0 := by
  rw [value, Nat.ofDigitChars_replicate_zero, Nat.mul_zero]

/-! ### The point -/

def beforePoint (cs : List Char) : List Char := cs.takeWhile (· ≠ '.')

def afterPoint (cs : List Char) : List Char := (cs.dropWhile (· ≠ '.')).drop 1

theorem ne_point (h : '.' ∉ cs) : ∀ c ∈ cs, decide (c ≠ '.') = true := by
  intro c hc
  rw [decide_eq_true_iff]
  rintro rfl
  exact h hc

theorem notMem_of_isDigit (h : ∀ c ∈ cs, c.isDigit = true) : '.' ∉ cs :=
  fun hc => absurd (h _ hc) (by decide)

theorem filter_of_notMem (h : '.' ∉ cs) : cs.filter (· ≠ '.') = cs :=
  List.filter_eq_self.2 (ne_point h)

theorem beforePoint_of_notMem (h : '.' ∉ cs) : beforePoint cs = cs :=
  List.takeWhile_eq_self_iff.2 (ne_point h)

theorem afterPoint_of_notMem (h : '.' ∉ cs) : afterPoint cs = [] := by
  rw [afterPoint, List.dropWhile_eq_nil_iff.2 (ne_point h), List.drop_nil]

theorem beforePoint_append (h : '.' ∉ cs) (ds : List Char) : beforePoint (cs ++ '.' :: ds) = cs := by
  rw [beforePoint, List.takeWhile_append_of_pos (ne_point h)]
  simp

theorem afterPoint_append (h : '.' ∉ cs) (ds : List Char) : afterPoint (cs ++ '.' :: ds) = ds := by
  rw [afterPoint, List.dropWhile_append_of_pos (ne_point h)]
  simp

end Text

namespace Decimal

open Text

variable {cs ws fs : List Char} {d : Decimal} {s : String}

structure IsNumeral (cs : List Char) : Prop where
  chars : ∀ c ∈ cs, c.isDigit = true ∨ c = '.'
  point : cs.count '.' ≤ 1
  digit : ∃ c ∈ cs, c.isDigit = true
  places : (afterPoint cs).length ≤ places

/-- The number that a numeral denotes: all its digits, with as many places as follow the point. -/
def denoted (cs : List Char) : ℚ := value (cs.filter (· ≠ '.')) / 10 ^ (afterPoint cs).length

theorem isNumeral_append (hws : '.' ∉ ws) : IsNumeral (ws ++ '.' :: fs) ↔
    ¬ (ws = [] ∧ fs = []) ∧ (∀ c ∈ ws, c.isDigit = true) ∧ (∀ c ∈ fs, c.isDigit = true) ∧
      fs.length ≤ places := by
  constructor
  · rintro ⟨hchars, hpoint, ⟨c, hc, hdigit⟩, hplaces⟩
    have hfs : '.' ∉ fs := by
      rw [List.count_append, List.count_cons_self] at hpoint
      exact List.count_eq_zero.1 (by omega)
    rw [afterPoint_append hws] at hplaces
    refine ⟨?_, fun d hd => (hchars d (by simp [hd])).resolve_right (ne_of_mem_of_not_mem hd hws),
      fun d hd => (hchars d (by simp [hd])).resolve_right (ne_of_mem_of_not_mem hd hfs), hplaces⟩
    rintro ⟨rfl, rfl⟩
    -- A point alone has no digit.
    exact absurd hdigit (by rw [List.mem_singleton.1 hc]; decide)
  · rintro ⟨hne, hwhole, hfrac, hplaces⟩
    have hfs := notMem_of_isDigit hfrac
    refine ⟨fun c hc => ?_, ?_, ?_, by rwa [afterPoint_append hws]⟩
    · rcases List.mem_append.1 hc with hc | hc
      · exact .inl (hwhole c hc)
      · exact (List.mem_cons.1 hc).symm.imp_left (hfrac c)
    · simp [List.count_append, List.count_eq_zero.2 hws, List.count_eq_zero.2 hfs]
    · rcases not_and_or.1 hne with hne | hne
      · obtain ⟨c, hc⟩ := List.exists_mem_of_ne_nil ws hne
        exact ⟨c, by simp [hc], hwhole c hc⟩
      · obtain ⟨c, hc⟩ := List.exists_mem_of_ne_nil fs hne
        exact ⟨c, by simp [hc], hfrac c hc⟩

theorem isNumeral_of_notMem (h : '.' ∉ cs) :
    IsNumeral cs ↔ cs ≠ [] ∧ ∀ c ∈ cs, c.isDigit = true := by
  constructor
  · rintro ⟨hchars, -, ⟨c, hc, -⟩, -⟩
    exact ⟨List.ne_nil_of_mem hc,
      fun d hd => (hchars d hd).resolve_right (ne_of_mem_of_not_mem hd h)⟩
  · rintro ⟨hne, hdigits⟩
    obtain ⟨c, hc⟩ := List.exists_mem_of_ne_nil cs hne
    exact ⟨fun c hc => .inl (hdigits c hc), (List.count_eq_zero.2 h).le.trans zero_le_one,
      ⟨c, hc, hdigits c hc⟩, by simp [afterPoint_of_notMem h]⟩

theorem isNumeral_iff : IsNumeral cs ↔
    ¬ (beforePoint cs = [] ∧ afterPoint cs = []) ∧ (beforePoint cs).all Char.isDigit = true ∧
      (afterPoint cs).all Char.isDigit = true ∧ (afterPoint cs).length ≤ places := by
  simp only [List.all_eq_true]
  by_cases hmem : '.' ∈ cs
  · obtain ⟨ws, fs, rfl, hws⟩ := List.eq_append_cons_of_mem hmem
    rw [beforePoint_append hws, afterPoint_append hws, isNumeral_append hws]
  · rw [beforePoint_of_notMem hmem, afterPoint_of_notMem hmem, isNumeral_of_notMem hmem]
    simp

instance : DecidablePred IsNumeral := fun _ => decidable_of_iff _ isNumeral_iff.symm

/-! ### Places -/

theorem scaled_eq (h : fs.length ≤ places) :
    scaled ws fs = value (ws ++ fs) * 10 ^ (places - fs.length) := by
  have hpow : 10 ^ places = 10 ^ fs.length * 10 ^ (places - fs.length) := by
    rw [← pow_add, Nat.add_sub_cancel' h]
  rw [scaled, value_append fs, List.length_replicate, value_zeros, value_append ws, hpow]
  ring

theorem filter_of_isNumeral (h : IsNumeral cs) :
    cs.filter (· ≠ '.') = beforePoint cs ++ afterPoint cs := by
  obtain ⟨-, -, hfrac, -⟩ := isNumeral_iff.1 h
  by_cases hmem : '.' ∈ cs
  · obtain ⟨ws, fs, rfl, hws⟩ := List.eq_append_cons_of_mem hmem
    rw [afterPoint_append hws] at hfrac
    rw [beforePoint_append hws, afterPoint_append hws, List.filter_append,
      List.filter_cons_of_neg (by simp), filter_of_notMem hws,
      filter_of_notMem (notMem_of_isDigit (List.all_eq_true.1 hfrac))]
  · rw [filter_of_notMem hmem, beforePoint_of_notMem hmem, afterPoint_of_notMem hmem,
      List.append_nil]

theorem scaled_of_isNumeral (h : IsNumeral cs) :
    (scaled (beforePoint cs) (afterPoint cs) : ℚ) = denoted cs * 10 ^ places := by
  rw [scaled_eq h.places, denoted, filter_of_isNumeral h, Nat.cast_mul, Nat.cast_pow,
    pow_sub₀ _ (by norm_num) h.places]
  push_cast
  ring

/-! ### Reading -/

theorem parse_eq_ok_iff_ofParts : parse s = .ok d ↔
    IsNumeral s.toList ∧ ofParts (beforePoint s.toList) (afterPoint s.toList) = some d := by
  simp only [isNumeral_iff, parse, beforePoint, afterPoint]
  generalize s.toList.takeWhile (· ≠ '.') = whole
  generalize (s.toList.dropWhile (· ≠ '.')).drop 1 = frac
  simp only [Bool.and_eq_true, List.isEmpty_iff, Bool.or_eq_true, Bool.not_eq_true',
    decide_eq_true_eq]
  split_ifs with hempty hbad
  · simp [hempty]
  · refine iff_of_false (by simp) ?_
    rintro ⟨⟨-, hwhole, hfrac, hplaces⟩, -⟩
    rcases hbad with (hbad | hbad) | hbad
    · exact absurd hwhole (by simp [hbad])
    · exact absurd hfrac (by simp [hbad])
    · exact absurd hbad hplaces.not_gt
  · simp only [not_or, Bool.not_eq_false, not_lt] at hbad
    rw [and_iff_right ⟨hempty, hbad.1.1, hbad.1.2, hbad.2⟩]
    cases ofParts whole frac <;> simp

theorem parse_eq_ok_iff : parse s = .ok d ↔
    IsNumeral s.toList ∧ (d.raw.toNat : ℚ) = denoted s.toList * 10 ^ places := by
  rw [parse_eq_ok_iff_ofParts]
  refine and_congr_right fun h => ?_
  rw [ofParts_eq_some_iff, ← scaled_of_isNumeral h, Nat.cast_inj, eq_comm]

theorem exists_parse_iff : (∃ d, parse s = .ok d) ↔
    IsNumeral s.toList ∧ denoted s.toList * 10 ^ places < 2 ^ 128 := by
  simp only [parse_eq_ok_iff, exists_and_left]
  refine and_congr_right fun h => ?_
  rw [← scaled_of_isNumeral h]
  constructor
  · rintro ⟨d, hd⟩
    rw [← hd]
    exact_mod_cast d.raw.toNat_lt
  · intro hlt
    obtain ⟨a, -, ha⟩ := Amount.ofNat?_of_lt (n := scaled _ _) (by exact_mod_cast hlt)
    exact ⟨⟨a⟩, congrArg Nat.cast ha⟩

/-- The texts read are the numerals that fit, what is read is what they denote, and every fraction is
read from its own text. -/
theorem parse_exact :
    (∀ s, (∃ d, parse s = .ok d) ↔
      IsNumeral s.toList ∧ denoted s.toList * 10 ^ places < 2 ^ 128) ∧
    (∀ s d, parse s = .ok d → (d.raw.toNat : ℚ) = denoted s.toList * 10 ^ places) ∧
    ∀ raw : Amount, parse (text ⟨raw⟩) = .ok ⟨raw⟩ :=
  ⟨fun _ => exists_parse_iff, fun _ _ h => (parse_eq_ok_iff.1 h).2, fun _ => parse_text _⟩

theorem denoted_of_full (h : (afterPoint cs).length = places) :
    denoted cs * 10 ^ places = value (cs.filter (· ≠ '.')) := by
  rw [denoted, h, div_mul_cancel₀ _ (by norm_num)]

theorem largest_exact :
    (∃ d, parse "00340282366920938463463.374607431768211455" = .ok d) ∧
      (¬ ∃ d, parse "340282366920938463463.374607431768211456" = .ok d) ∧
      ((500000000000000000 : Amount).toNat : ℚ) = denoted ".5".toList * 10 ^ places ∧
      parse (text ⟨-1⟩) = .ok ⟨-1⟩ := by
  obtain ⟨hread, hvalue, htext⟩ := parse_exact
  refine ⟨(hread _).2 ⟨by decide +kernel, ?_⟩, mt (hread _).1 fun h => absurd h.2 ?_,
    hvalue ".5" ⟨500000000000000000⟩ (by decide +kernel), htext _⟩
  all_goals rw [denoted_of_full (by decide +kernel)]
  · exact_mod_cast (by decide +kernel :
      value ("00340282366920938463463.374607431768211455".toList.filter (· ≠ '.')) < 2 ^ 128)
  · exact_mod_cast (by decide +kernel :
      ¬ value ("340282366920938463463.374607431768211456".toList.filter (· ≠ '.')) < 2 ^ 128)

end Decimal

end DaoGovernance
