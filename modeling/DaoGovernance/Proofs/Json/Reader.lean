import DaoGovernance.Json.Reader
import DaoGovernance.Proofs.Json.Token
import Mathlib

/-!
Reading the text of a value gives the value back, if its numbers are natural and its strings are
texts.
-/

namespace DaoGovernance.Json

open Text

/-! ### Texts that are accepted -/

inductive Accepts (v : Json) : State → List Char → Prop
  | done : Accepts v (.closed v []) []
  | space {s : State} {c : Char} {cs : List Char} (hc : isSpace c = true) (h : Accepts v s cs) :
      Accepts v s (c :: cs)
  | token {s s' : State} {t : Token} {c : Char} {p r : List Char} (hc : isSpace c = false)
      (hl : lexOne (c :: (p ++ r)) = some (t, r)) (hs : s.step t = some s') (h : Accepts v s' r) :
      Accepts v s (c :: (p ++ r))

variable {u v w : Json} {s s' : State} {fs : List Frame} {cs r : List Char}

theorem Accepts.mark {t : Token} {c : Char} (hc : isSpace c = false)
    (hl : lexOne (c :: r) = some (t, r)) (hs : s.step t = some s') (h : Accepts v s' r) :
    Accepts v s (c :: r) :=
  .token (p := []) hc hl hs h

theorem Accepts.lexAll (h : Accepts v s cs) (acc : List Token) {fuel : Nat}
    (hf : cs.length ≤ fuel) :
    ∃ ts, Json.lexAll fuel acc cs = some (acc.reverse ++ ts) ∧ run s ts = some (.closed v []) := by
  induction h generalizing acc fuel with
  | done => exact ⟨[], by simp [Json.lexAll], rfl⟩
  | @space s c cs hc _ ih =>
    obtain ⟨fuel, rfl⟩ := Nat.exists_eq_succ_of_ne_zero (Nat.ne_zero_of_lt hf)
    obtain ⟨ts, hts, hrun⟩ := ih acc (Nat.le_of_succ_le_succ hf)
    exact ⟨ts, by rw [Json.lexAll, if_pos hc, hts], hrun⟩
  | @token s s' t c p r hc hl hs _ ih =>
    obtain ⟨fuel, rfl⟩ := Nat.exists_eq_succ_of_ne_zero (Nat.ne_zero_of_lt hf)
    have hr : r.length ≤ fuel := by
      rw [List.length_cons, List.length_append] at hf
      omega
    obtain ⟨ts, hts, hrun⟩ := ih (t :: acc) hr
    refine ⟨t :: ts, ?_, ?_⟩
    · rw [Json.lexAll, if_neg (by simp [hc])]
      simp only [hl, hts, List.reverse_cons, List.append_assoc, List.singleton_append]
    · rw [run, hs]
      exact hrun

theorem parse_of_accepts {s : String} (h : Accepts v (.value []) s.toList) : parse s = some v := by
  obtain ⟨ts, hts, hrun⟩ := h.lexAll [] (Nat.le_refl _)
  rw [List.reverse_nil, List.nil_append] at hts
  simp [parse, tokens, hts, hrun]

theorem Accepts.line (level : Nat) (h : Accepts v s r) : Accepts v s (line level ++ r) := by
  refine .space rfl ?_
  generalize 2 * level = n
  induction n with
  | zero => exact h
  | succ n ih => exact .space rfl ih

theorem Accepts.firstItem (h : Accepts v (.value (.array [] :: fs)) cs) :
    Accepts v (.firstItem fs) cs := by
  generalize hs : State.value (.array [] :: fs) = s at h
  induction h with
  | done => cases hs
  | space hc _ ih => exact .space hc (ih hs)
  | @token s s' t c p r hc hl hstep h ih =>
    subst hs
    refine .token hc hl ?_ h
    rw [← hstep]
    cases t with
    | closeArray => cases hstep
    | _ => rfl

/-! ### Values that are written -/

inductive Plain : Json → Prop
  | null : Plain .null
  | bool (b : Bool) : Plain (.bool b)
  | number (n : Nat) : Plain (.number (digits n))
  | string (s : String) : Plain (.string (some s))
  | array {vs : List Json} (h : ∀ v ∈ vs, Plain v) : Plain (.array vs)
  | object {ms : Members} (hn : ∀ m ∈ ms, m.1.isSome = true) (hv : ∀ m ∈ ms, Plain m.2) :
      Plain (.object ms)

/-- What follows the text of the value leads from the closed value to `v`, if the text and what
follows lead from its start there. -/
def Written (v u : Json) : Prop :=
  ∀ level fs r, Delimited r → Accepts v (.closed u fs) r → Accepts v (.value fs) (chars level u ++ r)

theorem delimited_line (level : Nat) (r : List Char) : Delimited (line level ++ r) := .inr rfl

theorem delimited_items (level : Nat) (vs : List Json) (level' : Nat) (r : List Char) :
    Delimited (itemChars level vs ++ (line level' ++ r)) := by
  cases vs with
  | nil => exact delimited_line level' _
  | cons v vs => exact .inl rfl

theorem delimited_members (level : Nat) (ms : Members) (level' : Nat) (r : List Char) :
    Delimited (memberChars level ms ++ (line level' ++ r)) := by
  cases ms with
  | nil => exact delimited_line level' _
  | cons m ms => exact .inl rfl

theorem accepts_items (us : List Json) {vs : List Json} (hvs : ∀ u ∈ vs, Written v u) (level level' : Nat)
    (h : Accepts v (.closed (.array ((w :: us).reverse ++ vs)) fs) r) :
    Accepts v (.closed w (.array us :: fs))
      (itemChars level vs ++ (line level' ++ closeBracket :: r)) := by
  induction vs generalizing us w with
  | nil =>
    rw [List.append_nil] at h
    refine .line level' ?_
    exact .mark (t := .closeArray) rfl rfl rfl h
  | cons u vs ih =>
    obtain ⟨hu, hvs⟩ := List.forall_mem_cons.1 hvs
    have hrest := ih (w :: us) (w := u) hvs (by simpa using h)
    rw [itemChars, List.cons_append, List.append_assoc, List.append_assoc]
    refine .mark (t := .comma) rfl rfl rfl (.line level ?_)
    exact hu level _ _ (delimited_items _ _ _ _) hrest

theorem accepts_name (ms : Members) {name : String} (hs : s.step (.string (some name)) =
    some (.colon ms (some name) fs)) (h : Accepts v (.value (.object ms (some name) :: fs)) r) :
    Accepts v s (quoted name ++ (':' :: ' ' :: r)) := by
  refine .token (p := name.toList.flatMap escapeChar ++ [quote]) rfl (lexOne_quoted name _) hs ?_
  exact .mark (t := .colon) rfl rfl rfl (.space rfl h)

theorem accepts_members (ls : Members) {ms : Members} {n : Option String}
    (hn : ∀ m ∈ ms, m.1.isSome = true) (hms : ∀ m ∈ ms, Written v m.2) (level level' : Nat)
    (h : Accepts v (.closed (.object (((n, w) :: ls).reverse ++ ms)) fs) r) :
    Accepts v (.closed w (.object ls n :: fs))
      (memberChars level ms ++ (line level' ++ closeBrace :: r)) := by
  induction ms generalizing ls n w with
  | nil =>
    rw [List.append_nil] at h
    refine .line level' ?_
    exact .mark (t := .closeObject) rfl rfl rfl h
  | cons m ms ih =>
    obtain ⟨m, u⟩ := m
    obtain ⟨hm, hnames⟩ := List.forall_mem_cons.1 hn
    obtain ⟨hu, hvalues⟩ := List.forall_mem_cons.1 hms
    obtain ⟨name, rfl⟩ := Option.isSome_iff_exists.1 hm
    have hrest := ih ((n, w) :: ls) (n := some name) (w := u) hnames hvalues (by simpa using h)
    simp only [memberChars, textChars, Option.getD_some, List.cons_append, List.append_assoc,
      List.nil_append]
    refine .mark (t := .comma) rfl rfl rfl (.line level ?_)
    refine accepts_name ((n, w) :: ls) rfl ?_
    exact hu level _ _ (delimited_members _ _ _ _) hrest

theorem written (v : Json) (h : Plain u) : Written v u := by
  induction h with
  | null =>
    intro level fs r _ h
    exact .token (p := ['u', 'l', 'l']) (t := .null) rfl rfl rfl h
  | bool b =>
    intro level fs r _ h
    cases b with
    | true => exact .token (p := ['r', 'u', 'e']) (t := .bool true) rfl rfl rfl h
    | false => exact .token (p := ['a', 'l', 's', 'e']) (t := .bool false) rfl rfl rfl h
  | number n =>
    intro level fs r hr h
    have hl := lexOne_digits n hr
    rw [chars]
    cases hd : digits n with
    | nil => exact absurd hd (digits_ne_nil n)
    | cons c cs =>
      rw [hd] at h hl
      have hdigit : c.isDigit = true :=
        isDigit_of_mem_digits (n := n) (by rw [hd]; exact List.mem_cons_self)
      have hc : isSpace c = false := by
        rw [Bool.eq_false_iff]
        intro hspace
        simp only [isSpace, Bool.or_eq_true, decide_eq_true_eq] at hspace
        rcases hspace with ((rfl | rfl) | rfl) | rfl <;> exact absurd hdigit (by decide)
      exact .token hc hl rfl h
  | string s =>
    intro level fs r _ h
    rw [chars]
    exact .token rfl (lexOne_quoted s r) rfl h
  | @array vs _ ih =>
    intro level fs r _ h
    cases vs with
    | nil =>
      refine .mark (t := .openArray) rfl rfl rfl ?_
      exact .mark (t := .closeArray) rfl rfl rfl h
    | cons u vs =>
      obtain ⟨hu, hvs⟩ := List.forall_mem_cons.1 ih
      have hrest := accepts_items [] hvs (level + 1) level h
      simp only [chars, List.cons_append, List.append_assoc, List.nil_append]
      refine .mark (t := .openArray) rfl rfl rfl (.line _ (.firstItem ?_))
      exact hu (level + 1) _ _ (delimited_items _ _ _ _) hrest
  | @object ms hn _ ih =>
    intro level fs r _ h
    cases ms with
    | nil =>
      refine .mark (t := .openObject) rfl rfl rfl ?_
      exact .mark (t := .closeObject) rfl rfl rfl h
    | cons m ms =>
      obtain ⟨m, u⟩ := m
      obtain ⟨hm, hnames⟩ := List.forall_mem_cons.1 hn
      obtain ⟨hu, hms⟩ := List.forall_mem_cons.1 ih
      obtain ⟨name, rfl⟩ := Option.isSome_iff_exists.1 hm
      have hrest := accepts_members [] (n := some name) hnames hms (level + 1) level h
      simp only [chars, textChars, Option.getD_some, List.cons_append, List.append_assoc,
        List.nil_append]
      refine .mark (t := .openObject) rfl rfl rfl (.line _ ?_)
      refine accepts_name [] rfl ?_
      exact hu (level + 1) _ _ (delimited_members _ _ _ _) hrest

theorem parse_pretty (h : Plain v) : parse v.pretty = some v := by
  apply parse_of_accepts
  have hw := written v h 0 [] [] trivial .done
  rw [List.append_nil] at hw
  rwa [pretty, String.toList_ofList]

end DaoGovernance.Json
