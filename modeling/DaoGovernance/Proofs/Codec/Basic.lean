import DaoGovernance.Codec
import DaoGovernance.Proofs.Text.Utf8
import Mathlib

/-!
Laws of codecs.  A codec reads back what it writes, whatever follows, for the values whose lengths
fit in a word; it is canonical if it reads nothing else.  Both pass through every combinator.
-/

namespace DaoGovernance

/-! ### Words -/

@[simp] theorem length_littleEndian (width n : Nat) : (littleEndian width n).length = width := by
  induction width generalizing n with
  | zero => rfl
  | succ w ih => simp [littleEndian, ih]

theorem ofLittleEndian_littleEndian {width n : Nat} (h : n < 256 ^ width) :
    ofLittleEndian (littleEndian width n) = n := by
  induction width generalizing n with
  | zero =>
    rw [pow_zero] at h
    simp only [littleEndian, ofLittleEndian]
    omega
  | succ w ih =>
    rw [pow_succ] at h
    simp only [littleEndian, ofLittleEndian]
    rw [ih (by omega), Text.Utf8.toNat_ofNat (by omega)]
    omega

theorem ofLittleEndian_lt (bs : Bytes) : ofLittleEndian bs < 256 ^ bs.length := by
  induction bs with
  | nil => simp [ofLittleEndian]
  | cons b bs ih =>
    have := UInt8.toNat_lt b
    rw [ofLittleEndian, List.length_cons, pow_succ]
    omega

theorem littleEndian_ofLittleEndian (bs : Bytes) :
    littleEndian bs.length (ofLittleEndian bs) = bs := by
  induction bs with
  | nil => rfl
  | cons b bs ih =>
    have := UInt8.toNat_lt b
    simp only [List.length_cons, littleEndian, ofLittleEndian]
    rw [show (b.toNat + 256 * ofLittleEndian bs) % 256 = b.toNat by omega,
      show (b.toNat + 256 * ofLittleEndian bs) / 256 = ofLittleEndian bs by omega, ih]
    simp

/-! ### Splitting -/

section Split

variable {α : Type}

theorem splitAt?_append {n : Nat} {as : List α} (h : as.length = n) (r : List α) :
    splitAt? n (as ++ r) = some (as, r) := by
  induction as generalizing n with
  | nil => subst h; rfl
  | cons a as ih =>
    obtain rfl : as.length + 1 = n := h
    simp [splitAt?, ih rfl]

theorem append_of_splitAt? {n : Nat} {as bs r : List α} (h : splitAt? n as = some (bs, r)) :
    as = bs ++ r ∧ bs.length = n := by
  induction n generalizing as bs with
  | zero =>
    cases h
    exact ⟨rfl, rfl⟩
  | succ n ih =>
    cases as with
    | nil => cases h
    | cons a as =>
      simp only [splitAt?] at h
      split at h
      · rename_i cs s hs
        cases h
        obtain ⟨rfl, rfl⟩ := ih hs
        exact ⟨rfl, rfl⟩
      · cases h

end Split

namespace Codec

variable {α β : Type} {c : Codec α} {d : Codec β} {P : α → Prop} {Q : β → Prop}

def RoundTrips (c : Codec α) (Fits : α → Prop) : Prop :=
  ∀ a, Fits a → ∀ r, c.decode (c.encode a ++ r) = .ok (a, r)

def Canonical (c : Codec α) (Fits : α → Prop) : Prop :=
  ∀ bs a r, c.decode bs = .ok (a, r) → Fits a ∧ bs = c.encode a ++ r

theorem read_eq_ok {bs : Bytes} {a : α} : c.read bs = .ok a ↔ ∃ r, c.decode bs = .ok (a, r) := by
  unfold Codec.read
  split <;> simp_all

theorem RoundTrips.read_append (h : c.RoundTrips P) {a : α} (ha : P a) (r : Bytes) :
    c.read (c.encode a ++ r) = .ok a := by
  rw [Codec.read, h a ha]

theorem RoundTrips.read (h : c.RoundTrips P) {a : α} (ha : P a) : c.read (c.encode a) = .ok a := by
  have hr := h.read_append ha []
  rwa [List.append_nil] at hr

theorem Canonical.of_read (h : c.Canonical P) {bs : Bytes} {a : α} (hr : c.read bs = .ok a) :
    P a ∧ c.encode a <+: bs := by
  obtain ⟨r, hd⟩ := read_eq_ok.1 hr
  obtain ⟨ha, rfl⟩ := h _ _ _ hd
  exact ⟨ha, List.prefix_append _ _⟩

theorem RoundTrips.mono (h : c.RoundTrips P) {P' : α → Prop} (hP : ∀ a, P' a → P a) :
    c.RoundTrips P' :=
  fun a ha => h a (hP a ha)

theorem Canonical.mono (h : c.Canonical P) {P' : α → Prop} (hP : ∀ a, P a → P' a) :
    c.Canonical P' :=
  fun bs a r hd => ⟨hP a (h bs a r hd).1, (h bs a r hd).2⟩

/-! ### Combinators -/

theorem decode_iso_eq_ok {f : α → β} {g : β → α} {bs r : Bytes} {b : β} :
    (c.iso f g).decode bs = .ok (b, r) ↔ ∃ a, c.decode bs = .ok (a, r) ∧ f a = b := by
  simp only [Codec.iso]
  split <;> simp_all [and_comm]

theorem decode_refine_eq_ok {check : α → Except DecodeError β} {g : β → α} {bs r : Bytes} {b : β} :
    (c.refine check g).decode bs = .ok (b, r) ↔
      ∃ a, c.decode bs = .ok (a, r) ∧ check a = .ok b := by
  simp only [Codec.refine]
  split
  · simp_all
  · split <;> simp_all [and_comm]

theorem decode_pair_eq_ok {bs r : Bytes} {a : α} {b : β} :
    (c.pair d).decode bs = .ok ((a, b), r) ↔
      ∃ s, c.decode bs = .ok (a, s) ∧ d.decode s = .ok (b, r) := by
  simp only [Codec.pair]
  split
  · simp_all
  · split
    · simp_all
    · constructor
      · intro h
        cases h
        exact ⟨_, by assumption, by assumption⟩
      · rintro ⟨s, hc, hd⟩
        simp_all

theorem RoundTrips.iso (h : c.RoundTrips P) {f : α → β} {g : β → α} (hfg : ∀ b, f (g b) = b) :
    (c.iso f g).RoundTrips fun b => P (g b) := by
  intro b hb r
  exact decode_iso_eq_ok.2 ⟨g b, h (g b) hb r, hfg b⟩

theorem Canonical.iso (h : c.Canonical P) {f : α → β} {g : β → α} (hgf : ∀ a, P a → g (f a) = a) :
    (c.iso f g).Canonical fun b => P (g b) := by
  intro bs b r hd
  obtain ⟨a, ha, rfl⟩ := decode_iso_eq_ok.1 hd
  obtain ⟨hP, rfl⟩ := h _ _ _ ha
  simp only [Codec.iso, hgf a hP, hP, and_self]

theorem RoundTrips.refine (h : c.RoundTrips P) {check : α → Except DecodeError β} {g : β → α}
    (hg : ∀ b, check (g b) = .ok b) : (c.refine check g).RoundTrips fun b => P (g b) := by
  intro b hb r
  exact decode_refine_eq_ok.2 ⟨g b, h (g b) hb r, hg b⟩

theorem Canonical.refine (h : c.Canonical P) {check : α → Except DecodeError β} {g : β → α}
    (hg : ∀ a b, check a = .ok b → g b = a) : (c.refine check g).Canonical fun b => P (g b) := by
  intro bs b r hd
  obtain ⟨a, ha, hc⟩ := decode_refine_eq_ok.1 hd
  obtain ⟨hP, rfl⟩ := h _ _ _ ha
  obtain rfl := hg _ _ hc
  exact ⟨hP, rfl⟩

theorem RoundTrips.pair (h : c.RoundTrips P) (k : d.RoundTrips Q) :
    (c.pair d).RoundTrips fun p => P p.1 ∧ Q p.2 := by
  intro ⟨a, b⟩ ⟨ha, hb⟩ r
  simp only [Codec.pair, List.append_assoc, h a ha, k b hb]

theorem Canonical.pair (h : c.Canonical P) (k : d.Canonical Q) :
    (c.pair d).Canonical fun p => P p.1 ∧ Q p.2 := by
  intro bs ⟨a, b⟩ r hd
  obtain ⟨s, ha, hb⟩ := decode_pair_eq_ok.1 hd
  obtain ⟨hP, rfl⟩ := h _ _ _ ha
  obtain ⟨hQ, rfl⟩ := k _ _ _ hb
  exact ⟨⟨hP, hQ⟩, (List.append_assoc ..).symm⟩

theorem RoundTrips.fst_of_decode (h : c.RoundTrips P) {γ : Type} {f : α × β → γ} {g : γ → α × β}
    {x y : γ} {r : Bytes} (hx : P (g x).1)
    (hd : ((c.pair d).iso f g).decode (((c.pair d).iso f g).encode x) = .ok (y, r)) :
    ∃ b, y = f ((g x).1, b) := by
  obtain ⟨⟨a, b⟩, hp, rfl⟩ := decode_iso_eq_ok.1 hd
  obtain ⟨s, ha, -⟩ := decode_pair_eq_ok.1 hp
  simp only [Codec.iso, Codec.pair, h _ hx] at ha
  cases ha
  exact ⟨b, rfl⟩

end Codec

end DaoGovernance
