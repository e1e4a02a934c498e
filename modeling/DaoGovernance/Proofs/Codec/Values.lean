import DaoGovernance.Proofs.Codec.Basic
import Mathlib

/-!
The codecs of words, texts, lists and choices are lawful, and so are those of addresses, amounts
and coins.
-/

namespace DaoGovernance

/-- The length of the text in bytes is a word, as that of every text in memory is. -/
def Text.Fits (s : String) : Prop := (toBytes s).length < UInt64.size

def ListFits {α : Type} (P : α → Prop) (as : List α) : Prop :=
  as.length < UInt64.size ∧ ∀ a ∈ as, P a

def Coin.Fits (c : Coin) : Prop := Text.Fits c.denom

def Coins.Fits (cs : Coins) : Prop := ListFits Coin.Fits cs.list

instance (s : String) : Decidable (Text.Fits s) := inferInstanceAs (Decidable (_ < _))

instance {α : Type} (P : α → Prop) [DecidablePred P] (as : List α) : Decidable (ListFits P as) :=
  inferInstanceAs (Decidable (_ ∧ _))

instance : DecidablePred Coin.Fits := fun c => inferInstanceAs (Decidable (Text.Fits c.denom))

instance (cs : Coins) : Decidable cs.Fits := inferInstanceAs (Decidable (ListFits _ _))

namespace Codec

variable {α : Type} {c : Codec α} {P : α → Prop}

theorem byte_roundTrips : byte.RoundTrips fun _ => True := fun _ _ _ => rfl

theorem byte_canonical : byte.Canonical fun _ => True := by
  intro bs b r h
  cases bs with
  | nil => cases h
  | cons x xs => cases h; exact ⟨trivial, rfl⟩

theorem word_roundTrips (width : Nat) : (word width).RoundTrips (· < 256 ^ width) := by
  intro n hn r
  simp only [word, splitAt?_append (length_littleEndian width n), ofLittleEndian_littleEndian hn]

theorem word_canonical (width : Nat) : (word width).Canonical (· < 256 ^ width) := by
  intro bs n r h
  simp only [word] at h
  split at h
  · rename_i w s hs
    cases h
    obtain ⟨rfl, rfl⟩ := append_of_splitAt? hs
    exact ⟨ofLittleEndian_lt w, by simp only [word, littleEndian_ofLittleEndian]⟩
  · cases h

theorem uint64_roundTrips : uint64.RoundTrips fun _ => True :=
  ((word_roundTrips 8).iso fun n => by simp).mono fun n _ => n.toNat_lt

theorem uint64_canonical : uint64.Canonical fun _ => True :=
  ((word_canonical 8).iso fun n (hn : n < 256 ^ 8) => by simpa using by omega).mono
    fun _ _ => trivial

theorem amount_roundTrips : amount.RoundTrips fun _ => True :=
  ((word_roundTrips 16).iso fun n => by simp).mono fun n _ => n.isLt

theorem amount_canonical : amount.Canonical fun _ => True :=
  ((word_canonical 16).iso fun n (hn : n < 256 ^ 16) => by simpa using by omega).mono
    fun _ _ => trivial

theorem height_roundTrips : height.RoundTrips fun _ => True := uint64_roundTrips.iso fun _ => rfl

theorem height_canonical : height.Canonical fun _ => True := uint64_canonical.iso fun _ _ => rfl

theorem decodeMany_flatMap (h : c.RoundTrips P) {as : List α} (ha : ∀ a ∈ as, P a) (r : Bytes) :
    c.decodeMany as.length (as.flatMap c.encode ++ r) = .ok (as, r) := by
  induction as with
  | nil => rfl
  | cons a as ih =>
    simp only [List.length_cons, List.flatMap_cons, List.append_assoc, decodeMany]
    rw [h a (ha a (by simp))]
    simp only [ih fun b hb => ha b (by simp [hb])]

theorem eq_flatMap_of_decodeMany (h : c.Canonical P) {n : Nat} {bs r : Bytes} {as : List α}
    (hd : c.decodeMany n bs = .ok (as, r)) :
    as.length = n ∧ (∀ a ∈ as, P a) ∧ bs = as.flatMap c.encode ++ r := by
  induction n generalizing bs as with
  | zero =>
    cases hd
    exact ⟨rfl, by simp, rfl⟩
  | succ n ih =>
    simp only [decodeMany] at hd
    split at hd
    · cases hd
    · rename_i a s ha
      split at hd
      · cases hd
      · rename_i as s' has
        cases hd
        obtain ⟨hP, rfl⟩ := h _ _ _ ha
        obtain ⟨rfl, hPs, rfl⟩ := ih has
        exact ⟨rfl, by simpa using ⟨hP, hPs⟩, by simp⟩

theorem list_roundTrips (h : c.RoundTrips P) : (list c).RoundTrips (ListFits P) := by
  intro as ⟨hl, ha⟩ r
  simp only [list, List.append_assoc]
  rw [uint64_roundTrips _ trivial]
  simp only [UInt64.toNat_ofNat_of_lt' hl, decodeMany_flatMap h ha r]

theorem list_canonical (h : c.Canonical P) : (list c).Canonical (ListFits P) := by
  intro bs as r hd
  simp only [list] at hd
  split at hd
  · cases hd
  · rename_i n s hn
    obtain ⟨-, rfl⟩ := uint64_canonical _ _ _ hn
    obtain ⟨hl, hP, rfl⟩ := eq_flatMap_of_decodeMany h hd
    exact ⟨⟨hl ▸ n.toNat_lt, hP⟩, by simp [list, hl]⟩

theorem bytes_roundTrips : bytes.RoundTrips fun bs => bs.length < UInt64.size :=
  (list_roundTrips byte_roundTrips).mono fun _ h => ⟨h, fun _ _ => trivial⟩

theorem bytes_canonical : bytes.Canonical fun bs => bs.length < UInt64.size :=
  (list_canonical byte_canonical).mono fun _ h => h.1

theorem text_roundTrips : text.RoundTrips Text.Fits := by
  intro s hs r
  simp only [text, List.append_assoc]
  rw [uint64_roundTrips _ trivial]
  simp only [UInt64.toNat_ofNat_of_lt' hs, splitAt?_append rfl, Text.ofBytes_toBytes]

theorem text_canonical : text.Canonical Text.Fits := by
  intro bs s r hd
  simp only [text] at hd
  split at hd
  · cases hd
  · rename_i n t hn
    obtain ⟨-, rfl⟩ := uint64_canonical _ _ _ hn
    split at hd
    · cases hd
    · rename_i cs u hc
      split at hd
      · cases hd
      · rename_i s' hs
        cases hd
        obtain ⟨rfl, hl⟩ := append_of_splitAt? hc
        have hb := Text.toBytes_of_ofBytes hs
        refine ⟨?_, ?_⟩
        · rw [Text.Fits, hb, hl]
          exact n.toNat_lt
        · simp [text, hb, hl]

theorem choice_roundTrips [DecidableEq α] {values : List α} (hl : values.length < 256 ^ 4) :
    (choice values).RoundTrips (· ∈ values) := by
  intro a ha r
  have hi := List.idxOf_lt_length_of_mem ha
  simp only [choice]
  rw [word_roundTrips 4 _ (by omega)]
  simp [hi]

theorem choice_canonical [DecidableEq α] {values : List α} (hn : values.Nodup) :
    (choice values).Canonical (· ∈ values) := by
  intro bs a r hd
  simp only [choice] at hd
  split at hd
  · cases hd
  · rename_i i s hi
    split at hd
    · rename_i b hb
      cases hd
      obtain ⟨hlt, rfl⟩ := List.getElem?_eq_some_iff.1 hb
      obtain ⟨-, rfl⟩ := word_canonical 4 _ _ _ hi
      exact ⟨List.getElem_mem hlt, by simp [choice, hn.idxOf_getElem]⟩
    · cases hd

theorem coin_roundTrips : coin.RoundTrips Coin.Fits :=
  ((text_roundTrips.pair amount_roundTrips).iso fun _ => rfl).mono fun _ h => ⟨h, trivial⟩

theorem coin_canonical : coin.Canonical Coin.Fits :=
  ((text_canonical.pair amount_canonical).iso fun _ _ => rfl).mono fun _ h => h.1

theorem coins_roundTrips : coins.RoundTrips Coins.Fits :=
  (list_roundTrips coin_roundTrips).iso fun _ => rfl

theorem coins_canonical : coins.Canonical Coins.Fits :=
  (list_canonical coin_canonical).iso fun _ _ => rfl

end Codec

end DaoGovernance
