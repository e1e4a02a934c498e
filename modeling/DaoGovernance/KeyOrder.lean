/-!
Total strict orders on keys, as a decision procedure with its laws.  Lists are ordered
lexicographically, pairs by their first component and then by their second.
-/

namespace DaoGovernance

class KeyOrder (κ : Type) where
  before : κ → κ → Bool
  irrefl : ∀ a, before a a = false
  trans : ∀ {a b c}, before a b = true → before b c = true → before a c = true
  trichotomy : ∀ {a b}, before a b = false → before b a = false → a = b

namespace KeyOrder

variable {κ ι : Type} [KeyOrder κ] [KeyOrder ι]

theorem asymm {a b : κ} (h : before a b = true) : before b a = false := by
  cases hba : before b a with
  | false => rfl
  | true => rw [← irrefl a, trans h hba]

theorem ne_of_before {a b : κ} (h : before a b = true) : a ≠ b := by
  rintro rfl
  simp [irrefl] at h

def same (a b : κ) : Bool := !before a b && !before b a

@[simp] theorem same_iff {a b : κ} : same a b = true ↔ a = b := by
  constructor
  · intro h
    simp only [same, Bool.and_eq_true, Bool.not_eq_true'] at h
    exact trichotomy h.1 h.2
  · rintro rfl
    simp [same, irrefl]

@[simp] theorem same_self (a : κ) : same a a = true := same_iff.2 rfl

@[reducible] def pullback {α : Type} (f : α → κ) (inj : ∀ {a b}, f a = f b → a = b) : KeyOrder α where
  before a b := before (f a) (f b)
  irrefl a := irrefl (f a)
  trans := trans
  trichotomy h k := inj (trichotomy h k)

instance nat : KeyOrder Nat where
  before a b := decide (a < b)
  irrefl a := by simp
  trans h k := by simp at *; omega
  trichotomy h k := by simp at *; omega

instance uint8 : KeyOrder UInt8 := pullback UInt8.toNat UInt8.toNat_inj.1

instance uint64 : KeyOrder UInt64 := pullback UInt64.toNat UInt64.toNat_inj.1

instance char : KeyOrder Char := pullback Char.toNat Char.toNat_inj.1

def beforeList : List κ → List κ → Bool
  | _, [] => false
  | [], _ :: _ => true
  | a :: as, b :: bs => before a b || (same a b && beforeList as bs)

theorem beforeList_irrefl (as : List κ) : beforeList as as = false := by
  induction as with
  | nil => rfl
  | cons a as ih => simp [beforeList, irrefl, ih]

theorem beforeList_trans {as bs cs : List κ} (h : beforeList as bs = true)
    (k : beforeList bs cs = true) : beforeList as cs = true := by
  induction as generalizing bs cs with
  | nil =>
    cases cs with
    | nil => cases bs <;> simp [beforeList] at k
    | cons c cs => rfl
  | cons a as ih =>
    cases bs with
    | nil => simp [beforeList] at h
    | cons b bs =>
      cases cs with
      | nil => simp [beforeList] at k
      | cons c cs =>
        simp only [beforeList, Bool.or_eq_true, Bool.and_eq_true, same_iff] at *
        rcases h with h | ⟨rfl, h⟩
        · rcases k with k | ⟨rfl, _⟩
          · exact .inl (trans h k)
          · exact .inl h
        · rcases k with k | ⟨rfl, k⟩
          · exact .inl k
          · exact .inr ⟨rfl, ih h k⟩

theorem beforeList_trichotomy {as bs : List κ} (h : beforeList as bs = false)
    (k : beforeList bs as = false) : as = bs := by
  induction as generalizing bs with
  | nil =>
    cases bs with
    | nil => rfl
    | cons b bs => simp [beforeList] at h
  | cons a as ih =>
    cases bs with
    | nil => simp [beforeList] at k
    | cons b bs =>
      simp only [beforeList, Bool.or_eq_false_iff, Bool.and_eq_false_iff] at h k
      obtain rfl := trichotomy h.1 k.1
      simp only [same_self, Bool.true_eq_false, false_or] at h k
      rw [ih h.2 k.2]

instance list : KeyOrder (List κ) where
  before := beforeList
  irrefl := beforeList_irrefl
  trans := beforeList_trans
  trichotomy := beforeList_trichotomy

instance string : KeyOrder String := pullback String.toList String.toList_inj.1

instance prod : KeyOrder (κ × ι) where
  before a b := before a.1 b.1 || (same a.1 b.1 && before a.2 b.2)
  irrefl a := by simp [irrefl]
  trans {a b c} h k := by
    obtain ⟨a, a'⟩ := a
    obtain ⟨b, b'⟩ := b
    obtain ⟨c, c'⟩ := c
    simp only [Bool.or_eq_true, Bool.and_eq_true, same_iff] at *
    rcases h with h | ⟨rfl, h⟩
    · rcases k with k | ⟨rfl, _⟩
      · exact .inl (trans h k)
      · exact .inl h
    · rcases k with k | ⟨rfl, k⟩
      · exact .inl k
      · exact .inr ⟨rfl, trans h k⟩
  trichotomy {a b} h k := by
    obtain ⟨a, a'⟩ := a
    obtain ⟨b, b'⟩ := b
    simp only [Bool.or_eq_false_iff, Bool.and_eq_false_iff] at h k
    obtain rfl := trichotomy h.1 k.1
    simp only [same_self, Bool.true_eq_false, false_or] at h k
    rw [trichotomy h.2 k.2]

end KeyOrder

end DaoGovernance
