import DaoGovernance.Proposal
import DaoGovernance.Proofs.Codec.Values
import DaoGovernance.Proofs.Decimal
import Mathlib

/-!
The codecs of the records are lawful, and content that was read from an envelope is read from its
own envelope again.
-/

namespace DaoGovernance

/-! ### Texts of bounded length -/

namespace Text

theorem length_encodeChar_le (c : Char) : (Utf8.encodeChar c).length ≤ 4 := by
  simp only [Utf8.encodeChar]
  split_ifs <;> simp

theorem length_toBytes_le (s : String) : (toBytes s).length ≤ 4 * s.toList.length := by
  rw [toBytes, Utf8.encode]
  induction s.toList with
  | nil => simp
  | cons c cs ih =>
    have := length_encodeChar_le c
    simp only [List.flatMap_cons, List.length_append, List.length_cons]
    omega

theorem fits_of_length_le {s : String} {n : Nat} (h : s.toList.length ≤ n)
    (hn : 4 * n < UInt64.size) : Fits s := by
  have := length_toBytes_le s
  rw [Fits]
  omega

theorem length_le_utf8ByteSize (s : String) : s.toList.length ≤ s.utf8ByteSize := by
  suffices h : ∀ cs, cs.length ≤ (String.ofList cs).utf8ByteSize by
    simpa using h s.toList
  intro cs
  induction cs with
  | nil => simp
  | cons c cs ih =>
    have := c.utf8Size_pos
    rw [← List.singleton_append, String.ofList_append, String.utf8ByteSize_append]
    simp
    omega

end Text

theorem Address.length_text_le (a : Address) : a.text.toList.length ≤ maxLength := by
  have h := a.valid
  simp only [isValid, isValidText, Bool.and_eq_true, decide_eq_true_eq] at h
  exact h.1.1.2

theorem Address.fits_text (a : Address) : Text.Fits a.text :=
  Text.fits_of_length_le a.length_text_le (by decide)

theorem Decimal.length_text_le (d : Decimal) : d.text.toList.length ≤ 58 := by
  have h : (Text.digits (d.raw.toNat / unit.toNat)).length ≤ 39 := by
    rw [Text.digits, Nat.length_toDigits_le_iff (by decide) (by decide)]
    exact (Nat.div_le_self _ _).trans_lt (d.raw.toNat_lt.trans (by decide))
  have hf := d.length_fraction
  rw [fraction] at hf
  rw [text, String.toList_ofList, chars, List.length_append, List.length_cons, hf]
  have : places = 18 := rfl
  omega

theorem Decimal.fits_text (d : Decimal) : Text.Fits d.text :=
  Text.fits_of_length_le d.length_text_le (by decide)

/-! ### Records -/

def Envelope.Fits (e : Envelope) : Prop := Text.Fits e.typeUrl ∧ e.value.length < UInt64.size

def Content.Fits : Content → Prop
  | .addLabel l => Text.Fits l
  | .requestTokens r a d => Text.Fits r ∧ a.Fits ∧ Text.Fits d

def Proposal.Fits (p : Proposal) : Prop :=
  Text.Fits p.title ∧ Text.Fits p.description ∧ p.content.Fits

def Params.Fits (p : Params) : Prop :=
  p.submissionDeposit.Fits ∧ p.labelDeposit.Fits ∧ Text.Fits p.votingDenom ∧ p.reward.Fits

instance (p : Params) : Decidable p.Fits := inferInstanceAs (Decidable (_ ∧ _ ∧ _ ∧ _))

namespace Codec

variable {α β : Type}

theorem checked_eq_ok {f : α → Except InvalidValue β} {a : α} {b : β} :
    checked f a = .ok b ↔ f a = .ok b := by
  unfold checked
  split <;> simp_all

theorem address_roundTrips : address.RoundTrips fun _ => True :=
  (text_roundTrips.refine fun a => checked_eq_ok.2 (Address.parse_text a)).mono
    fun a _ => a.fits_text

theorem address_canonical : address.Canonical fun _ => True :=
  (text_canonical.refine fun _ _ h => Address.text_of_parse (checked_eq_ok.1 h)).mono
    fun _ _ => trivial

theorem fraction_roundTrips : fraction.RoundTrips fun _ => True :=
  (text_roundTrips.refine fun d => checked_eq_ok.2 (Decimal.parse_text d)).mono
    fun d _ => d.fits_text

end Codec

open Codec

theorem Envelope.codec_roundTrips : Envelope.codec.RoundTrips Envelope.Fits :=
  (text_roundTrips.pair bytes_roundTrips).iso fun _ => rfl

theorem Envelope.codec_canonical : Envelope.codec.Canonical Envelope.Fits :=
  (text_canonical.pair bytes_canonical).iso fun _ _ => rfl

theorem ProposalStatus.mem_all (s : ProposalStatus) : s ∈ all := by cases s <;> decide

theorem ProposalStatus.codec_roundTrips : ProposalStatus.codec.RoundTrips fun _ => True :=
  (choice_roundTrips (by decide)).mono fun s _ => s.mem_all

theorem ProposalStatus.codec_canonical : ProposalStatus.codec.Canonical fun _ => True :=
  (choice_canonical (by decide)).mono fun _ _ => trivial

theorem VoteOption.mem_all (o : VoteOption) : o ∈ all := by cases o <;> decide

theorem VoteOption.codec_roundTrips : VoteOption.codec.RoundTrips fun _ => True :=
  (choice_roundTrips (by decide)).mono fun o _ => o.mem_all

theorem VoteOption.codec_canonical : VoteOption.codec.Canonical fun _ => True :=
  (choice_canonical (by decide)).mono fun _ _ => trivial

theorem Proposal.tallyCodec_roundTrips : tallyCodec.RoundTrips fun _ => True :=
  ((amount_roundTrips.pair (amount_roundTrips.pair amount_roundTrips)).iso fun _ => rfl).mono
    fun _ _ => ⟨trivial, trivial, trivial⟩

theorem Proposal.tallyCodec_canonical : tallyCodec.Canonical fun _ => True :=
  ((amount_canonical.pair (amount_canonical.pair amount_canonical)).iso fun _ _ => rfl).mono
    fun _ _ => trivial

theorem Proposal.codec_roundTrips : Proposal.codec.RoundTrips Proposal.Fits :=
  ((uint64_roundTrips.pair (address_roundTrips.pair (text_roundTrips.pair (text_roundTrips.pair
    (Envelope.codec_roundTrips.pair (ProposalStatus.codec_roundTrips.pair (height_roundTrips.pair
      (height_roundTrips.pair (height_roundTrips.pair (tallyCodec_roundTrips.pair
        amount_roundTrips)))))))))).iso fun _ => rfl).mono
    fun _ ⟨ht, hd, hc⟩ =>
      ⟨trivial, trivial, ht, hd, hc, trivial, trivial, trivial, trivial, trivial, trivial⟩

theorem Proposal.codec_canonical : Proposal.codec.Canonical Proposal.Fits :=
  ((uint64_canonical.pair (address_canonical.pair (text_canonical.pair (text_canonical.pair
    (Envelope.codec_canonical.pair (ProposalStatus.codec_canonical.pair (height_canonical.pair
      (height_canonical.pair (height_canonical.pair (tallyCodec_canonical.pair
        amount_canonical)))))))))).iso fun _ _ => rfl).mono
    fun _ ⟨_, _, ht, hd, hc, _⟩ => ⟨ht, hd, hc⟩

theorem Vote.codec_roundTrips : Vote.codec.RoundTrips fun _ => True :=
  ((uint64_roundTrips.pair (address_roundTrips.pair (VoteOption.codec_roundTrips.pair
    amount_roundTrips))).iso fun _ => rfl).mono fun _ _ => ⟨trivial, trivial, trivial, trivial⟩

theorem Vote.codec_canonical : Vote.codec.Canonical fun _ => True :=
  ((uint64_canonical.pair (address_canonical.pair (VoteOption.codec_canonical.pair
    amount_canonical))).iso fun _ _ => rfl).mono fun _ _ => trivial

theorem Lot.codec_roundTrips : Lot.codec.RoundTrips fun _ => True :=
  ((address_roundTrips.pair (uint64_roundTrips.pair (amount_roundTrips.pair
    height_roundTrips))).iso fun _ => rfl).mono fun _ _ => ⟨trivial, trivial, trivial, trivial⟩

theorem Lot.codec_canonical : Lot.codec.Canonical fun _ => True :=
  ((address_canonical.pair (uint64_canonical.pair (amount_canonical.pair
    height_canonical))).iso fun _ _ => rfl).mono fun _ _ => trivial

theorem Params.codec_roundTrips : Params.codec.RoundTrips Params.Fits :=
  ((uint64_roundTrips.pair (coins_roundTrips.pair (coins_roundTrips.pair (fraction_roundTrips.pair
    (fraction_roundTrips.pair (uint64_roundTrips.pair (text_roundTrips.pair
      coin_roundTrips))))))).iso fun _ => rfl).mono
    fun _ ⟨hs, hl, hv, hr⟩ => ⟨trivial, hs, hl, trivial, trivial, trivial, hv, hr⟩

theorem Proposal.decode_encode {p : Proposal} (h : p.Fits) : decode p.encode = .ok p :=
  codec_roundTrips.read h

theorem Proposal.fits_of_decode {bs : Bytes} {p : Proposal} (h : decode bs = .ok p) : p.Fits :=
  (codec_canonical.of_read h).1

theorem Proposal.id_of_decode_encode {p q : Proposal} (h : decode p.encode = .ok q) :
    q.id = p.id := by
  obtain ⟨r, h⟩ := Codec.read_eq_ok.1 h
  rw [encode, codec] at h
  obtain ⟨b, rfl⟩ := uint64_roundTrips.fst_of_decode (x := p) trivial h
  rfl

theorem Vote.decode_encode (v : Vote) : decode v.encode = .ok v := codec_roundTrips.read trivial

theorem Lot.decode_encode (l : Lot) : decode l.encode = .ok l := codec_roundTrips.read trivial

theorem Params.decode_encode {p : Params} (h : p.Fits) : decode p.encode = .ok p :=
  codec_roundTrips.read h

/-! ### Content -/

namespace Content

theorem tokensCodec_roundTrips : tokensCodec.RoundTrips
    fun c => Text.Fits c.1 ∧ c.2.1.Fits ∧ Text.Fits c.2.2 :=
  text_roundTrips.pair (coins_roundTrips.pair text_roundTrips)

theorem tokensCodec_canonical : tokensCodec.Canonical
    fun c => Text.Fits c.1 ∧ c.2.1.Fits ∧ Text.Fits c.2.2 :=
  text_canonical.pair (coins_canonical.pair text_canonical)

theorem addLabelUrl_ne : requestTokensUrl ≠ addLabelUrl := by decide

theorem unpack_pack {c : Content} (h : c.Fits) : c.pack.unpack = .ok c := by
  cases c with
  | addLabel l =>
    simp only [pack, typeUrl, payload, Envelope.unpack, text_roundTrips.read h]
    rfl
  | requestTokens r a d =>
    simp only [pack, typeUrl, payload, Envelope.unpack, addLabelUrl_ne, if_false, if_true,
      tokensCodec_roundTrips.read (a := (r, a, d)) h]
    rfl

theorem of_unpack {e : Envelope} {c : Content} (h : e.unpack = .ok c) :
    c.Fits ∧ c.typeUrl = e.typeUrl ∧ c.payload <+: e.value := by
  have map_ok : ∀ {α : Type} {f : α → Content} {u : String} {x : Except DecodeError α},
      f <$> Envelope.undecodable u x = .ok c → ∃ a, x = .ok a ∧ f a = c := by
    intro α f u x hx
    cases x with
    | error e => cases hx
    | ok a => exact ⟨a, rfl, Except.ok.inj hx⟩
  unfold Envelope.unpack at h
  split_ifs at h with hl ht
  · obtain ⟨l, hr, rfl⟩ := map_ok h
    obtain ⟨hf, hv⟩ := text_canonical.of_read hr
    exact ⟨hf, hl.symm, hv⟩
  · obtain ⟨⟨t, a, d⟩, hr, rfl⟩ := map_ok h
    obtain ⟨hf, hv⟩ := tokensCodec_canonical.of_read hr
    exact ⟨hf, ht.symm, hv⟩

theorem length_payload_addLabel (l : String) :
    (addLabel l).payload.length = 8 + (Text.toBytes l).length := by
  rw [payload, Codec.text]
  simp only [Codec.uint64, Codec.iso, Codec.word, List.length_append, length_littleEndian]

theorem fits_typeUrl (c : Content) : Text.Fits c.typeUrl := by
  cases c with
  | addLabel => exact Text.fits_of_length_le (s := addLabelUrl) (n := 40) (by decide) (by decide)
  | requestTokens =>
    exact Text.fits_of_length_le (s := requestTokensUrl) (n := 40) (by decide) (by decide)

theorem fits_pack {c : Content} (h : c.payload.length < UInt64.size) : c.pack.Fits :=
  ⟨c.fits_typeUrl, h⟩

end Content

end DaoGovernance
