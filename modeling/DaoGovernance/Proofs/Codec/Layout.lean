import DaoGovernance.Proofs.Codec.Records
import Mathlib

/-!
The formats of the records, told without codecs: what is written of a value, and which bytes that is.
Each record is read back from its bytes whatever follows them, and but for params, where a fraction
has many spellings, it is read from no others.
-/

namespace DaoGovernance

inductive Layout
  | word (width n : Nat)
  | text (s : String)
  | variant (index : Nat)
  | list (items : List Layout)
  | record (fields : List Layout)

namespace Layout

def wordBytes (width n : Nat) : Bytes := (List.range width).map fun i => .ofNat (n / 256 ^ i)

mutual

/-- Words have a fixed width, the lowest byte first.  A text is its UTF-8 bytes and a list its items,
each with their number in front as a 64-bit word.  A variant is its position among the others as a
32-bit word, and a record is its fields alone. -/
def bytes : Layout → Bytes
  | .word width n => wordBytes width n
  | .text s => wordBytes 8 s.toUTF8.size ++ s.toUTF8.data.toList
  | .variant i => wordBytes 4 i
  | .list ls => wordBytes 8 ls.length ++ allBytes ls
  | .record ls => allBytes ls

def allBytes : List Layout → Bytes
  | [] => []
  | l :: ls => l.bytes ++ allBytes ls

end

def uint64 (n : UInt64) : Layout := .word 8 n.toNat

def amount (a : Amount) : Layout := .word 16 a.toNat

def height (h : Height) : Layout := uint64 h.number

def address (a : Address) : Layout := .text a.text

def coin (c : Coin) : Layout := .record [.text c.denom, amount c.amount]

def coins (cs : Coins) : Layout := .list (cs.list.map coin)

theorem bytes_word (width n : Nat) : (word width n).bytes = wordBytes width n := rfl

theorem bytes_text (s : String) :
    (text s).bytes = wordBytes 8 s.toUTF8.size ++ s.toUTF8.data.toList := rfl

theorem bytes_variant (i : Nat) : (variant i).bytes = wordBytes 4 i := rfl

theorem bytes_list (ls : List Layout) : (list ls).bytes = wordBytes 8 ls.length ++ allBytes ls := rfl

theorem bytes_record (ls : List Layout) : (record ls).bytes = allBytes ls := rfl

theorem allBytes_nil : allBytes [] = [] := rfl

theorem allBytes_cons (l : Layout) (ls : List Layout) :
    allBytes (l :: ls) = l.bytes ++ allBytes ls := rfl

theorem allBytes_append (ls ms : List Layout) :
    allBytes (ls ++ ms) = allBytes ls ++ allBytes ms := by
  induction ls with
  | nil => rfl
  | cons l ls ih => rw [List.cons_append, allBytes_cons, allBytes_cons, ih, List.append_assoc]

theorem allBytes_singleton (l : Layout) : allBytes [l] = l.bytes := by
  rw [allBytes_cons, allBytes_nil, List.append_nil]

theorem allBytes_map {α : Type} (f : α → Layout) (as : List α) :
    allBytes (as.map f) = as.flatMap fun a => (f a).bytes := by
  induction as with
  | nil => rfl
  | cons a as ih => rw [List.map_cons, allBytes_cons, ih, List.flatMap_cons]

theorem wordBytes_succ (width n : Nat) :
    wordBytes (width + 1) n = .ofNat n :: wordBytes width (n / 256) := by
  rw [wordBytes, List.range_succ_eq_map, List.map_cons, List.map_map, pow_zero, Nat.div_one]
  congr 1
  apply List.map_congr_left
  intro i _
  rw [Function.comp_apply, Nat.succ_eq_add_one, pow_succ', Nat.div_div_eq_div_mul]

theorem littleEndian_eq (width n : Nat) : littleEndian width n = wordBytes width n := by
  induction width generalizing n with
  | zero => rfl
  | succ width ih =>
    rw [littleEndian, ih, wordBytes_succ]
    congr 1
    apply UInt8.toNat_inj.1
    simp

theorem wordBytes_mod (width n : Nat) : wordBytes width (n % 256 ^ width) = wordBytes width n := by
  induction width generalizing n with
  | zero => rfl
  | succ width ih =>
    have hhigh : n % (256 * 256 ^ width) / 256 = n / 256 % 256 ^ width := Nat.mod_mul_right_div_self ..
    rw [wordBytes_succ, wordBytes_succ, pow_succ', hhigh, ih]
    congr 1
    apply UInt8.toNat_inj.1
    simp

theorem uint64_encode (n : Nat) : Codec.uint64.encode (.ofNat n) = wordBytes 8 n := by
  change littleEndian 8 (UInt64.ofNat n).toNat = _
  rw [littleEndian_eq, UInt64.toNat_ofNat']
  exact wordBytes_mod 8 n

end Layout

/-! ### Records -/

def VoteOption.layout (o : VoteOption) : Layout := .variant o.ctorIdx

def ProposalStatus.layout (s : ProposalStatus) : Layout := .variant s.ctorIdx

def Envelope.layout (e : Envelope) : Layout :=
  .record [.text e.typeUrl, .list (e.value.map fun b => .word 1 b.toNat)]

def Content.layout : Content → Layout
  | .addLabel l => .record [.text l]
  | .requestTokens r a d => .record [.text r, .coins a, .text d]

def Vote.layout (v : Vote) : Layout :=
  .record [.uint64 v.proposal, .address v.voter, v.option.layout, .amount v.power]

def Lot.layout (l : Lot) : Layout :=
  .record [.address l.voter, .uint64 l.proposal, .amount l.initial, .height l.granted]

def Params.layout (p : Params) : Layout :=
  .record [.uint64 p.votingPeriod, .coins p.submissionDeposit, .coins p.labelDeposit,
    .text p.threshold.text, .text p.quorum.text, .uint64 p.decay, .text p.votingDenom,
    .coin p.reward]

def Proposal.layout (p : Proposal) : Layout :=
  .record [.uint64 p.id, .address p.proposer, .text p.title, .text p.description, p.content.layout,
    p.status.layout, .height p.submitted, .height p.votingStart, .height p.votingEnd,
    .amount p.tally.yes, .amount p.tally.no, .amount p.tally.abstain, .amount p.snapshot]

/-! ### Codecs write by the layout -/

namespace Codec

variable {α β : Type} {c : Codec α} {d : Codec β}

def Writes (c : Codec α) (fields : α → List Layout) : Prop :=
  ∀ a, c.encode a = Layout.allBytes (fields a)

theorem Writes.iso {fs : α → List Layout} (h : c.Writes fs) {f : α → β} {g : β → α} :
    (c.iso f g).Writes fun b => fs (g b) :=
  fun b => h (g b)

theorem Writes.refine {fs : α → List Layout} (h : c.Writes fs)
    {check : α → Except DecodeError β} {g : β → α} :
    (c.refine check g).Writes fun b => fs (g b) :=
  fun b => h (g b)

theorem Writes.pair {fs : α → List Layout} {gs : β → List Layout} (h : c.Writes fs)
    (k : d.Writes gs) : (c.pair d).Writes fun p => fs p.1 ++ gs p.2 := by
  intro p
  rw [Layout.allBytes_append, ← h, ← k]
  rfl

theorem Writes.record {fs : α → List Layout} (h : c.Writes fs) :
    c.Writes fun a => [.record (fs a)] := by
  intro a
  rw [Layout.allBytes_singleton, h, Layout.bytes_record]

theorem word_writes (width : Nat) : (word width).Writes fun n => [.word width n] := by
  intro n
  rw [Layout.allBytes_singleton, Layout.bytes_word, ← Layout.littleEndian_eq]
  rfl

theorem byte_writes : byte.Writes fun b => [.word 1 b.toNat] := by
  intro b
  rw [Layout.allBytes_singleton, Layout.bytes_word, ← Layout.littleEndian_eq]
  simp [byte, littleEndian]

theorem uint64_writes : uint64.Writes fun n => [.uint64 n] := (word_writes 8).iso

theorem amount_writes : amount.Writes fun a => [.amount a] := (word_writes 16).iso

theorem height_writes : height.Writes fun h => [.height h] := uint64_writes.iso

theorem text_writes : text.Writes fun s => [.text s] := by
  intro s
  have hsize : s.toUTF8.size = (Text.toBytes s).length := by
    rw [Text.toBytes_eq]
    rfl
  rw [Layout.allBytes_singleton, Layout.bytes_text, hsize, ← Text.toBytes_eq, ← Layout.uint64_encode]
  rfl

theorem address_writes : address.Writes fun a => [.address a] := text_writes.refine

theorem fraction_writes : fraction.Writes fun d => [.text d.text] := text_writes.refine

theorem list_writes {f : α → Layout} (h : c.Writes fun a => [f a]) :
    (list c).Writes fun as => [.list (as.map f)] := by
  intro as
  have hitems : c.encode = fun a => (f a).bytes := by
    funext a
    rw [h, Layout.allBytes_singleton]
  rw [Layout.allBytes_singleton, Layout.bytes_list, Layout.allBytes_map, List.length_map, ← hitems,
    ← Layout.uint64_encode]
  rfl

theorem choice_writes [DecidableEq α] (values : List α) :
    (choice values).Writes fun a => [.variant (values.idxOf a)] := by
  intro a
  rw [Layout.allBytes_singleton, Layout.bytes_variant, ← Layout.littleEndian_eq]
  rfl

theorem coin_writes : coin.Writes fun c => [.coin c] := (text_writes.pair amount_writes).iso.record

theorem coins_writes : coins.Writes fun cs => [.coins cs] := (list_writes coin_writes).iso

end Codec

open Codec

theorem VoteOption.codec_writes : VoteOption.codec.Writes fun o => [o.layout] := by
  intro o
  rw [codec, choice_writes]
  cases o <;> rfl

theorem ProposalStatus.codec_writes : ProposalStatus.codec.Writes fun s => [s.layout] := by
  intro s
  rw [codec, choice_writes]
  cases s <;> rfl

theorem Envelope.codec_writes : Envelope.codec.Writes fun e => [e.layout] :=
  (text_writes.pair (list_writes byte_writes)).iso.record

theorem Vote.codec_writes : Vote.codec.Writes fun v => [v.layout] :=
  (uint64_writes.pair (address_writes.pair (VoteOption.codec_writes.pair
    amount_writes))).iso.record

example : (⟨1, ⟨"dns1wwwwwwww", by decide⟩, .no, 258⟩ : Vote).encode =
    [1, 0, 0, 0, 0, 0, 0, 0] ++
    [12, 0, 0, 0, 0, 0, 0, 0, 100, 110, 115, 49, 119, 119, 119, 119, 119, 119, 119, 119] ++
    [2, 0, 0, 0] ++ [2, 1, 0, 0, 0, 0, 0, 0, 0, 0, 0, 0, 0, 0, 0, 0] := by decide

theorem Lot.codec_writes : Lot.codec.Writes fun l => [l.layout] :=
  (address_writes.pair (uint64_writes.pair (amount_writes.pair height_writes))).iso.record

theorem Params.codec_writes : Params.codec.Writes fun p => [p.layout] :=
  (uint64_writes.pair (coins_writes.pair (coins_writes.pair (fraction_writes.pair
    (fraction_writes.pair (uint64_writes.pair (text_writes.pair coin_writes))))))).iso.record

theorem Proposal.tallyCodec_writes :
    tallyCodec.Writes fun t => [.amount t.yes, .amount t.no, .amount t.abstain] :=
  (amount_writes.pair (amount_writes.pair amount_writes)).iso

theorem Proposal.codec_writes : Proposal.codec.Writes fun p => [p.layout] :=
  (uint64_writes.pair (address_writes.pair (text_writes.pair (text_writes.pair
    (Envelope.codec_writes.pair (ProposalStatus.codec_writes.pair (height_writes.pair
      (height_writes.pair (height_writes.pair (tallyCodec_writes.pair
        amount_writes)))))))))).iso.record

theorem Content.payload_eq (c : Content) : c.payload = c.layout.bytes := by
  rw [← Layout.allBytes_singleton]
  cases c with
  | addLabel l => exact text_writes.record l
  | requestTokens r a d =>
    exact (text_writes.pair (coins_writes.pair text_writes)).record (r, a, d)

/-! ### Formats -/

structure Format {α : Type} (encode : α → Bytes) (decode : Bytes → Except DecodeError α)
    (Fits : α → Prop) (layout : α → Layout) : Prop where
  layout : ∀ a, encode a = (layout a).bytes
  read : ∀ a, Fits a → ∀ r, decode (encode a ++ r) = .ok a

structure ExactFormat {α : Type} (encode : α → Bytes) (decode : Bytes → Except DecodeError α)
    (Fits : α → Prop) (layout : α → Layout) : Prop
    extends Format encode decode Fits layout where
  exact : ∀ bs a, decode bs = .ok a → Fits a ∧ encode a <+: bs

theorem Codec.Writes.format {α : Type} {c : Codec α} {P : α → Prop} {f : α → Layout}
    (h : c.Writes fun a => [f a]) (hc : c.RoundTrips P) : Format c.encode c.read P f where
  layout a := by rw [h, Layout.allBytes_singleton]
  read _ ha r := hc.read_append ha r

theorem Codec.Writes.exactFormat {α : Type} {c : Codec α} {P : α → Prop} {f : α → Layout}
    (h : c.Writes fun a => [f a]) (hc : c.RoundTrips P) (he : c.Canonical P) :
    ExactFormat c.encode c.read P f where
  toFormat := h.format hc
  exact _ _ hr := he.of_read hr

structure ContentFormat : Prop where
  layout : ∀ c : Content, c.pack.value = c.layout.bytes
  unpack : ∀ c : Content, c.Fits → c.pack.unpack = .ok c
  injective : ∀ c c' : Content, c.Fits → c'.Fits → c.pack = c'.pack → c = c'
  exact : ∀ (e : Envelope) (c : Content), e.unpack = .ok c →
    c.Fits ∧ c.pack.typeUrl = e.typeUrl ∧ c.pack.value <+: e.value

structure Formats : Prop where
  proposal : ExactFormat Proposal.encode Proposal.decode Proposal.Fits Proposal.layout
  vote : ExactFormat Vote.encode Vote.decode (fun _ => True) Vote.layout
  lot : ExactFormat Lot.encode Lot.decode (fun _ => True) Lot.layout
  params : Format Params.encode Params.decode Params.Fits Params.layout
  envelope : ExactFormat Envelope.encode Envelope.decode Envelope.Fits Envelope.layout
  content : ContentFormat

theorem contentFormat : ContentFormat where
  layout := Content.payload_eq
  unpack _ hc := Content.unpack_pack hc
  injective c c' hc hc' h := by
    have hu := Content.unpack_pack hc
    rw [h, Content.unpack_pack hc'] at hu
    exact (Except.ok.inj hu).symm
  exact _ _ h := Content.of_unpack h

theorem formats : Formats where
  proposal := Proposal.codec_writes.exactFormat Proposal.codec_roundTrips Proposal.codec_canonical
  vote := Vote.codec_writes.exactFormat Vote.codec_roundTrips Vote.codec_canonical
  lot := Lot.codec_writes.exactFormat Lot.codec_roundTrips Lot.codec_canonical
  params := Params.codec_writes.format Params.codec_roundTrips
  envelope := Envelope.codec_writes.exactFormat Envelope.codec_roundTrips Envelope.codec_canonical
  content := contentFormat

namespace Sample

def badRequest : Content := .requestTokens "nobody" ⟨[⟨"udnsc", 0⟩, ⟨"stake", 5⟩]⟩ ""

def badProposal : Proposal where
  id := 0
  proposer := ⟨"dns1wwwwwwww", by decide⟩
  title := "Tökens"
  description := ""
  content := badRequest.pack
  status := .votingPeriod
  submitted := ⟨0⟩
  votingStart := ⟨0⟩
  votingEnd := ⟨500⟩
  tally := .zero
  snapshot := 5

end Sample

theorem sample_formats :
    Proposal.decode (Sample.badProposal.encode ++ [0xFF]) = .ok Sample.badProposal ∧
      Sample.badProposal.content.unpack = .ok Sample.badRequest := by
  refine ⟨?_, ?_⟩
  · apply formats.proposal.read
    exact ⟨by decide, by decide, by decide, by decide⟩
  · apply formats.content.unpack
    exact ⟨by decide, by decide, by decide⟩

end DaoGovernance
