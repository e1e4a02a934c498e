import DaoGovernance.Genesis.Json
import DaoGovernance.Proofs.Decimal
import DaoGovernance.Proofs.Json.Shape
import Mathlib

/-!
A state of governance that is written as JSON is read back as it was, whether it is a valid one or
not.
-/

namespace DaoGovernance

open Json

namespace Json.Shape

theorem address_roundTrips : address.RoundTrips :=
  text_roundTrips.refine fun a => by rw [Address.parse_text]; rfl

theorem decimal_roundTrips : decimal.RoundTrips :=
  text_roundTrips.refine fun d => by rw [Decimal.parse_text]; rfl

theorem height_roundTrips : height.RoundTrips := uint64_roundTrips.iso fun _ => rfl

theorem bytes_roundTrips : bytes.RoundTrips := list_roundTrips uint8_roundTrips

theorem coin_roundTrips : coin.RoundTrips := by
  refine Fields.shape_roundTrips (.iso (.pair ?_ ?_) fun _ => rfl) (by decide)
  · exact Fields.required_roundTrips text_roundTrips
  · exact Fields.required_roundTrips amount_roundTrips

theorem coins_roundTrips : coins.RoundTrips := (list_roundTrips coin_roundTrips).iso fun _ => rfl

end Json.Shape

open Json.Shape Json.Fields

theorem VoteOption.shape_roundTrips : VoteOption.shape.RoundTrips :=
  choice_roundTrips fun o => by cases o <;> rfl

theorem ProposalStatus.shape_roundTrips : ProposalStatus.shape.RoundTrips :=
  choice_roundTrips fun s => by cases s <;> rfl

theorem Params.fields_roundTrips : Params.fields.RoundTrips := by
  refine .iso (.pair (required_roundTrips uint64_roundTrips)
    (.pair (required_roundTrips coins_roundTrips)
    (.pair (required_roundTrips coins_roundTrips)
    (.pair (required_roundTrips decimal_roundTrips)
    (.pair (required_roundTrips decimal_roundTrips)
    (.pair (required_roundTrips uint64_roundTrips)
    (.pair (required_roundTrips text_roundTrips)
    (required_roundTrips coin_roundTrips)))))))) fun _ => rfl

theorem Envelope.fields_roundTrips : Envelope.fields.RoundTrips :=
  .iso (.pair (required_roundTrips text_roundTrips) (required_roundTrips bytes_roundTrips))
    fun _ => rfl

theorem Tally.fields_roundTrips : Tally.fields.RoundTrips :=
  .iso (.pair (required_roundTrips amount_roundTrips)
    (.pair (required_roundTrips amount_roundTrips) (required_roundTrips amount_roundTrips)))
    fun _ => rfl

theorem Proposal.fields_roundTrips : Proposal.fields.RoundTrips :=
  .iso (.pair (required_roundTrips uint64_roundTrips)
    (.pair (required_roundTrips address_roundTrips)
    (.pair (required_roundTrips text_roundTrips)
    (.pair (required_roundTrips text_roundTrips)
    (.pair (required_roundTrips (Fields.shape_roundTrips Envelope.fields_roundTrips (by decide)))
    (.pair (required_roundTrips ProposalStatus.shape_roundTrips)
    (.pair (required_roundTrips height_roundTrips)
    (.pair (required_roundTrips height_roundTrips)
    (.pair (required_roundTrips height_roundTrips)
    (.pair Tally.fields_roundTrips
    (required_roundTrips amount_roundTrips))))))))))) fun _ => rfl

theorem Vote.fields_roundTrips : Vote.fields.RoundTrips :=
  .iso (.pair (required_roundTrips uint64_roundTrips)
    (.pair (required_roundTrips address_roundTrips)
    (.pair (required_roundTrips VoteOption.shape_roundTrips)
    (required_roundTrips amount_roundTrips)))) fun _ => rfl

theorem Lot.fields_roundTrips : Lot.fields.RoundTrips :=
  .iso (.pair (required_roundTrips address_roundTrips)
    (.pair (required_roundTrips uint64_roundTrips)
    (.pair (required_roundTrips amount_roundTrips)
    (required_roundTrips height_roundTrips)))) fun _ => rfl

namespace Genesis

theorem fields_roundTrips : fields.RoundTrips := by
  have hparams := Fields.shape_roundTrips Params.fields_roundTrips (by decide)
  have hproposals := list_roundTrips
    (Fields.shape_roundTrips Proposal.fields_roundTrips (by decide))
  have hvotes := list_roundTrips (Fields.shape_roundTrips Vote.fields_roundTrips (by decide))
  have hlots := list_roundTrips (Fields.shape_roundTrips Lot.fields_roundTrips (by decide))
  exact .iso (.pair (required_roundTrips hparams) (.pair (optional_roundTrips hproposals)
    (.pair (optional_roundTrips hvotes) (.pair (optional_roundTrips hlots)
    (optional_roundTrips uint64_roundTrips))))) fun _ => rfl

theorem ofJson_toJson (g : Genesis) : ofJson g.toJson = .ok g := by
  have h := Fields.shape_roundTrips fields_roundTrips (by decide)
  simp only [ofJson, toJson, parse_pretty (h.plain g), h.read]

end Genesis

end DaoGovernance
