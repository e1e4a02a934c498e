import DaoGovernance.Config.Toml
import DaoGovernance.EndBlock
import DaoGovernance.Host
import DaoGovernance.Query
import DaoGovernance.Submission
import DaoGovernance.Voting
import DaoGovernance.Proofs.Codec.Values
import DaoGovernance.Proofs.Collision
import DaoGovernance.Proofs.Decimal
import DaoGovernance.Proofs.Deposit
import DaoGovernance.Proofs.Escrow
import DaoGovernance.Proofs.Finality
import DaoGovernance.Proofs.Genesis.Export
import DaoGovernance.Proofs.Grants
import DaoGovernance.Proofs.Refusal
import DaoGovernance.Proofs.Registry
import DaoGovernance.Proofs.Store.Agreement
import DaoGovernance.Proofs.Votes
import DaoGovernance.Proofs.Alike
import DaoGovernance.Proofs.Retry
import DaoGovernance.Proofs.AppendOnly
import DaoGovernance.Proofs.Isolation
import DaoGovernance.Proofs.Codec.Layout
import DaoGovernance.Proofs.Lasting
import DaoGovernance.Proofs.Params
import DaoGovernance.Proofs.Closing
import DaoGovernance.Proofs.Opening
import DaoGovernance.Proofs.PowerMode
import DaoGovernance.Proofs.Decision
import DaoGovernance.Proofs.Decay
import DaoGovernance.Proofs.Genesis.Json
import DaoGovernance.Proofs.Accounts
import DaoGovernance.Proofs.Support
import DaoGovernance.Proofs.Intake
import DaoGovernance.Proofs.Filing
import DaoGovernance.Proofs.Genesis.Interrupted
import DaoGovernance.Proofs.Coins.Canonical
import DaoGovernance.Proofs.Coins.Text
import DaoGovernance.Proofs.Decimal.Numeral
import DaoGovernance.Proofs.Expiry
import DaoGovernance.Proofs.Query
import DaoGovernance.Proofs.Amount.Product
import DaoGovernance.Proofs.Ledger.Books
