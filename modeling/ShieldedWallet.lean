import ShieldedWallet.Bytes.Hex
import ShieldedWallet.Number.Scalar
import ShieldedWallet.Hash.Blake2s
import ShieldedWallet.Hash.Keccak
import ShieldedWallet.Json.Reader
import ShieldedWallet.Json.Printer
import ShieldedWallet.Json.Document
import ShieldedWallet.Chain.Event
import ShieldedWallet.Account.Record
import ShieldedWallet.Chain.Relay
import ShieldedWallet.Settings.CommandLine
import ShieldedWallet.Failure
import ShieldedWallet.Action
import ShieldedWallet.Payment.Opening
import ShieldedWallet.Payment.Spending
import ShieldedWallet.Fee.Cache
import ShieldedWallet.Wallet
import ShieldedWallet.Channel.Worker
import ShieldedWallet.Simulation.Ledger
import ShieldedWallet.Simulation.World
import ShieldedWallet.Proofs.Text.Digits
import ShieldedWallet.Proofs.Json.Spelling
import ShieldedWallet.Proofs.Json.Expecting
import ShieldedWallet.Proofs.Json.Printed
import ShieldedWallet.Proofs.Json.Records
import ShieldedWallet.Proofs.Account.Stored
import ShieldedWallet.Proofs.Program.Action
import ShieldedWallet.Proofs.History.Step
import ShieldedWallet.Proofs.History.Pass
import ShieldedWallet.Proofs.History.Passes
import ShieldedWallet.Proofs.History.Untrusted
import ShieldedWallet.Proofs.Simulation.Reading
import ShieldedWallet.Proofs.Simulation.Replay
import ShieldedWallet.Proofs.Simulation.Agreement
import ShieldedWallet.Proofs.History.Concurrent
import ShieldedWallet.Proofs.Simulation.Entire
import ShieldedWallet.Proofs.Program.Exclusive
import ShieldedWallet.Proofs.Simulation.Convergence
import ShieldedWallet.Proofs.Simulation.Standing
import ShieldedWallet.Proofs.Simulation.Completeness
import ShieldedWallet.Proofs.History.Selective
import ShieldedWallet.Proofs.Payment.Packing
import ShieldedWallet.Proofs.Simulation.Binding
import ShieldedWallet.Proofs.Simulation.Refusing
import ShieldedWallet.Proofs.Simulation.Preparing
import ShieldedWallet.Proofs.Simulation.Operating
import ShieldedWallet.Proofs.Simulation.Faring
import ShieldedWallet.Proofs.Simulation.Independence
import ShieldedWallet.Proofs.Simulation.Acting
import ShieldedWallet.Proofs.Simulation.Coherence
import ShieldedWallet.Proofs.Simulation.Upgrading
import ShieldedWallet.Proofs.Simulation.Stating
import ShieldedWallet.Proofs.Simulation.Sponsoring
import ShieldedWallet.Proofs.Json.Documents
import ShieldedWallet.Proofs.Channel.Serving
import ShieldedWallet.Proofs.Channel.Transparency
import ShieldedWallet.Proofs.History.Sharing
import ShieldedWallet.Proofs.Wallet.Notices
import ShieldedWallet.Proofs.Simulation.Forfeiting
import ShieldedWallet.Proofs.Fee.Rounding
import ShieldedWallet.Proofs.Fee.Netting
import ShieldedWallet.Proofs.Fee.Caching
import ShieldedWallet.Proofs.Channel.Delivering
import ShieldedWallet.Proofs.Channel.Settling
import ShieldedWallet.Proofs.History.Applying
import ShieldedWallet.Proofs.Simulation.Ending
import ShieldedWallet.Proofs.Wallet.LocalChecks
import ShieldedWallet.Proofs.Text.Numerals
import ShieldedWallet.Proofs.Json.Members
import ShieldedWallet.Proofs.Settings.CommandLines
import ShieldedWallet.Proofs.Simulation.Separation
import ShieldedWallet.Proofs.Number.Canonical
import ShieldedWallet.Proofs.Account.Versions
