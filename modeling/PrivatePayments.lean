import PrivatePayments.AspNonMembership.Insert
import PrivatePayments.Library.ContentStore
import PrivatePayments.Library.TreeUpdate
import PrivatePayments.Poseidon2.Permutation
import PrivatePayments.AspNonMembership.Delete
import PrivatePayments.AspNonMembership.Log
import PrivatePayments.AspNonMembership.Reachable
import PrivatePayments.AspNonMembership.Refinement
import PrivatePayments.AspNonMembership.Exactness
import PrivatePayments.AspNonMembership.Filing
import PrivatePayments.AspNonMembership.Verify
import PrivatePayments.Circuits.Circomlib
import PrivatePayments.Circuits.SmtVerifier
import PrivatePayments.AspNonMembership.CircuitSoundness
import PrivatePayments.Client.NonMembershipProof
import PrivatePayments.Library.FullTree
import PrivatePayments.Merkle.Tree
import PrivatePayments.Merkle.Reference
import PrivatePayments.Pool.MerkleTreeWithHistory
import PrivatePayments.Pool.RootHistory
import PrivatePayments.AspMembership.Contract
import PrivatePayments.AspMembership.Refinement
import PrivatePayments.Library.UniqueTable
import PrivatePayments.LocalState.Database
import PrivatePayments.LocalState.Processing
import PrivatePayments.LocalState.Drain
import PrivatePayments.LocalState.Leaves
import PrivatePayments.Library.Cursor
import PrivatePayments.Library.Outcome
import PrivatePayments.LocalState.NoteDecryption
import PrivatePayments.LocalState.NoteScan
import PrivatePayments.LocalState.NoteTables
import PrivatePayments.LocalState.NoteRecovery
import PrivatePayments.LocalState.HostileOutputs
import PrivatePayments.Indexer.Rounds
import PrivatePayments.Indexer.SyncMetadata
import PrivatePayments.Indexer.Completeness
import PrivatePayments.Indexer.LateContracts
import PrivatePayments.Bootnode.Node
import PrivatePayments.Bootnode.Chain
import PrivatePayments.Bootnode.Linked
import PrivatePayments.Bootnode.Session
import PrivatePayments.Bootnode.Handoff
import PrivatePayments.Circuits.MerkleProof
import PrivatePayments.Circuits.PolicyTransaction
import PrivatePayments.Pool.Contract
import PrivatePayments.Spm.Contract
import PrivatePayments.Spm.Votes
import PrivatePayments.Spm.Lifecycle
import PrivatePayments.Client.ExtDataHash
import PrivatePayments.Library.Largest
import PrivatePayments.Planner.Combination
import PrivatePayments.Planner.Plan
import PrivatePayments.Planner.Execute
import PrivatePayments.LocalState.SpentStatus
import PrivatePayments.LocalState.AspPrecondition
import PrivatePayments.Pool.History
import PrivatePayments.Circuits.SelectiveDisclosure
import PrivatePayments.Disclosure.Receipt
import PrivatePayments.Disclosure.Verification
import PrivatePayments.Disclosure.Soundness
import PrivatePayments.Circuits.Notes
import PrivatePayments.Library.NoteLedger
import PrivatePayments.Pool.Acceptance
import PrivatePayments.Pool.Extraction
import PrivatePayments.Pool.Journal
import PrivatePayments.Pool.Spending
import PrivatePayments.Pool.Solvency
import PrivatePayments.Pool.Policy
import PrivatePayments.Planner.BestPair
import PrivatePayments.Planner.Tiers
import PrivatePayments.Client.PrefixTree
import PrivatePayments.Library.Reader
import PrivatePayments.Prover.R1cs
import PrivatePayments.Prover.R1csFormat
import PrivatePayments.Prover.R1csSections
import PrivatePayments.Prover.R1csExact
import PrivatePayments.Library.WorkStack
import PrivatePayments.Witness.Flatten
import PrivatePayments.Witness.Expansion
import PrivatePayments.Witness.Agreement
import PrivatePayments.Witness.SharedKeys
import PrivatePayments.Stellar.Signer
import PrivatePayments.Stellar.AuthBinding
import PrivatePayments.Stellar.AuthPreimages
import PrivatePayments.SparseMerkle.Prover
import PrivatePayments.SparseMerkle.Reference
import PrivatePayments.SparseMerkle.Trees
import PrivatePayments.SparseMerkle.ProverTree
import PrivatePayments.SparseMerkle.ReferenceTree
import PrivatePayments.SparseMerkle.Agreement
import PrivatePayments.Library.HexText
import PrivatePayments.Prover.CircuitInputs
import PrivatePayments.Circuits.Completeness
import PrivatePayments.Prover.Flows
import PrivatePayments.Prover.Builder
import PrivatePayments.Prover.Honest
import PrivatePayments.Client.PoolProof
import PrivatePayments.Soroban.Total
import PrivatePayments.Pool.Admission
import PrivatePayments.Prover.Submission
import PrivatePayments.LocalState.NoteContents
import PrivatePayments.Worker.Keyring
import PrivatePayments.Worker.Storage
import PrivatePayments.Worker.Transact
import PrivatePayments.Worker.Spend
import PrivatePayments.Registry.Contract
import PrivatePayments.Registry.Registration
