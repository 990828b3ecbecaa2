import AddressedF.Storage.Memory
import AddressedF.Storage.Directory
import AddressedF.Library.Operations
import AddressedF.Proofs.Decoding
import AddressedF.Proofs.Elaboration
import AddressedF.Proofs.Safety
import AddressedF.Proofs.Definition
import AddressedF.Proofs.Stateful
import AddressedF.Proofs.Termination
import AddressedF.Proofs.Loading
import AddressedF.Proofs.Regime
import AddressedF.Proofs.Session
import AddressedF.Proofs.Integrity
import AddressedF.Proofs.Loadable
import AddressedF.Proofs.Resolution
import AddressedF.Proofs.Archive
import AddressedF.Proofs.Retrieval
import AddressedF.Proofs.Regularity
import AddressedF.Proofs.Nameless
import AddressedF.Proofs.Agreement
import AddressedF.Proofs.Addition
import AddressedF.Proofs.Atomicity
import AddressedF.Proofs.Faults
import AddressedF.Proofs.Instantiation
import AddressedF.Proofs.Expectation
import AddressedF.Proofs.Hexadecimal
import AddressedF.Proofs.FileTree
import AddressedF.Proofs.Mirroring
import AddressedF.Proofs.Commutation
import AddressedF.Proofs.CaptureAvoidance
import AddressedF.Proofs.References
import AddressedF.Proofs.BigStep
import AddressedF.Proofs.Fuel
import AddressedF.Proofs.Cache
import AddressedF.Proofs.Opacity
import AddressedF.Proofs.EagerContext
import AddressedF.Proofs.AlphaEquivalence
import AddressedF.Proofs.Modes
import AddressedF.Proofs.Counting
import AddressedF.Proofs.Scoping
import AddressedF.Proofs.Weakening
import AddressedF.Proofs.AddressText
import AddressedF.Proofs.Unambiguity
import AddressedF.Proofs.CountedContext
