import Termwise.Document.Link
import Termwise.Json.Reader
import Termwise.Json.Writer
import Termwise.Main
import Termwise.Model.Saved
import Termwise.Proofs.Evaluation
import Termwise.Proofs.Execution
import Termwise.Proofs.Keywords
import Termwise.Proofs.Steps
import Termwise.Proofs.Finiteness
import Termwise.Proofs.FlowStack
import Termwise.Proofs.Lines
import Termwise.Proofs.Structured
import Termwise.Proofs.Resumption
import Termwise.Proofs.Refinement
import Termwise.Proofs.FlatChain
import Termwise.Proofs.OneBranch
import Termwise.Proofs.Contacts
import Termwise.Proofs.Faults
import Termwise.Proofs.Pairing
import Termwise.Proofs.Hosts
import Termwise.Proofs.Purity
import Termwise.Proofs.Codecs
import Termwise.Proofs.Links
import Termwise.Proofs.Binary64
import Termwise.Proofs.Rounding
import Termwise.Proofs.Decimals
import Termwise.Proofs.Numerals
import Termwise.Proofs.Classification
import Termwise.Proofs.Spelling
import Termwise.Proofs.RoundTrip
import Termwise.Proofs.Indentation
import Termwise.Proofs.StepCap
import Termwise.Proofs.StepLog
import Termwise.Proofs.Editing
import Termwise.Proofs.Focus
import Termwise.Proofs.Column
import Termwise.Proofs.Conversation
import Termwise.Proofs.Timeline
import Termwise.Proofs.TokenBuffer
import Termwise.Proofs.Registration
import Termwise.Proofs.RegisterUse
import Termwise.Proofs.PrivateNames
import Termwise.Proofs.Relocation
import Termwise.Proofs.Sequencing
import Termwise.Proofs.PrefixNotation
import Termwise.Proofs.EffectOrder
import Termwise.Proofs.CompoundAssignment
import Termwise.Proofs.Erasure
import Termwise.Proofs.TokenRows
import Termwise.Proofs.Wildcards
import Termwise.Proofs.Prompt
import Termwise.Proofs.Fitting
import Termwise.Proofs.WholeNumbers
import Termwise.Proofs.Transitions
import Termwise.Proofs.Persistence
import Termwise.Proofs.VocabularyOrder
import Termwise.Proofs.TokenGrammar
