import Metasyntax.Parsing.Walk
import Metasyntax.Session
import Metasyntax.Expansion.Basic
import Metasyntax.Proofs.Diagnosis
import Metasyntax.Proofs.BestEffort
import Metasyntax.Proofs.RoundTrip
import Metasyntax.Proofs.Resumption
import Metasyntax.Proofs.Trace
import Metasyntax.Proofs.SingleRule
import Metasyntax.Proofs.TokenByToken
import Metasyntax.Proofs.Memory
import Metasyntax.Proofs.Locality
import Metasyntax.Proofs.Lockstep
import Metasyntax.Proofs.Losslessness
import Metasyntax.Proofs.Walks
import Metasyntax.Proofs.RuleTables
import Metasyntax.Proofs.Standstill
import Metasyntax.Proofs.SourceText
import Metasyntax.Proofs.MissingToken
import Metasyntax.Proofs.Containment
import Metasyntax.Proofs.Choice
import Metasyntax.Proofs.Repetition
import Metasyntax.Proofs.LinesAndColumns
import Metasyntax.Proofs.IdentifierReading
import Metasyntax.Proofs.Grouping
import Metasyntax.Proofs.Refusals
import Metasyntax.Proofs.Clamping
import Metasyntax.Proofs.Laps
import Metasyntax.Proofs.Embedding
import Metasyntax.Proofs.Collisions
