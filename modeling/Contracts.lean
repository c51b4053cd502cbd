import Contracts.Main
import Contracts.Session.Run
import Contracts.Proofs.Polling
import Contracts.Proofs.Simulation
import Contracts.Proofs.Simulation.Protocol
import Contracts.Proofs.Simulation.Classes
import Contracts.Proofs.Latency
import Contracts.Proofs.Order
import Contracts.Proofs.Confinement
import Contracts.Proofs.Dispatch
import Contracts.Proofs.Guarding
import Contracts.Proofs.Histories
import Contracts.Proofs.Isolation
import Contracts.Proofs.Accounts
import Contracts.Proofs.Deeds
import Contracts.Proofs.Checkpoints
import Contracts.Proofs.Records
import Contracts.Proofs.Rings
import Contracts.Proofs.Padding
import Contracts.Proofs.Nesting
import Contracts.Proofs.Construction
import Contracts.Proofs.Hierarchy
import Contracts.Proofs.Blindness
import Contracts.Proofs.Severity
import Contracts.Proofs.Transparency
import Contracts.Proofs.Violations
import Contracts.Proofs.Scripts
import Contracts.Proofs.Structure
import Contracts.Proofs.Retracing
import Contracts.Proofs.Journals
import Contracts.Proofs.Notes
import Contracts.Proofs.Sinks
import Contracts.Proofs.Sessions
import Contracts.Proofs.Tracing
import Contracts.Proofs.Borrows
import Contracts.Proofs.Halting
import Contracts.Proofs.Passages
import Contracts.Proofs.Readiness
import Contracts.Proofs.Reports
import Contracts.Proofs.Modes
import Contracts.Proofs.Overrides
import Contracts.Proofs.Deciding
import Contracts.Proofs.Messages
import Contracts.Proofs.Resolving
import Contracts.Proofs.Forms
import Contracts.Proofs.Numerals
import Contracts.Proofs.Doubles
import Contracts.Proofs.Rounding
import Contracts.Proofs.Shortest
import Contracts.Proofs.Numbers
import Contracts.Proofs.Rendering
import Contracts.Proofs.NumberTexts
import Contracts.Proofs.Spelling
import Contracts.Proofs.Grammar
import Contracts.Proofs.Declared
import Contracts.Proofs.Violations
import Contracts.Proofs.Fields
import Contracts.Proofs.Scopes
import Contracts.Proofs.Invoking
import Contracts.Proofs.ModeTexts
import Contracts.Proofs.Symbols
import Contracts.Proofs.Arguments
import Contracts.Proofs.Demonstrations
import Contracts.Proofs.EventTexts
import Contracts.Proofs.Exits
