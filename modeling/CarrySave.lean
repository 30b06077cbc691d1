import CarrySave.Main
import CarrySave.Session
import CarrySave.Proofs.Netlist.Growth
import CarrySave.Proofs.Circuit.Growth
import CarrySave.Proofs.Session.Reachable
import CarrySave.Proofs.Signal.Settled
import CarrySave.Proofs.Signal.Numbers
import CarrySave.Proofs.Circuit.Reduction
import CarrySave.Proofs.Circuit.Preservation
import CarrySave.Proofs.Circuit.Heights
import CarrySave.Proofs.Roster
import CarrySave.Proofs.Signal.Binding
import CarrySave.Proofs.Circuit.Synthesis
import CarrySave.Proofs.Circuit.Addition
import CarrySave.Proofs.Circuit.Population
import CarrySave.Proofs.Circuit.Diagonals
import CarrySave.Proofs.Circuit.Multiplication
import CarrySave.Proofs.Session.Interleaving
import CarrySave.Proofs.Session.Invariant
import CarrySave.Proofs.Netlist.Cone
import CarrySave.Proofs.Signal.Batch
import CarrySave.Proofs.Signal.Parallel
import CarrySave.Proofs.Signal.CaseByCase
import CarrySave.Proofs.Signal.Exhaustion
import CarrySave.Proofs.Circuit.Cells
import CarrySave.Proofs.Circuit.Vetting
import CarrySave.Proofs.Circuit.Residue
import CarrySave.Proofs.Circuit.Pricing
import CarrySave.Proofs.Circuit.MultiplierCost
import CarrySave.Proofs.Circuit.AdditionCost
import CarrySave.Proofs.Circuit.Consumption
import CarrySave.Proofs.Circuit.ProductArray
import CarrySave.Proofs.Circuit.Work
import CarrySave.Proofs.Netlist.Marks
import CarrySave.Proofs.Circuit.Outputs
import CarrySave.Proofs.Signal.Stability
import CarrySave.Proofs.Signal.Dependency
import CarrySave.Proofs.Signal.RoundTrip
import CarrySave.Proofs.Circuit.Lockstep
import CarrySave.Proofs.Circuit.Renumbering
import CarrySave.Proofs.Netlist.Aliases
import CarrySave.Proofs.Netlist.Adjacency
import CarrySave.Proofs.Netlist.Tally
import CarrySave.Proofs.Decimal.Range
import CarrySave.Proofs.Text.Lines
import CarrySave.Proofs.Netlist.Legibility
import CarrySave.Proofs.Circuit.Presentation
import CarrySave.Proofs.Console.Tour
import CarrySave.Proofs.Console.Answers
import CarrySave.Proofs.Console.Conversation
