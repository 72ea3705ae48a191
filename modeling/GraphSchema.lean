import GraphSchema.Fleet.Ship
import GraphSchema.Main
import GraphSchema.Memo.Threads
import GraphSchema.Proofs.Direct.Completion
import GraphSchema.Proofs.Direct.Linked
import GraphSchema.Proofs.Compile.Store
import GraphSchema.Proofs.Direct.Mending
import GraphSchema.Proofs.Nulling
import GraphSchema.Blueprint.Fields
import GraphSchema.Blueprint.Session
import GraphSchema.Proofs.Direct.Rendering
import GraphSchema.Proofs.Direct.Simulation
import GraphSchema.Proofs.Compile.Walk
import GraphSchema.Proofs.Compile.Link
import GraphSchema.Proofs.Compile.Plans
import GraphSchema.Proofs.Direct.Correctness
import GraphSchema.Proofs.Run.Faults
import GraphSchema.Proofs.Run.Log
import GraphSchema.Proofs.Run.Reports
import GraphSchema.Proofs.Query.Reach
import GraphSchema.Proofs.Query.Screen
import GraphSchema.Proofs.Compile.Promises
import GraphSchema.Proofs.Compile.Accepted
import GraphSchema.Proofs.Query.Steps
import GraphSchema.Proofs.Run.Selections
import GraphSchema.Proofs.Run.Required
import GraphSchema.Proofs.Run.Made
import GraphSchema.Proofs.Typing.Fields
import GraphSchema.Proofs.Typing.Soundness
import GraphSchema.Proofs.Run.Isolation
import GraphSchema.Proofs.History.Machine
import GraphSchema.Proofs.History.Termination
import GraphSchema.Proofs.History.Cells
import GraphSchema.Proofs.Compile.Agreement
import GraphSchema.Proofs.History.Independence
import GraphSchema.Proofs.Threads.Once
import GraphSchema.Proofs.Threads.Cycles
import GraphSchema.Proofs.Compile.Dispatch
import GraphSchema.Proofs.Arguments.RoundTrip
import GraphSchema.Proofs.Compile.Tags
import GraphSchema.Proofs.Completion.Backing
import GraphSchema.Proofs.StarWars.Errors
import GraphSchema.Proofs.Nulling.Positions
import GraphSchema.Proofs.Completion.Vacancies
import GraphSchema.Proofs.Arguments.Admission
import GraphSchema.Proofs.Typing.Subtypes
import GraphSchema.Proofs.Typing.Records
import GraphSchema.Proofs.Catalog.Misuse
