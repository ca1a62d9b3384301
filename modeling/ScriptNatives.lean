import ScriptNatives.Native.Perform
import ScriptNatives.Proofs.Calls.Agreement
import ScriptNatives.Proofs.Machine.Heap
import ScriptNatives.Proofs.Native.DeadCaller
import ScriptNatives.Proofs.Native.Isolation
import ScriptNatives.Proofs.Native.Protocol
import ScriptNatives.Proofs.References.Access
import ScriptNatives.Proofs.References.Orphans
import ScriptNatives.Proofs.Runs.Released
import ScriptNatives.Proofs.Slots.Map
import ScriptNatives.Scenario.Run
import ScriptNatives.Scenario.SlotsStep
import ScriptNatives.Proofs.Wire.Token
import ScriptNatives.Proofs.Runs.Loading
import ScriptNatives.Proofs.References.Reach
import ScriptNatives.Proofs.Machine.Ranges
import ScriptNatives.Proofs.Native.Freeing
import ScriptNatives.Proofs.Runs.Notices
import ScriptNatives.Proofs.Runs.Sources
import ScriptNatives.Proofs.References.Linked
import ScriptNatives.Proofs.Machine.Moves
import ScriptNatives.Proofs.Slots.Accounts
import ScriptNatives.Proofs.References.Elements
import ScriptNatives.Proofs.Machine.Strings
import ScriptNatives.Proofs.Native.Lookups
import ScriptNatives.Proofs.Native.Guarded
import ScriptNatives.Proofs.Calls.LastAttempt
import ScriptNatives.Proofs.Native.Encoding
import ScriptNatives.Proofs.Runs.Visits
import ScriptNatives.Proofs.Runs.Contexts
import ScriptNatives.Proofs.Native.PublicNames
import ScriptNatives.Proofs.Runs.Guards
import ScriptNatives.Proofs.References.Relative
import ScriptNatives.Proofs.Bounded.Natives
import ScriptNatives.Proofs.Machine.Search
import ScriptNatives.Proofs.Wire.SlotId
