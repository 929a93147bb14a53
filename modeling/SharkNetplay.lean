import SharkNetplay.Lib.Cadence
import SharkNetplay.Lib.Deaf
import SharkNetplay.Lib.Dict
import SharkNetplay.Lib.Fold
import SharkNetplay.Lib.Framing
import SharkNetplay.Lib.Json
import SharkNetplay.Lib.Patch
import SharkNetplay.Lib.Reassembly
import SharkNetplay.Lib.Run
import SharkNetplay.Lib.Slots
import SharkNetplay.Lib.Store
import SharkNetplay.Console.Acts
import SharkNetplay.Console.Adoption
import SharkNetplay.Console.Agreement
import SharkNetplay.Console.Baselines
import SharkNetplay.Console.Bases
import SharkNetplay.Console.Budget
import SharkNetplay.Console.Captures
import SharkNetplay.Console.Cells
import SharkNetplay.Console.Checks
import SharkNetplay.Console.Checksum
import SharkNetplay.Console.Chunks
import SharkNetplay.Console.Confinement
import SharkNetplay.Console.Course
import SharkNetplay.Console.CourseDown
import SharkNetplay.Console.CourseUp
import SharkNetplay.Console.Crossing
import SharkNetplay.Console.Delivery
import SharkNetplay.Console.Dispatch
import SharkNetplay.Console.Doze
import SharkNetplay.Console.Duo
import SharkNetplay.Console.Effects
import SharkNetplay.Console.Emission
import SharkNetplay.Console.Footprint
import SharkNetplay.Console.Handlers
import SharkNetplay.Console.Handover
import SharkNetplay.Console.Hello
import SharkNetplay.Console.Host
import SharkNetplay.Console.Image
import SharkNetplay.Console.InStep
import SharkNetplay.Console.Inputs
import SharkNetplay.Console.Lobby
import SharkNetplay.Console.Lockstep
import SharkNetplay.Console.Machine
import SharkNetplay.Console.Mailbox
import SharkNetplay.Console.Passes
import SharkNetplay.Console.Playback
import SharkNetplay.Console.Progress
import SharkNetplay.Console.Pump
import SharkNetplay.Console.Rand2
import SharkNetplay.Console.Repair
import SharkNetplay.Console.Replay
import SharkNetplay.Console.Requests
import SharkNetplay.Console.Resync
import SharkNetplay.Console.ResyncBounds
import SharkNetplay.Console.Rings
import SharkNetplay.Console.Roles
import SharkNetplay.Console.Screen
import SharkNetplay.Console.ScreenBounds
import SharkNetplay.Console.Script
import SharkNetplay.Console.Served
import SharkNetplay.Console.Session
import SharkNetplay.Console.SessionBounds
import SharkNetplay.Console.Spent
import SharkNetplay.Console.Stream
import SharkNetplay.Console.Timers
import SharkNetplay.Console.Trace
import SharkNetplay.Console.Transfer
import SharkNetplay.Console.Twins
import SharkNetplay.Console.Unbroken
import SharkNetplay.Console.View
import SharkNetplay.Relay.C
import SharkNetplay.Relay.CCapacity
import SharkNetplay.Relay.CDrop
import SharkNetplay.Relay.CEpoll
import SharkNetplay.Relay.CFeed
import SharkNetplay.Relay.CFrames
import SharkNetplay.Relay.CInvariant
import SharkNetplay.Relay.CNeverFull
import SharkNetplay.Relay.CRooms
import SharkNetplay.Relay.CSend
import SharkNetplay.Relay.CSettled
import SharkNetplay.Relay.CTables
import SharkNetplay.Relay.CrcLog
import SharkNetplay.Relay.CrcPairing
import SharkNetplay.Relay.CrcPairs
import SharkNetplay.Relay.CrcRows
import SharkNetplay.Relay.CrcSame
import SharkNetplay.Relay.CrcVerdicts
import SharkNetplay.Relay.Names
import SharkNetplay.Relay.PyDrop
import SharkNetplay.Relay.PyFeed
import SharkNetplay.Relay.PyFrames
import SharkNetplay.Relay.PyHosts
import SharkNetplay.Relay.PyInvariant
import SharkNetplay.Relay.PyNames
import SharkNetplay.Relay.PyRooms
import SharkNetplay.Relay.Python
import SharkNetplay.Relay.Queues
import SharkNetplay.Relay.Segments
import SharkNetplay.Relay.Transmit
import SharkNetplay.Relay.Wire
import SharkNetplay.Lobby.Debounce
import SharkNetplay.Lobby.Payload
import SharkNetplay.Lobby.Publisher
import SharkNetplay.Console.Playback
