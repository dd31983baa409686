import Netstack.Instance
import Netstack.Link.Scripted
import Netstack.Network
import Netstack.Queue.Copying
import Netstack.TimedLock
import Netstack.Wait.WaitingRoom
import Netstack.Proofs.Pool.Census
import Netstack.Proofs.Pool.Moves
import Netstack.Proofs.Pool.Operations
import Netstack.Proofs.Pool.Run
import Netstack.Proofs.Port.Members
import Netstack.Proofs.Pool.Ports
import Netstack.Proofs.Pool.Family
import Netstack.Proofs.Pool.Strays
import Netstack.Proofs.Pool.OneChild
import Netstack.Proofs.Pool.Generations
import Netstack.Proofs.Pool.Handles
import Netstack.Proofs.Pool.Mail
import Netstack.Proofs.Pool.Discard
import Netstack.Proofs.Pool.Isolation
import Netstack.Proofs.Queue.Refinement
import Netstack.Proofs.Pool.Slots
import Netstack.Proofs.Pool.Failures
import Netstack.Proofs.Pool.Twins
import Netstack.Proofs.Pool.Policies
import Netstack.Proofs.Pool.Backlogs
import Netstack.Proofs.Pool.Ownership
import Netstack.Proofs.Pool.Inbound
import Netstack.Proofs.Queue.Copying
import Netstack.Proofs.Queue.Wakeups
import Netstack.Proofs.Packet.Codec
import Netstack.Proofs.Pool.Replies
import Netstack.Proofs.Pool.AcceptedChildren
import Netstack.Proofs.Packet.Frames
import Netstack.Proofs.Stack.Packets
import Netstack.Proofs.Stack.AnswerPorts
import Netstack.Proofs.Link.Frames
import Netstack.Proofs.Pool.Packets
import Netstack.Proofs.Stack.Effects
import Netstack.Proofs.Stack.Sends
import Netstack.Proofs.Stack.Run
import Netstack.Proofs.Stack.Payloads
import Netstack.Proofs.Stack.Dispatch
import Netstack.Proofs.Stack.Ledger
import Netstack.Proofs.Stack.CoreWork
import Netstack.Proofs.Stack.Bookkeeping
import Netstack.Proofs.Stack.CoreRun
import Netstack.Proofs.Stack.Inputs
import Netstack.Proofs.Stack.Refusals
import Netstack.Proofs.Pool.SlotMoves
import Netstack.Proofs.Pool.Readiness
import Netstack.Proofs.Stack.Readiness
import Netstack.Proofs.Conn.Bits
import Netstack.Proofs.Pool.Stories
import Netstack.Proofs.Pool.Monitoring
import Netstack.Proofs.Pool.MonitorLog
import Netstack.Proofs.Pool.Builds
import Netstack.Proofs.Pool.ForeignBits
import Netstack.Proofs.Pool.Applications
import Netstack.Proofs.Histories
import Netstack.Proofs.Pool.Freshness
import Netstack.Proofs.Port.Order
import Netstack.Proofs.Port.Seniority
import Netstack.Proofs.Event.Tasks
import Netstack.Proofs.Event.Waits
import Netstack.Proofs.Event.Broadcast
import Netstack.Proofs.Wait.Rooms
import Netstack.Proofs.Pool.Closing
import Netstack.Proofs.Pool.Accepting
import Netstack.Proofs.Pool.Room
import Netstack.Proofs.Pool.Deliveries
import Netstack.Proofs.Pool.Freeing
import Netstack.Proofs.Packet.Arena
import Netstack.Proofs.Packet.Encapsulation
import Netstack.Proofs.Link.Recording
import Netstack.Proofs.Link.Books
import Netstack.Proofs.Link.Counters
import Netstack.Proofs.Stack.Starting
import Netstack.Proofs.Keyed
import Netstack.Proofs.Link.Numbering
import Netstack.Proofs.Route.Offers
import Netstack.Proofs.Route.Removal
import Netstack.Proofs.Pool.Unwinding
