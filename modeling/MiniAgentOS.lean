import MiniAgentOS.Tls.Rx
import MiniAgentOS.Lib.Piece
import MiniAgentOS.Tls.Stream
import MiniAgentOS.Lib.Machine
import MiniAgentOS.Tls.Reassembly
import MiniAgentOS.Lib.Ring
import MiniAgentOS.Net.RxLoop
import MiniAgentOS.Net.RxConserve
import MiniAgentOS.Lib.Checked
import MiniAgentOS.Text.Ascii
import MiniAgentOS.Text.Url
import MiniAgentOS.Http.Date
import MiniAgentOS.Http.Header
import MiniAgentOS.Http.Feed
import MiniAgentOS.Http.Automaton
import MiniAgentOS.Http.HeaderBlock
import MiniAgentOS.Http.Segmentation
import MiniAgentOS.Http.Chunked
import MiniAgentOS.Net.Frame
import MiniAgentOS.Net.Dns
import MiniAgentOS.Text.Json
import MiniAgentOS.Net.InputSafety
import MiniAgentOS.Fetch.HttpSegment
import MiniAgentOS.Fetch.HttpReceive
import MiniAgentOS.Net.DnsCache
import MiniAgentOS.Fetch.State
import MiniAgentOS.Net.AgentUrl
import MiniAgentOS.Fetch.Start
import MiniAgentOS.Fetch.Tick
import MiniAgentOS.Fetch.Receive
import MiniAgentOS.Fetch.Commands
import MiniAgentOS.Fetch.Loop
import MiniAgentOS.Fetch.TickSteps
import MiniAgentOS.Fetch.Credentials
import MiniAgentOS.Fetch.Destination
import MiniAgentOS.Fetch.DnsBinding
import MiniAgentOS.Fetch.Isolation
import MiniAgentOS.Fetch.Rounds
import MiniAgentOS.Fetch.Success
import MiniAgentOS.Lib.Slots
import MiniAgentOS.Session.History
import MiniAgentOS.Session.State
import MiniAgentOS.Fetch.Outgoing
import MiniAgentOS.Fetch.Sending
import MiniAgentOS.Lib.OnesComplement
import MiniAgentOS.Net.Checksum
import MiniAgentOS.Net.Received
import MiniAgentOS.Net.Segment
import MiniAgentOS.Net.TxRing
import MiniAgentOS.Fetch.Handshake
import MiniAgentOS.Agent.Memory
import MiniAgentOS.Agent.MemoryStore
import MiniAgentOS.Agent.MemoryView
import MiniAgentOS.Agent.Prompt
import MiniAgentOS.Agent.Retention
import MiniAgentOS.Fetch.Redirects
import MiniAgentOS.Text.FlatObject
import MiniAgentOS.Agent.Capture
import MiniAgentOS.Http.Framing
import MiniAgentOS.Http.Lookup
import MiniAgentOS.Tls.Overflow
import MiniAgentOS.Bridge.Atomic
import MiniAgentOS.Bridge.Confined
import MiniAgentOS.Bridge.Lossless
import MiniAgentOS.Agent.Allowed
import MiniAgentOS.Agent.Execution
import MiniAgentOS.Agent.Preview
import MiniAgentOS.Agent.Requests
import MiniAgentOS.Agent.Dispatch
import MiniAgentOS.Agent.Loop
import MiniAgentOS.Agent.LoopBudget
import MiniAgentOS.Agent.ToolResults
import MiniAgentOS.Agent.Turns
import MiniAgentOS.Fetch.DnsQuery
import MiniAgentOS.Lib.Expiring
import MiniAgentOS.Net.ArpCache
import MiniAgentOS.Net.UrlForm
import MiniAgentOS.Agent.Tweet
import MiniAgentOS.Fetch.ApiKey
import MiniAgentOS.Fetch.Pacing
import MiniAgentOS.Http.DateForm
import MiniAgentOS.Lib.Mealy
import MiniAgentOS.Text.Decode
import MiniAgentOS.Uart.Input
import MiniAgentOS.Fetch.RequestText
import MiniAgentOS.Agent.Goal
import MiniAgentOS.Agent.GoalPolicy
import MiniAgentOS.Bridge.Paging
import MiniAgentOS.Bridge.Search
import MiniAgentOS.Text.Gaps
import MiniAgentOS.Text.WellFormed
import MiniAgentOS.Agent.GoalOutcome
import MiniAgentOS.Agent.GoalUrls
import MiniAgentOS.Agent.ToolArguments
import MiniAgentOS.Http.Effects
import MiniAgentOS.Agent.Transports
import MiniAgentOS.Agent.Cooldown
import MiniAgentOS.Agent.OAuth
import MiniAgentOS.Agent.Trace
import MiniAgentOS.Bridge.Relay
import MiniAgentOS.Bridge.Workspace
import MiniAgentOS.Harness.Accepted
import MiniAgentOS.Lib.Arena
import MiniAgentOS.Lib.Cells
import MiniAgentOS.Memory.Allocator
import MiniAgentOS.Memory.Calloc
import MiniAgentOS.Memory.Copy
import MiniAgentOS.Net.Announced
import MiniAgentOS.Net.Datagram
import MiniAgentOS.Net.Queues
import MiniAgentOS.Bridge.Reply
