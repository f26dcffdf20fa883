import ReliableDatagram.Packet.Codec
import ReliableDatagram.Clock
import ReliableDatagram.Rtt
import ReliableDatagram.SendQueue
import ReliableDatagram.ReceiveQueue
import ReliableDatagram.RateMeter
import ReliableDatagram.Config
import ReliableDatagram.Stats
import ReliableDatagram.Logged
import ReliableDatagram.Channel.Run
import ReliableDatagram.EndPoint.Host
import ReliableDatagram.Kernel.Run
import ReliableDatagram.Link.Delivery
import ReliableDatagram.Link.Run
import ReliableDatagram.Proofs.Packet.RoundTrip
import ReliableDatagram.Proofs.PacketId.Order
import ReliableDatagram.Proofs.Rtt
import ReliableDatagram.Proofs.Clock
import ReliableDatagram.Proofs.Packet.Grammar
import ReliableDatagram.Proofs.Channel.Longevity
import ReliableDatagram.Proofs.Link.InOrder
import ReliableDatagram.Proofs.Link.Restarts
import ReliableDatagram.Proofs.Link.Resets
import ReliableDatagram.Proofs.Channel.Speech
import ReliableDatagram.Proofs.Table.Concern
import ReliableDatagram.Proofs.Table.Lives
import ReliableDatagram.Proofs.Table.Words
import ReliableDatagram.Proofs.Channel.Generation
import ReliableDatagram.Proofs.Channel.Tickets
import ReliableDatagram.Proofs.Table.Visits
import ReliableDatagram.Proofs.Table.Separation
import ReliableDatagram.Proofs.Channel.Backlog
import ReliableDatagram.Proofs.Channel.Patience
import ReliableDatagram.Proofs.Link.Ledger
import ReliableDatagram.Proofs.Link.Repair
import ReliableDatagram.Proofs.Link.CleanRound
import ReliableDatagram.Proofs.Channel.Energy
import ReliableDatagram.Proofs.Channel.KeepAlive
import ReliableDatagram.Proofs.Link.Pump
import ReliableDatagram.Proofs.Link.KeepAlive
import ReliableDatagram.Proofs.Channel.Posting
import ReliableDatagram.Proofs.Table.Turnover
import ReliableDatagram.Proofs.Table.Accounts
import ReliableDatagram.Proofs.Link.Lead
import ReliableDatagram.Proofs.Table.Generations
import ReliableDatagram.Proofs.Channel.Drafts
import ReliableDatagram.Proofs.Kernel.Refinement
import ReliableDatagram.Proofs.Table.Mail
import ReliableDatagram.Proofs.Channel.Reception
import ReliableDatagram.Proofs.Channel.NewestStream
import ReliableDatagram.Proofs.Channel.RepeatedReset
import ReliableDatagram.Proofs.Channel.Acknowledgement
import ReliableDatagram.Proofs.Channel.LastStart
import ReliableDatagram.Proofs.Link.NewStreams
import ReliableDatagram.Proofs.Channel.Traffic
import ReliableDatagram.Proofs.Channel.Coherence
import ReliableDatagram.Proofs.Channel.Numbering
import ReliableDatagram.Proofs.Channel.Courses
import ReliableDatagram.Proofs.Channel.Retransmission
import ReliableDatagram.Proofs.Channel.Capacity
import ReliableDatagram.Proofs.Table.Deeds
import ReliableDatagram.Proofs.Table.Capacity
import ReliableDatagram.Proofs.Channel.Intake
import ReliableDatagram.Proofs.Channel.Tally
import ReliableDatagram.Proofs.Table.Statistics
import ReliableDatagram.Proofs.Channel.Chronicle
import ReliableDatagram.Proofs.Channel.Samples
import ReliableDatagram.Proofs.Link.RoundTrips
import ReliableDatagram.Proofs.Table.Rejections
import ReliableDatagram.Proofs.Table.Sizes
import ReliableDatagram.Proofs.Channel.RateWindow
import ReliableDatagram.Proofs.EndPoint.PortSearch
