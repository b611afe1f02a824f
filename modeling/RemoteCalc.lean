import RemoteCalc.Main
import RemoteCalc.Server.Binding
import RemoteCalc.Server.Hub
import RemoteCalc.Server.Listener
import RemoteCalc.Proofs.Framing.Segments
import RemoteCalc.Proofs.Framing.Feeding
import RemoteCalc.Proofs.Framing.Refinement
import RemoteCalc.Proofs.Binary64.Bits
import RemoteCalc.Proofs.Binary64.Exact
import RemoteCalc.Proofs.Decimal.Numeral
import RemoteCalc.Proofs.Decimal.ReadBack
import RemoteCalc.Proofs.Message.Inert
import RemoteCalc.Proofs.Message.NumberField
import RemoteCalc.Proofs.Framing.Frames
import RemoteCalc.Proofs.Message.RoundTrip
import RemoteCalc.Proofs.Session.Replies
import RemoteCalc.Proofs.Message.Inbound
import RemoteCalc.Proofs.Session.Sending
import RemoteCalc.Proofs.Server.Connection
import RemoteCalc.Proofs.Server.PacketService
import RemoteCalc.Proofs.Server.Agreement
import RemoteCalc.Proofs.Server.Holding
import RemoteCalc.Proofs.Server.Listener
import RemoteCalc.Proofs.Server.Isolation
import RemoteCalc.Proofs.Session.Memory
import RemoteCalc.Proofs.Client.Accounting
import RemoteCalc.Proofs.Client.Steps
import RemoteCalc.Proofs.Client.Exchange
import RemoteCalc.Proofs.Client.Calls
import RemoteCalc.Proofs.Client.Hearing
import RemoteCalc.Proofs.Client.Answering
import RemoteCalc.Proofs.Binary64.Order
import RemoteCalc.Proofs.Decimal.Shortest
import RemoteCalc.Proofs.Message.WideNumber
import RemoteCalc.Proofs.Client.Line
import RemoteCalc.Proofs.Client.Transparency
import RemoteCalc.Proofs.Framing.Abort
import RemoteCalc.Proofs.Server.Sharing
import RemoteCalc.Proofs.Text.Utf8
import RemoteCalc.Proofs.Decimal.Grammar
import RemoteCalc.Proofs.Message.Fields
import RemoteCalc.Proofs.Message.Grammar
import RemoteCalc.Proofs.Message.NumberText
import RemoteCalc.Proofs.Server.Receiving
import RemoteCalc.Proofs.Client.Reading
import RemoteCalc.Proofs.Text.Search
import RemoteCalc.Proofs.Binary64.Negation
import RemoteCalc.Proofs.Expression.Operands
import RemoteCalc.Proofs.Expression.Readings
import RemoteCalc.Proofs.Expression.Printed
import RemoteCalc.Proofs.Server.Deletion
import RemoteCalc.Proofs.Framing.Representation
import RemoteCalc.Proofs.Client.Ids
