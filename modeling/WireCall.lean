import WireCall.Console.Terminal
import WireCall.Main
import WireCall.Proofs.Client.Finality
import WireCall.Proofs.Client.Replies
import WireCall.Proofs.Client.Requests
import WireCall.Proofs.Client.Retrying
import WireCall.Proofs.Client.Unframed
import WireCall.Proofs.Console.Bench
import WireCall.Proofs.Console.Sums
import WireCall.Proofs.Console.Terminal
import WireCall.Proofs.Console.Typed
import WireCall.Proofs.Frame.Format
import WireCall.Proofs.Frame.Resync
import WireCall.Proofs.Header
import WireCall.Proofs.Message.Classification
import WireCall.Proofs.Message.Containment
import WireCall.Proofs.Negotiation.Limit
import WireCall.Proofs.Network.Bodies
import WireCall.Proofs.Network.Failures
import WireCall.Proofs.Registry.Receiver
import WireCall.Proofs.Registry.Resolution
import WireCall.Proofs.Server.Answering
import WireCall.Proofs.Server.Drain
import WireCall.Proofs.Server.Gate
import WireCall.Proofs.Server.Limit
import WireCall.Proofs.Server.Statistics
import WireCall.Proofs.Shape.RoundTrip
import WireCall.Proofs.Stream.Demand
