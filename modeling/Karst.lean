import Karst.Noise.TranscriptAgreement
import Karst.Noise.TransportRuns
import Karst.Proto.RoundTrip
import Karst.Proto.Soundness
import Karst.Proto.Budget
import Karst.Node.SimultaneousOpen
import Karst.Node.CookieReplies
import Karst.Bedrock.Quorum
import Karst.Bedrock.Equivocation
import Karst.Bedrock.GoAgreement
import Karst.Policy.Denotation
import Karst.Datapath.FilterAgreement
import Karst.Datapath.Revocation
import Karst.Datapath.Snapshots
import Karst.Datapath.HandshakeAnswers
import Karst.Disco.Codec
import Karst.Disco.Selection
import Karst.Disco.Confirmation
import Karst.Disco.Schedule
import Karst.Disco.MtuSearch
import Karst.Relay.Presence
import Karst.Relay.Queues
import Karst.Relay.Authentication
import Karst.Relay.UsageAgreement
import Karst.Relay.Authorizations
import Karst.Relay.CreditConservation
import Karst.Billing.Invoice
import Karst.Billing.Entitlements
import Karst.Billing.DeviceBilling
import Karst.Audit.Tampering
import Karst.Control.Refresh
import Karst.Node.HomeRelay
import Karst.Transport.Nat64
import Karst.Dns.LeakGuard
import Karst.Node.ExitPolicy
