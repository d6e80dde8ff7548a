import PeerMix.Logging
import PeerMix.Proofs.Bytes.Hex
import PeerMix.Proofs.Bytes.Numbers
import PeerMix.Proofs.Bytes.Pieces
import PeerMix.Proofs.Counts.Numbering
import PeerMix.Proofs.DcNet.Aggregation
import PeerMix.Proofs.DcNet.Cancellation
import PeerMix.Proofs.DcNet.MessageSums
import PeerMix.Proofs.DcNet.Overlay
import PeerMix.Proofs.DcNet.PadStreams
import PeerMix.Proofs.DcNet.PadTables
import PeerMix.Proofs.DcNet.ReservationSums
import PeerMix.Proofs.DcNet.Shapes
import PeerMix.Proofs.DcNet.Unlinkability
import PeerMix.Proofs.DcNet.Widths
import PeerMix.Proofs.Field.Arithmetic
import PeerMix.Proofs.Field.PowerSums
import PeerMix.Proofs.Field.RootPolynomial
import PeerMix.Proofs.Field.Sampling
import PeerMix.Proofs.Field.Uniformity
import PeerMix.Proofs.Json.Lengths
import PeerMix.Proofs.Json.Rendering
import PeerMix.Proofs.Lattice.Sizes
import PeerMix.Proofs.Link.Framing
import PeerMix.Proofs.Random.Positions
import PeerMix.Proofs.Roster.Acceptance
import PeerMix.Proofs.Roster.Limits
import PeerMix.Proofs.Round.Delivery
import PeerMix.Proofs.Round.Exchange
import PeerMix.Proofs.Round.PadAgreement
import PeerMix.Proofs.Session.Encapsulations
import PeerMix.Proofs.Session.FrameLimits
import PeerMix.Proofs.Session.Indifference
import PeerMix.Proofs.Session.Interruption
import PeerMix.Proofs.Session.KeyChecks
import PeerMix.Proofs.Session.Ledger
import PeerMix.Proofs.Session.Lifecycle
import PeerMix.Proofs.Session.Order
import PeerMix.Proofs.Session.Replay
import PeerMix.Proofs.Session.Rosters
import PeerMix.Proofs.Session.Runs
import PeerMix.Proofs.Session.Safety
import PeerMix.Proofs.Session.Traces
import PeerMix.Proofs.Session.Turns
import PeerMix.Proofs.Session.Walk
import PeerMix.Proofs.Session.Warrants
import PeerMix.Proofs.Settings.Layers
import PeerMix.Proofs.Slots.Exactness
import PeerMix.Proofs.Slots.Resolution
import PeerMix.Proofs.Wire.Lengths
import PeerMix.Proofs.Wire.Preimages
import PeerMix.Proofs.Wire.RoundTrip
import PeerMix.Round
import PeerMix.Session.Rehearsal
