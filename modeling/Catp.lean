import Catp.Core.Pacer
import Catp.Core.ClockSteps
import Catp.Core.Ticks
import Catp.Wire.AuthBinding
import Catp.Wire.RoundTrip
import Catp.Wire.EncodeInto
import Catp.Wire.Layout
import Catp.Wire.TimeRoundTrip
import Catp.Peer.Attribution
import Catp.Peer.Direction
import Catp.Peer.Slots
import Catp.Checked.Peer
import Catp.Checked.Control
import Catp.Checked.Split
import Catp.Node.Backoff
import Catp.Node.Floor
import Catp.Provision.Startup
import Catp.Provision.Generate
import Catp.Session.Fleet
import Catp.Session.Recovery
import Catp.Session.Announce
import Catp.Demo.Pair
