import Fdgw.Runs
import Fdgw.Repeater
import Fdgw.RepeaterInvariant
import Fdgw.RepeaterDestinations
import Fdgw.Base64
import Fdgw.Stream
import Fdgw.StreamLanes
import Fdgw.StreamOrder
import Fdgw.StreamRefs
import Fdgw.StreamRuns
import Fdgw.StreamWakeups
import Fdgw.Links
import Fdgw.Pppoe
import Fdgw.Relay
import Fdgw.RelayTable
import Fdgw.RelayNetwork
import Fdgw.RelaySessions
import Fdgw.RelayDiscovery
import Fdgw.RelayIdle
import Fdgw.Supervisor
import Fdgw.Patterns
import Fdgw.TextLines
import Fdgw.Options
import Fdgw.Interfaces
import Fdgw.KernelConfig
import Fdgw.KernelConfigProofs
import Fdgw.KernelComments
import Fdgw.Extract
import Fdgw.ExtractLoop
import Fdgw.ExtractPatches
import Fdgw.ExtractMarkers
import Fdgw.FirstMatch
import Fdgw.Repetitions
import Fdgw.SquidConfig
import Fdgw.SquidRewrite
import Fdgw.SquidAccess
import Fdgw.SquidDefaults
import Fdgw.SquidShrink
import Fdgw.Uni
import Fdgw.ShellWords
import Fdgw.MergeConf
import Fdgw.MergeConfProofs
import Fdgw.MergeConfEffect
import Fdgw.MergeConfText
import Fdgw.Checksum
import Fdgw.Clamp
import Fdgw.Fcs
import Fdgw.Framing
import Fdgw.Discovery
