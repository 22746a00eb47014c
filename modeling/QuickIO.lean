import QuickIO.Lib.TransitionSystem
import QuickIO.Lib.Json
import QuickIO.Cleaning
import QuickIO.PathSegments
import QuickIO.Decoding
import QuickIO.RouteBounds
import QuickIO.CallbackIds
import QuickIO.CallbackAges
import QuickIO.Children
import QuickIO.SubRace
import QuickIO.Callbacks
import QuickIO.Replies
import QuickIO.LastRequest
import QuickIO.Reads
import QuickIO.HttpReads
import QuickIO.HttpSessions
import QuickIO.HttpLines
import QuickIO.HttpEvents
import QuickIO.HttpOutput
import QuickIO.Resources
import QuickIO.OnForms
import QuickIO.PathNames
import QuickIO.CallbackData
import QuickIO.Errno
import QuickIO.Transports
import QuickIO.HandshakeBytes
import QuickIO.BroadcastFrames
import QuickIO.HttpTable
import QuickIO.HttpPolls
import QuickIO.Heartbeats
import QuickIO.CallbackMessages
import QuickIO.Closing
import QuickIO.FailedSubscribes
import QuickIO.Delivery
import QuickIO.Registry
import QuickIO.ClientReads
import QuickIO.HttpRounds
import QuickIO.Builtins
import QuickIO.Timeouts
import QuickIO.Lib.Sniffing
import QuickIO.Detection
import QuickIO.ClientData
import QuickIO.CallbackRounds
