import HawkTracer.Base.Brackets
import HawkTracer.Base.Bytes
import HawkTracer.Base.FirstWins
import HawkTracer.Base.Guarded
import HawkTracer.Base.Json
import HawkTracer.Base.JsonPrinted
import HawkTracer.Base.JsonQuotes
import HawkTracer.Base.JsonText
import HawkTracer.Base.Loop
import HawkTracer.Base.Ownership
import HawkTracer.Base.SizeT
import HawkTracer.Client.CallTree
import HawkTracer.Client.ChromeDocument
import HawkTracer.Client.ChromeTrace
import HawkTracer.Client.Conservation
import HawkTracer.Client.Delivered
import HawkTracer.Client.SelfCost
import HawkTracer.Client.Session
import HawkTracer.ClientUtils.LiveTrace
import HawkTracer.ClientUtils.WakeUp
import HawkTracer.Lib.Bag
import HawkTracer.Lib.BagRuns
import HawkTracer.Lib.BufferRuns
import HawkTracer.Lib.CachedString
import HawkTracer.Lib.Callstack
import HawkTracer.Lib.Cleanup
import HawkTracer.Lib.Constructors
import HawkTracer.Lib.Containers
import HawkTracer.Lib.DescribedFirst
import HawkTracer.Lib.Features
import HawkTracer.Lib.FileDump
import HawkTracer.Lib.HashMapRuns
import HawkTracer.Lib.Init
import HawkTracer.Lib.ListenerContainer
import HawkTracer.Lib.ListenerLocks
import HawkTracer.Lib.NestedStructs
import HawkTracer.Lib.Registration
import HawkTracer.Lib.Registry
import HawkTracer.Lib.SharedBlocks
import HawkTracer.Lib.Sharing
import HawkTracer.Lib.StackRuns
import HawkTracer.Lib.StagedForms
import HawkTracer.Lib.TaskTicks
import HawkTracer.Lib.TaskTiming
import HawkTracer.Lib.Tcp
import HawkTracer.Lib.TcpServer
import HawkTracer.Lib.TcpWrite
import HawkTracer.Lib.TickPeriod
import HawkTracer.Lib.Timeline
import HawkTracer.Parser.Descriptions
import HawkTracer.Parser.FieldLookup
import HawkTracer.Parser.Flat
import HawkTracer.Parser.Grammar
import HawkTracer.Parser.HeaderNames
import HawkTracer.Parser.Outlines
import HawkTracer.Parser.Reader
import HawkTracer.Parser.StringBlock
import HawkTracer.Parser.Survival
import HawkTracer.Parser.Termination
import HawkTracer.RoundTrip.ClientRun
import HawkTracer.RoundTrip.FreshConverter
import HawkTracer.RoundTrip.KlassTrip
import HawkTracer.RoundTrip.Labels
import HawkTracer.RoundTrip.NullStrings
import HawkTracer.RoundTrip.Process
import HawkTracer.RoundTrip.ProcessTrace
import HawkTracer.RoundTrip.Profile
import HawkTracer.RoundTrip.Recorder
import HawkTracer.RoundTrip.Truncated
