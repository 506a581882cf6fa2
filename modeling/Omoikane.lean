import Omoikane.Base.Text
import Omoikane.Base.IpAddr
import Omoikane.Base.Run
import Omoikane.Base.Table
import Omoikane.Base.Bytes
import Omoikane.Base.Utf8
import Omoikane.Base.Reader
import Omoikane.Http.Url
import Omoikane.Http.Site
import Omoikane.Http.CookieDate
import Omoikane.Http.Cookie
import Omoikane.Http.CookieJar
import Omoikane.Http.Response
import Omoikane.Http.Request
import Omoikane.Http.Connection
import Omoikane.Http.Http2Frame
import Omoikane.Http.Hpack
import Omoikane.Http.HpackRoundTrip
import Omoikane.Http.HpackOverflow
import Omoikane.Http.Http2
import Omoikane.Http.Http2Windows
import Omoikane.Http.Http2Session
import Omoikane.Http.FlowControl
import Omoikane.Http.WindowArithmetic
import Omoikane.Http.ChunkedBody
import Omoikane.Http.ResponseFraming
import Omoikane.Http.TransportAgreement
import Omoikane.Http.Retransmission
import Omoikane.Http.Origin
import Omoikane.Http.RequestText
import Omoikane.Http.CookieRead
import Omoikane.Http.Client
import Omoikane.Http.Cors
import Omoikane.Http.Fetch
import Omoikane.Http.HeaderEdits
import Omoikane.Http.FetchHops
import Omoikane.Http.Redirects
import Omoikane.Http.FetchRedirects
import Omoikane.Http.PreflightApprovals
import Omoikane.Http.CorsGate
import Omoikane.Http.CookieStoring
import Omoikane.Http.CookieScope
import Omoikane.Http.CookieIntegrity
import Omoikane.Http.CookieHistory
import Omoikane.Http.CookieWatch
import Omoikane.Http.CookieExpiry
import Omoikane.Http.HttpDates
import Omoikane.Resource.Delivery
import Omoikane.Dom.Integrity
import Omoikane.Dom.Live.LiveCollections
import Omoikane.Dom.Live.InclusiveTree
import Omoikane.Dom.Live.SlotFreshness
import Omoikane.Dom.Live.FlattenedSlottables
import Omoikane.Cdp.Outgoing
import Omoikane.Cdp.Responses
import Omoikane.Base.Ranges
import Omoikane.Jit.StackMap
import Omoikane.Jit.Runtimes
import Omoikane.Jit.AssemblerListing
import Omoikane.Jit.Deoptimization
import Omoikane.Jit.Lowering
import Omoikane.Realtime.Messages
import Omoikane.Realtime.EventStream
import Omoikane.Base.Utf16
import Omoikane.Html.Chunking
import Omoikane.Js.EventLoopRuns
import Omoikane.Js.OpfsAtomic
import Omoikane.Js.Csp.ParserPolicies
import Omoikane.Js.Csp.Restriction
import Omoikane.Layout.GridAutoPlacement
import Omoikane.Layout.GridLines
import Omoikane.Layout.TableSlots
import Omoikane.Css.Assignments
import Omoikane.Base.TreeLoops
import Omoikane.Dom.Live.Select
import Omoikane.Dom.Live.SelectCalls
import Omoikane.Dom.Live.SelectRuns
import Omoikane.Css.AttributeSelectors
import Omoikane.Css.NthFormulas
import Omoikane.Dom.Live.CharacterData
import Omoikane.Dom.Live.FormState
import Omoikane.Css.Specificity
import Omoikane.Dom.Live.Inertness
import Omoikane.Css.ActuallyDisabled
import Omoikane.Html.StartTags
import Omoikane.Html.RawElements
import Omoikane.Css.MediaLists
import Omoikane.Js.Csp.Reports
import Omoikane.Base.StableSort
import Omoikane.Js.Timers
import Omoikane.Js.OpfsQuota
import Omoikane.Js.PersistedOrigins
import Omoikane.Css.TokenizerErrors
import Omoikane.Css.RenderedTokens
import Omoikane.Js.Sanitizer.Validity
