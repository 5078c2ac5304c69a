import Nssf.Availability.TaiIdentity
import Nssf.Availability.Backends
import Nssf.Availability.Atomic
import Nssf.Availability.SliceSets
import Nssf.Availability.Fidelity
import Nssf.Availability.ListFold
import Nssf.Selection.PerArea
import Nssf.Selection.Partition
import Nssf.Subscription.Cascade
import Nssf.Dispatcher.Protocol
import Nssf.Dispatcher.FailClosed
import Nssf.Dispatcher.PgRetryStore
import Nssf.Server.Callbacks
import Nssf.Server.Lookups
import Nssf.Server.Gate
import Nssf.Server.Blame
import Nssf.OAuth.Scopes
import Nssf.OAuth.Jwks
import Nssf.Dispatcher.HeaderLines
import Nssf.Dispatcher.StrictBody
import Nssf.Dispatcher.StandIn
import Nssf.Dispatcher.TraceHeaders
import Nssf.Dispatcher.CallbackUris
import Nssf.OAuth.TokenFields
import Nssf.Json.Reading
import Nssf.Subscription.PatchFrame
import Nssf.Subscription.PgSubscriptions
import Nssf.Subscription.PgUnsubscribe
import Nssf.Subscription.Lifetime
import Nssf.Subscription.Creation
import Nssf.Subscription.FanoutChange
import Nssf.Subscription.PatchNodes
import Nssf.Design.NextSlice
import Nssf.Design.SpecSplit
import Nssf.Design.InlinedType
import Nssf.Design.CTermination
import Nssf.Design.GapsTable
import Nssf.Design.NfRegistry
import Nssf.Design.Flatten
import Nssf.Design.Regenerate
import Nssf.Design.Overrides
import Nssf.Subscription.PatchMeaning
import Nssf.Subscription.Uuid
import Nssf.Dispatcher.Backoff
import Nssf.Server.PatchStatus
import Nssf.Server.QueryDecoding
import Nssf.Server.Routes
import Nssf.Server.Streams
import Nssf.Server.ScopeTokens
import Nssf.Availability.PatchIndex
import Nssf.Subscription.PointerKeys
import Nssf.OAuth.Base64
import Nssf.Design.SliceRun
import Nssf.Design.Readiness
import Nssf.Design.WorkItems
import Nssf.Server.Connections
import Nssf.Generated.Models
import Nssf.Runtime.SecretRef
import Nssf.Server.Bootstrap
import Nssf.Dispatcher.Drain
import Nssf.Design.StatusRun
