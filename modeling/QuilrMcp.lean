import QuilrMcp.Library.Trace
import QuilrMcp.Library.Relay
import QuilrMcp.Library.Text
import QuilrMcp.Library.Encoding
import QuilrMcp.Library.Unicode
import QuilrMcp.Library.Normalization
import QuilrMcp.Library.Dict
import QuilrMcp.Library.Json
import QuilrMcp.Library.JsonSteps
import QuilrMcp.Library.JsonRoundTrip
import QuilrMcp.Library.JsonReading
import QuilrMcp.Library.JsonProgress
import QuilrMcp.Library.JsonKeys
import QuilrMcp.Library.Blurring
import QuilrMcp.Library.Rendering
import QuilrMcp.Library.JsonLines
import QuilrMcp.Library.JsonIndent
import QuilrMcp.Library.JsonTokens
import QuilrMcp.Library.Utf8
import QuilrMcp.Library.Division
import QuilrMcp.Library.Regex
import QuilrMcp.Library.Scan
import QuilrMcp.Library.Sealing
import QuilrMcp.Library.Cutting
import QuilrMcp.Library.BackOff
import QuilrMcp.Library.Editing
import QuilrMcp.Router.RateLimit
import QuilrMcp.Router.SharedWindow
import QuilrMcp.Router.Stored
import QuilrMcp.Router.Eviction
import QuilrMcp.Router.StoreLock
import QuilrMcp.Router.Store
import QuilrMcp.Router.Auth
import QuilrMcp.Router.Tokens
import QuilrMcp.Router.Billing
import QuilrMcp.Router.Chunking
import QuilrMcp.Router.Waiting
import QuilrMcp.Router.Headers
import QuilrMcp.Router.Providers
import QuilrMcp.Router.Routing
import QuilrMcp.Router.RetryAfter
import QuilrMcp.Router.Settlement
import QuilrMcp.Router.Failover
import QuilrMcp.Router.App
import QuilrMcp.Router.Disclosure
import QuilrMcp.CustomerMcp.Ledger
import QuilrMcp.CustomerMcp.AtMostOnce
import QuilrMcp.CustomerMcp.Store
import QuilrMcp.CustomerMcp.FailedRefund
import QuilrMcp.CustomerMcp.RefundMoney
import QuilrMcp.CustomerMcp.Schemas
import QuilrMcp.CustomerMcp.Identity
import QuilrMcp.CustomerMcp.Transport
import QuilrMcp.CustomerMcp.Server
import QuilrMcp.CustomerMcp.Session
import QuilrMcp.SharedConnection
import QuilrMcp.McpGateway.JsonRpc
import QuilrMcp.McpGateway.Auth
import QuilrMcp.McpGateway.Policy
import QuilrMcp.McpGateway.Folding
import QuilrMcp.McpGateway.Spelling
import QuilrMcp.McpGateway.App
import QuilrMcp.McpGateway.Forwarding
import QuilrMcp.McpGateway.Accounting
import QuilrMcp.McpGateway.Listing
import QuilrMcp.McpGateway.OneReading
import QuilrMcp.McpGateway.Refusal
import QuilrMcp.McpGateway.Audit
import QuilrMcp.McpGateway.Proxy
import QuilrMcp.Guardrail.Patterns
import QuilrMcp.Guardrail.Redactor
import QuilrMcp.Guardrail.Passes
import QuilrMcp.Guardrail.SsnSafety
import QuilrMcp.Guardrail.CardShape
import QuilrMcp.Guardrail.BackOff
import QuilrMcp.Guardrail.CardSafety
import QuilrMcp.Guardrail.CardSpans
import QuilrMcp.Guardrail.Conservation
import QuilrMcp.Guardrail.SecondPass
import QuilrMcp.Guardrail.Sse
import QuilrMcp.Guardrail.EventStream
import QuilrMcp.Guardrail.App
import QuilrMcp.Guardrail.Located
import QuilrMcp.Guardrail.Delivery
import QuilrMcp.Guardrail.LeafSafety
import QuilrMcp.Guardrail.Separation
import QuilrMcp.Guardrail.Survival
import QuilrMcp.Guardrail.Suppression
import QuilrMcp.Guardrail.SseLines
import QuilrMcp.Guardrail.SseEncoding
import QuilrMcp.Guardrail.Wire
