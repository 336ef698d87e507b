import Chis.Base.Prog
import Chis.Base.Interleave
import Chis.Base.Table
import Chis.Base.Uuid
import Chis.Model.Rows
import Chis.Repository.Query
import Chis.Repository.Messages
import Chis.Repository.Tenancy
import Chis.Helper.Signature
import Chis.System.Operation
import Chis.System.Operation
import Chis.System.World
import Chis.Service.Worker
import Chis.Service.Delivery
import Chis.Pipeline.Protocol
import Chis.Pipeline.Tokens
import Chis.Pipeline.Deliveries
import Chis.Pipeline.Outcomes
import Chis.Pipeline.System
import Chis.Pipeline.Refinement
import Chis.Pipeline.Soundness
import Chis.Pipeline.Guarantees
import Chis.Pipeline.WriteBack
import Chis.Pipeline.Faults
import Chis.Base.Decimal
import Chis.Base.Json
import Chis.Base.JsonText
import Chis.Api.Decode
import Chis.Api.Middleware
import Chis.Helper.Slug
import Chis.Api.Tenancy
import Chis.Api.Dashboard
import Chis.Api.Invitations
import Chis.Api.Router
import Chis.Tenants.Rows
import Chis.Api.Rules
import Chis.Tenants.Writes
import Chis.Api.System
import Chis.Access.Requests
import Chis.Access.Provenance
import Chis.Access.Invitations
import Chis.Access.LifeCycle
import Chis.Accounts.Creation
import Chis.Accounts.SignUp
import Chis.Signature.Base64
import Chis.Signature.Numbers
import Chis.Signature.Readme
import Chis.Signature.Delivery
import Chis.Signature.Agreement
import Chis.Signature.Framing
import Chis.Signature.VerifyTabs
import Chis.Pipeline.Submission
import Chis.Base.Constraints
import Chis.System.Integrity
import Chis.Access.Declining
import Chis.Access.Atomicity
import Chis.Access.Accepting
import Chis.Access.Permissions
import Chis.System.Permanence
import Chis.Access.Administration
import Chis.Access.Claiming
import Chis.Access.Authentication
import Chis.Tenants.Deletion
import Chis.Access.Inviting
import Chis.Responses.Mistakes
import Chis.Responses.Handlers
import Chis.Responses.Users
import Chis.Base.Paging
import Chis.Logs.Query
import Chis.Logs.Pages
import Chis.Logs.Search
import Chis.Base.Rfc3339
import Chis.Logs.Times
import Chis.Access.Limiting
import Chis.Base.Events
import Chis.Web.Hooks
import Chis.Web.Screen
import Chis.Web.Providers
import Chis.Web.Tabs
import Chis.Web.Settled
import Chis.Web.Convergence
import Chis.Web.WebhookLogs
import Chis.Retries.Counts
import Chis.Base.Separators
import Chis.Helper.Canonical
import Chis.Base.Separators
import Chis.Helper.Canonical
import Chis.Responses.Routes
import Chis.Responses.Routes
import Chis.Base.TwoRuns
import Chis.Tenants.Queries
import Chis.Tenants.Reads
import Chis.Signature.Lookup
import Chis.Pipeline.Turns
import Chis.Pipeline.Attempts
import Chis.Pipeline.Record
import Chis.Api.Footprint
import Chis.Base.Precision
import Chis.Pipeline.Content
import Chis.Access.Sessions
import Chis.Access.Founders
import Chis.Logs.Overview
import Chis.System.History
import Chis.Access.Offers
import Chis.Pipeline.Queue
