import TypedRoutes.Attributes.Basic
import TypedRoutes.Attributes.Rules
import TypedRoutes.Calendar.Date
import TypedRoutes.Calendar.Moment
import TypedRoutes.Decimal.Binary64
import TypedRoutes.Decimal.Shortest
import TypedRoutes.Declaration.AttributeText
import TypedRoutes.Declaration.Description
import TypedRoutes.Declaration.NameStyle
import TypedRoutes.Dispatch.Dispatcher
import TypedRoutes.Dispatch.Envelope
import TypedRoutes.Dispatch.ErrorCode
import TypedRoutes.Dispatch.Headers
import TypedRoutes.Dispatch.Middleware
import TypedRoutes.Dispatch.RequestId
import TypedRoutes.Dispatch.Response
import TypedRoutes.Http.Readiness
import TypedRoutes.Http.Request
import TypedRoutes.Http.Response
import TypedRoutes.Http.Service
import TypedRoutes.Json.Basic
import TypedRoutes.Json.Complaint
import TypedRoutes.Json.Indented
import TypedRoutes.Json.Reading
import TypedRoutes.Json.Writing
import TypedRoutes.Main
import TypedRoutes.Markup.Block
import TypedRoutes.Markup.Character
import TypedRoutes.Markup.Document
import TypedRoutes.Markup.Folding
import TypedRoutes.Markup.Plain
import TypedRoutes.Markup.Quoted
import TypedRoutes.Markup.Tag
import TypedRoutes.Markup.Token
import TypedRoutes.Members
import TypedRoutes.OpenApi.Document
import TypedRoutes.OpenApi.Encoding
import TypedRoutes.OpenApi.Parameter
import TypedRoutes.OpenApi.Schema
import TypedRoutes.Proofs.Acceptance
import TypedRoutes.Proofs.AllowedMethods
import TypedRoutes.Proofs.ApiDocuments
import TypedRoutes.Proofs.AttributeGrammar
import TypedRoutes.Proofs.AttributeTexts
import TypedRoutes.Proofs.BodyBinding
import TypedRoutes.Proofs.BodyLimits
import TypedRoutes.Proofs.BodyOverQuery
import TypedRoutes.Proofs.BrokenBlocks
import TypedRoutes.Proofs.CalendarDates
import TypedRoutes.Proofs.CallSequences
import TypedRoutes.Proofs.CallStages
import TypedRoutes.Proofs.Conformance
import TypedRoutes.Proofs.ConversionProjection
import TypedRoutes.Proofs.ConversionSoundness
import TypedRoutes.Proofs.DecimalTexts
import TypedRoutes.Proofs.DocumentedParameters
import TypedRoutes.Proofs.FlatRequests
import TypedRoutes.Proofs.FlattenedFields
import TypedRoutes.Proofs.HeaderRuns
import TypedRoutes.Proofs.InstantTexts
import TypedRoutes.Proofs.IntegerFormats
import TypedRoutes.Proofs.Interleaving
import TypedRoutes.Proofs.JoinedPaths
import TypedRoutes.Proofs.KeyTexts
import TypedRoutes.Proofs.Matching
import TypedRoutes.Proofs.MiddlewareAccounts
import TypedRoutes.Proofs.NullMembers
import TypedRoutes.Proofs.ObjectAssembly
import TypedRoutes.Proofs.OptionalRecords
import TypedRoutes.Proofs.Overlays
import TypedRoutes.Proofs.PartialBodies
import TypedRoutes.Proofs.PathPrecedence
import TypedRoutes.Proofs.PatternExpressions
import TypedRoutes.Proofs.PatternShapes
import TypedRoutes.Proofs.PercentCoding
import TypedRoutes.Proofs.QueryBodyAgreement
import TypedRoutes.Proofs.QueryEntries
import TypedRoutes.Proofs.QueryFailures
import TypedRoutes.Proofs.QueryPairs
import TypedRoutes.Proofs.QueryReach
import TypedRoutes.Proofs.Registration
import TypedRoutes.Proofs.RequestSoundness
import TypedRoutes.Proofs.RequiredParameters
import TypedRoutes.Proofs.ResponseHeaders
import TypedRoutes.Proofs.Results
import TypedRoutes.Proofs.RouteAnnotations
import TypedRoutes.Proofs.RouteChoice
import TypedRoutes.Proofs.RuleMessages
import TypedRoutes.Proofs.SampledShare
import TypedRoutes.Proofs.SchemaSoundness
import TypedRoutes.Proofs.SchemaUnfolding
import TypedRoutes.Proofs.SchemaValidation
import TypedRoutes.Proofs.Segments
import TypedRoutes.Proofs.SettingsOverlays
import TypedRoutes.Proofs.TimeTexts
import TypedRoutes.Proofs.UrlBuilding
import TypedRoutes.Proofs.UserRequests
import TypedRoutes.Proofs.UserRuns
import TypedRoutes.Proofs.Utf8
import TypedRoutes.Proofs.ValidationErrors
import TypedRoutes.Proofs.ValidationReach
import TypedRoutes.Proofs.VariantNames
import TypedRoutes.Proofs.Words
import TypedRoutes.Query
import TypedRoutes.Request.Assemble
import TypedRoutes.Request.Convert
import TypedRoutes.Request.Decode
import TypedRoutes.Request.Error
import TypedRoutes.Request.Zero
import TypedRoutes.RouteMeta
import TypedRoutes.Routing.Expression
import TypedRoutes.Routing.Path
import TypedRoutes.Routing.Pattern
import TypedRoutes.Routing.Registry
import TypedRoutes.Routing.Router
import TypedRoutes.Settings.Logging
import TypedRoutes.Settings.Sampling
import TypedRoutes.Settings.Service
import TypedRoutes.Settings.Value
import TypedRoutes.Text.Blank
import TypedRoutes.Text.Casing
import TypedRoutes.Text.Numeral
import TypedRoutes.Text.Percent
import TypedRoutes.Text.Utf8
import TypedRoutes.Types.Basic
import TypedRoutes.Types.Walk
import TypedRoutes.Users.Api
import TypedRoutes.Users.Store
import TypedRoutes.Validation
