import RustPipeline.Foundation.Numerals
import RustPipeline.Foundation.Separated
import RustPipeline.Foundation.Lanes
import RustPipeline.Foundation.PlainXml
import RustPipeline.AddressText
import RustPipeline.Codec
import RustPipeline.CodecImage
import RustPipeline.PlainPlatform
import RustPipeline.RoundTrip
import RustPipeline.CodecSlices
import RustPipeline.Registry
import RustPipeline.Foundation.PartialInverse
import RustPipeline.Thread
import RustPipeline.Federation
import RustPipeline.Pipeline
import RustPipeline.Switchboard
import RustPipeline.SchemaGate
import RustPipeline.FederationGate
import RustPipeline.PipelineRuns
import RustPipeline.Conversations
import RustPipeline.AnswerGate
import RustPipeline.Dispatch
import RustPipeline.PeerContainment
import RustPipeline.CallReturn
import RustPipeline.FederatedReply
import RustPipeline.Sealing
import RustPipeline.ProvenanceChain
import RustPipeline.SpawnHandoff
import RustPipeline.PeerOrigin
import RustPipeline.ReturnHops
import RustPipeline.ConversationPartner
import RustPipeline.ReturnEdges
import RustPipeline.Interleaving
import RustPipeline.InstanceSerial
import RustPipeline.Foundation.History
import RustPipeline.SpawnOrder
import RustPipeline.CallBrackets
import RustPipeline.Network
import RustPipeline.Laundering
import RustPipeline.Foundation.Runs
import RustPipeline.RegistryOps
import RustPipeline.CallStack
import RustPipeline.HandlerPanics
import RustPipeline.PayloadIsolation
import RustPipeline.Suspension
import RustPipeline.TwoNodes
import RustPipeline.Foundation.Tokens
import RustPipeline.SelfFeeding
import RustPipeline.BoundedStages
import RustPipeline.Foundation.Waiting
import RustPipeline.NoDeadlock
import RustPipeline.Foundation.Markup
import RustPipeline.Foundation.ElementTree
import RustPipeline.PythonAddress
import RustPipeline.PythonCodec
import RustPipeline.PythonNumerals
import RustPipeline.PythonReading
import RustPipeline.Relabelling
import RustPipeline.CodecAgreement
import RustPipeline.AddressViews
import RustPipeline.Foundation.BitSet
import RustPipeline.AddressParts
import RustPipeline.ProvenanceSet
import RustPipeline.AddressAgreement
import RustPipeline.RouteKeys
import RustPipeline.RouteIndexes
import RustPipeline.ByteValidation
import RustPipeline.MiddlewareOrder
import RustPipeline.SealOpen
import RustPipeline.Foundation.HexDigits
import RustPipeline.Grammar
import RustPipeline.DecoderGrammar
import RustPipeline.Foundation.Observations
import RustPipeline.StageFlow
import RustPipeline.Foundation.Weights
import RustPipeline.Shutdown
import RustPipeline.StageRefinement
import RustPipeline.PythonFederation
import RustPipeline.FederationAgreement
import RustPipeline.MixedNodes
import RustPipeline.EgressLink
import RustPipeline.NestedCalls
import RustPipeline.WireHops
import RustPipeline.GuardedDispatch
import RustPipeline.FrameFormat
import RustPipeline.Foundation.Schedules
import RustPipeline.Independence
import RustPipeline.SeparateConversations
