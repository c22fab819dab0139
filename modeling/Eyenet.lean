import Eyenet.Acknowledgment
import Eyenet.ActorSeen
import Eyenet.AdvisoryRepair
import Eyenet.Anchor
import Eyenet.ApprovedDispatch
import Eyenet.AuditChain
import Eyenet.AuthCache
import Eyenet.Base64
import Eyenet.BreadthFirst
import Eyenet.Bridge
import Eyenet.CalibrationArtifact
import Eyenet.Calls
import Eyenet.Candidate
import Eyenet.CandidateJoin
import Eyenet.CandidateScore
import Eyenet.Canonical
import Eyenet.CanonicalUrl
import Eyenet.Case
import Eyenet.CaseLifecycle
import Eyenet.CaseTier
import Eyenet.CfEmail
import Eyenet.ChannelReference
import Eyenet.Chokepoint
import Eyenet.Classes
import Eyenet.Clearance
import Eyenet.ClearanceExpiry
import Eyenet.Cooling
import Eyenet.CopypastaRefresh
import Eyenet.CorpusCursor
import Eyenet.CrewCases
import Eyenet.CrewEdges
import Eyenet.Crews
import Eyenet.Cursor
import Eyenet.Datetime
import Eyenet.Dict
import Eyenet.DocumentTier
import Eyenet.Ed25519
import Eyenet.Edwards
import Eyenet.Eligibility
import Eyenet.Enums
import Eyenet.EventAppend
import Eyenet.EventLog
import Eyenet.EventStream
import Eyenet.Exoneration
import Eyenet.FileAccessJournal
import Eyenet.FindingOrder
import Eyenet.FirstSighting
import Eyenet.ForumCrawl
import Eyenet.ForumReply
import Eyenet.ForumThread
import Eyenet.ForumTree
import Eyenet.Framing
import Eyenet.GeoCountry
import Eyenet.GeoSidecars
import Eyenet.Graph
import Eyenet.GraphLinks
import Eyenet.GraphMembers
import Eyenet.GroupLeave
import Eyenet.HashChain
import Eyenet.Hostname
import Eyenet.Idempotency
import Eyenet.Identity
import Eyenet.IncidentClassifier
import Eyenet.IncidentFeed
import Eyenet.IncidentLabels
import Eyenet.Ingest
import Eyenet.JoinDispatch
import Eyenet.Json
import Eyenet.Lineage
import Eyenet.Linkage
import Eyenet.Linker
import Eyenet.Machine
import Eyenet.MatrixEdits
import Eyenet.Membership
import Eyenet.MemoryBus
import Eyenet.MetadataFloor
import Eyenet.Mfa
import Eyenet.MfaVerify
import Eyenet.ModelText
import Eyenet.MonitorGate
import Eyenet.Observation
import Eyenet.ObservationHandoff
import Eyenet.OffsetPaging
import Eyenet.Paging
import Eyenet.Persona
import Eyenet.Pratt
import Eyenet.Prefilter
import Eyenet.ProfileFold
import Eyenet.ProfileUpdate
import Eyenet.PyDumps
import Eyenet.PyJson
import Eyenet.PyReadable
import Eyenet.QrLogin
import Eyenet.RateLimit
import Eyenet.RecipesGrid
import Eyenet.Reclassify
import Eyenet.RefreshToken
import Eyenet.Regex
import Eyenet.Relations
import Eyenet.ReplayedResponse
import Eyenet.Reservation
import Eyenet.Rtf
import Eyenet.Rx
import Eyenet.Sandbox
import Eyenet.ScoutCoverage
import Eyenet.Sha256
import Eyenet.SharedInfra
import Eyenet.SigningKeys
import Eyenet.SourceDomain
import Eyenet.StampText
import Eyenet.Subjects
import Eyenet.Supervisor
import Eyenet.Table
import Eyenet.ThresholdGrid
import Eyenet.TimeWindow
import Eyenet.Turns
import Eyenet.UnionFind
import Eyenet.Utf8
import Eyenet.VectorSearch
import Eyenet.Verifier
import Eyenet.Wildcard
import Eyenet.WritingProfile
