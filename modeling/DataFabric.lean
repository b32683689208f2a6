import DataFabric.ApiTokenScopes
import DataFabric.JoinReordering
import DataFabric.PolicyEnforcement
import DataFabric.RoutineCalls
import DataFabric.TargetConfinement
import DataFabric.AstGuard
import DataFabric.OrderedRecords
import DataFabric.CanonicalFilters
import DataFabric.SharedOutbox
import DataFabric.CdcReplication
import DataFabric.HubRefresh
import DataFabric.IncrementalRuns
import DataFabric.FullCopies
import DataFabric.HubReplicas
import DataFabric.SourceRemoval
import DataFabric.Restores
import DataFabric.DmlFilters
import DataFabric.ManifestIssues
import DataFabric.TableGrants
import DataFabric.CopyJobs
import DataFabric.CopyJobRuns
import DataFabric.ResumedCopies
import DataFabric.ColumnTypes
import DataFabric.Manifests
import DataFabric.HubCatalog
import DataFabric.ManifestPlans
import DataFabric.HubFrames
import DataFabric.ColumnRoundTrips
import DataFabric.PlannedStatements
import DataFabric.Convergence
import DataFabric.Relationships
import DataFabric.TransactionScripts
import DataFabric.FabricRecords
import DataFabric.AtomicApplies
import DataFabric.FabricSequences
import DataFabric.PolicyConjunction
import DataFabric.TriggerJobRuns
import DataFabric.TriggerDeletions
import DataFabric.ReplicationRuns
import DataFabric.TriggerAgreement
import DataFabric.TriggerDeployments
import DataFabric.ConnectorPools
import DataFabric.JoinedSql
import DataFabric.JoinStrategies
import DataFabric.SetOperations
import DataFabric.PartialAggregates
import DataFabric.AggregateQueries
import DataFabric.DocumentFilters
import DataFabric.PgLexer
import DataFabric.DdlExpressions
import DataFabric.DdlReadings
import DataFabric.LexerAgreement
import DataFabric.SequenceBlocks
import DataFabric.SearchIndices
import DataFabric.ProgressKeys
import DataFabric.RecursiveExecutor
import DataFabric.EsConvergence
import DataFabric.RowConstraints
import DataFabric.ConstraintDecisions
import DataFabric.CheckTexts
import DataFabric.LimitsResolver
import DataFabric.JobAttempts
import DataFabric.WriteGenerators
import DataFabric.NetGuard
import DataFabric.HostSpellings
import DataFabric.HostClasses
import DataFabric.JsonTexts
import DataFabric.SpilledPartitions
import DataFabric.RowIdentity
import DataFabric.JoinPipelines
import DataFabric.SwappedConditions
import DataFabric.JoinedAggregates
import DataFabric.JoinedRecords
import DataFabric.ProjectedLegs
import DataFabric.SqlAggregates
import DataFabric.Windows
import DataFabric.RunningWindows
import DataFabric.RankingWindows
import DataFabric.WindowInterference
import DataFabric.DistinctElements
import DataFabric.DistinctMerges
import DataFabric.NumberedCells
import DataFabric.InsertBuilders
import DataFabric.SlottedTexts
import DataFabric.AlignedParameters
import DataFabric.RawAggregates
import DataFabric.SortedProjections
import DataFabric.SetOpLegs
import DataFabric.RecursiveCtes
import DataFabric.WindowPages
import DataFabric.CappedReads
import DataFabric.WindowedSearches
import DataFabric.TraversalCaps
import DataFabric.MongoDrains
import DataFabric.CursorTexts
import DataFabric.KeyDeletes
import DataFabric.LicenseValidations
import DataFabric.TrackingPlans
import DataFabric.DerivedNames
import DataFabric.RateLimits
import DataFabric.IpAllowLists
import DataFabric.DeploymentFailures
import DataFabric.ColumnReferences
import DataFabric.ReplayedLogs
import DataFabric.KafkaRelays
import DataFabric.TenantLifecycles
import DataFabric.ResultStreams
import DataFabric.ManifestInputs
import DataFabric.ManifestShapes
import DataFabric.KafkaSettling
import DataFabric.WorkerHosts
import DataFabric.WorkerRegistries
import DataFabric.CachedCatalogs
import DataFabric.PassedStates
import DataFabric.PlannedLegs
