import Exploration.Cycle
import Exploration.Logging
import Exploration.Settings.Layers
import Exploration.Proofs.AcceptedSettings
import Exploration.Proofs.Calendar
import Exploration.Proofs.Chronology
import Exploration.Proofs.ContestedVersions
import Exploration.Proofs.ContextSections
import Exploration.Proofs.CycleAccounts
import Exploration.Proofs.CycleContexts
import Exploration.Proofs.CycleEvolution
import Exploration.Proofs.CycleLimits
import Exploration.Proofs.CycleOutcomes
import Exploration.Proofs.CycleSplit
import Exploration.Proofs.DecodedNumbers
import Exploration.Proofs.DoubleArithmetic
import Exploration.Proofs.DoubleLiteral
import Exploration.Proofs.DoubleOrder
import Exploration.Proofs.DoublePacking
import Exploration.Proofs.DoubleRounding
import Exploration.Proofs.DoubleShare
import Exploration.Proofs.DoubleSum
import Exploration.Proofs.DoubleText
import Exploration.Proofs.DoubleValue
import Exploration.Proofs.EvolvedNumbers
import Exploration.Proofs.EvolvedOpening
import Exploration.Proofs.EvolvedQueries
import Exploration.Proofs.EvolvedSources
import Exploration.Proofs.EvolvedTopics
import Exploration.Proofs.FiniteDoubles
import Exploration.Proofs.FirstRuns
import Exploration.Proofs.FixedCounters
import Exploration.Proofs.Labels
import Exploration.Proofs.LoadedFiles
import Exploration.Proofs.LoadedSettings
import Exploration.Proofs.OpenArchives
import Exploration.Proofs.PresentedRecords
import Exploration.Proofs.RankedLists
import Exploration.Proofs.RankedTraces
import Exploration.Proofs.RecentTraces
import Exploration.Proofs.RecordTexts
import Exploration.Proofs.Refusals
import Exploration.Proofs.Reopening
import Exploration.Proofs.Rounding
import Exploration.Proofs.SeparateSubjects
import Exploration.Proofs.SharedArchive
import Exploration.Proofs.ShortestDecimal
import Exploration.Proofs.Tallies
import Exploration.Proofs.Timestamps
import Exploration.Proofs.TraceArrivals
import Exploration.Proofs.TraceOrder
import Exploration.Proofs.Versions
import Exploration.Proofs.WordForms
import Exploration.Proofs.Words
