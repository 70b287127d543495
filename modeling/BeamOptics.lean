import BeamOptics.Main
import BeamOptics.Proofs.RealMatrix
import BeamOptics.Proofs.RealMaps
import BeamOptics.Proofs.LinearSystems
import BeamOptics.Proofs.Segments
import BeamOptics.Proofs.Exponential
import BeamOptics.Proofs.StopIndependence
import BeamOptics.Proofs.DirectWay
import BeamOptics.Proofs.Concatenation
import BeamOptics.Proofs.LongitudinalArea
import BeamOptics.Proofs.MomentumLaw
import BeamOptics.Proofs.RunRecord
import BeamOptics.Proofs.RunEndings
import BeamOptics.Proofs.SteadySource
import BeamOptics.Proofs.RunOutcome
import BeamOptics.Proofs.FreshRuns
import BeamOptics.Proofs.RelaxationLaw
import BeamOptics.Proofs.SelfConsistency
import BeamOptics.Proofs.UncoupledBeams
import BeamOptics.Proofs.LeastSquares
import BeamOptics.Proofs.Synthesis
import BeamOptics.Proofs.GeometricRuns
import BeamOptics.Proofs.PhysicalBeams
import BeamOptics.Proofs.ScaledSystems
import BeamOptics.Proofs.Secants
import BeamOptics.Proofs.ParallelRuns
import BeamOptics.Proofs.ParallelWalks
import BeamOptics.Proofs.ResizedBeams
import BeamOptics.Proofs.BeamSize
import BeamOptics.Proofs.Centroids
import BeamOptics.Proofs.IdleSpaceCharge
import BeamOptics.Proofs.InterchangedPlanes
import BeamOptics.Proofs.PlaneSymmetry
import BeamOptics.Proofs.FinishedReports
import BeamOptics.Proofs.RowOrder
import BeamOptics.Proofs.Documents
import BeamOptics.Proofs.OnePerPosition
import BeamOptics.Proofs.Configs
import BeamOptics.Proofs.RankMeasure
import BeamOptics.Proofs.SecantCandidates
import BeamOptics.Proofs.RelaxedRuns
import BeamOptics.Proofs.Observability
import BeamOptics.Proofs.BoundedHistories
import BeamOptics.Proofs.Solvers
import BeamOptics.Proofs.IdleFields
import BeamOptics.Proofs.FloatingPoint
import BeamOptics.Proofs.NonFiniteMatrices
import BeamOptics.Proofs.LikeFields
import BeamOptics.Proofs.SecondOrder
import BeamOptics.Proofs.EnergyGains
import BeamOptics.Proofs.CellLayout
import BeamOptics.Proofs.SamplePlaces
import BeamOptics.Proofs.Ellipses
import BeamOptics.Proofs.Emittances
import BeamOptics.Proofs.AffineMaps
import BeamOptics.Proofs.Residuals
import BeamOptics.Proofs.KickSchedule
import BeamOptics.Proofs.CommandGeometry
import BeamOptics.Proofs.IndexRange
