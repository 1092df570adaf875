import LiveTrip.Cli.Arguments
import LiveTrip.Cli.Files
import LiveTrip.Cli.Program
import LiveTrip.Congestion.Severity
import LiveTrip.Congestion.Smoother
import LiveTrip.Congestion.Thresholds
import LiveTrip.Counters
import LiveTrip.Engine
import LiveTrip.Engine.Scripted
import LiveTrip.Engine.Simulated
import LiveTrip.Error
import LiveTrip.Geo
import LiveTrip.Guidance
import LiveTrip.Location
import LiveTrip.Main
import LiveTrip.Observer.Board
import LiveTrip.Observer.Dispatch
import LiveTrip.Observer.Registry
import LiveTrip.Phase
import LiveTrip.Polling
import LiveTrip.Positioning
import LiveTrip.Proofs.Congestion.Bands
import LiveTrip.Proofs.Congestion.Bounds
import LiveTrip.Proofs.Congestion.Exits
import LiveTrip.Proofs.Congestion.Monotone
import LiveTrip.Proofs.Congestion.Passes
import LiveTrip.Proofs.Congestion.Records
import LiveTrip.Proofs.Congestion.Windows
import LiveTrip.Proofs.Dispatch.Account
import LiveTrip.Proofs.Dispatch.Bystanders
import LiveTrip.Proofs.Dispatch.ExactlyOnce
import LiveTrip.Proofs.Dispatch.FanOut
import LiveTrip.Proofs.Dispatch.Guards
import LiveTrip.Proofs.Dispatch.Identity
import LiveTrip.Proofs.Dispatch.Last
import LiveTrip.Proofs.Dispatch.LastTold
import LiveTrip.Proofs.Dispatch.Mirror
import LiveTrip.Proofs.Dispatch.Numbers
import LiveTrip.Proofs.Dispatch.Order
import LiveTrip.Proofs.Dispatch.Roster
import LiveTrip.Proofs.Dispatch.Steps
import LiveTrip.Proofs.Engine.Matching
import LiveTrip.Proofs.Phase
import LiveTrip.Proofs.PhaseHistory
import LiveTrip.Proofs.Registry
import LiveTrip.Proofs.Route.Document
import LiveTrip.Proofs.Run
import LiveTrip.Proofs.Session.Account
import LiveTrip.Proofs.Session.Ahead
import LiveTrip.Proofs.Session.Attended
import LiveTrip.Proofs.Session.Blocks
import LiveTrip.Proofs.Session.Boundary
import LiveTrip.Proofs.Session.Calls
import LiveTrip.Proofs.Session.Comparison
import LiveTrip.Proofs.Session.Contradiction
import LiveTrip.Proofs.Session.Counted
import LiveTrip.Proofs.Session.Discarded
import LiveTrip.Proofs.Session.EngineCalls
import LiveTrip.Proofs.Session.EngineRoutes
import LiveTrip.Proofs.Session.Epoch
import LiveTrip.Proofs.Session.Failures
import LiveTrip.Proofs.Session.Futile
import LiveTrip.Proofs.Session.Indistinct
import LiveTrip.Proofs.Session.Layout
import LiveTrip.Proofs.Session.Lifecycle
import LiveTrip.Proofs.Session.Line
import LiveTrip.Proofs.Session.MirrorMoves
import LiveTrip.Proofs.Session.MirrorStages
import LiveTrip.Proofs.Session.Numbers
import LiveTrip.Proofs.Session.OnChange
import LiveTrip.Proofs.Session.OnRoute
import LiveTrip.Proofs.Session.Outline
import LiveTrip.Proofs.Session.Past
import LiveTrip.Proofs.Session.Phase
import LiveTrip.Proofs.Session.Progress
import LiveTrip.Proofs.Session.Remembered
import LiveTrip.Proofs.Session.Routes
import LiveTrip.Proofs.Session.Samples
import LiveTrip.Proofs.Session.Smoothing
import LiveTrip.Proofs.Session.Stages
import LiveTrip.Proofs.Session.StaleFlag
import LiveTrip.Proofs.Session.Standing
import LiveTrip.Proofs.Session.Startup
import LiveTrip.Proofs.Session.Steps
import LiveTrip.Proofs.Session.Ticks
import LiveTrip.Proofs.Session.Tolls
import LiveTrip.Proofs.Session.TripData
import LiveTrip.Proofs.Session.Underway
import LiveTrip.Proofs.Session.Unfixed
import LiveTrip.Proofs.Session.Unseen
import LiveTrip.Proofs.Session.Workers
import LiveTrip.Proofs.Session.Working
import LiveTrip.Proofs.Settings.Overlay
import LiveTrip.Proofs.Settings.RoundTrip
import LiveTrip.Proofs.Text.Blank
import LiveTrip.Proofs.Text.Escapes
import LiveTrip.Proofs.Text.Ini
import LiveTrip.Proofs.Text.Json
import LiveTrip.Proofs.Text.Lines
import LiveTrip.Proofs.Text.Numeral
import LiveTrip.Route
import LiveTrip.Route.Document
import LiveTrip.Route.Exit
import LiveTrip.Route.Projection
import LiveTrip.Route.Trace
import LiveTrip.Session.Calls
import LiveTrip.Session.Category
import LiveTrip.Session.Run
import LiveTrip.Session.State
import LiveTrip.Session.Ticks
import LiveTrip.Session.Timeline
import LiveTrip.Settings
import LiveTrip.Settings.Document
import LiveTrip.Signal
import LiveTrip.Simulation
import LiveTrip.Text.Blank
import LiveTrip.Text.Duration
import LiveTrip.Text.Ini
import LiveTrip.Text.Json
import LiveTrip.Text.Numeral
