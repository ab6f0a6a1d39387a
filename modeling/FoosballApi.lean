import FoosballApi.Auth.AccessTokens
import FoosballApi.Auth.FailedRefresh
import FoosballApi.Auth.HeldTokens
import FoosballApi.Auth.LastingTokens
import FoosballApi.Auth.Requests
import FoosballApi.Auth.RunsAlone
import FoosballApi.Auth.UserUpserts
import FoosballApi.Calls.Raising
import FoosballApi.Calls.Similar
import FoosballApi.Calls.Throwing
import FoosballApi.Data.Links
import FoosballApi.Data.Pairs
import FoosballApi.Http.ErrorFilters
import FoosballApi.Leaderboard.CacheFreshness
import FoosballApi.Leaderboard.CachedReads
import FoosballApi.Leaderboard.ComputedAnswers
import FoosballApi.Leaderboard.PairCounts
import FoosballApi.Leaderboard.Standings
import FoosballApi.Leaderboard.WinnerAgreement
import FoosballApi.Matches.AlwaysConfirmable
import FoosballApi.Matches.AuditTrail
import FoosballApi.Matches.AuditVisibility
import FoosballApi.Matches.Authorization
import FoosballApi.Matches.CancelErases
import FoosballApi.Matches.Capacity
import FoosballApi.Matches.CascadingSave
import FoosballApi.Matches.ConcurrentIsolation
import FoosballApi.Matches.ConfirmOnce
import FoosballApi.Matches.CursorRefusal
import FoosballApi.Matches.CursorWalk
import FoosballApi.Matches.CursorZone
import FoosballApi.Matches.DeletionFinal
import FoosballApi.Matches.EventReplay
import FoosballApi.Matches.FailedOperations
import FoosballApi.Matches.Finality
import FoosballApi.Matches.IdForms
import FoosballApi.Matches.LockProgress
import FoosballApi.Matches.LostVotes
import FoosballApi.Matches.Majority
import FoosballApi.Matches.Outsiders
import FoosballApi.Matches.OverrideChain
import FoosballApi.Matches.OverrideFailure
import FoosballApi.Matches.QueryRunners
import FoosballApi.Matches.Registration
import FoosballApi.Matches.SchemaIntegrity
import FoosballApi.Matches.StatusMachine
import FoosballApi.Matches.Teams
import FoosballApi.Matches.TruthfulErrors
import FoosballApi.Matches.TruthfulJobs
import FoosballApi.Matches.VoteFreshness
import FoosballApi.Users.UserService
import FoosballApi.Worker.AuditRows
