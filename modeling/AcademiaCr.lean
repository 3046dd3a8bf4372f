import AcademiaCr.Library.Program
import AcademiaCr.Library.Run
import AcademiaCr.Library.Table
import AcademiaCr.Backend.Models
import AcademiaCr.Backend.Tables
import AcademiaCr.Backend.Sqlite
import AcademiaCr.Backend.Sha256
import AcademiaCr.Backend.Repositories
import AcademiaCr.Backend.Services
import AcademiaCr.Backend.Controllers
import AcademiaCr.Backend.Constraints
import AcademiaCr.Backend.Footprint
import AcademiaCr.Backend.Registration
import AcademiaCr.Backend.Seats
import AcademiaCr.Backend.CourseWrites
import AcademiaCr.Backend.SequentialRuns
import AcademiaCr.Backend.Authorisation
import AcademiaCr.Backend.Server
import AcademiaCr.Backend.Locks
import AcademiaCr.Backend.Transactions
import AcademiaCr.Backend.Traces
import AcademiaCr.Backend.LostWrites
import AcademiaCr.Backend.Interference
import AcademiaCr.Backend.RelyGuarantee
import AcademiaCr.Backend.CapacityRace
import AcademiaCr.Backend.ReportedRegistration
import AcademiaCr.Library.Sequential
import AcademiaCr.Backend.Timeless
import AcademiaCr.Backend.Serialization
import AcademiaCr.Backend.Rosters
import AcademiaCr.Backend.DisjointCourses
import AcademiaCr.Backend.Linearizability
import AcademiaCr.Backend.CourseRace
import AcademiaCr.Library.CArray
import AcademiaCr.Library.RecordFile
import AcademiaCr.Academia.Records
import AcademiaCr.Academia.Syscalls
import AcademiaCr.Academia.FileOps
import AcademiaCr.Academia.Views
import AcademiaCr.Library.Semaphore
import AcademiaCr.Academia.Discipline
import AcademiaCr.Academia.Sections
import AcademiaCr.Academia.Calls
import AcademiaCr.Academia.Enrolment
import AcademiaCr.Academia.Outcomes
import AcademiaCr.Academia.WellFormed
import AcademiaCr.Academia.Agreement
import AcademiaCr.Academia.Interleaving
import AcademiaCr.Academia.CourseUpdates
import AcademiaCr.Academia.EnrolmentRaces
import AcademiaCr.Academia.Bounds
import AcademiaCr.Backend.Endpoints
import AcademiaCr.Backend.ApiRuns
import AcademiaCr.Backend.Atomicity
import AcademiaCr.Backend.CourseValidity
import AcademiaCr.Backend.CourseResults
import AcademiaCr.Backend.Accounts
import AcademiaCr.Backend.Deactivation
import AcademiaCr.Backend.SessionSoundness
import AcademiaCr.Library.Socket
import AcademiaCr.Academia.Messages
import AcademiaCr.Academia.Menus
import AcademiaCr.Academia.Sessions
import AcademiaCr.Library.Tally
import AcademiaCr.Backend.ThreadPool
import AcademiaCr.Backend.PoolRuns
import AcademiaCr.Backend.PoolWakeups
import AcademiaCr.Library.Sections
import AcademiaCr.Academia.Listings
import AcademiaCr.Academia.Blocking
import AcademiaCr.Academia.Passwords
import AcademiaCr.Backend.AdminAccess
import AcademiaCr.Backend.RegistrationMachine
import AcademiaCr.Backend.RemainingSeats
import AcademiaCr.Academia.ExactEnrolment
import AcademiaCr.Academia.Coverage
import AcademiaCr.Academia.ExactUnenrolment
import AcademiaCr.Library.OpenFile
import AcademiaCr.Academia.ExactRemoval
import AcademiaCr.Academia.Credentials
import AcademiaCr.Academia.ViewAnswers
import AcademiaCr.Backend.FailedLogins
import AcademiaCr.Library.Join
import AcademiaCr.Library.Wildcard
import AcademiaCr.Backend.Selections
import AcademiaCr.Backend.EnrolmentCounts
import AcademiaCr.Library.CheckedSum
import AcademiaCr.Backend.Statistics
import AcademiaCr.Backend.CourseSearch
import AcademiaCr.Backend.RoundTrip
import AcademiaCr.Library.BitString
import AcademiaCr.Library.Sha2
import AcademiaCr.Backend.Digest
import AcademiaCr.Systems.Framing
import AcademiaCr.Library.While
import AcademiaCr.Backend.Padding
import AcademiaCr.Backend.CourseMutexes
import AcademiaCr.Library.Monitor
import AcademiaCr.Systems.WorkerRuns
import AcademiaCr.Systems.BufferWakeups
import AcademiaCr.Systems.CounterOverflow
import AcademiaCr.Academia.BufferSizes
import AcademiaCr.Academia.BufferedViews
import AcademiaCr.Library.Relational
import AcademiaCr.Backend.Routes
import AcademiaCr.Backend.HiddenHashes
import AcademiaCr.Backend.PasswordSecrecy
import AcademiaCr.Library.Progress
import AcademiaCr.Backend.Replies
import AcademiaCr.Library.Reduction
import AcademiaCr.Academia.SectionAtomicity
import AcademiaCr.Library.OneByOne
import AcademiaCr.Academia.AtomicOperations
import AcademiaCr.Systems.RacyCounter
import AcademiaCr.Systems.SharedMutex
import AcademiaCr.Backend.StudentView
import AcademiaCr.Backend.StudentPrivacy
import AcademiaCr.Library.Dialogue
import AcademiaCr.Academia.AnswerTexts
import AcademiaCr.Academia.Conversations
import AcademiaCr.Academia.ConversationRuns
