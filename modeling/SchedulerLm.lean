import SchedulerLm.Agreement
import SchedulerLm.Registration
import SchedulerLm.Audit
import SchedulerLm.Lifecycle
import SchedulerLm.Atomicity
import SchedulerLm.OneShot
import SchedulerLm.Tenancy
import SchedulerLm.NextRun
import SchedulerLm.Upcoming
import SchedulerLm.Base.Ternary
import SchedulerLm.Base.Calendar
import SchedulerLm.Base.Iso8601
import SchedulerLm.Datetimes
import SchedulerLm.Encodings
import SchedulerLm.EventShape
import SchedulerLm.Base.RowPolicies
import SchedulerLm.RowSecurity
import SchedulerLm.Tokens
import SchedulerLm.Base.Regex
import SchedulerLm.Base.Zone
import SchedulerLm.RelativeSchedule
import SchedulerLm.ElapsedTime
import SchedulerLm.Totality
import SchedulerLm.ClockTimes
import SchedulerLm.Base.Json
import SchedulerLm.TriggerParse
import SchedulerLm.ParseErrors
import SchedulerLm.NaiveDatetimes
import SchedulerLm.Schedulable
import SchedulerLm.TwelveHours
import SchedulerLm.ManualRun
import SchedulerLm.Responses
import SchedulerLm.Pausing
import SchedulerLm.Base.Paging
import SchedulerLm.Pagination
import SchedulerLm.Creation
import SchedulerLm.CalendarDays
import SchedulerLm.Prompts
import SchedulerLm.Base.Retrying
import SchedulerLm.Conversations
import SchedulerLm.CompoundDurations
import SchedulerLm.Base.Templates
import SchedulerLm.Rendering
import SchedulerLm.RunTimes
import SchedulerLm.Base.Journal
import SchedulerLm.Identities
import SchedulerLm.Replay
import SchedulerLm.Base.Accounting
import SchedulerLm.Causes
import SchedulerLm.Silence
import SchedulerLm.OnceCalls
import SchedulerLm.Base.Connections
import SchedulerLm.Connections
import SchedulerLm.Recovery
import SchedulerLm.Base.Ddl
import SchedulerLm.Base.Revisions
import SchedulerLm.Migrations
import SchedulerLm.Base.Serial
import SchedulerLm.TaskParts
import SchedulerLm.Serializability
import SchedulerLm.Base.Notes
import SchedulerLm.Freshness
