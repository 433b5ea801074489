import ShimpzTeams.Protocol.Clarification
import ShimpzTeams.Protocol.Selectors
import ShimpzTeams.Routines.Baseline
import ShimpzTeams.Routines.Leases
import ShimpzTeams.Routines.Ledger
import ShimpzTeams.Routines.Recorder.Cover
import ShimpzTeams.Routines.Recorder.Pointers
import ShimpzTeams.Routines.Recorder.Replay
import ShimpzTeams.Routines.SafeForm
import ShimpzTeams.Routines.Standing
import ShimpzTeams.Routines.Streak
import ShimpzTeams.Actions.Human
import ShimpzTeams.Actions.Journal.Executions
import ShimpzTeams.Actions.Redaction
import ShimpzTeams.Audit.Unbroken
import ShimpzTeams.Authority.Pin
import ShimpzTeams.Browser.Base64
import ShimpzTeams.Browser.Terminal
import ShimpzTeams.Chat.Continuations
import ShimpzTeams.Chat.Drive
import ShimpzTeams.Chat.Turns.History
import ShimpzTeams.Coordination.Cancellation
import ShimpzTeams.Http.Upload
