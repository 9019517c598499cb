import Lapse.Main
import Lapse.Proofs.Poll.Requests
import Lapse.Proofs.Reading
import Lapse.Proofs.Records
import Lapse.Proofs.Text.Decimal
import Lapse.Proofs.Text.Utf8
import Lapse.Proofs.Json.Token
import Lapse.Proofs.Json.Value
import Lapse.Proofs.Json.Rearranged
import Lapse.Proofs.Json.Depth
import Lapse.Proofs.Json.Survival
import Lapse.Proofs.Action
import Lapse.Proofs.Poll.CallOff
import Lapse.Proofs.Poll.Histories
import Lapse.Proofs.Poll.Pending
import Lapse.Proofs.Poll.Withdrawal
import Lapse.Proofs.Poll.Cascade
import Lapse.Proofs.Poll.Repeat
import Lapse.Proofs.Poll.Course
import Lapse.Proofs.Poll.Share
import Lapse.Proofs.Poll.Correlation
import Lapse.Proofs.Poll.Bouncing
import Lapse.Proofs.Poll.Alike
import Lapse.Proofs.Poll.Locality
import Lapse.Proofs.Poll.Account
import Lapse.Proofs.Poll.Deeds
import Lapse.Proofs.Store.Reopen
import Lapse.Proofs.Root.Contents
import Lapse.Proofs.Leader
import Lapse.Proofs.Command.Poll
import Lapse.Proofs.Poll.Tallies
import Lapse.Proofs.Store.Healing
import Lapse.Proofs.Command.List
import Lapse.Proofs.Poll.Foreseen
import Lapse.Proofs.Poll.Cancellation
import Lapse.Proofs.Poll.Story
import Lapse.Proofs.Calendar.Instant
import Lapse.Proofs.Text.Table
import Lapse.Proofs.Files.Course
import Lapse.Proofs.Root.Settings
import Lapse.Proofs.Duration
import Lapse.Proofs.Root.Nearest
