import AzdSanta.Redis.FixedWindow
import AzdSanta.Redis.Claims
import AzdSanta.Admission.Limits
import AzdSanta.Admission.Permits
import AzdSanta.Admission.FailClosed
import AzdSanta.Admission.Identity
import AzdSanta.Operator.Migration
import AzdSanta.Operator.History
import AzdSanta.Operator.LastFactor
import AzdSanta.Operator.FactorChange
import AzdSanta.Operator.Attempts
import AzdSanta.Sync.Durable
import AzdSanta.Sync.Isolation
import AzdSanta.Sync.Refinement
import AzdSanta.Requests.Bounded
import AzdSanta.Recovery.Phases
import AzdSanta.Recovery.Framing
import AzdSanta.Setup.Once
import AzdSanta.Runtime.Supervision
import AzdSanta.Install.Submission
import AzdSanta.Intune.Convergence
import AzdSanta.Candidates.Privacy
import AzdSanta.Intune.Statuses
import AzdSanta.Intune.Content
import AzdSanta.Install.Completion
import AzdSanta.Install.Relay
import AzdSanta.Intune.Delivery
import AzdSanta.Recovery.Serial
import AzdSanta.Sync.Uploads
import AzdSanta.Sync.Published
import AzdSanta.Requests.Recursion
