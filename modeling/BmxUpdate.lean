import BmxUpdate.JournalHistory
import BmxUpdate.Installer.Rollback
import BmxUpdate.SelectorBackend
import BmxUpdate.Installer.Frame
import BmxUpdate.Installer.LiveFrame
import BmxUpdate.SelectorCommit
import BmxUpdate.Installer.JournalCrash
import BmxUpdate.Installer.Retirement
import BmxUpdate.Orchestrator.RebootSafety
import BmxUpdate.RequestStore.Lifetime
import BmxUpdate.Orchestrator.PendingRequest
import BmxUpdate.Orchestrator.Installation
import BmxUpdate.Orchestrator.RecoveryExecutor
import BmxUpdate.Json.Acceptance
import BmxUpdate.Zip.Layout
import BmxUpdate.Https.Confinement
import BmxUpdate.JournalCanonical
import BmxUpdate.Installer.StepNumbers
import BmxUpdate.Json.Copy
import BmxUpdate.Https.HeadArrival
import BmxUpdate.Https.BodyExact
import BmxUpdate.Release.PathPolicy
import BmxUpdate.Release.EnvelopeCanonical
import BmxUpdate.Zip.ValidatedFirst
import BmxUpdate.Installer.FinalPlan
import BmxUpdate.Authorization.OneShot
import BmxUpdate.PreparedConfig.BootProfile
import BmxUpdate.Authorization.RetainedConsent
import BmxUpdate.Zip.ValidatedHistory
import BmxUpdate.Layout.Compiled
import BmxUpdate.Archive.Complete
import BmxUpdate.Sha256Standard
import BmxUpdate.Foreground.Session
import BmxUpdate.Orchestrator.DamagedRecord
import BmxUpdate.Config.SnapshotComplete
import BmxUpdate.LocalLog.History
import BmxUpdate.Zip.SignatureSearch
import BmxUpdate.Https.UrlAgreement
import BmxUpdate.Layout.Projection
import BmxUpdate.Layout.StageModes
import BmxUpdate.Json.Counts
import BmxUpdate.Json.Reader
import BmxUpdate.Json.Rendered
import BmxUpdate.Json.TreeReader
import BmxUpdate.Release.ManifestParser
import BmxUpdate.Installer.RetireCall
import BmxUpdate.Installer.RetirementLaw
import BmxUpdate.Installer.JournalLaw
import BmxUpdate.Release.ManifestReads
import BmxUpdate.Release.ManifestAssets
import BmxUpdate.Release.ManifestSound
import BmxUpdate.Json.Records
import BmxUpdate.Release.ManifestText
import BmxUpdate.Release.ManifestRoundTrip
import BmxUpdate.Installer.ParsedManifest
import BmxUpdate.Orchestrator.ParsedOffer
