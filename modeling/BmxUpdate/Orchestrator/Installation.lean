import BmxUpdate.Installer.Run
import BmxUpdate.Library.Components
import BmxUpdate.Orchestrator.Types

/-!
# The installer as a collaborator

`UpdateInstaller` behind the orchestrator: every call runs an engine of its own
on the volume, for the request it is given, and reports the status it ends with
and the journal it has loaded or written.
-/

namespace BmxUpdate

open Crash Volumes Wire Interaction

namespace Env

/-- The environment of a call for another request. -/
def on (env : Env) (request : InstallerRequest) : Env := { env with request := request }

variable (env : Env)

/-- `Engine::ReadOnlyJournal` -/
def readOnlyJournal : EngineProc JournalRecord := do
  Proc.check (validRelativePath env.root kInstallerMaximumPathBytes = true) .invalidPath
  env.loadJournal false
  currentRecord

/-- What a call reports; it never fails as a program. -/
def reported {α : Type} (call : EngineProc α) (success : α → InstallerSuccess) :
    FsProc Unit (Except InstallerFailure α × InstallerReport) :=
  Proc.isolate .initial do
    let outcome ← Proc.attempt call
    let s ← Proc.get
    return (outcome, (s.result (outcome.map success)).report)

/-- A call, and what it reports. -/
def report (c : Call) : FsProc Unit InstallerReport := do
  let reported ← reported (env.call c) id
  return reported.2

/-- `UpdateInstaller::ReadJournal`, with the record it fills in. -/
def readJournal : FsProc Unit (InstallerReport × JournalRecord) := do
  let reported ← reported env.readOnlyJournal fun _ => .ok
  return (reported.2, reported.1.toOption.getD (makeIdleJournalRecord 0))

end Env

/-- The request `ReadJournal` makes of a root. -/
def journalRequest (request : InstallerRequest) (root : Path) : InstallerRequest :=
  { request with transactionRoot := root }

/-- The operations the installer serves; the engine has nothing of `env` but its
platform. -/
def installer (env : Env) : Component Operation Answer Volume
  | .readJournal root => some (env.on (journalRequest env.request root)).readJournal
  | .stage request => some ((env.on request).report .stage)
  | .armCandidate request => some ((env.on request).report .armCandidate)
  | .markCandidateHealthy request => some ((env.on request).report .markCandidateHealthy)
  | .commit request => some ((env.on request).report .commit)
  | .rollback request => some ((env.on request).report .rollback)
  | .retireRolledBack request => some ((env.on request).report .retireRolledBack)
  | .retireCommitted request => some ((env.on request).report .retireCommitted)
  | _ => none

end BmxUpdate
