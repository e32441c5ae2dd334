import ConfigUpdate.Checkpoint
import ConfigUpdate.Update.Planning

/-!
# Updates

Patches, replacements of the whole configuration, and checkpoints of it. An update is planned as a
whole and then made scope by scope; a failure while it is made stops it there.
-/

namespace ConfigUpdate.Updater

variable (u : Updater)

/-- Makes plans scope by scope: what was done, or the failure, and the switch after it. -/
def execute : List ScopePlan → Switch → Except UpdateError (List ScopeReport) × Switch
  | [], s => (.ok [], s)
  | p :: ps, s =>
    let (outcome, s) : Except UpdateError Nat × Switch :=
      if u.dryRun || p.moves.isEmpty then (.ok 0, s)
      else
        let (outcome, s) := s.apply p.scope p.moves
        (outcome.map (·.committed), s)
    match outcome with
    | .error e => (.error e, s)
    | .ok committed =>
      let (rest, s) := execute ps s
      (rest.map (p.report committed :: ·), s)

/-- Makes an update that has been planned. -/
def run (plans : Except UpdateError (List ScopePlan)) (s : Switch) :
    Except UpdateError UpdateReport × Switch :=
  match plans with
  | .error e => (.error e, s)
  | .ok plans =>
    let (outcome, s) := u.execute plans s
    (outcome.map fun scopes => ⟨u.dryRun, scopes⟩, s)

/-- Carries out a patch. -/
def applyPatch (ops : List Operation) (s : Switch) : Except UpdateError UpdateReport × Switch :=
  u.run (u.planPatch s ops) s

/-- Replaces the configuration. -/
def replace (target : Value) (s : Switch) : Except UpdateError UpdateReport × Switch :=
  u.run (u.planReplace s target) s

/-- The configuration of the switch. -/
def snapshot (s : Switch) : Except UpdateError Value :=
  s.snapshot u.multiAsic

/-- Keeps the configuration as a checkpoint in a directory. -/
def createCheckpoint (directory name : String) (s : Switch) : Except UpdateError Switch := do
  let config ← u.snapshot s
  let (_, disk) ← Checkpoint.create directory name config s.disk
  return { s with disk }

/-- Goes back to a checkpoint in a directory. -/
def rollback (directory name : String) (s : Switch) :
    Except UpdateError UpdateReport × Switch :=
  match Checkpoint.load directory name s.disk with
  | .error e => (.error e, s)
  | .ok target => u.replace target s

end ConfigUpdate.Updater
