import Replay.Session.Managing

/-!
Running commands. After each one the session drops what is unreachable.
-/
namespace Replay.Session

variable {α : Type}

def answer (same : α → α → Bool) : Command α → Step α (Answer α)
  | .makeSource name plan => makeSource name plan
  | .pullSource on => pullSource on
  | .closeSource on => closeSource on
  | .makeBuffer name config plan => makeBuffer name config plan
  | .bufferInfo on => bufferInfo on
  | .bufferReadable on => bufferReadable on
  | .bufferHas on offset => bufferHas on offset
  | .bufferPosition on offset => bufferPosition on offset
  | .bufferBucket on offset name => bufferBucket on offset name
  | .closeBuffer on => closeBuffer on
  | .bucketItem on item => bucketItem on item
  | .bucketContains on p => bucketContains on p
  | .makeCursor name buffer provider => makeCursor name buffer provider
  | .openCursor on name => openCursor on name
  | .wrapCursor name cursor janitor => wrapCursor name cursor janitor
  | .hasNext on => hasNext on
  | .next on => next on
  | .seek on position => seek on position
  | .closeCursor on => closeCursor on
  | .releaseCursor on => releaseCursor on
  | .releaseThrough on janitor name => releaseThrough on janitor name
  | .items on count => items on count
  | .drain on => drain on
  | .read on room => read on room
  | .drop on => drop on
  | .makeProvider name config plan => makeProvider name config plan
  | .makeProviderOver name buffer => makeProviderOver name buffer
  | .makeManaged name provider statistics hook => makeManaged name provider statistics hook
  | .makeJanitor name provider openCursors statistics =>
    makeJanitor name provider openCursors statistics
  | .makeScripted name provider script => makeScripted name provider script
  | .bindOuter on outer => bindOuter on outer
  | .endProvider on ending => endProvider on ending
  | .endReported on ending name => endReported on ending name
  | .layers on => layers on
  | .statistics name => showStatistics name
  | .makeManager name config => makeManager name config
  | .makeGuard on name context => makeGuard on name context
  | .manage on name context plan => manage on name context plan
  | .manageProvider on name provider context => manageProvider on name provider context
  | .complete on context name => complete on context name
  | .dispose on => dispose on
  | .providersIn on context => providersIn on context
  | .managerConfig on => managerConfig on
  | .makeReport name => makeReport name
  | .mergeReports on other => mergeReports on other
  | .inspect on => inspect on
  | .view on => showView on
  | .drainInParallel on count => drainInParallel same on count
  | .tearDownInParallel on count => tearDownInParallel on count

/-- The answer to a command, and the events logged by it. -/
def run (same : α → α → Bool) (c : Command α) : Step α (Answer α × Array Event) := do
  let a ← answer same c
  settle
  return (a, ← takeLog)

end Replay.Session
