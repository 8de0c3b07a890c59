import Moderation.Sync.Archive
/-!
# Platforms

What carries calls out at a node: a platform that writes them down, or one that does without a trace.
-/

namespace Moderation.Node

inductive Platform where
  | recording (r : Sync.Recorder)
  /-- It keeps nothing and never fails. -/
  | silent

namespace Platform

def enforce : Enforcer Platform := fun call p =>
  match p with
  | recording r =>
    let (outcome, r) := Sync.Recorder.enforce call r
    (outcome, recording r)
  | silent => (.ok (), silent)

def setFailure (failure : Option EnforcementError) : Platform → Platform
  | recording r => recording { r with failure }
  | silent => silent

def collect : Platform → List LocalCall × Platform
  | recording r => r.collect.map id recording
  | silent => ([], silent)

def lastOptions? : Platform → Option Options
  | recording r => r.lastOptions?
  | silent => none

end Platform

end Moderation.Node
