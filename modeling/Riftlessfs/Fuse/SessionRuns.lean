import Riftlessfs.Fuse.Requests
import Riftlessfs.Core.CallRuns

/-! Runs of requests as runs of calls. -/
namespace Riftlessfs.Fuse
open Riftlessfs.Core Lib.Run

/-- Serve one request. A panic stops the run. -/
def Session.step (s : Session) (x : Input) : Option Session :=
  match Session.handle x.1 s x.2 with
  | (some _, s') => some s'
  | (none, _) => none

/-- A request does to the world what its call does. -/
theorem Session.step_world (s : Session) (x : Input) :
    (s.step x).map Session.world = s.world.step x.call := by
  have hp := handle_performs x.1 s x.2
  unfold Session.step World.step Input.call
  generalize Session.handle x.1 s x.2 = out at hp
  obtain ⟨reply, s'⟩ := out
  cases hr : (requestCall x.1.now x.2).run x.1 s.world with
  | ok r w =>
    rw [hr] at hp
    obtain ⟨b, hb, hw, -⟩ := hp
    cases hb
    exact congrArg some hw
  | error e w =>
    rw [hr] at hp
    cases e with
    | fail e =>
      obtain ⟨b, hb, hw, -⟩ := hp
      cases hb
      exact congrArg some hw
    | panic =>
      cases hp.1
      rfl

/-- A run of the calls is the world of a run of the requests. -/
theorem Session.run_world {s : Session} {xs : List Input} {w : World}
    (hrun : run World.step s.world (xs.map Input.call) = some w) :
    ∃ s', run Session.step s xs = some s' ∧ s'.world = w := by
  rw [← run_map Session.step_world s xs, Option.map_eq_some_iff] at hrun
  exact hrun

end Riftlessfs.Fuse
