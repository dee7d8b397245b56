/-
# Executor.Bundles — `take_and_bundle`

A ready subscription or timer is what the middleware answers about it: the flags
the code asks for, how the take ends, and what the message pointers hold after
it.  A pointer of 0 is null.  `try_take` swallows an `RCLError`; other exceptions
of the middleware pass through, such as the `RCLInvalidArgument` by which `rcl` answers a
loaned message pointer that is not null before the take.
-/
import PreemptiveExecutor.Registry.Model

namespace PreemptiveExecutor

set_option autoImplicit false

/-- How a take of the middleware ends. -/
inductive Take where
  | taken
  | takeFailed
  | rclError
  | otherException
  deriving DecidableEq, Repr

structure ReadySubscription where
  ptr : Ptr
  isSerialized : Bool
  canLoanMessages : Bool
  take : Take
  loanedMsg : Ptr
  message : Ptr
  serializedMsg : Ptr
  deriving DecidableEq, Repr

/-- `call` is the result of `timer->call()`. -/
structure ReadyTimer where
  ptr : Ptr
  call : Bool
  deriving DecidableEq, Repr

inductive BundledExecutable where
  | loanedMsgSubscription (subscription loanedMsg : Ptr)
  | genericMsgSubscription (subscription message : Ptr)
  | serializedMsgSubscription (subscription serializedMsg : Ptr)
  | bundledTimer (timer : Ptr)
  deriving DecidableEq, Repr

namespace BundledExecutable

def getRawHandle : BundledExecutable → Ptr
  | .loanedMsgSubscription subscription _ => subscription
  | .genericMsgSubscription subscription _ => subscription
  | .serializedMsgSubscription subscription _ => subscription
  | .bundledTimer timer => timer

end BundledExecutable

/-- The three `take_and_bundle` of the subscription kinds: the take, and then a
bundle unless the message pointer is null. -/
def tryTake (take : Take) (message : Ptr) (bundle : Ptr → BundledExecutable) :
    Except Error (Option BundledExecutable) :=
  if take = .otherException then .error .middleware
  else .ok (if message = 0 then none else some (bundle message))

namespace ReadySubscription

def takeLoanedMsg (subscription : ReadySubscription) : Except Error (Option BundledExecutable) :=
  tryTake subscription.take subscription.loanedMsg (.loanedMsgSubscription subscription.ptr)

def takeGenericMsg (subscription : ReadySubscription) : Except Error (Option BundledExecutable) :=
  tryTake subscription.take subscription.message (.genericMsgSubscription subscription.ptr)

/-- The source dereferences `serialized_msg` for the take, before it tests it: that
`create_serialized_message` returns null is not modelled. -/
def takeSerializedMsg (subscription : ReadySubscription) : Except Error (Option BundledExecutable) :=
  tryTake subscription.take subscription.serializedMsg (.serializedMsgSubscription subscription.ptr)

/-- `preemptive_executor::take_and_bundle`. -/
def takeAndBundle (subscription : ReadySubscription) : Except Error (Option BundledExecutable) :=
  if !subscription.isSerialized then
    if subscription.canLoanMessages then subscription.takeLoanedMsg else subscription.takeGenericMsg
  else subscription.takeSerializedMsg

/-- A bundle answers with the subscription it was taken from. -/
theorem takeAndBundle_getRawHandle {subscription : ReadySubscription} {bundle : BundledExecutable}
    (took : subscription.takeAndBundle = .ok (some bundle)) : bundle.getRawHandle = subscription.ptr := by
  have tried : ∀ (message : Ptr) (make : Ptr → BundledExecutable),
      (∀ m, (make m).getRawHandle = subscription.ptr) →
      tryTake subscription.take message make = .ok (some bundle) → bundle.getRawHandle = subscription.ptr := by
    intro message make own took
    unfold tryTake at took
    split at took
    · cases took
    · simp only [Except.ok.injEq] at took
      split at took
      · cases took
      · cases took
        exact own message
  unfold takeAndBundle at took
  split at took
  · split at took
    · exact tried _ _ (fun _ => rfl) took
    · exact tried _ _ (fun _ => rfl) took
  · exact tried _ _ (fun _ => rfl) took

end ReadySubscription

/-- `BundledTimer::take_and_bundle`. -/
def ReadyTimer.takeAndBundle (timer : ReadyTimer) : Option BundledExecutable :=
  if timer.call then some (.bundledTimer timer.ptr) else none

theorem ReadyTimer.takeAndBundle_getRawHandle {timer : ReadyTimer} {bundle : BundledExecutable}
    (took : timer.takeAndBundle = some bundle) : bundle.getRawHandle = timer.ptr := by
  unfold ReadyTimer.takeAndBundle at took
  split at took
  · cases took; rfl
  · cases took

end PreemptiveExecutor
