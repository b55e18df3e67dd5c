import DelosLab.VirtualLog.Types

/-!
# The versioned register

The port that the VirtualLog control plane requires: a linearizable register
whose writes are conditional on the version they replace.
-/

namespace DelosLab.VirtualLog

variable {P : Type}

inductive CompareAndSetResult (P : Type) : Type where
  | applied (snapshot : VersionedLogChain P)
  | versionMismatch (current : VersionedLogChain P)
deriving DecidableEq

/-- `result.snapshot if isinstance(result, Applied) else result.current`. -/
def CompareAndSetResult.current : CompareAndSetResult P → VersionedLogChain P
  | .applied snapshot => snapshot
  | .versionMismatch current => current

/-- `isinstance(result, Applied)`. -/
def CompareAndSetResult.isApplied : CompareAndSetResult P → Bool
  | .applied _ => true
  | .versionMismatch _ => false

/-- `MemoryMetaStore.compare_and_set`: the register afterwards, and the answer. -/
def VersionedLogChain.compareAndSet (snapshot : VersionedLogChain P) (expectedVersion : Nat)
    (newChain : LogChain P) : VersionedLogChain P × CompareAndSetResult P :=
  if snapshot.version ≠ expectedVersion then (snapshot, .versionMismatch snapshot)
  else
    let next := VersionedLogChain.installed expectedVersion newChain
    (next, .applied next)

theorem compareAndSet_of_ne {snapshot : VersionedLogChain P} {v : Nat} {chain : LogChain P}
    (h : snapshot.version ≠ v) :
    snapshot.compareAndSet v chain = (snapshot, .versionMismatch snapshot) := by
  rw [VersionedLogChain.compareAndSet, if_pos h]

theorem compareAndSet_of_eq {snapshot : VersionedLogChain P} {v : Nat} {chain : LogChain P}
    (h : snapshot.version = v) :
    snapshot.compareAndSet v chain =
      (VersionedLogChain.installed v chain, .applied (VersionedLogChain.installed v chain)) := by
  rw [VersionedLogChain.compareAndSet, if_neg (not_not_intro h)]

end DelosLab.VirtualLog
