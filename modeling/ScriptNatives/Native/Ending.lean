import ScriptNatives.Machine.Basic
import ScriptNatives.Instance
import ScriptNatives.SuspendCode

/-!
# Endings

How a native that did not fail ends: what the instance that called it gets, and what becomes of its
status.
-/
namespace ScriptNatives

inductive Ending where
  /-- It returns a value. -/
  | returns (v : Cell)
  /-- It asks the scheduler for something and puts the instance to sleep. -/
  | sleeps (code : SuspendCode)
  /-- It sets the status of the instance and returns a value. -/
  | raises (status : Status) (v : Cell)
  deriving DecidableEq, Repr

structure ForkOptions where
  level : Cell := SuspendCode.defaultForkLevel
  resultAddress : Option Cell := none
  copyData : Bool := true
  errorAddress : Option Cell := none
  deriving DecidableEq, Repr

namespace Ending

def isRequest : Ending → Bool
  | sleeps _ => true
  | _ => false

/-- Carries out an ending on the machine that called, and returns the cell that the script gets. -/
def carryOut : Ending → Machine → Cell × Machine
  | returns v, m => (v, m)
  | sleeps code, m => (code.encode, m.raise .sleep)
  | raises status v, m => (v, m.raise status)

/-- Forks the caller. Where the outcome goes is kept in the caller's context, in place of what an
earlier fork left there. -/
def fork (r : ForkOptions) (c : Context) : Ending × Context :=
  (sleeps (.fork r.level r.copyData),
    { c with fork := some ⟨r.resultAddress, r.errorAddress⟩ })

def commit (v : Cell) : Ending := sleeps (.ofCell .forkCommit v)

def forkEnd : Ending := sleeps (.ofKind .forkEnd)

def alloc (size : Cell) (zero : Bool) : Ending := sleeps (.alloc size zero)

/-- Reports that the dynamic block at an address was released. -/
def free (address : Cell) : Ending := sleeps (.ofCell .freeVar address)

def parallelBegin (count : Cell) : Ending := sleeps (.ofCell .parallel count)

def parallelEnd : Ending := sleeps (.ofKind .parallelEnd)

def tailCall : Ending := sleeps (.ofKind .tailCall)

end Ending

end ScriptNatives
