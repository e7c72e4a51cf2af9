import Mathlib.Data.Nat.Notation

/-!
# Limits that several subsystems share
-/

namespace Ridux

/-- `TASK_MAX`: the kernel has so many tasks, and as many address spaces. -/
def taskMax : ℕ := 256

/-- `SOCK_MAX`: the size of the socket table. -/
def sockMax : ℕ := 384

/-- `SOCK_ANCQ`: the cells of a socket's queue of rights. -/
def sockAncq : ℕ := 64

end Ridux
