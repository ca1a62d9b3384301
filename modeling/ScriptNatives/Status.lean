import ScriptNatives.Cell

/-!
# Status codes

Every machine instance carries a status: a cell that is zero while nothing is wrong. Any cell
is a legal status, and a host may reply with any of them; the codes of the machine itself
have names.
-/
namespace ScriptNatives

/-- The status of a machine instance, or the reason why a call failed. -/
structure Status where
  code : Cell
  deriving DecidableEq, Repr, Inhabited

namespace Status

/-- Nothing is wrong. -/
def clear : Status := ⟨0⟩

/-- A native failed. -/
def native : Status := ⟨10⟩

/-- The instance asks its scheduler to suspend it. -/
def sleep : Status := ⟨12⟩

/-- A call named no live instance, or a function that its target lacks. -/
def notFound : Status := ⟨19⟩

def isClear (s : Status) : Bool := s.code == 0

/-- The named codes. 14 and 15 are not in use. -/
def names : List (Cell × String) := [
  (0, "AMX_ERR_NONE"), (1, "AMX_ERR_EXIT"), (2, "AMX_ERR_ASSERT"), (3, "AMX_ERR_STACKERR"),
  (4, "AMX_ERR_BOUNDS"), (5, "AMX_ERR_MEMACCESS"), (6, "AMX_ERR_INVINSTR"),
  (7, "AMX_ERR_STACKLOW"), (8, "AMX_ERR_HEAPLOW"), (9, "AMX_ERR_CALLBACK"),
  (10, "AMX_ERR_NATIVE"), (11, "AMX_ERR_DIVIDE"), (12, "AMX_ERR_SLEEP"),
  (13, "AMX_ERR_INVSTATE"), (16, "AMX_ERR_MEMORY"), (17, "AMX_ERR_FORMAT"),
  (18, "AMX_ERR_VERSION"), (19, "AMX_ERR_NOTFOUND"), (20, "AMX_ERR_INDEX"),
  (21, "AMX_ERR_DEBUG"), (22, "AMX_ERR_INIT"), (23, "AMX_ERR_USERDATA"),
  (24, "AMX_ERR_INIT_JIT"), (25, "AMX_ERR_PARAMS"), (26, "AMX_ERR_DOMAIN"),
  (27, "AMX_ERR_GENERAL")]

/-- The name of a status, if its code is one of the machine's own. -/
def name? (s : Status) : Option String := names.lookup s.code

/-- The name and the code, or the bare code where there is no name. -/
def text (s : Status) : String :=
  match s.name? with
  | some name => name ++ " (" ++ toString s.code.toInt ++ ")"
  | none => "error " ++ toString s.code.toInt

end Status

end ScriptNatives
