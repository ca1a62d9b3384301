import ScriptNatives.Fault

/-!
# The natives

The natives by name, with the number of parameters that a script has to pass to each. Those at the
end may be left out.
-/
namespace ScriptNatives

/-- The natives that work on the world by themselves, without calling another instance. -/
inductive LocalNative where
  | self | handle | source | sourceHandle | name | nameString
  | numPublics | publicIndex | publicName | publicNameString | encodePublic | encodeNative
  | var | varArray | publicVar | set | get | valid | delete | linked | inside | sizeof | my | toRef
  | fork | commit | forkEnd | error | alloc | free | parallelBegin | parallelEnd | tailCall
  deriving DecidableEq, Repr

inductive Native where
  /-- Calls a function of other instances and fails as soon as one of them fails. -/
  | call (kind : FunctionKind)
  /-- Calls a function of other instances and reports how that went. -/
  | tryCall (kind : FunctionKind)
  | plain (native : LocalNative)
  deriving DecidableEq, Repr

/-- The name under which scripts know a native. -/
def LocalNative.scriptName : LocalNative → String
  | self => "amx_this"
  | handle => "amx_handle"
  | source => "amx_source"
  | sourceHandle => "amx_source_handle"
  | name => "amx_name"
  | nameString => "amx_name_s"
  | numPublics => "amx_num_publics"
  | publicIndex => "amx_public_index"
  | publicName => "amx_public_name"
  | publicNameString => "amx_public_name_s"
  | encodePublic => "amx_encode_public"
  | encodeNative => "amx_encode_native"
  | var => "amx_var"
  | varArray => "amx_var_arr"
  | publicVar => "amx_public_var"
  | set => "amx_set"
  | get => "amx_get"
  | valid => "amx_valid"
  | delete => "amx_delete"
  | linked => "amx_linked"
  | inside => "amx_inside"
  | sizeof => "amx_sizeof"
  | my => "amx_my"
  | toRef => "amx_to_ref"
  | fork => "amx_fork"
  | commit => "amx_commit"
  | forkEnd => "amx_fork_end"
  | error => "amx_error"
  | alloc => "amx_alloc"
  | free => "amx_free"
  | parallelBegin => "amx_parallel_begin"
  | parallelEnd => "amx_parallel_end"
  | tailCall => "amx_tailcall"

/-- The number of parameters that a script has to pass; those that may be left out do not count. -/
def LocalNative.minParams : LocalNative → Nat
  | self | handle | source | sourceHandle | nameString | numPublics => 0
  | fork | commit | forkEnd | parallelBegin | parallelEnd | tailCall => 0
  | publicIndex | publicNameString | var | publicVar => 1
  | get | valid | delete | linked | inside | sizeof | my | error | alloc | free => 1
  | name | encodePublic | encodeNative | varArray | set | toRef => 2
  | publicName => 3

namespace Native

def scriptName : Native → String
  | call kind => "amx_call_" ++ kind.name
  | tryCall kind => "amx_try_call_" ++ kind.name
  | plain native => native.scriptName

def minParams : Native → Nat
  | call _ => 3
  | tryCall _ => 4
  | plain native => native.minParams

/-- Every native, in the order in which the table lists them. -/
def all : List Native :=
  [.plain .self, .plain .handle, .plain .source, .plain .sourceHandle, .plain .name,
    .plain .nameString, call .native, call .exported, tryCall .native,
    tryCall .exported] ++
  [.numPublics, .publicIndex, .publicName, .publicNameString, .encodePublic, .encodeNative,
    .var, .varArray, .publicVar, .set, .get, .valid, .delete, .linked, .inside, .sizeof, .my,
    .toRef, .fork, .commit, .forkEnd, .error, .alloc, .free, .parallelBegin, .parallelEnd,
    .tailCall].map .plain

def find? (name : String) : Option Native := all.find? (·.scriptName == name)

end Native

/-! ### Parameters -/

abbrev Params := List Cell

namespace Params

/-- The parameter at position `i`, which has to be there. -/
def need (p : Params) (i : Nat) : Except Fault Cell :=
  match p[i]? with
  | some c => .ok c
  | none => .error (.fewParams (i + 1) p.length)

/-- The address at position `i`. There is none if it was left out or is -1; zero is an address. -/
def address? (p : Params) (i : Nat) : Option Cell := p[i]?.filter (· != -1)

end Params

end ScriptNatives
