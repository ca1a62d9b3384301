import ScriptNatives.Proofs.Native.Failure
import ScriptNatives.Proofs.Native.Release
import ScriptNatives.Proofs.Native.Statuses

/-!
# What the status of a caller tells

The interpreter learns from two places how a native ended: from the status of the machine that
called, and from the cell that it gets. The two agree. A failure shows in the status alone, a
request to the scheduler in both, and a native that just returns a value leaves the status as it
was.
-/
namespace ScriptNatives

variable {σ : Type}

/-- The natives that set the status of their caller when they do not fail. -/
def LocalNative.signals : LocalNative → Bool
  | fork | commit | forkEnd | error | alloc | free | parallelBegin | parallelEnd | tailCall => true
  | _ => false

namespace World

variable {w : World σ} {h : Host σ} {id : InstanceId} {name : String} {p : Params}
  {left : List Block} {native : LocalNative}

/-! ### What natives ask for -/

/-- What a native asks the scheduler for: a kind of request and its argument. The instance `id` has
called the native in the world `w`, and now `left` are the blocks of its machine. -/
inductive Asks (w : World σ) (id : InstanceId) (p : Params) (left : List Block) :
    LocalNative → SuspendKind → Int → Prop where
  /-- Four bits of the level, and a fifth that asks for a copy of the data. -/
  | fork : Asks w id p left .fork .fork
      ((p.getD 0 2).toInt % 16 + if p.getD 2 1 ≠ 0 then 16 else 0)
  | commit : Asks w id p left .commit .forkCommit ((p.getD 0 1).toInt % 0x1000000)
  | forkEnd : Asks w id p left .forkEnd .forkEnd 0
  | alloc {size : Cell} (given : p[0]? = some size) : Asks w id p left .alloc
      (if p.getD 1 1 ≠ 0 then .allocVarZero else .allocVar) (size.toInt % 0x1000000)
  /-- The base of the block in which the caller's variable lies. -/
  | free {var : Cell} {v : Var} {m : Machine} {b : Block} (given : p[0]? = some var)
      (named : w.vars.get? var = some v) (mine : v.owner = id) (live : w.machine? id = some m)
      (block : b ∈ m.blocks) (low : b.base ≤ v.address) (high : v.address + 4 ≤ b.limit)
      (released : left = (m.withoutBlock b.base).blocks) :
      Asks w id p left .free .freeVar (b.base % 0x1000000)
  | parallelBegin : Asks w id p left .parallelBegin .parallel ((p.getD 0 1).toInt % 0x1000000)
  | parallelEnd : Asks w id p left .parallelEnd .parallelEnd 0
  | tailCall : Asks w id p left .tailCall .tailCall 0

/-- How a native ends that does not fail. -/
inductive Ends (w : World σ) (id : InstanceId) (p : Params) (left : List Block) :
    LocalNative → Ending → Prop where
  | sleeps {native : LocalNative} {code : SuspendCode}
      (asks : Asks w id p left native code.kind code.payload) :
      Ends w id p left native (.sleeps code)
  | raises {code : Cell} (given : p[0]? = some code) :
      Ends w id p left .error (.raises ⟨code⟩ (p.getD 1 0))
  | returns {native : LocalNative} (quiet : native.signals = false) (v : Cell) :
      Ends w id p left native (.returns v)

/-- A native that does not signal returns a value. -/
theorem performPlain_returns (quiet : native.signals = false) :
    Ensures (w.performPlain h id p native) fun out =>
      ∀ ending, out.1 = .ok ending → ∃ v, ending = .returns v := by
  have hreturns {v : Cell} : ∀ ending, (Except.ok (.returns v) : Except Fault Ending) = .ok ending →
      ∃ v, ending = .returns v := by
    rintro _ ⟨rfl⟩
    exact ⟨v, rfl⟩
  have hmap {α : Type} {value : α → Cell} (r : Except Fault α) :
      ∀ ending, (r.map fun a => Ending.returns (value a)) = .ok ending →
        ∃ v, ending = .returns v := by
    cases r with
    | error fault => exact fun _ => nofun
    | ok a => exact hreturns
  cases native with
  | fork | commit | forkEnd | error | alloc | free | parallelBegin | parallelEnd | tailCall =>
    cases quiet
  | self | source => exact ensures_ok hreturns
  | numPublics | get | valid | linked | inside | sizeof | my | publicIndex | nameString
  | publicNameString | delete =>
    repeat refine ensures_bind fun _ _ => ?_
    exact ensures_ok hreturns
  | handle => exact ensures_answered fun _ _ => hreturns
  | sourceHandle =>
    simp only [performPlain]
    split
    · exact ensures_answered fun _ _ => hreturns
    · exact ensures_ok hreturns
  | var => exact ensures_bind fun _ _ => ensures_answered fun _ _ => hreturns
  | varArray | publicVar =>
    exact ensures_bind fun _ _ => ensures_bind fun _ _ => ensures_answered fun _ _ => hreturns
  | set =>
    refine ensures_bind fun _ _ => ensures_bind fun _ _ => ensures_bind fun _ _ => ?_
    exact ensures_answered fun _ _ => hreturns
  | encodePublic =>
    exact ensures_bind fun _ _ => ensures_bind fun _ _ => ensures_wrote fun _ _ => hmap _
  | name | encodeNative | toRef =>
    refine ensures_bind fun _ _ => ensures_bind fun _ _ => ensures_bind fun _ _ => ?_
    exact ensures_wrote fun _ _ => hmap _
  | publicName =>
    refine ensures_bind fun _ _ => ensures_bind fun _ _ => ?_
    refine ensures_bind fun _ _ => ensures_bind fun _ _ => ?_
    exact ensures_wrote fun _ _ => hmap _

theorem Ends.of_asks {kind : SuspendKind} {payload : Int} {code : SuspendCode}
    (asks : Asks w id p left native kind payload) (hkind : code.kind = kind)
    (hpayload : (code.payload : Int) = payload) : Ends w id p left native (.sleeps code) := by
  subst hkind hpayload
  exact .sleeps asks

theorem ensures_ends {ending : Ending} (hends : ∀ left, Ends w id p left native ending) :
    Ensures (w.ends ending) fun out => ∀ ending m, out.1 = .ok ending →
      out.2.machine? id = some m → Ends w id p m.blocks native ending := by
  rintro _ ⟨rfl⟩ _ m ⟨rfl⟩ _
  exact hends m.blocks

/-- A plain native that is not refused and does not fail midway ends as it should. -/
theorem performPlain_ends (native : LocalNative) :
    Ensures (w.performPlain h id p native) fun out => ∀ ending m, out.1 = .ok ending →
      out.2.machine? id = some m → Ends w id p m.blocks native ending := by
  cases native with
  | fork =>
    intro out hfork
    obtain ⟨context, _, rfl⟩ := fork_eq_ok hfork
    rintro _ m ⟨rfl⟩ _
    refine .of_asks .fork rfl ((SuspendCode.payload_fork _ _).trans ?_)
    simp [ForkOptions.ofParams, SuspendCode.defaultForkLevel]
  | commit => exact ensures_ends fun _ => .of_asks .commit rfl (SuspendCode.payload_ofCell_eq rfl _)
  | parallelBegin =>
    exact ensures_ends fun _ => .of_asks .parallelBegin rfl (SuspendCode.payload_ofCell_eq rfl _)
  | forkEnd => exact ensures_ends fun _ => .of_asks .forkEnd rfl rfl
  | parallelEnd => exact ensures_ends fun _ => .of_asks .parallelEnd rfl rfl
  | tailCall => exact ensures_ends fun _ => .of_asks .tailCall rfl rfl
  | error =>
    refine ensures_bind fun code hcode => ensures_ends fun _ => ?_
    exact .raises (Params.need_eq_ok_iff.mp hcode)
  | alloc =>
    refine ensures_bind fun size hsize => ensures_ends fun _ => ?_
    refine .of_asks (.alloc (Params.need_eq_ok_iff.mp hsize)) ?_ ?_
    · simp [SuspendCode.alloc, SuspendCode.kind_ofCell]
    · exact SuspendCode.payload_ofCell_eq (by split <;> rfl) _
  | free =>
    refine ensures_bind fun var hvar => ?_
    intro out hfree
    obtain ⟨v, m, b, hv, howner, hm, hb, rfl⟩ := free_cases hfree
    obtain ⟨hmem, hlow, hhigh⟩ := Machine.mem_of_blockAt? hb
    rintro _ m' ⟨rfl⟩ hm'
    obtain rfl : m.withoutBlock b.base = m' :=
      Option.some.inj ((machine?_putMachine hm _).symm.trans hm')
    refine .of_asks (.free (Params.need_eq_ok_iff.mp hvar) hv howner hm hmem hlow hhigh rfl) rfl ?_
    exact SuspendCode.payload_ofCell_ofInt .freeVar rfl _
  | _ =>
    intro out hout ending m hending _
    obtain ⟨v, rfl⟩ := performPlain_returns rfl out hout ending hending
    exact .returns rfl v

/-! ### What the caller is told -/

/-- What the cell that the script gets from a native and the status of the caller then tell of how
the native ended; `before` is the status that the caller had. -/
inductive Tells (w : World σ) (id : InstanceId) (p : Params) (left : List Block)
    (before : Status) : LocalNative → Cell → Status → Prop where
  | asked {native : LocalNative} {v : Cell} {code : SuspendCode}
      (decoded : SuspendCode.decode v = some code)
      (asks : Asks w id p left native code.kind code.payload) :
      Tells w id p left before native v .sleep
  | raised {code : Cell} (given : p[0]? = some code) :
      Tells w id p left before .error (p.getD 1 0) ⟨code⟩
  | returned {native : LocalNative} (quiet : native.signals = false) (v : Cell) :
      Tells w id p left before native v before

theorem Ends.tells {m : Machine} {ending : Ending} (ends : Ends w id p m.blocks native ending) :
    Tells w id p (ending.carryOut m).2.blocks m.status native (ending.carryOut m).1
      (ending.carryOut m).2.status := by
  cases ends with
  | sleeps asks => exact .asked (SuspendCode.decode_encode _) asks
  | raises given => exact .raised given
  | returns quiet v => exact .returned quiet v

/-- Up to the point where the caller is told, a native that calls nobody has set no status, and if it
has not failed it has come to its ending. -/
theorem evaluate_ends (h : Host σ) (id : InstanceId) (hname : name ∉ callNatives) (p : Params)
    (w : World σ) :
    SameStatuses w (w.evaluate h id name p).2 ∧
      ∀ ending m, (w.evaluate h id name p).1 = .ok ending →
        (w.evaluate h id name p).2.machine? id = some m →
        ∃ native : LocalNative, native.scriptName = name ∧ Ends w id p m.blocks native ending := by
  rcases evaluate_plain_cases h id hname p w with ⟨fault, hfailed⟩ | ⟨native, hnative, hout⟩
  · rw [hfailed]
    exact ⟨.refl w, fun _ _ => nofun⟩
  · refine ⟨(performPlain_effect native _ hout).sameStatuses, fun ending m hending hm => ?_⟩
    exact ⟨native, hnative, performPlain_ends native _ hout ending m hending hm⟩

/-- A live caller is told how a native ended that calls nobody, and nobody else is: if it failed, the
status of the caller's machine says so, and if not, the status and the cell that the script gets
say what it asked for, which code it raised, or that there is nothing to tell. A caller that is
no longer live when the native has returned is told nothing, and the statuses are those that the
host has left behind. -/
theorem runNative_tells (h : Host σ) (id : InstanceId) (name : String) (p : Params) (w : World σ) :
    (w.isLive id = true → name ∉ callNatives →
      ∃ entry m m', w.entry? id = some entry ∧ w.machine? id = some m ∧
        (w.runNative h id name p).2.machine? id = some m' ∧
        (w.runNative h id name p).2.statuses =
          w.statuses.setIfInBounds entry.machine m'.status ∧
        (∀ fault, (w.runNative h id name p).1 = .error fault → m'.status = .native) ∧
        ∀ v, (w.runNative h id name p).1 = .ok v → ∃ native : LocalNative,
          native.scriptName = name ∧ Tells w id p m'.blocks m.status native v m'.status) ∧
    ((w.evaluate h id name p).2.isLive id = false →
      w.runNative h id name p = (.error (deadInstance id), (w.evaluate h id name p).2) ∧
        ∃ v, Chained h w (w.nativeHostCalls h id name p) v ∧
          (w.runNative h id name p).2.statuses = v.statuses) := by
  constructor
  · intro live hname
    obtain ⟨same, hends⟩ := evaluate_ends h id hname p w
    obtain ⟨m, hm⟩ : ∃ m, w.machine? id = some m := by
      rw [← Option.ne_none_iff_exists', ne_eq, machine?_eq_none_iff, live]
      decide
    obtain ⟨entry, hentry, hat⟩ := machines_of_machine? hm
    obtain ⟨entry', m₁, hentry', hnumber, hm₁, hstatus⟩ := same.machine hentry hat
    have hput (m' : Machine) : ((w.evaluate h id name p).2.putMachine id m').statuses =
        w.statuses.setIfInBounds entry.machine m'.status := by
      rw [statuses_putMachine hentry', hnumber, same.statuses_eq]
    simp only [runNative, settle, hm₁]
    cases hresult : (w.evaluate h id name p).1 with
    | error fault =>
      refine ⟨entry, m, m₁.raise .native, hentry, hm, machine?_putMachine hm₁ _, hput _,
        fun _ _ => rfl, fun v hv => ?_⟩
      cases hv
    | ok ending =>
      obtain ⟨native, hnative, ends⟩ := hends ending m₁ hresult hm₁
      refine ⟨entry, m, (ending.carryOut m₁).2, hentry, hm, machine?_putMachine hm₁ _, hput _,
        fun fault hfault => ?_, fun v hv => ?_⟩
      · cases hfault
      · obtain rfl := Except.ok.inj hv
        exact ⟨native, hnative, hstatus ▸ ends.tells⟩
  · intro dead
    have hrun : w.runNative h id name p = (.error (deadInstance id), (w.evaluate h id name p).2) := by
      simp only [runNative, settle, machine?_eq_none_iff.mpr dead]
    obtain ⟨v, hchained, same⟩ := evaluate_sameStatuses h id name p w
    exact ⟨hrun, v, hchained, hrun ▸ same.statuses_eq⟩

/-- An instance forks at level 35, of which four bits count, and without its data; and if it calls a
function of another, and the host unloads it in the meantime, it is told nothing. -/
theorem fork_or_unloaded :
    let first : InstanceId := ⟨1, by decide⟩
    let m := (((Machine.ofLayout "m" 4 4).declarePublic "f").setCells 0 [102]).2
    let w : World Unit := ((World.create {} ()).register m).2.register m |>.2
    let h : Host Unit := ⟨fun _ w => (.ok 0, (w.unload first).2), fun _ _ => (0, ())⟩
    w.isLive first = true ∧ "amx_fork" ∉ callNatives ∧
      (∃ native : LocalNative, native.scriptName = "amx_fork" ∧
        Tells w first [35, 0, 0] [] .clear native (SuspendCode.fork 3 false).encode .sleep) ∧
      (w.evaluate h first "amx_call_public" [2, 0, 4]).2.isLive first = false ∧
      (w.runNative h first "amx_call_public" [2, 0, 4]).1 = .error (deadInstance first) := by
  intro first m w h
  have live : w.isLive first = true := by decide
  have dead : (w.evaluate h first "amx_call_public" [2, 0, 4]).2.isLive first = false := by
    decide +kernel
  obtain ⟨_, before, after, _, hbefore, hafter, _, _, htold⟩ :=
    (runNative_tells h first "amx_fork" [35, 0, 0] w).1 live (by decide)
  obtain rfl : m = before := Option.some.inj (.trans (by decide +kernel) hbefore)
  obtain rfl : m.raise .sleep = after := Option.some.inj (.trans (by decide +kernel) hafter)
  obtain ⟨hfailed, _⟩ := (runNative_tells h first "amx_call_public" [2, 0, 4] w).2 dead
  exact ⟨live, by decide, htold _ (by rfl), dead, congrArg Prod.fst hfailed⟩

end World

end ScriptNatives
