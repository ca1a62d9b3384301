import ScriptNatives.Proofs.Machine.Runs
import ScriptNatives.Proofs.Native.Effects
import ScriptNatives.Proofs.Runs.Registry
import ScriptNatives.Proofs.World.Live
import ScriptNatives.Proofs.World.Unload

/-!
# What runs do to machines

Whatever acts and natives do to a machine, steps by hand could have done. So the machines that are
found in a world at any time are machines that can be had, and an instance that stays live keeps
its machine, driven on.
-/
namespace ScriptNatives

variable {σ : Type}

namespace World

variable {w u v : World σ} {h : Host σ} {id : InstanceId} {p : Params} {m m' : Machine}

/-- Every machine of a world is one that can be had. -/
def Sound (w : World σ) : Prop := ∀ m ∈ w.machines, m.Reachable

/-- From one world to another every machine is driven by steps, and none is added. -/
structure Drives (w u : World σ) : Prop where
  size_eq : u.machines.size = w.machines.size
  driven : ∀ (i : Nat) (m : Machine), w.machines[i]? = some m →
    ∃ m', u.machines[i]? = some m' ∧ m.DrivenTo m'

theorem Drives.of_machines_eq (h : u.machines = w.machines) : Drives w u where
  size_eq := by rw [h]
  driven i m hm := ⟨m, by rw [h, hm], .refl⟩

theorem Drives.refl (w : World σ) : Drives w w := .of_machines_eq rfl

theorem Drives.trans (first : Drives w u) (second : Drives u v) : Drives w v where
  size_eq := second.size_eq.trans first.size_eq
  driven i m hm := by
    obtain ⟨m', hm', hdriven⟩ := first.driven i m hm
    obtain ⟨m'', hm'', hdriven'⟩ := second.driven i m' hm'
    exact ⟨m'', hm'', hdriven.trans hdriven'⟩

theorem Drives.sound (hd : Drives w u) (hw : w.Sound) : u.Sound := by
  intro m' hm'
  obtain ⟨i, hi, hget⟩ := Array.mem_iff_getElem.mp hm'
  have hlt : i < w.machines.size := hd.size_eq ▸ hi
  obtain ⟨m'', hm'', hdriven⟩ := hd.driven i w.machines[i] (Array.getElem?_eq_getElem hlt)
  obtain rfl : m'' = m' := by
    rw [Array.getElem?_eq_getElem hi, hget] at hm''
    exact (Option.some.inj hm'').symm
  exact hdriven.reachable (hw _ (Array.getElem_mem hlt))

theorem Sound.machine? (hw : w.Sound) (hm : w.machine? id = some m) : m.Reachable := by
  obtain ⟨entry, _, hat⟩ := machines_of_machine? hm
  exact hw m (Array.mem_of_getElem? hat)

theorem drives_setMachine {number : Nat} (hm : w.machines[number]? = some m)
    (hdriven : m.DrivenTo m') : Drives w (w.setMachine number m') where
  size_eq := by simp [setMachine]
  driven i n hn := by
    obtain ⟨hlt, hget⟩ := Array.getElem?_eq_some_iff.mp hm
    by_cases hi : number = i
    · subst hi
      obtain rfl : m = n := Option.some.inj (hm.symm.trans hn)
      exact ⟨m', by simp [setMachine, hlt], hdriven⟩
    · exact ⟨n, by simpa [setMachine, Array.getElem?_setIfInBounds, hi] using hn, .refl⟩

theorem drives_putMachine (hm : w.machine? id = some m) (hdriven : m.DrivenTo m') :
    Drives w (w.putMachine id m') := by
  obtain ⟨entry, hentry, hat⟩ := machines_of_machine? hm
  simpa [putMachine, hentry] using drives_setMachine hat hdriven

/-! ### Natives -/

theorem drives_store (hw : w.Sound) {address : Cell} {values : List Cell} {out : Outcome σ Unit}
    (hstore : w.store id address values = .ok out) : Drives w out.2 := by
  obtain ⟨m, stored, hm, hstored, rfl⟩ := store_eq_ok hstore
  exact drives_putMachine hm (Machine.drivenTo_store? (hw.machine? hm).wellFormed hstored)

theorem drives_writeName {name : String} {buffer size : Cell} {out : Outcome σ Cell}
    (hwrite : w.writeName id name buffer size = .ok out) : Drives w out.2 := by
  obtain ⟨m, written, hm, hwritten, rfl⟩ := writeName_eq_ok hwrite
  exact drives_putMachine hm (Machine.drivenTo_writeText? hwritten)

theorem drives_writeVar {v : Var} {index : Int} {value : Cell} {out : Cell × World σ}
    (hwrite : w.writeVar v index value = .ok out) : Drives w out.2 := by
  obtain ⟨_, m, exchanged, _, hm, hexchange, rfl⟩ := writeVar_eq_ok hwrite
  exact drives_putMachine hm (Machine.drivenTo_exchange? hexchange)

theorem drives_freeVar? {v : Var} {out : Int × World σ} (hfree : w.freeVar? v = some out) :
    Drives w out.2 := by
  obtain ⟨m, released, hm, hrelease, rfl⟩ := freeVar?_eq_some hfree
  exact drives_putMachine hm (Machine.drivenTo_releaseBlock? hrelease)

/-- A plain native drives machines by steps. -/
theorem Effect.drives (hw : w.Sound) {pools : Bool} {out : Outcome σ Ending}
    (heffect : Effect h id w pools out) : Drives w out.2 := by
  cases heffect with
  | nothing ending => exact .refl w
  | madeString text => exact .of_machines_eq rfl
  | createdVar hcreate => exact .of_machines_eq (createVar_keeps hcreate).2
  | createdHandle hcreate => exact .of_machines_eq (createHandle_keeps hcreate).2
  | wroteVar hwrite => exact drives_writeVar hwrite
  | releasedVar var => exact .of_machines_eq (releaseVar_keeps var).2
  | stored hstore => exact drives_store hw hstore
  | wroteName hwrite => exact drives_writeName hwrite
  | forked hfork => exact .of_machines_eq (fork_keeps hfork).2
  | freed hfree => exact drives_freeVar? hfree

theorem drives_worldAfter {α : Type} {r : Except Fault (α × World σ)}
    (hr : ∀ out, r = .ok out → Drives w out.2) : Drives w (w.worldAfter r) :=
  worldAfter_keeps (.refl w) hr

theorem drivenTo_carryOut (ending : Ending) (m : Machine) : m.DrivenTo (ending.carryOut m).2 := by
  cases ending with
  | returns v => exact .refl
  | sleeps code => exact Machine.drivenTo_raise m .sleep
  | raises status v => exact Machine.drivenTo_raise m status

theorem settle_drives (w : World σ) (id : InstanceId) (result : Except Fault Ending) :
    Drives w (w.settle id result).2 := by
  unfold settle
  split
  · exact .refl w
  · next m ending hm => exact drives_putMachine hm (drivenTo_carryOut ending m)
  · next m fault hm => exact drives_putMachine hm (Machine.drivenTo_raise m .native)

@[simp] theorem registry_settle (w : World σ) (id : InstanceId) (result : Except Fault Ending) :
    (w.settle id result).2.registry = w.registry :=
  aloof_registry.steady.settle w id result

/-- From the world that the host leaves behind, a native goes on by driving machines, and it leaves
the registry alone. -/
theorem runNative_drives (h : Host σ) (id : InstanceId) (name : String) (p : Params)
    (w : World σ) : ∃ v, Chained h w (w.nativeHostCalls h id name p) v ∧
      (w.runNative h id name p).2.registry = v.registry ∧
      (v.Sound → Drives v (w.runNative h id name p).2) := by
  rcases evaluate_cases h id name p w with
    ⟨hworld, _, hcalls⟩ | ⟨native, _, hrun, _, hcalls⟩
  · refine ⟨w, by simp [hcalls, Chained], by simp [runNative, hworld], fun _ => ?_⟩
    simpa only [runNative, hworld] using settle_drives w id _
  · rw [hcalls]
    simp only [runNative, hrun, registry_settle]
    cases native with
    | plain native =>
      have hplain : ((Native.plain native).perform h id p w).2.registry = w.registry ∧
          (w.Sound → Drives w ((Native.plain native).perform h id p w).2) := by
        rw [perform_plain]
        refine worldAfter_keeps (P := fun u => u.registry = w.registry ∧ (w.Sound → Drives w u))
          ⟨rfl, fun _ => .refl w⟩ fun out hout => ?_
        have heffect := performPlain_effect native out hout
        exact ⟨heffect.registry_eq, heffect.drives⟩
      exact ⟨w, rfl, hplain.1, fun hw => (hplain.2 hw).trans (settle_drives _ id _)⟩
    | call kind => exact ⟨_, performCall_chained kind, rfl, fun _ => settle_drives _ id _⟩
    | tryCall kind =>
      obtain ⟨v, hchained, hworld⟩ := @performTryCall_chained _ h id p w kind
      have hstored : ((Native.tryCall kind).perform h id p w).2.registry = v.registry ∧
          (v.Sound → Drives v ((Native.tryCall kind).perform h id p w).2) := by
        rcases hworld with hworld | ⟨dest, value, out, hstore, hworld⟩ <;>
          rw [Native.perform, hworld]
        · exact ⟨rfl, fun _ => .refl v⟩
        · exact ⟨aloof_registry.steady.store hstore, fun hv => drives_store hv hstore⟩
      exact ⟨v, hchained, hstored.1, fun hv => (hstored.2 hv).trans (settle_drives _ id _)⟩

end World

/-! ### Acts and runs -/

/-- An act drives machines by steps, unless it registers a new one. -/
theorem Act.apply_drives {a : Act σ} (w : World σ) (hregister : ∀ m, a ≠ .register m) :
    World.Drives w (a.apply w) := by
  cases a with
  | register m => exact absurd rfl (hregister m)
  | share number =>
    simp only [apply]
    split
    · exact .of_machines_eq rfl
    · exact .refl w
  | unload id => exact .of_machines_eq (World.unload_machines w id)
  | createVar owner address count =>
    exact World.drives_worldAfter fun _ h => .of_machines_eq (World.createVar_keeps h).2
  | createHandle k =>
    exact World.drives_worldAfter fun _ h => .of_machines_eq (World.createHandle_keeps h).2
  | writeVar v index value => exact World.drives_worldAfter fun _ => World.drives_writeVar
  | releaseVar id => exact .of_machines_eq (World.releaseVar_keeps id).2
  | releaseHandle id =>
    rw [apply_releaseHandle]
    exact .of_machines_eq rfl
  | freeVar v =>
    simp only [apply]
    cases hf : w.freeVar? v with
    | none => exact .refl w
    | some out => exact World.drives_freeVar? hf
  | onMachine number step =>
    simp only [apply]
    cases hm : w.machines[number]? with
    | none => exact .refl w
    | some m => exact World.drives_setMachine hm (.step .refl step)
  | observe | reclaimVars | reclaimHandles | modifyContext | enterSource | leaveSource
  | changeHost => exact .of_machines_eq rfl

namespace World

variable {w u v : World σ}

/-- From one world to a later one, machines are driven on, and an id that was given out before
stands for the machine that it stood for, or for none. -/
structure Onward (w u : World σ) : Prop where
  issued_le : w.issued ≤ u.issued
  entry_old : ∀ entry ∈ u.registry.entries, entry.1.raw ≤ w.issued → entry ∈ w.registry.entries
  driven : ∀ (i : Nat) (m : Machine), w.machines[i]? = some m →
    ∃ m', u.machines[i]? = some m' ∧ m.DrivenTo m'

theorem Onward.refl (w : World σ) : w.Onward w where
  issued_le := Nat.le_refl _
  entry_old _ hentry _ := hentry
  driven _ m hm := ⟨m, hm, .refl⟩

theorem Onward.trans (first : w.Onward u) (second : u.Onward v) : w.Onward v where
  issued_le := Nat.le_trans first.issued_le second.issued_le
  entry_old entry hentry hold := by
    have hbetween := second.entry_old entry hentry (Nat.le_trans hold first.issued_le)
    exact first.entry_old entry hbetween hold
  driven i m hm := by
    obtain ⟨m', hm', hdriven⟩ := first.driven i m hm
    obtain ⟨m'', hm'', hdriven'⟩ := second.driven i m' hm'
    exact ⟨m'', hm'', hdriven.trans hdriven'⟩

theorem Drives.onward (hd : Drives w u) (hregistry : u.registry = w.registry) : w.Onward u where
  issued_le := Nat.le_of_eq (congrArg Registry.issued hregistry).symm
  entry_old _ hentry _ := hregistry ▸ hentry
  driven := hd.driven

end World

/-- An act goes on from a world, and every machine is one that can be had if a new one is. -/
theorem Act.apply_onward {w : World σ} (a : Act σ) (hw : w.Sound)
    (hnew : ∀ m, a = .register m → m.Reachable) : (a.apply w).Sound ∧ w.Onward (a.apply w) := by
  obtain ⟨hissued, hold⟩ := a.entry_old w
  by_cases hregister : ∃ m, a = .register m
  · obtain ⟨m, rfl⟩ := hregister
    refine ⟨fun m' hm' => ?_, hissued, hold, fun i m' hm' => ?_⟩
    · rcases Array.mem_push.mp hm' with hbefore | rfl
      · exact hw m' hbefore
      · exact hnew m' rfl
    · have hlt := (Array.getElem?_eq_some_iff.mp hm').1
      refine ⟨m', ?_, .refl⟩
      show (w.machines.push m)[i]? = some m'
      rw [Array.getElem?_push, if_neg (Nat.ne_of_lt hlt), hm']
  · have hdrives := a.apply_drives w fun m heq => hregister ⟨m, heq⟩
    exact ⟨hdrives.sound hw, hissued, hold, hdrives.driven⟩

/-- A run goes on from the world in which it begins, and every machine is one that can be had as
long as those that were registered are. -/
theorem Evolves.onward {w u : World σ} {log : List (Moment σ)} (run : Evolves w log u)
    (sound : w.Sound) (registered : ∀ m v, .did (.register m) v ∈ log → m.Reachable) :
    u.Sound ∧ w.Onward u := by
  let P (log : List (Moment σ)) (v : World σ) : Prop :=
    (∀ m u, .did (.register m) u ∈ log → m.Reachable) → v.Sound ∧ w.Onward v
  have hkept : P (log ++ []) u := run.keeps_through P ?act ?begins ?ends [] ?start
  · exact hkept (by simpa using registered)
  case start => exact fun _ => ⟨sound, .refl w⟩
  case act =>
    intro log v a hv hlog
    obtain ⟨hsound, honward⟩ := hv fun m u hmem => hlog m u (List.mem_cons_of_mem _ hmem)
    have hafter := a.apply_onward hsound fun m heq => hlog m v (heq ▸ List.mem_cons_self)
    exact ⟨hafter.1, honward.trans hafter.2⟩
  case begins =>
    intro log v h id name p hv hlog
    exact hv fun m u hmem => hlog m u (List.mem_cons_of_mem _ hmem)
  case ends =>
    intro w' h id name p
    obtain ⟨v, hchained, hregistry, hdrives⟩ := World.runNative_drives h id name p w'
    refine ⟨v, hchained, fun log hv hlog => ?_⟩
    obtain ⟨hsound, honward⟩ := hv hlog
    have hdrives := hdrives hsound
    exact ⟨hdrives.sound hsound, honward.trans (hdrives.onward hregistry)⟩

/-- Every machine that is found in a world can be had, as long as those that were registered can. -/
theorem Evolves.sound {limits : Limits} {host : σ} {log : List (Moment σ)} {w : World σ}
    (run : Evolves (World.create limits host) log w)
    (registered : ∀ m u, .did (.register m) u ∈ log → m.Reachable) : w.Sound :=
  (run.onward (by simp [World.Sound, World.create]) registered).1

namespace World

variable {w u : World σ}

/-- The worlds that can be had: a run leads there, and every machine that was registered on the way
is one that can be had. -/
def Reachable (w : World σ) : Prop :=
  ∃ limits host log, Evolves (create limits host) log w ∧
    ∀ m u, .did (.register m) u ∈ log → m.Reachable

theorem Reachable.sound (hw : w.Reachable) : w.Sound := by
  obtain ⟨_, _, _, run, registered⟩ := hw
  exact run.sound registered

theorem Reachable.ordered (hw : w.Reachable) : w.Ordered := by
  obtain ⟨_, _, _, run, _⟩ := hw
  exact run.ordered (ordered_create _ _)

theorem reachable_create (limits : Limits) (host : σ) : (create limits host).Reachable :=
  ⟨limits, host, [], .start _, by simp⟩

theorem Reachable.apply (hw : w.Reachable) {a : Act σ}
    (registered : ∀ m, a = .register m → m.Reachable) : (a.apply w).Reachable := by
  obtain ⟨limits, host, log, run, before⟩ := hw
  refine ⟨limits, host, _, run.act a, fun m u hmem => ?_⟩
  rcases List.mem_cons.mp hmem with heq | hmem
  · exact registered m (Moment.did.inj heq).1.symm
  · exact before m u hmem

/-- Acts that are carried out one after the other lead to a world that can be had. -/
theorem Reachable.foldl (hw : w.Reachable) {acts : List (Act σ)}
    (registered : ∀ m, .register m ∈ acts → m.Reachable) :
    (acts.foldl Act.apply w).Reachable := by
  induction acts generalizing w with
  | nil => exact hw
  | cons a acts ih =>
    have hfirst : (a.apply w).Reachable :=
      hw.apply fun m ha => registered m (ha ▸ List.mem_cons_self)
    exact ih hfirst fun m hm => registered m (List.mem_cons_of_mem a hm)

/-- A live instance keeps its machine. -/
theorem Onward.number?_eq (onward : w.Onward u) (hw : w.Ordered) (hu : u.Ordered)
    {id : InstanceId} {number number' : Nat} (before : w.number? id = some number)
    (after : u.number? id = some number') : number' = number := by
  have hbefore := hw.number?_eq_some_iff.mp before
  have hlive : id ∈ w.liveIds := by
    rw [liveIds_eq]
    exact List.mem_map_of_mem hbefore
  have hold := onward.entry_old _ (hu.number?_eq_some_iff.mp after) (hw.le_issued id hlive)
  have hsame := (hw.number?_eq_some_iff.mpr hold).symm.trans before
  exact Option.some.inj hsame

end World

end ScriptNatives
