import ScriptNatives.Proofs.Runs.Act
import ScriptNatives.Proofs.World.Live

/-!
# What a plain native can have done

A plain native that is not refused has done at most one thing to the world. Which things these are
is settled here once; what plain natives keep is then read off them.
-/
namespace ScriptNatives

variable {σ : Type}

/-- What holds of everything that a computation returns. -/
def Ensures {α : Type} (x : Except Fault α) (P : α → Prop) : Prop := ∀ a, x = .ok a → P a

section Ensures

variable {α β : Type} {P : α → Prop} {Q : β → Prop}

@[simp] theorem ok_bind (a : α) (f : α → Except Fault β) : Except.ok a >>= f = f a := rfl

@[simp] theorem error_bind (fault : Fault) (f : α → Except Fault β) :
    Except.error fault >>= f = .error fault := rfl

@[simp] theorem throw_eq_error (fault : Fault) :
    (throw fault : Except Fault α) = .error fault := rfl

@[simp] theorem pure_eq_ok (a : α) : (pure a : Except Fault α) = .ok a := rfl

theorem ensures_ok {a : α} (h : P a) : Ensures (.ok a) P := by
  rintro _ ⟨rfl⟩
  exact h

theorem ensures_error (fault : Fault) : Ensures (.error fault) P := by
  rintro _ ⟨⟩

theorem bind_eq_ok {x : Except Fault α} {f : α → Except Fault β} {b : β} (h : x >>= f = .ok b) :
    ∃ a, x = .ok a ∧ f a = .ok b := by
  cases x with
  | error fault => cases h
  | ok a => exact ⟨a, rfl, h⟩

theorem ensures_bind {x : Except Fault α} {f : α → Except Fault β}
    (hf : ∀ a, x = .ok a → Ensures (f a) Q) : Ensures (x >>= f) Q := by
  intro b hb
  obtain ⟨a, ha, hb⟩ := bind_eq_ok hb
  exact hf a ha b hb

end Ensures

/-- An element has an address if its index is in range. -/
theorem Var.element_eq_ok_iff {v : Var} {index address : Int} : v.element index = .ok address ↔
    0 ≤ index ∧ index < v.size ∧ address = v.address + 4 * index := by
  unfold element
  split
  · next hin => simp [hin, eq_comm]
  · next hout => simpa using fun hlow hhigh => absurd ⟨hlow, hhigh⟩ hout

theorem Params.need_eq_ok_iff {p : Params} {i : Nat} {c : Cell} :
    p.need i = .ok c ↔ p[i]? = some c := by
  unfold need
  cases p[i]? <;> simp

namespace World

variable {w : World σ} {h : Host σ} {id : InstanceId} {p : Params}

/-! ### Changes that a native makes -/

theorem store_eq_ok {address : Cell} {values : List Cell} {out : Outcome σ Unit}
    (hstore : w.store id address values = .ok out) :
    ∃ m stored, w.machine? id = some m ∧ m.store? address.toInt values = some stored ∧
      out = (stored.1.elim (.ok ()) (.error <| .badAddress ·), w.putMachine id stored.2) := by
  obtain ⟨m, hm, hstore⟩ := bind_eq_ok hstore
  split at hstore
  · next dead m' hstored =>
    exact ⟨m, (dead, m'), machine_eq_ok_iff.mp hm, hstored, (Except.ok.inj hstore).symm⟩
  · cases hstore

theorem writeName_eq_ok {name : String} {buffer size : Cell} {out : Outcome σ Cell}
    (hwrite : w.writeName id name buffer size = .ok out) :
    ∃ m written, w.machine? id = some m ∧
      m.writeText? buffer.toInt name size.toInt = some written ∧
      out = (written.1.elim (.error (.badAddress buffer.toInt))
        fun _ => .ok (Cell.ofBits name.utf8ByteSize), w.putMachine id written.2) := by
  obtain ⟨m, hm, hwrite⟩ := bind_eq_ok hwrite
  have hm := machine_eq_ok_iff.mp hm
  split at hwrite
  · next count m' hwritten => exact ⟨m, (some count, m'), hm, hwritten, (Except.ok.inj hwrite).symm⟩
  · next m' hwritten => exact ⟨m, (none, m'), hm, hwritten, (Except.ok.inj hwrite).symm⟩
  · cases hwrite

theorem var_eq_ok_iff {c : Cell} {v : Var} : w.var c = .ok v ↔ w.vars.get? c = some v := by
  unfold var
  cases w.vars.get? c <;> simp

theorem textAt_eq_ok_iff {address : Cell} {text : String} : w.textAt id address = .ok text ↔
    ∃ m, w.machine? id = some m ∧
      m.readText? address.toInt w.limits.maxNameLength = some text := by
  unfold textAt machine
  cases w.machine? id with
  | none => simp
  | some m => cases hread : m.readText? address.toInt w.limits.maxNameLength <;> simp [hread]

/-- A name is a text that is not empty. -/
theorem nameAt_eq_ok_iff {address : Cell} {argument : Argument} {name : String} :
    w.nameAt id address argument = .ok name ↔ w.textAt id address = .ok name ∧ name ≠ "" := by
  unfold nameAt nonEmpty
  cases w.textAt id address with
  | error fault => simp
  | ok text =>
    by_cases hempty : text = ""
    · simp [hempty]
    · simpa [hempty] using fun hname : text = name => hname ▸ hempty

theorem writeVar_eq_ok {v : Var} {index : Int} {value : Cell} {out : Cell × World σ}
    (hwrite : w.writeVar v index value = .ok out) :
    ∃ address m exchanged, v.element index = .ok address ∧ w.machine? v.owner = some m ∧
      m.exchange? address value = some exchanged ∧
      out = (exchanged.1, w.putMachine v.owner exchanged.2) := by
  obtain ⟨address, haddress, hwrite⟩ := bind_eq_ok hwrite
  obtain ⟨m, hm, hwrite⟩ := bind_eq_ok hwrite
  split at hwrite
  · next previous m' hexchange =>
    exact ⟨address, m, (previous, m'), haddress, machine_eq_ok_iff.mp hm, hexchange,
      (Except.ok.inj hwrite).symm⟩
  · cases hwrite

theorem freeVar?_eq_some {v : Var} {out : Int × World σ} (hfree : w.freeVar? v = some out) :
    ∃ m released, w.machine? v.owner = some m ∧ m.releaseBlock? v.address = some released ∧
      out = (released.1, w.putMachine v.owner released.2) := by
  simp only [freeVar?, Option.bind_eq_bind, Option.bind_eq_some_iff, Option.pure_def,
    Option.some.injEq] at hfree
  obtain ⟨m, hm, released, hrelease, rfl⟩ := hfree
  exact ⟨m, released, hm, hrelease, rfl⟩

theorem ofRange_eq_ok {owner : InstanceId} {address count : Int} {v : Var}
    (h : Var.ofRange owner address count = .ok v) :
    v.owner = owner ∧ v.address = address ∧ v.size = count := by
  unfold Var.ofRange at h
  split at h
  · split at h
    · cases h
      exact ⟨rfl, rfl, rfl⟩
    · cases h
  · cases h

theorem createVar_eq_ok {u : World σ} {owner : InstanceId} {address count : Int} {id : Cell}
    (h : w.createVar owner address count = .ok (id, u)) :
    ∃ v vars, v.owner = owner ∧ v.address = address ∧ v.size = count ∧
      w.vars.insert? v = some (id, vars) ∧ u = { w with vars } := by
  unfold createVar at h
  cases hv : Var.ofRange owner address count with
  | error fault => simp [hv] at h
  | ok v =>
    cases hi : w.vars.insert? v with
    | none => simp [hv, hi] at h
    | some out =>
      obtain ⟨howner, haddress, hsize⟩ := ofRange_eq_ok hv
      simp only [hv, hi, ok_bind, pure_eq_ok, Except.ok.injEq, Prod.mk.injEq] at h
      obtain ⟨rfl, rfl⟩ := h
      exact ⟨v, out.2, howner, haddress, hsize, hi, rfl⟩

theorem createHandle_eq_ok {k : Handle} {out : Cell × World σ}
    (hcreate : w.createHandle k = .ok out) :
    ∃ handles, w.handles.insert? k = some (out.1, handles) ∧ out.2 = { w with handles } := by
  unfold createHandle at hcreate
  split at hcreate
  · next created hinsert =>
    obtain rfl := Except.ok.inj hcreate
    exact ⟨_, hinsert, rfl⟩
  · cases hcreate

theorem fork_eq_ok {r : ForkOptions} {out : Outcome σ Ending} (hfork : w.fork id r = .ok out) :
    ∃ context, w.context? id = some context ∧
      out = (.ok (Ending.fork r context).1,
        w.modifyContext id fun _ => (Ending.fork r context).2) := by
  unfold fork at hfork
  split at hfork
  · next context hcontext => exact ⟨context, hcontext, (Except.ok.inj hfork).symm⟩
  · cases hfork

/-! ### Effects -/

/-- What can have come of a plain native that was not refused, and whether it went through a pool.
The two that write to script memory may have failed midway. -/
inductive Effect (h : Host σ) (id : InstanceId) (w : World σ) :
    Bool → Outcome σ Ending → Prop where
  | nothing {pools : Bool} (ending : Ending) : Effect h id w pools (.ok ending, w)
  | madeString (text : String) :
      Effect h id w false (.ok (.returns (w.makeString h text).1), (w.makeString h text).2)
  | createdVar {owner : InstanceId} {address count : Int} {out : Cell × World σ}
      (created : w.createVar owner address count = .ok out) :
      Effect h id w true (.ok (.returns out.1), out.2)
  | createdHandle {k : Handle} {out : Cell × World σ} (created : w.createHandle k = .ok out) :
      Effect h id w true (.ok (.returns out.1), out.2)
  | wroteVar {v : Var} {index : Int} {value : Cell} {out : Cell × World σ}
      (written : w.writeVar v index value = .ok out) :
      Effect h id w true (.ok (.returns out.1), out.2)
  | releasedVar (var : Cell) :
      Effect h id w true (.ok (.returns (Cell.ofBool (w.releaseVar var).1)), (w.releaseVar var).2)
  | stored {address value : Cell} {values : List Cell} {out : Outcome σ Unit}
      (stores : w.store id address values = .ok out) :
      Effect h id w false (out.1.map fun _ => .returns value, out.2)
  | wroteName {name : String} {buffer size : Cell} {out : Outcome σ Cell}
      (writes : w.writeName id name buffer size = .ok out) :
      Effect h id w false (out.1.map .returns, out.2)
  | forked {r : ForkOptions} {out : Outcome σ Ending} (forks : w.fork id r = .ok out) :
      Effect h id w false out
  | freed {v : Var} {base : Int} {u : World σ} (frees : w.freeVar? v = some (base, u)) :
      Effect h id w false (.ok (.free (Int32.ofInt base)), u)

theorem answered_eq_ok {r : Except Fault (Cell × World σ)} {out : Outcome σ Ending}
    (h : answered r = .ok out) : ∃ made, r = .ok made ∧ out = (.ok (.returns made.1), made.2) := by
  cases r with
  | error fault => cases h
  | ok made => exact ⟨made, rfl, (Except.ok.inj h).symm⟩

theorem wrote_eq_ok {α : Type} {value : α → Cell} {r : Except Fault (Outcome σ α)}
    {out : Outcome σ Ending} (h : wrote value r = .ok out) :
    ∃ done, r = .ok done ∧ out = (done.1.map fun a => .returns (value a), done.2) := by
  cases r with
  | error fault => cases h
  | ok done => exact ⟨done, rfl, (Except.ok.inj h).symm⟩

theorem ensures_answered {r : Except Fault (Cell × World σ)} {P : Outcome σ Ending → Prop}
    (hr : ∀ out, r = .ok out → P (.ok (.returns out.1), out.2)) : Ensures (answered r) P := by
  intro out hout
  obtain ⟨made, hmade, rfl⟩ := answered_eq_ok hout
  exact hr made hmade

theorem ensures_wrote {α : Type} {value : α → Cell} {r : Except Fault (Outcome σ α)}
    {P : Outcome σ Ending → Prop}
    (hr : ∀ out, r = .ok out → P (out.1.map fun a => .returns (value a), out.2)) :
    Ensures (wrote value r) P := by
  intro out hout
  obtain ⟨done, hdone, rfl⟩ := wrote_eq_ok hout
  exact hr done hdone

theorem publicVar_creates {name : String} : Ensures (w.publicVar id name) fun out =>
    ∃ address, w.createVar id address 1 = .ok out := by
  refine ensures_bind fun _ _ => ensures_bind fun m _ => ?_
  split
  · exact fun out hcreate => ⟨_, hcreate⟩
  · exact ensures_error _

theorem storePublicToken_stores {index dest : Cell} :
    Ensures (w.storePublicToken id index dest) fun out =>
      ∃ token, w.store id dest [token] = .ok out := by
  unfold storePublicToken
  split
  · exact fun out hstore => ⟨_, hstore⟩
  · exact ensures_error _

theorem storeNativeToken_stores {name : String} {dest : Cell} :
    Ensures (w.storeNativeToken id name dest) fun out =>
      ∃ first second, w.store id dest [first, second] = .ok out := by
  refine ensures_bind fun _ _ => ensures_bind fun m _ => ?_
  split
  · exact ensures_error _
  · split
    · exact fun out hstore => ⟨_, _, hstore⟩
    · exact ensures_error _

theorem free_effect {var : Cell} : Ensures (w.free id var) (Effect h id w false) := by
  refine ensures_bind fun v _ => ?_
  split
  · split
    · next hf => exact ensures_ok (.freed hf)
    · exact ensures_error _
  · exact ensures_error _

/-- A plain native is refused, or has one of the effects. -/
theorem performPlain_effect (native : LocalNative) :
    Ensures (w.performPlain h id p native) (Effect h id w native.usesPools) := by
  cases native with
  | self | source | commit | forkEnd | parallelBegin | parallelEnd | tailCall =>
    exact ensures_ok (.nothing _)
  | numPublics | get | valid | linked | inside | sizeof | my | publicIndex | error | alloc =>
    repeat refine ensures_bind fun _ _ => ?_
    exact ensures_ok (.nothing _)
  | nameString | publicNameString =>
    repeat refine ensures_bind fun _ _ => ?_
    exact ensures_ok (.madeString _)
  | handle => exact ensures_answered fun _ => .createdHandle
  | sourceHandle =>
    simp only [performPlain]
    split
    · exact ensures_answered fun _ => .createdHandle
    · exact ensures_ok (.nothing _)
  | var => exact ensures_bind fun address _ => ensures_answered fun _ => .createdVar
  | varArray =>
    refine ensures_bind fun address _ => ensures_bind fun count _ => ?_
    exact ensures_answered fun _ => .createdVar
  | publicVar =>
    refine ensures_bind fun a _ => ensures_bind fun name _ => ensures_answered fun out hout => ?_
    obtain ⟨_, hcreate⟩ := publicVar_creates out hout
    exact .createdVar hcreate
  | set =>
    refine ensures_bind fun var _ => ensures_bind fun v _ => ensures_bind fun value _ => ?_
    exact ensures_answered fun _ => .wroteVar
  | delete =>
    refine ensures_bind fun var _ => ensures_bind fun v _ => ?_
    exact ensures_ok (.releasedVar var)
  | name =>
    refine ensures_bind fun m _ => ensures_bind fun buffer _ => ensures_bind fun size _ => ?_
    exact ensures_wrote fun _ => .wroteName
  | publicName =>
    refine ensures_bind fun index _ => ensures_bind fun name _ => ?_
    refine ensures_bind fun buffer _ => ensures_bind fun size _ => ?_
    exact ensures_wrote fun _ => .wroteName
  | encodePublic =>
    refine ensures_bind fun index _ => ensures_bind fun dest _ => ensures_wrote fun out hout => ?_
    obtain ⟨_, hstore⟩ := storePublicToken_stores out hout
    exact .stored hstore
  | encodeNative =>
    refine ensures_bind fun a _ => ensures_bind fun name _ => ensures_bind fun dest _ => ?_
    refine ensures_wrote fun out hout => ?_
    obtain ⟨_, _, hstore⟩ := storeNativeToken_stores out hout
    exact .stored hstore
  | toRef =>
    refine ensures_bind fun dest _ => ensures_bind fun _ _ => ensures_bind fun offset _ => ?_
    exact ensures_wrote fun _ => .stored
  | fork => exact fun _ => .forked
  | free => exact ensures_bind fun var _ => free_effect

theorem createVar_keeps {owner : InstanceId} {address count : Int} {out : Cell × World σ}
    (hcreate : w.createVar owner address count = .ok out) :
    out.2.registry = w.registry ∧ out.2.machines = w.machines := by
  obtain ⟨_, _, _, _, _, _, hworld⟩ := createVar_eq_ok hcreate
  rw [hworld]
  exact ⟨rfl, rfl⟩

theorem createHandle_keeps {k : Handle} {out : Cell × World σ}
    (hcreate : w.createHandle k = .ok out) :
    out.2.registry = w.registry ∧ out.2.machines = w.machines := by
  obtain ⟨_, _, hworld⟩ := createHandle_eq_ok hcreate
  rw [hworld]
  exact ⟨rfl, rfl⟩

theorem releaseVar_keeps (var : Cell) :
    (w.releaseVar var).2.registry = w.registry ∧ (w.releaseVar var).2.machines = w.machines := by
  rw [releaseVar_snd]
  exact ⟨rfl, rfl⟩

theorem fork_keeps {r : ForkOptions} {out : Outcome σ Ending} (hfork : w.fork id r = .ok out) :
    out.2.registry = w.registry ∧ out.2.machines = w.machines := by
  obtain ⟨context, _, rfl⟩ := fork_eq_ok hfork
  exact ⟨registry_modifyContext w id _, rfl⟩

/-! ### What plain natives leave alone -/

/-- A view of a world in which its machines and pools, the source and the host's state have no
part. -/
structure Steady {β : Type} (view : World σ → β) : Prop where
  setMachine : ∀ w number m, view (w.setMachine number m) = view w
  vars : ∀ (w : World σ) vars, view { w with vars } = view w
  handles : ∀ (w : World σ) handles, view { w with handles } = view w
  source : ∀ (w : World σ) source, view { w with source } = view w
  host : ∀ (w : World σ) host, view { w with host } = view w

namespace Steady

variable {β : Type} {view : World σ → β}

theorem putMachine (hview : Steady view) (w : World σ) (id : InstanceId) (m : Machine) :
    view (w.putMachine id m) = view w := by
  unfold World.putMachine
  cases w.entry? id with
  | none => rfl
  | some entry => exact hview.setMachine w entry.machine m

theorem createVar (hview : Steady view) {owner : InstanceId} {address count : Int}
    {out : Cell × World σ} (hcreate : w.createVar owner address count = .ok out) :
    view out.2 = view w := by
  obtain ⟨_, vars, _, _, _, _, hworld⟩ := createVar_eq_ok hcreate
  rw [hworld]
  exact hview.vars w vars

theorem createHandle (hview : Steady view) {k : Handle} {out : Cell × World σ}
    (hcreate : w.createHandle k = .ok out) : view out.2 = view w := by
  obtain ⟨handles, _, hworld⟩ := createHandle_eq_ok hcreate
  rw [hworld]
  exact hview.handles w handles

theorem releaseVar (hview : Steady view) (var : Cell) : view (w.releaseVar var).2 = view w := by
  rw [releaseVar_snd]
  exact hview.vars w _

theorem writeVar (hview : Steady view) {v : Var} {index : Int} {value : Cell} {out : Cell × World σ}
    (hwrite : w.writeVar v index value = .ok out) : view out.2 = view w := by
  obtain ⟨_, m, exchanged, _, _, _, rfl⟩ := writeVar_eq_ok hwrite
  exact hview.putMachine w v.owner _

theorem freeVar? (hview : Steady view) {v : Var} {out : Int × World σ}
    (hfree : w.freeVar? v = some out) : view out.2 = view w := by
  obtain ⟨m, released, _, _, rfl⟩ := freeVar?_eq_some hfree
  exact hview.putMachine w v.owner _

theorem store (hview : Steady view) {address : Cell} {values : List Cell} {out : Outcome σ Unit}
    (hstore : w.store id address values = .ok out) : view out.2 = view w := by
  obtain ⟨m, stored, _, _, rfl⟩ := store_eq_ok hstore
  exact hview.putMachine w id _

/-- All effects leave it alone but that of a fork, which is on the context of the caller. -/
theorem effect (hview : Steady view) {pools : Bool} {out : Outcome σ Ending}
    (heffect : Effect h id w pools out) : view out.2 = view w ∨ ∃ r, w.fork id r = .ok out := by
  cases heffect with
  | nothing ending => exact .inl rfl
  | madeString text => exact .inl (hview.host w _)
  | createdVar hcreate => exact .inl (hview.createVar hcreate)
  | createdHandle hcreate => exact .inl (hview.createHandle hcreate)
  | wroteVar hwrite => exact .inl (hview.writeVar hwrite)
  | releasedVar var => exact .inl (hview.releaseVar var)
  | stored hstore => exact .inl (hview.store hstore)
  | wroteName hwrite =>
    obtain ⟨m, written, _, _, rfl⟩ := writeName_eq_ok hwrite
    exact .inl (hview.putMachine w id _)
  | forked hfork => exact .inr ⟨_, hfork⟩
  | freed hfree => exact .inl (hview.freeVar? hfree)

/-- Nor has telling the caller how a native ended a part in it. -/
theorem settle (hview : Steady view) (w : World σ) (id : InstanceId)
    (result : Except Fault Ending) : view (w.settle id result).2 = view w := by
  unfold World.settle
  split
  · rfl
  · exact hview.putMachine w id _
  · exact hview.putMachine w id _

end Steady

/-- A view of a world in which its machines, pools and contexts, the source and the host's state
have no part. -/
structure Aloof {β : Type} (view : World σ → β) : Prop where
  setMachine : ∀ w number m, view (w.setMachine number m) = view w
  modifyContext : ∀ w id f, view (w.modifyContext id f) = view w
  vars : ∀ (w : World σ) vars, view { w with vars } = view w
  handles : ∀ (w : World σ) handles, view { w with handles } = view w
  source : ∀ (w : World σ) source, view { w with source } = view w
  host : ∀ (w : World σ) host, view { w with host } = view w

namespace Aloof

variable {β : Type} {view : World σ → β}

theorem steady (hview : Aloof view) : Steady view where
  setMachine := hview.setMachine
  vars := hview.vars
  handles := hview.handles
  source := hview.source
  host := hview.host

theorem effect (hview : Aloof view) {pools : Bool} {out : Outcome σ Ending}
    (heffect : Effect h id w pools out) : view out.2 = view w := by
  rcases hview.steady.effect heffect with hsame | ⟨r, hfork⟩
  · exact hsame
  · obtain ⟨context, _, rfl⟩ := fork_eq_ok hfork
    exact hview.modifyContext w id fun _ => (Ending.fork r context).2

end Aloof

theorem aloof_registry : Aloof (registry : World σ → Registry) where
  setMachine _ _ _ := rfl
  modifyContext := registry_modifyContext
  vars _ _ := rfl
  handles _ _ := rfl
  source _ _ := rfl
  host _ _ := rfl

/-- Whatever a plain native does, the registry stays as it is. -/
theorem Effect.registry_eq {pools : Bool} {out : Outcome σ Ending}
    (heffect : Effect h id w pools out) : out.2.registry = w.registry :=
  aloof_registry.effect heffect

/-- So the same instances stay live. -/
theorem Effect.liveIds_eq {pools : Bool} {out : Outcome σ Ending}
    (heffect : Effect h id w pools out) :
    out.2.liveIds = w.liveIds := by
  rw [World.liveIds_eq, heffect.registry_eq, ← World.liveIds_eq]

/-! ### Running a plain native -/

theorem settle_error (w : World σ) (id : InstanceId) (fault : Fault) :
    ∃ fault', (w.settle id (.error fault)).1 = .error fault' := by
  unfold settle
  cases w.machine? id <;> exact ⟨_, rfl⟩

theorem settle_error_ne_ok {fault : Fault} {value : Cell} {u : World σ} :
    w.settle id (.error fault) ≠ (.ok value, u) := by
  intro heq
  obtain ⟨fault', hfault⟩ := settle_error w id fault
  rw [heq] at hfault
  cases hfault

/-- What an instance returns, it returns if it is live. -/
theorem settle_returns_eq_ok_iff {v value : Cell} {u : World σ} :
    w.settle id (.ok (.returns v)) = (.ok value, u) ↔ w.isLive id = true ∧ v = value ∧ w = u := by
  cases hm : w.machine? id with
  | none => simp [settle, hm, machine?_eq_none_iff.mp hm]
  | some m =>
    simp [settle, hm, Ending.carryOut, putMachine_self hm, isLive_of_machine? hm]

/-- A native that gets parameters enough performs, and then the caller is told. -/
theorem runNative_perform (h : Host σ) (id : InstanceId) (p : Params) (w : World σ)
    (native : Native) (hlength : native.minParams ≤ p.length) :
    w.runNative h id native.scriptName p =
      settle (native.perform h id p w).2 id (native.perform h id p w).1 := by
  simp only [runNative, evaluate, Native.find?_scriptName, if_neg (Nat.not_lt.mpr hlength)]

theorem runNative_plain (h : Host σ) (id : InstanceId) (p : Params) (w : World σ)
    (native : LocalNative) (hlength : (Native.plain native).minParams ≤ p.length) :
    w.runNative h id native.scriptName p =
      match w.performPlain h id p native with
      | .ok out => out.2.settle id out.1
      | .error fault => w.settle id (.error fault) := by
  refine (runNative_perform h id p w (.plain native) hlength).trans ?_
  simp only [Native.perform]
  cases w.performPlain h id p native <;> rfl

/-- What a plain native returns goes to its caller, as long as that is live afterwards. -/
theorem runNative_of_returns {h : Host σ} {p : Params} {u : World σ} {value : Cell}
    (native : LocalNative) (hlength : (Native.plain native).minParams ≤ p.length)
    (hdone : w.performPlain h id p native = .ok (.ok (.returns value), u))
    (live : u.isLive id = true) : w.runNative h id native.scriptName p = (.ok value, u) := by
  rw [runNative_plain h id p w native hlength, hdone]
  exact settle_returns_eq_ok_iff.mpr ⟨live, rfl, rfl⟩

/-- A plain native that is run by name is refused, or has one of the effects; then the caller is
told. -/
theorem runNative_plain_cases (h : Host σ) (id : InstanceId) (p : Params) (w : World σ)
    (native : LocalNative) :
    (∃ fault, w.runNative h id native.scriptName p = w.settle id (.error fault)) ∨
      ∃ out, w.performPlain h id p native = .ok out ∧
        w.runNative h id native.scriptName p = out.2.settle id out.1 := by
  by_cases hlength : p.length < (Native.plain native).minParams
  · have hfind : Native.find? native.scriptName = some (.plain native) :=
      Native.find?_scriptName (.plain native)
    refine .inl ⟨.fewParams (Native.plain native).minParams p.length, ?_⟩
    simp only [runNative, evaluate, hfind, if_pos hlength]
  · have hrun := w.runNative_plain h id p native (Nat.not_lt.mp hlength)
    cases hout : w.performPlain h id p native with
    | error fault => exact .inl ⟨fault, by rw [hrun, hout]⟩
    | ok out => exact .inr ⟨out, rfl, by rw [hrun, hout]⟩

end World

end ScriptNatives
