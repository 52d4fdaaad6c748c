import DgMiddleware.Corba.Servants
import DgMiddleware.Library.Simulation
import DgMiddleware.Library.Triple
import Mathlib.Data.List.Nodup

/-! What a client finds behind a name. Only a registration that returns binds one, so the
name leads to the servant registered last, and to nobody once that one is gone. -/
namespace DgMiddleware.Corba
open Library

/-- The context that a command registers its servant in. -/
def registrationContext (s : CorbaProcess) (command : Command) : Option CosName :=
  match s.genericServer, command with
  | some g, .start | some g, .initAndStart _ => g.hppContext
  | none, .initAndStart cmdArgs => some (contextName (decideContext (contextArg cmdArgs)))
  | _, _ => none

/-- A registration that returned: its context, the entity and the id it was given. -/
def registration (s : CorbaProcess) (e : Event) : Option (CosName × Entity × ObjectId) :=
  match e.op, e.result with
  | .command id command, .ok _ => do
    let entity ← s.entities.find? (·.id = id)
    let context ← registrationContext s command
    return (context, entity, nextId s entity.id)
  | _, _ => none

/-- The entity registered last under a name in a context, with its id. -/
def lastRegistered (context name : CosName) (trace : List (CorbaProcess × Event)) : Option (Entity × ObjectId) :=
  trace.foldl (fun last x =>
    match registration x.1 x.2 with
    | some (c, entity, id) => if c = context ∧ servantName entity.name = name then some (entity, id) else last
    | none => last) none

/-- The entity that a request of a client reaches who looks the name up first. A request
to an active object whose servant was destroyed is undefined, and reaches nobody here. -/
def reaches (s : CorbaProcess) (context name : CosName) : Option Entity := do
  let object ← s.naming.bindings context name
  if s.orb = .running ∧ s.poa.managerActive ∧ object ∈ s.poa.activeObjects then
    s.entities.find? (·.id = object.servant)
  else none

section Step
variable {faults : Faults} {s t u : CorbaProcess} {e : Event} {x : CorbaException}

theorem Steps.of_ret (h : Steps s e t) (hret : perform e.faults e.op s = .ret () u) :
    e.result = .ok () ∧ t = u := by
  unfold Steps at h
  rw [hret] at h
  cases hres : e.result with
  | ok =>
    rw [hres] at h
    cases h
    exact ⟨rfl, rfl⟩
  | error =>
    rw [hres] at h
    cases h

theorem Steps.of_raise (h : Steps s e t) (hraise : perform e.faults e.op s = .raise x u) :
    e.result = .error x ∧ t = u := by
  unfold Steps at h
  rw [hraise] at h
  cases hres : e.result with
  | ok =>
    rw [hres] at h
    cases h
  | error =>
    rw [hres] at h
    cases h
    exact ⟨rfl, rfl⟩

/-- What an initialisation leaves in the naming service and to the POA, however it ends. -/
theorem init_naming {c : String} (h : Ends (initCorbaServer faults c) s t) :
    t.naming.bindings = s.naming.bindings ∧ t.poa.nextSerial = s.poa.nextSerial := by
  cases hg : s.genericServer with
  | some g => exact h.of_ret (initCorbaServer_again hg) ▸ ⟨rfl, rfl⟩
  | none =>
    rcases initCorbaServer_cases faults hg (rfl : decideContext c = _) with
      ⟨-, hret⟩ | ⟨-, -, x, u, hx, rfl | rfl⟩ | ⟨-, x, u, hx, hcut⟩
    · exact h.of_ret hret ▸ ⟨withContext_bindings _ _, rfl⟩
    · exact h.of_raise hx ▸ ⟨withContext_bindings _ _, rfl⟩
    · exact h.of_raise hx ▸ ⟨withContext_bindings _ _, rfl⟩
    · exact h.of_raise hx ▸ ⟨hcut.bindings, by rw [hcut.poa]⟩

/-- The servant of an entity was activated and bound in a context. -/
structure Bound (s : CorbaProcess) (context : CosName) (entity : Entity) (t : CorbaProcess) : Prop where
  inactive : ∀ id ∈ s.poa.activeObjects, id.servant ≠ entity.id
  bindings : t.naming.bindings = (s.naming.rebind context (servantName entity.name) (nextId s entity.id)).bindings
  objects : t.poa.activeObjects = s.poa.activeObjects ++ [nextId s entity.id]
  serial : t.poa.nextSerial = s.poa.nextSerial + 1
  orb : t.orb = .running
  entities : t.entities = s.entities

/-- Nothing was bound, and at most ids were given out. -/
structure Unbound (s t : CorbaProcess) : Prop where
  bindings : t.naming.bindings = s.naming.bindings
  serial : s.poa.nextSerial ≤ t.poa.nextSerial

private theorem register_step {id : Nat} {command : Command} {result : Except CorbaException Unit}
    {entity : Entity} {g : CorbaServerGeneric} (hfind : s.entities.find? (·.id = id) = some entity)
    (hcommand : commandLine faults entity command s = addIdl faults entity entity.name u)
    (hg : u.genericServer = some g) (hcontext : registrationContext s command = g.hppContext)
    (hinit : Untouched s u) (hnaming : u.naming.bindings = s.naming.bindings ∧ u.poa.nextSerial = s.poa.nextSerial)
    (h : Steps s ⟨faults, .command id command, result⟩ t) :
    (∃ context, registration s ⟨faults, .command id command, result⟩ =
      some (context, entity, nextId s entity.id) ∧ Bound s context entity t) ∨
    (registration s ⟨faults, .command id command, result⟩ = none ∧ Unbound s t) := by
  have hperform : perform faults (.command id command) s = addIdl faults entity entity.name u :=
    (withEntity_some (commandLine faults · command) hfind).trans hcommand
  have hnext : nextId u entity.id = nextId s entity.id := by rw [nextId, hnaming.2, nextId]
  rcases addIdl_cases hg faults entity entity.name with
    ⟨-, x, hx⟩ | ⟨-, -, x, hx⟩ | ⟨ha, -, context, hctx, -, hret⟩
  · obtain ⟨rfl, rfl⟩ := h.of_raise (hperform.trans hx)
    exact .inr ⟨rfl, hnaming.1, hnaming.2.ge⟩
  · obtain ⟨rfl, rfl⟩ := h.of_raise (hperform.trans hx)
    exact .inr ⟨rfl, hnaming.1, by rw [← hnaming.2]; exact Nat.le_succ _⟩
  · obtain ⟨rfl, rfl⟩ := h.of_ret (hperform.trans hret)
    refine .inl ⟨context, by simp [registration, hfind, hcontext, hctx], hinit.objects ▸ ha.inactive, ?_, ?_, ?_,
      ha.running, hinit.entities⟩
    · rw [← hnext]
      simp only [CorbaProcess.withBinding, NamingService.rebind]
      rw [← hnaming.1]
      rfl
    · rw [← hinit.objects, ← hnext]
      rfl
    · rw [← hnaming.2]
      rfl

/-- All that a close can leave: the state itself where there is no server, what a failure
left of the objects and of the list of ids, or the closed process. -/
theorem Ends.close_cases (h : Ends (closeCorbaServer faults) s t) :
    s.genericServer = none ∧ t = s ∨ ∃ g, s.genericServer = some g ∧
      ((∃ objects, objects.Sublist s.poa.activeObjects ∧ (t = s.withObjects objects ∨ t = emptied s g objects)) ∨
        s.orb = .running ∧ t = closed s) := by
  cases hg : s.genericServer with
  | none => exact .inl ⟨rfl, h.of_ret (closeCorbaServer_again hg)⟩
  | some g =>
    rcases closeCorbaServer_cases hg faults with ⟨objects, x, u, hsub, hx, hu⟩ | ⟨hrun, -, ⟨-, hno⟩ | ⟨-, hret⟩⟩
    · obtain rfl := h.of_raise hx
      exact .inr ⟨g, rfl, .inl ⟨objects, hsub, hu⟩⟩
    · exact absurd hno h.defined
    · exact .inr ⟨g, rfl, .inr ⟨hrun, h.of_ret hret⟩⟩

private theorem close_naming (h : Ends (closeCorbaServer faults) s t) : Unbound s t := by
  rcases h.close_cases with ⟨-, rfl⟩ | ⟨g, -, ⟨objects, -, rfl | rfl⟩ | ⟨-, rfl⟩⟩ <;>
    exact ⟨rfl, Nat.le_refl _⟩

/-- The context after an initialisation that returned is the one it was asked for, unless
there was a server. -/
theorem context_after {cmdArgs : String} {g : CorbaServerGeneric}
    (h : initCorbaServer faults (contextArg cmdArgs) s = .ret () u) (hg : u.genericServer = some g) :
    registrationContext s (.initAndStart cmdArgs) = g.hppContext := by
  cases hserver : s.genericServer with
  | some g' =>
    rw [initCorbaServer_again hserver] at h
    cases h
    obtain rfl := Option.some.inj (hg.symm.trans hserver)
    simp [registrationContext, hserver]
  | none =>
    rcases initCorbaServer_cases faults hserver (rfl : decideContext (contextArg cmdArgs) = _) with
      ⟨-, hret⟩ | ⟨-, -, x, u', hx, -⟩ | ⟨-, x, u', hx, -⟩
    · rw [hret] at h
      cases h
      obtain rfl := Option.some.inj hg
      simp [registrationContext, hserver]
    · simp [hx] at h
    · simp [hx] at h

/-- A step binds the servant of the registration that it is, or nothing. -/
theorem naming_step (h : Steps s e t) :
    (∃ context entity, entity ∈ s.entities ∧ registration s e = some (context, entity, nextId s entity.id) ∧
      Bound s context entity t) ∨
    (registration s e = none ∧ Unbound s t) := by
  obtain ⟨faults, op, result⟩ := e
  have heffect := h.effect
  cases heffect with
  | initialised hinit =>
    obtain ⟨hbindings, hserial⟩ := init_naming hinit
    exact .inr ⟨rfl, hbindings, hserial.ge⟩
  | closed hclose => exact .inr ⟨rfl, close_naming hclose⟩
  | nameTaken | created | notFound | destroyed | requested => exact .inr ⟨rfl, rfl, Nat.le_refl _⟩
  | noEntity hfind =>
    refine .inr ⟨?_, rfl, Nat.le_refl _⟩
    cases result <;> simp [registration, hfind]
  | initCorba hfind hinit =>
    obtain ⟨hbindings, hserial⟩ := init_naming hinit
    refine .inr ⟨?_, hbindings, hserial.ge⟩
    cases result <;> simp [registration, hfind, registrationContext]
  | start hfind hadd =>
    obtain ⟨g, hg, -⟩ := hadd.added
    have hcontext : registrationContext s .start = g.hppContext := by simp [registrationContext, hg]
    rcases register_step hfind rfl hg hcontext ⟨rfl, rfl, rfl, .inl rfl⟩ ⟨rfl, rfl⟩ h with
      ⟨context, hreg, hbound⟩ | hnone
    · exact .inl ⟨context, _, List.mem_of_find?_eq_some hfind, hreg, hbound⟩
    · exact .inr hnone
  | @initFails id entity cmdArgs x u hfind hinit =>
    have hraise : perform faults (.command id (.initAndStart cmdArgs)) s = .raise x t := by
      refine (withEntity_some (commandLine faults · (.initAndStart cmdArgs)) hfind).trans ?_
      simp [commandLine, hinit]
    obtain ⟨rfl, -⟩ := h.of_raise hraise
    obtain ⟨hbindings, hserial⟩ := init_naming (.inr ⟨x, hinit⟩)
    exact .inr ⟨rfl, hbindings, hserial.ge⟩
  | @initAndStart id entity cmdArgs u _ hfind hinit hadd =>
    obtain ⟨g, hg, -⟩ := hadd.added
    have hcommand : commandLine faults entity (.initAndStart cmdArgs) s = addIdl faults entity entity.name u := by
      simp [commandLine, hinit, registerCorbaServant]
    rcases register_step hfind hcommand hg (context_after hinit hg) (init_untouched (.inl hinit))
      (init_naming (.inl hinit)) h with ⟨context, hreg, hbound⟩ | hnone
    · exact .inl ⟨context, _, List.mem_of_find?_eq_some hfind, hreg, hbound⟩
    · exact .inr hnone

end Step

section Ids
variable {κ : Type} {part : CorbaProcess → κ} {faults : Faults} {s t : CorbaProcess} {e : Event}

/-- No stage of an initialisation changes this part of the process. -/
structure ApartFromInit (part : CorbaProcess → κ) : Prop where
  server : ∀ s g, part { s with genericServer := some g } = part s
  orb : ∀ s : CorbaProcess, part { s with orb := if s.orb = .absent then .running else s.orb } = part s
  contexts : ∀ s names, part { s with naming := { s.naming with contexts := names } } = part s
  manager : ∀ s, part { s with poa := { s.poa with managerActive := true } } = part s
  thread : ∀ s, part { s with serverThread := some .started } = part s

theorem call_leaves (c : Call) : Leaves part (faults.call c) := by
  unfold Faults.call
  split
  · exact .raise _
  · exact .ret _

theorem through_leaves (set : Bool) : Leaves part (through set) := .ite (.ret _) (.raise _)

theorem inUse_leaves : Leaves part inUse := by
  refine .bind .get fun s => ?_
  exact .ite (.ret _) (.raise _)

private theorem member_leaves : Leaves part member := by
  intro s
  cases hg : s.genericServer with
  | some g => rw [member_some hg]
  | none =>
    rw [member_none hg]
    trivial

private theorem assign_leaves (hpart : ApartFromInit part) (server : CorbaServerGeneric) :
    Leaves part (assign server) := .update _ fun s => hpart.server s server

private theorem openContext_leaves (hpart : ApartFromInit part) (name : CosName) :
    Leaves part (openContext faults name) := by
  refine .tryCatch (.bind (call_leaves _) fun _ s => ?_) fun e => .ite (.bind (call_leaves _) fun _ => ?_) (.raise _)
  · by_cases hname : name ∈ s.naming.contexts <;> simp [bindNewContext, hname, hpart.contexts]
  · refine .bind (fun s => ?_) fun context => .ite (.raise _) (.ret _)
    by_cases hname : name ∈ s.naming.contexts <;> simp [resolveContext, hname]

theorem init_leaves (hpart : ApartFromInit part) (c : String) : Leaves part (initCorbaServer faults c) := by
  refine .bind .get fun s => ?_
  cases s.genericServer with
  | some g => exact .ret _
  | none =>
    refine .bind (assign_leaves hpart _) fun _ => .bind (.bind ?_ fun _ => .bind ?_ fun _ =>
      .bind member_leaves fun server => .bind ?_ fun _ => ?_) fun _ =>
        .bind (call_leaves _) fun _ => .update _ hpart.thread
    · refine .bind member_leaves fun server => .bind (call_leaves _) fun _ => .ite (.raise _) ?_
      exact .bind (.update _ hpart.orb) fun _ => assign_leaves hpart _
    · refine .bind member_leaves fun server => .bind (through_leaves _) fun _ => .bind inUse_leaves fun _ => ?_
      exact .bind (call_leaves _) fun _ => assign_leaves hpart _
    · refine .bind member_leaves fun server => .bind (through_leaves _) fun _ => .bind inUse_leaves fun _ => ?_
      refine .bind (call_leaves _) fun _ => .ite (.raise _) ?_
      exact .bind (openContext_leaves hpart _) fun _ => assign_leaves hpart _
    · refine .bind member_leaves fun server => .bind (through_leaves _) fun _ => .bind (call_leaves _) fun _ => ?_
      exact .update _ hpart.manager

theorem nextEntity_apart : ApartFromInit (·.nextEntity) :=
  ⟨fun _ _ => rfl, fun _ => rfl, fun _ _ => rfl, fun _ => rfl, fun _ => rfl⟩

theorem Ends.left {body : Body Unit} (h : Ends body s t)
    (hbody : Leaves part body) : part t = part s := by
  have hleft := hbody s
  rcases h with h | ⟨x, h⟩ <;> rwa [h] at hleft

private theorem added_entities {entity : Entity} {name : String} (h : Ends (addIdl faults entity name) s t) :
    t.entities = s.entities ∧ t.nextEntity = s.nextEntity := by
  obtain ⟨g, -, rfl | rfl | ⟨context, rfl⟩⟩ := h.added <;> exact ⟨rfl, rfl⟩

private theorem close_entities (h : Ends (closeCorbaServer faults) s t) :
    t.entities = s.entities ∧ t.nextEntity = s.nextEntity := by
  rcases h.close_cases with ⟨-, rfl⟩ | ⟨g, -, ⟨objects, -, rfl | rfl⟩ | ⟨-, rfl⟩⟩ <;> exact ⟨rfl, rfl⟩

/-- A step creates an entity with the next id and a new name, or at most takes entities
away. -/
theorem entities_step (h : Steps s e t) :
    (t.entities.Sublist s.entities ∧ t.nextEntity = s.nextEntity) ∨
    ∃ name, (∀ entity ∈ s.entities, entity.name ≠ name) ∧
      t.entities = s.entities ++ [⟨s.nextEntity, name⟩] ∧ t.nextEntity = s.nextEntity + 1 := by
  obtain ⟨faults, op, result⟩ := e
  have heffect := h.effect
  have kept : ∀ {u : CorbaProcess}, u.entities = s.entities ∧ u.nextEntity = s.nextEntity →
      u.entities.Sublist s.entities ∧ u.nextEntity = s.nextEntity :=
    fun hu => ⟨by rw [hu.1], hu.2⟩
  cases heffect with
  | initialised hinit =>
    exact .inl (kept ⟨(init_untouched hinit).entities, hinit.left (init_leaves nextEntity_apart _)⟩)
  | closed hclose => exact .inl (kept (close_entities hclose))
  | nameTaken | notFound | noEntity | requested => exact .inl ⟨List.Sublist.refl _, rfl⟩
  | @created name =>
    by_cases htaken : ∃ entity ∈ s.entities, entity.name = name
    · have hraise : perform faults (.create name) s = .raise .exceptionFactory s := by
        simp [perform, create, htaken]
      obtain ⟨-, hsame⟩ := h.of_raise hraise
      exact absurd (congrArg CorbaProcess.nextEntity hsame) (Nat.succ_ne_self _)
    · exact .inr ⟨name, fun entity hmem heq => htaken ⟨entity, hmem, heq⟩, rfl, rfl⟩
  | destroyed => exact .inl ⟨List.filter_sublist, rfl⟩
  | initCorba hfind hinit =>
    exact .inl (kept ⟨(init_untouched hinit).entities, hinit.left (init_leaves nextEntity_apart _)⟩)
  | initFails hfind hinit =>
    have hend : Ends (initCorbaServer faults _) s t := .inr ⟨_, hinit⟩
    exact .inl (kept ⟨(init_untouched hend).entities, hend.left (init_leaves nextEntity_apart _)⟩)
  | start hfind hadd => exact .inl (kept (added_entities hadd))
  | initAndStart hfind hinit hadd =>
    obtain ⟨hentities, hids⟩ := added_entities hadd
    refine .inl (kept ⟨?_, ?_⟩)
    · rw [hentities, (init_untouched (.inl hinit)).entities]
    · rw [hids]
      exact Ends.left (.inl hinit) (init_leaves nextEntity_apart _)

end Ids

section Runs
variable {naming : NamingService} {s t : CorbaProcess} {e : Event} {trace : List (CorbaProcess × Event)}
  {context name : CosName}

/-- Each entity of the pool has an id of its own, among those given out, and its own name. -/
structure Numbered (s : CorbaProcess) : Prop where
  below : ∀ entity ∈ s.entities, entity.id < s.nextEntity
  distinct : (s.entities.map (·.id)).Nodup
  names : (s.entities.map (·.name)).Nodup

theorem Numbered.step (hs : Numbered s) (h : Steps s e t) : Numbered t := by
  rcases entities_step h with ⟨hsub, hnext⟩ | ⟨name, hfree, hentities, hnext⟩
  · exact ⟨fun entity hmem => hnext ▸ hs.below entity (hsub.subset hmem), hs.distinct.sublist (hsub.map _),
      hs.names.sublist (hsub.map _)⟩
  · refine ⟨fun entity hmem => ?_, ?_, ?_⟩
    · rw [hentities] at hmem
      rcases List.mem_append.mp hmem with hold | hnew
      · have := hs.below entity hold
        omega
      · obtain rfl := List.mem_singleton.mp hnew
        rw [hnext]
        exact Nat.lt_succ_self _
    · rw [hentities, List.map_append, List.map_singleton]
      refine hs.distinct.append (List.nodup_singleton _) ?_
      rw [List.disjoint_singleton, List.mem_map]
      rintro ⟨entity, hmem, hid⟩
      exact absurd hid (Nat.ne_of_lt (hs.below entity hmem))
    · rw [hentities, List.map_append, List.map_singleton]
      refine hs.names.append (List.nodup_singleton _) ?_
      rw [List.disjoint_singleton, List.mem_map]
      rintro ⟨entity, hmem, hname⟩
      exact hfree entity hmem hname

theorem Numbered.unique (hs : Numbered s) {a b : Entity} (ha : a ∈ s.entities) (hb : b ∈ s.entities)
    (h : a.id = b.id) : a = b :=
  List.inj_on_of_nodup_map hs.distinct ha hb h

theorem registered_snoc (context name : CosName) (trace : List (CorbaProcess × Event)) (s : CorbaProcess)
    (e : Event) : lastRegistered context name (trace ++ [(s, e)]) =
      match registration s e with
      | some (c, entity, id) =>
        if c = context ∧ servantName entity.name = name then some (entity, id) else lastRegistered context name trace
      | none => lastRegistered context name trace := by
  rw [lastRegistered, List.foldl_append]
  rfl

/-- What the naming service holds is what was registered last, under the name of the
entity, whose id no other entity has. -/
structure NamesKept (trace : List (CorbaProcess × Event)) (s : CorbaProcess) : Prop where
  numbered : Numbered s
  bindings : ∀ context name, s.naming.bindings context name = (lastRegistered context name trace).map Prod.snd
  origin : ∀ context name entity id, lastRegistered context name trace = some (entity, id) →
    id.servant = entity.id ∧ servantName entity.name = name ∧ entity.id < s.nextEntity ∧
      ∀ other ∈ s.entities, other.id = entity.id → other = entity

private theorem NamesKept.origin_step (hs : NamesKept trace s) (h : Steps s e t) {entity : Entity}
    {id : ObjectId} (hreg : lastRegistered context name trace = some (entity, id)) :
    id.servant = entity.id ∧ servantName entity.name = name ∧ entity.id < t.nextEntity ∧
      ∀ other ∈ t.entities, other.id = entity.id → other = entity := by
  obtain ⟨hservant, hname, hlt, hunique⟩ := hs.origin context name entity id hreg
  rcases entities_step h with ⟨hsub, hnext⟩ | ⟨newName, -, hentities, hnext⟩
  · exact ⟨hservant, hname, by omega, fun other hmem => hunique other (hsub.subset hmem)⟩
  · refine ⟨hservant, hname, by omega, fun other hmem hid => ?_⟩
    rw [hentities] at hmem
    rcases List.mem_append.mp hmem with hold | hnew
    · exact hunique other hold hid
    · obtain rfl := List.mem_singleton.mp hnew
      exact absurd hid (Nat.ne_of_gt hlt)

private theorem NamesKept.step (hs : NamesKept trace s) (h : Steps s e t) : NamesKept (trace ++ [(s, e)]) t := by
  rcases naming_step h with ⟨c, entity, hmem, hreg, hbound⟩ | ⟨hreg, hunbound⟩
  · refine ⟨hs.numbered.step h, fun context name => ?_, fun context name other id hlast => ?_⟩
    · rw [hbound.bindings, registered_snoc, hreg]
      by_cases hhere : c = context ∧ servantName entity.name = name
      · obtain ⟨rfl, rfl⟩ := hhere
        simp
      · have hother : ¬(context = c ∧ name = servantName entity.name) :=
          fun heq => hhere ⟨heq.1.symm, heq.2.symm⟩
        simp [NamingService.rebind, hother, hhere, hs.bindings]
    · rw [registered_snoc, hreg] at hlast
      dsimp only at hlast
      split_ifs at hlast with hhere
      · cases hlast
        refine ⟨rfl, hhere.2, ?_, fun found hfound hid => ?_⟩
        · exact (hs.numbered.step h).below _ (by rwa [hbound.entities])
        · rw [hbound.entities] at hfound
          exact hs.numbered.unique hfound hmem hid
      · exact hs.origin_step h hlast
  · refine ⟨hs.numbered.step h, fun context name => ?_, fun context name other id hlast => ?_⟩
    · rw [hunbound.bindings, registered_snoc, hreg]
      exact hs.bindings context name
    · rw [registered_snoc, hreg] at hlast
      exact hs.origin_step h hlast

private theorem numbered_fresh (naming : NamingService) : Numbered (.fresh naming) := by
  constructor <;> simp [CorbaProcess.fresh]

theorem NamesKept.run (hnaming : ∀ context name, naming.bindings context name = none)
    (h : Run Steps (.fresh naming) trace s) : NamesKept trace s := by
  refine h.history NamesKept ⟨numbered_fresh naming, hnaming, ?_⟩
    fun _ _ _ _ _ hs hstep => hs.step hstep
  intro context name entity id hreg
  cases hreg

/-- In every run, whoever is reached through a name is the entity that was registered last
under it in that context, and has this name: no lookup leads to another entity, nor to
one registered before. -/
theorem lookup_run (hnaming : ∀ context name, naming.bindings context name = none)
    (h : Run Steps (.fresh naming) trace s) {idlName : String} {entity : Entity}
    (hreach : reaches s context (servantName idlName) = some entity) :
    entity.name = idlName ∧ ∃ id, lastRegistered context (servantName idlName) trace = some (entity, id) := by
  have hkept := NamesKept.run hnaming h
  obtain ⟨object, hobject, hreach⟩ := Option.bind_eq_some_iff.mp hreach
  split_ifs at hreach with hup
  rw [hkept.bindings] at hobject
  obtain ⟨⟨last, id⟩, hlast, rfl⟩ := Option.map_eq_some_iff.mp hobject
  obtain ⟨hservant, hname, -, hunique⟩ := hkept.origin _ _ _ _ hlast
  have hid : entity.id = last.id := by
    have hfound := List.find?_some hreach
    rw [← hservant]
    simpa using hfound
  obtain rfl := hunique entity (List.mem_of_find?_eq_some hreach) hid
  exact ⟨by simpa [servantName] using hname, id, hlast⟩

/-- Only a close takes objects away, or stops the ORB. -/
theorem objects_step (h : Steps s e t) (hop : e.op ≠ .closeCorbaServer) :
    s.poa.activeObjects ⊆ t.poa.activeObjects ∧ (s.orb = .running → t.orb = .running) := by
  obtain ⟨faults, op, result⟩ := e
  have heffect := h.effect
  have hinit : ∀ {c : String} {u : CorbaProcess}, Ends (initCorbaServer faults c) s u →
      s.poa.activeObjects ⊆ u.poa.activeObjects ∧ (s.orb = .running → u.orb = .running) := by
    intro c u hinit
    obtain ⟨hobjects, -, -, horb⟩ := init_untouched hinit
    exact ⟨by rw [hobjects]; exact List.Subset.refl _, fun hrun => horb.elim (fun hsame => hsame.trans hrun) id⟩
  have hadd : ∀ {entity : Entity} {name : String} {u : CorbaProcess}, Ends (addIdl faults entity name) u t →
      u.poa.activeObjects ⊆ t.poa.activeObjects ∧ t.orb = u.orb := by
    intro entity name u hadd
    obtain ⟨g, -, rfl | rfl | ⟨context, rfl⟩⟩ := hadd.added
    · exact ⟨List.Subset.refl _, rfl⟩
    · exact ⟨List.subset_append_left _ _, rfl⟩
    · exact ⟨List.subset_append_left _ _, rfl⟩
  cases heffect with
  | initialised h => exact hinit h
  | closed => exact absurd rfl hop
  | nameTaken | created | notFound | destroyed | noEntity | requested => exact ⟨List.Subset.refl _, id⟩
  | initCorba hfind h => exact hinit h
  | initFails hfind h => exact hinit (.inr ⟨_, h⟩)
  | start hfind h => exact ⟨(hadd h).1, (hadd h).2.trans⟩
  | initAndStart hfind hfirst h =>
    obtain ⟨hobjects, horb⟩ := hinit (.inl hfirst)
    exact ⟨List.Subset.trans hobjects (hadd h).1, fun hrun => (hadd h).2.trans (horb hrun)⟩

/-- The entity is registered in the context, active and in the pool. -/
structure Live (context : CosName) (entity : Entity) (id : ObjectId) (s : CorbaProcess) : Prop where
  numbered : Numbered s
  pooled : entity ∈ s.entities
  orb : s.orb = .running
  active : id ∈ s.poa.activeObjects
  servant : id.servant = entity.id
  binding : s.naming.bindings context (servantName entity.name) = some id

private theorem pooled_step {entity : Entity} (h : Steps s e t) (hmem : entity ∈ s.entities)
    (hop : e.op ≠ .destroy entity.id) : entity ∈ t.entities := by
  obtain ⟨faults, op, result⟩ := e
  have heffect := h.effect
  cases heffect with
  | initialised hinit => rwa [(init_untouched hinit).entities]
  | closed hclose => rwa [(close_entities hclose).1]
  | nameTaken | notFound | noEntity | requested => exact hmem
  | created => exact List.mem_append_left _ hmem
  | @destroyed id other hfind =>
    have hid : other.id = id := by simpa using List.find?_some hfind
    refine List.mem_filter.mpr ⟨hmem, ?_⟩
    simpa [hid] using fun heq : entity.id = id => hop (by rw [heq])
  | initCorba hfind hinit => rwa [(init_untouched hinit).entities]
  | initFails hfind hinit => rwa [(init_untouched (.inr ⟨_, hinit⟩)).entities]
  | start hfind hadd => rwa [(added_entities hadd).1]
  | initAndStart hfind hinit hadd => rwa [(added_entities hadd).1, (init_untouched (.inl hinit)).entities]

/-- It stays so until a close, or until the entity is destroyed: the POA refuses to
activate it again, and no other entity has its name. -/
theorem Live.step {entity : Entity} {id : ObjectId} (hs : Live context entity id s) (h : Steps s e t)
    (hclose : e.op ≠ .closeCorbaServer) (hdestroy : e.op ≠ .destroy entity.id) : Live context entity id t := by
  obtain ⟨hobjects, horb⟩ := objects_step h hclose
  refine ⟨hs.numbered.step h, pooled_step h hs.pooled hdestroy, horb hs.orb, hobjects hs.active,
    hs.servant, ?_⟩
  rcases naming_step h with ⟨c, other, hmem, -, hbound⟩ | ⟨-, hunbound⟩
  · rw [hbound.bindings]
    have hother : servantName entity.name ≠ servantName other.name := by
      intro hname
      have hsame : entity.name = other.name := by simpa [servantName] using hname
      obtain rfl := List.inj_on_of_nodup_map hs.numbered.names hs.pooled hmem hsame
      exact hbound.inactive id hs.active hs.servant
    simp [NamingService.rebind, hother, hs.binding]
  · rw [hunbound.bindings, hs.binding]

theorem Live.reaches_iff {entity : Entity} {id : ObjectId} (hs : Live context entity id s) :
    reaches s context (servantName entity.name) = some entity ↔ s.poa.managerActive = true := by
  have hfind : s.entities.find? (·.id = id.servant) = some entity := by
    obtain ⟨found, hfound⟩ : ∃ found, s.entities.find? (·.id = id.servant) = some found := by
      rw [← Option.isSome_iff_exists, List.find?_isSome]
      exact ⟨entity, hs.pooled, by simp [hs.servant]⟩
    have hid : found.id = id.servant := by simpa using List.find?_some hfound
    rw [hfound, hs.numbered.unique (List.mem_of_find?_eq_some hfound) hs.pooled (hid.trans hs.servant)]
  simp [reaches, hs.binding, hs.orb, hs.active, hfind]

/-- Once a registration returned, and as long as no server is closed and the entity is not
destroyed, every lookup of its name in that context reaches the entity, provided the
manager of the POA is active. -/
theorem lookup_live {before after : List (CorbaProcess × Event)} {x : CorbaProcess × Event} {entity : Entity}
    {id : ObjectId} (h : Run Steps (.fresh naming) (before ++ x :: after) s)
    (hreg : registration x.1 x.2 = some (context, entity, id))
    (hafter : ∀ y ∈ after, y.2.op ≠ .closeCorbaServer ∧ y.2.op ≠ .destroy entity.id) :
    reaches s context (servantName entity.name) = some entity ↔ s.poa.managerActive = true := by
  obtain ⟨t, hbefore, hstep, hrest⟩ := h.resume
  have hnumbered : Numbered x.1 :=
    hbefore.invariant Numbered (fun _ _ => True) (numbered_fresh naming) (fun _ _ _ hi _ hs => hi.step hs)
      fun _ _ => trivial
  have hlive : Live context entity id t := by
    rcases naming_step hstep with ⟨c, other, hmem, hreg', hbound⟩ | ⟨hnone, -⟩
    · obtain ⟨rfl, rfl, rfl⟩ := by simpa [hreg] using hreg'
      refine ⟨hnumbered.step hstep, by rwa [hbound.entities], hbound.orb, ?_, rfl, ?_⟩
      · rw [hbound.objects]
        exact List.mem_append_right _ (List.mem_singleton_self _)
      · rw [hbound.bindings]
        exact rebind_lookup _ _ _ _
    · rw [hreg] at hnone
      cases hnone
  exact (hrest.invariant (Live context entity id)
    (fun _ e => e.op ≠ .closeCorbaServer ∧ e.op ≠ .destroy entity.id) hlive
    (fun _ _ _ hi hc hs => hi.step hs hc.1 hc.2) hafter).reaches_iff

end Runs

/-- Two entities are started; the first is destroyed, and one of its name started instead. -/
def replaced : List (Faults × Op) :=
  [(noFaults, .create "a"), (noFaults, .command 0 (.initAndStart "")), (noFaults, .create "b"),
    (noFaults, .command 1 .start), (noFaults, .destroy 0), (noFaults, .create "a"), (noFaults, .command 2 .start)]

theorem lookup_run_replaced : ∃ id, lastRegistered (contextName "sot") (servantName "a")
    (execute (.fresh emptyNaming) replaced).1 = some (⟨2, "a"⟩, id) := by
  have hreach : reaches (execute (.fresh emptyNaming) replaced).2 (contextName "sot") (servantName "a") =
      some ⟨2, "a"⟩ := by decide +kernel
  exact (lookup_run (fun _ _ => rfl) (run_execute (.fresh emptyNaming) replaced) hreach).2

theorem lookup_live_replaced : reaches (execute (.fresh emptyNaming) replaced).2 (contextName "sot")
    (servantName "b") = some ⟨1, "b"⟩ := by
  have hrun := run_execute (.fresh emptyNaming) replaced
  have hlen : 3 < (execute (.fresh emptyNaming) replaced).1.length := by decide +kernel
  have hreg : ∀ hlen : 3 < (execute (.fresh emptyNaming) replaced).1.length,
      registration (execute (.fresh emptyNaming) replaced).1[3].1 (execute (.fresh emptyNaming) replaced).1[3].2 =
        some (contextName "sot", ⟨1, "b"⟩, ⟨1, 1⟩) := by decide +kernel
  have hsplit : (execute (.fresh emptyNaming) replaced).1 = (execute (.fresh emptyNaming) replaced).1.take 3 ++
      (execute (.fresh emptyNaming) replaced).1[3] :: (execute (.fresh emptyNaming) replaced).1.drop 4 := by
    rw [List.getElem_cons_drop, List.take_append_drop]
  rw [hsplit] at hrun
  have hafter : ∀ y ∈ (execute (.fresh emptyNaming) replaced).1.drop 4,
      y.2.op ≠ .closeCorbaServer ∧ y.2.op ≠ .destroy 1 := by decide +kernel
  exact (lookup_live hrun (hreg hlen) hafter).mpr (by decide +kernel)

end DgMiddleware.Corba
