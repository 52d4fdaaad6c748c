import DgMiddleware.Corba.ServerAbstract

/-! What the members of a server do to the objects of the POA: activating, recording and
binding a servant, which nothing undoes, and deactivating them all before the end. -/
namespace DgMiddleware.Corba
open Library
variable {faults : Faults} {s t : CorbaProcess} {g : CorbaServerGeneric}

/-- The POA takes the servant as a new active object. -/
structure Faults.Activates (faults : Faults) (s : CorbaProcess) (poa : Bool) (servant : Nat) : Prop where
  poa : poa = true
  call : faults.raises .activateObject = none
  running : s.orb = .running
  inactive : ∀ id ∈ s.poa.activeObjects, id.servant ≠ servant

/-- The naming service binds the name in the context, or binds it again. -/
def Faults.Binds (faults : Faults) (naming : NamingService) (context name : CosName) : Prop :=
  (faults.raises .bind = none ∧ naming.bindings context name = none) ∨
    (faults.raises .rebind = none ∧ (faults.raises .bind = some .alreadyBound ∨
      (faults.raises .bind = none ∧ naming.bindings context name ≠ none)))

/-- The servant's reference is bound in the context of the server. -/
def Faults.BindsIn (faults : Faults) (naming : NamingService) (context : Option CosName) (name : CosName) :
    Prop :=
  faults.raises .this = none ∧ ∃ c, context = some c ∧ faults.Binds naming c name

/-- The id that the POA gives out next. -/
def nextId (s : CorbaProcess) (servant : Nat) : ObjectId := ⟨s.poa.nextSerial, servant⟩

/-- The process with the servant active and recorded by its server. -/
def activated (s : CorbaProcess) (g : CorbaServerGeneric) (servant : Nat) : CorbaProcess :=
  { s with
    poa := { s.poa with
      activeObjects := s.poa.activeObjects ++ [nextId s servant], nextSerial := s.poa.nextSerial + 1 }
    genericServer := some { g with idlList := g.idlList ++ [nextId s servant] } }

def CorbaProcess.withBinding (s : CorbaProcess) (context name : CosName) (obj : ObjectId) : CorbaProcess :=
  { s with naming := s.naming.rebind context name obj }

section Bind
variable {context name : CosName} {obj : ObjectId}

theorem bindObject_ok (obj : ObjectId) (h : s.genericServer = some g) (hctx : g.hppContext = some context)
    (hb : faults.Binds s.naming context name) :
    bindObject faults name obj s = .ret () (s.withBinding context name obj) := by
  unfold bindObject CorbaProcess.withBinding
  rcases hb with ⟨hcall, hfree⟩ | ⟨hrebind, hcall | ⟨hcall, hbound⟩⟩
  · simp [member_some h, hctx, Method.tryCatch, call_ok hcall, bindName, hfree]
  · simp [member_some h, hctx, Method.tryCatch, call_raise hcall, call_ok hrebind, rebindName]
  · have hbound : (s.naming.bindings context name).isSome := Option.isSome_iff_ne_none.mpr hbound
    simp [member_some h, hctx, Method.tryCatch, call_ok hcall, bindName, hbound, call_ok hrebind, rebindName]

private theorem rebind_fails (h : s.genericServer = some g) (hctx : g.hppContext = some context)
    (hfirst : faults.raises .bind = some .alreadyBound ∨
      (faults.raises .bind = none ∧ s.naming.bindings context name ≠ none))
    {x : CorbaException} (hx : faults.raises .rebind = some x) : bindObject faults name obj s = .raise x s := by
  unfold bindObject
  rcases hfirst with hcall | ⟨hcall, hbound⟩
  · simp [member_some h, hctx, Method.tryCatch, call_raise hcall, call_raise hx]
  · have hbound : (s.naming.bindings context name).isSome := Option.isSome_iff_ne_none.mpr hbound
    simp [member_some h, hctx, Method.tryCatch, call_ok hcall, bindName, hbound, call_raise hx]

private theorem bindObject_fails (obj : ObjectId) (h : s.genericServer = some g)
    (hno : ¬∃ c, g.hppContext = some c ∧ faults.Binds s.naming c name) :
    ∃ x, bindObject faults name obj s = .raise x s := by
  cases hctx : g.hppContext with
  | none => exact ⟨.systemException, by simp [bindObject, member_some h, hctx]⟩
  | some context =>
    have hno : ¬faults.Binds s.naming context name := fun hb => hno ⟨context, hctx, hb⟩
    have again : (faults.raises .bind = some .alreadyBound ∨
        (faults.raises .bind = none ∧ s.naming.bindings context name ≠ none)) →
        ∃ x, bindObject faults name obj s = .raise x s := by
      intro hfirst
      cases hx : faults.raises .rebind with
      | none => exact absurd (.inr ⟨hx, hfirst⟩) hno
      | some x => exact ⟨x, rebind_fails h hctx hfirst hx⟩
    cases hcall : faults.raises .bind with
    | none =>
      by_cases hbound : s.naming.bindings context name = none
      · exact absurd (.inl ⟨hcall, hbound⟩) hno
      · exact again (.inr ⟨hcall, hbound⟩)
    | some x =>
      by_cases hx : x = .alreadyBound
      · exact again (.inl (hx ▸ hcall))
      · exact ⟨x, by simp [bindObject, member_some h, hctx, Method.tryCatch, call_raise hcall, hx]⟩

end Bind

section Add
variable {e : Entity}

theorem activateIdl_ok (h : s.genericServer = some g) (ha : faults.Activates s g.poa e.id) :
    activateIdl faults e s = .ret () (activated s g e.id) := by
  have hnew : ¬∃ id ∈ s.poa.activeObjects, id.servant = e.id := fun ⟨id, hid, he⟩ => ha.inactive id hid he
  simp [activateIdl, member_some h, ha.poa, call_ok ha.call, inUse_running ha.running, activateObject, hnew,
    activated, nextId]

private theorem activateIdl_fails (h : s.genericServer = some g) (hno : ¬faults.Activates s g.poa e.id) :
    ∃ x, activateIdl faults e s = .raise x s := by
  cases hpoa : g.poa with
  | false => exact ⟨.systemException, by simp [activateIdl, member_some h, hpoa]⟩
  | true =>
    cases hcall : faults.raises .activateObject with
    | some x => exact ⟨x, by simp [activateIdl, member_some h, hpoa, call_raise hcall]⟩
    | none =>
      by_cases hrun : s.orb = .running
      · by_cases hnew : ∃ id ∈ s.poa.activeObjects, id.servant = e.id
        · refine ⟨.servantAlreadyActive, ?_⟩
          simp [activateIdl, member_some h, hpoa, call_ok hcall, inUse_running hrun, activateObject, hnew]
        · exact absurd ⟨hpoa, hcall, hrun, fun id hid he => hnew ⟨id, hid, he⟩⟩ hno
      · exact ⟨.badInvOrder, by simp [activateIdl, member_some h, hpoa, call_ok hcall, inUse_stopped hrun]⟩

/-- The reference of a servant that was just activated. -/
private theorem referenceTo_activated (ha : faults.Activates s g.poa e.id) :
    referenceTo e.id (activated s g e.id) = .ret (nextId s e.id) (activated s g e.id) := by
  have hfind : (activated s g e.id).poa.activeObjects.find? (·.servant = e.id) = some (nextId s e.id) := by
    have hold : s.poa.activeObjects.find? (·.servant = e.id) = none := by
      simpa using ha.inactive
    simp [activated, List.find?_append, hold, nextId]
  simp [referenceTo, hfind]

/-- How a registration ends: refused, stuck between activation and binding, or complete. -/
theorem addIdl_cases (h : s.genericServer = some g) (faults : Faults) (e : Entity) (name : String) :
    (¬faults.Activates s g.poa e.id ∧ ∃ x, addIdl faults e name s = .raise x s) ∨
    (faults.Activates s g.poa e.id ∧ ¬faults.BindsIn s.naming g.hppContext (servantName name) ∧
      ∃ x, addIdl faults e name s = .raise x (activated s g e.id)) ∨
    (faults.Activates s g.poa e.id ∧ faults.raises .this = none ∧ ∃ context, g.hppContext = some context ∧
      faults.Binds s.naming context (servantName name) ∧ addIdl faults e name s =
        .ret () ((activated s g e.id).withBinding context (servantName name) (nextId s e.id))) := by
  by_cases ha : faults.Activates s g.poa e.id
  case neg =>
    obtain ⟨x, hx⟩ := activateIdl_fails h ha
    exact .inl ⟨ha, x, by simp [addIdl, hx]⟩
  have hfirst := activateIdl_ok h ha
  have hthis := referenceTo_activated (g := g) ha
  cases hcall : faults.raises .this with
  | some x =>
    refine .inr (.inl ⟨ha, fun hb => by simp [hb.1] at hcall, x, ?_⟩)
    simp [addIdl, hfirst, bindIdl, call_raise hcall]
  | none =>
    by_cases hb : ∃ c, g.hppContext = some c ∧ faults.Binds s.naming c (servantName name)
    · obtain ⟨context, hctx, hb⟩ := hb
      have hbind := bindObject_ok (s := activated s g e.id) (nextId s e.id) rfl hctx hb
      refine .inr (.inr ⟨ha, rfl, context, hctx, hb, ?_⟩)
      simp [addIdl, hfirst, bindIdl, call_ok hcall, hthis, hbind]
    · obtain ⟨x, hx⟩ := bindObject_fails (s := activated s g e.id) (nextId s e.id) rfl hb
      refine .inr (.inl ⟨ha, fun hb' => hb hb'.2, x, ?_⟩)
      simp [addIdl, hfirst, bindIdl, call_ok hcall, hthis, hx]

/-- What a registration leaves, however it ends. -/
theorem Ends.added {name : String} (h : Ends (addIdl faults e name) s t) : ∃ g, s.genericServer = some g ∧
    (t = s ∨ t = activated s g e.id ∨ ∃ context,
      t = (activated s g e.id).withBinding context (servantName name) (nextId s e.id)) := by
  cases hg : s.genericServer with
  | none => exact absurd (by simp [addIdl, activateIdl, member_none hg]) h.defined
  | some g =>
    refine ⟨g, rfl, ?_⟩
    rcases addIdl_cases hg faults e name with ⟨-, x, hx⟩ | ⟨-, -, x, hx⟩ | ⟨-, -, context, -, -, hret⟩
    · exact .inl (h.of_raise hx)
    · exact .inr (.inl (h.of_raise hx))
    · exact .inr (.inr ⟨context, h.of_ret hret⟩)

end Add

section Close

def CorbaProcess.withObjects (s : CorbaProcess) (objects : List ObjectId) : CorbaProcess :=
  { s with poa := { s.poa with activeObjects := objects } }

@[simp] theorem withObjects_twice (s : CorbaProcess) (objects objects' : List ObjectId) :
    (s.withObjects objects).withObjects objects' = s.withObjects objects' := rfl

/-- The process once `stop` is through with the objects of its server. -/
def emptied (s : CorbaProcess) (g : CorbaServerGeneric) (objects : List ObjectId) : CorbaProcess :=
  { s.withObjects objects with genericServer := some { g with idlList := [] } }

/-- The process after its server was stopped and deleted. -/
def closed (s : CorbaProcess) : CorbaProcess :=
  { s with
    orb := .shutDown
    poa := { s.poa with managerActive := false, activeObjects := [] }
    genericServer := none
    serverThread := none }

theorem deactivate_cases (faults : Faults) (h : s.genericServer = some g) (ref : ObjectId) :
    (∃ x, deactivate faults ref s = .raise x s) ∨
      deactivate faults ref s = .ret () (s.withObjects (s.poa.activeObjects.erase ref)) := by
  cases hpoa : g.poa with
  | false => exact .inl ⟨.systemException, by simp [deactivate, member_some h, hpoa]⟩
  | true =>
    cases hcall : faults.raises (.deactivateObject ref) with
    | some x => exact .inl ⟨x, by simp [deactivate, member_some h, hpoa, call_raise hcall]⟩
    | none =>
      by_cases hmem : ref ∈ s.poa.activeObjects
      · refine .inr ?_
        simp [deactivate, member_some h, hpoa, call_ok hcall, deactivateObject, hmem, CorbaProcess.withObjects]
      · refine .inl ⟨.objectNotActive, ?_⟩
        simp [deactivate, member_some h, hpoa, call_ok hcall, deactivateObject, hmem]

/-- The loop of `stop` only takes objects away, also when it is left early. -/
theorem deactivateAll_cases (faults : Faults) (h : s.genericServer = some g) (refs : List ObjectId) :
    ∃ objects, objects.Sublist s.poa.activeObjects ∧
      (deactivateAll faults refs s = .ret () (s.withObjects objects) ∨
        ∃ x, deactivateAll faults refs s = .raise x (s.withObjects objects)) := by
  induction refs generalizing s with
  | nil => exact ⟨_, List.Sublist.refl _, .inl rfl⟩
  | cons ref rest ih =>
    rcases deactivate_cases faults h ref with ⟨x, hx⟩ | hret
    · exact ⟨_, List.Sublist.refl _, .inr ⟨x, by simp only [deactivateAll, Method.bind_apply, hx]; rfl⟩⟩
    · obtain ⟨objects, hsub, hrest⟩ := ih (s := s.withObjects (s.poa.activeObjects.erase ref)) h
      rw [withObjects_twice] at hrest
      refine ⟨objects, hsub.trans List.erase_sublist, ?_⟩
      simpa [deactivateAll, hret] using hrest

/-- How a call to `closeCorbaServer` ends that finds a server. -/
theorem closeCorbaServer_cases (h : s.genericServer = some g) (faults : Faults) :
    (∃ objects x t, objects.Sublist s.poa.activeObjects ∧ closeCorbaServer faults s = .raise x t ∧
      (t = s.withObjects objects ∨ t = emptied s g objects)) ∨
    (s.orb = .running ∧ g.orb = true ∧ ((s.serverThread = none ∧ closeCorbaServer faults s = .undefined) ∨
      (s.serverThread ≠ none ∧ closeCorbaServer faults s = .ret () (closed s)))) := by
  obtain ⟨objects, hsub, hall | ⟨x, hall⟩⟩ := deactivateAll_cases faults h g.idlList
  case inr => exact .inl ⟨objects, x, _, hsub, by simp [closeCorbaServer, h, stop, member_some h, hall], .inl rfl⟩
  have early : ∀ x, stop faults s = .raise x (emptied s g objects) →
      closeCorbaServer faults s = .raise x (emptied s g objects) := by
    intro x hx
    simp [closeCorbaServer, h, hx]
  have hstop : stop faults s = (do through g.orb; faults.call .shutdown; inUse; orbShutdown : Body Unit)
      (emptied s g objects) := by
    simp [stop, member_some h, hall, emptied]
  by_cases horb : g.orb = true
  case neg => exact .inl ⟨objects, .systemException, _, hsub, early _ (by simp [hstop, horb]), .inr rfl⟩
  cases hcall : faults.raises .shutdown with
  | some x => exact .inl ⟨objects, x, _, hsub, early x (by simp [hstop, horb, call_raise hcall]), .inr rfl⟩
  | none =>
    by_cases hrun : s.orb = .running
    case neg =>
      refine .inl ⟨objects, .badInvOrder, _, hsub, early _ ?_, .inr rfl⟩
      simp [hstop, horb, call_ok hcall, inUse_stopped (s := emptied s g objects) hrun]
    refine .inr ⟨hrun, horb, ?_⟩
    have hlast : stop faults s = .ret () { closed s with
        genericServer := some { g with idlList := [] }, serverThread := s.serverThread } := by
      rw [hstop]
      simp [horb, call_ok hcall, inUse_running (s := emptied s g objects) hrun, orbShutdown]
      simp [closed, emptied, CorbaProcess.withObjects, horb]
    cases hthread : s.serverThread with
    | none => exact .inl ⟨rfl, by simp [closeCorbaServer, h, hlast, joinServerThread, hthread]⟩
    | some thread =>
      refine .inr ⟨by simp, ?_⟩
      simp [closeCorbaServer, h, hlast, joinServerThread, hthread, closed]

theorem closeCorbaServer_again (h : s.genericServer = none) : closeCorbaServer faults s = .ret () s := by
  simp [closeCorbaServer, h]

end Close
end DgMiddleware.Corba
