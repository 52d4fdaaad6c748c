import DgMiddleware.Corba.Servants

/-! The lifetime of servants. An entity belongs to the pool and its activation to the
server; nothing but the end of the server takes an object away. -/
namespace DgMiddleware.Corba
open Library

/-- The ids that the POA or the server still holds. -/
def CorbaProcess.held (s : CorbaProcess) : List ObjectId := s.poa.activeObjects ++ s.idlList

/-- Every id that is held belongs to an entity that was not destroyed. -/
def ServantsAlive (s : CorbaProcess) : Prop :=
  ∀ id ∈ s.held, ∃ entity ∈ s.entities, entity.id = id.servant

/-- No id is left of a destroyed entity, and no request goes to one. -/
structure ServantsSafe (s : CorbaProcess) : Prop where
  alive : ServantsAlive s
  dispatched : ∀ faults object, perform faults (.request object) s ≠ .undefined

def Op.destroyed : Op → Option Nat
  | .destroy id => some id
  | _ => none

/-- The event destroys no entity of which an id is held. -/
def DestroysUnheld (s : CorbaProcess) (e : Event) : Prop :=
  ∀ servant ∈ e.op.destroyed, ∀ id ∈ s.held, id.servant ≠ servant

instance (s : CorbaProcess) (e : Event) : Decidable (DestroysUnheld s e) := by
  unfold DestroysUnheld
  infer_instance

section Held
variable {faults : Faults} {s t : CorbaProcess} {e : Entity}

private theorem ServantsAlive.kept (hs : ServantsAlive s) (hentities : t.entities = s.entities)
    (hheld : ∀ id ∈ t.held, id ∈ s.held ∨ ∃ entity ∈ s.entities, entity.id = id.servant) : ServantsAlive t := by
  intro id hid
  rw [hentities]
  exact (hheld id hid).elim (hs id) fun hnew => hnew

theorem servantsSafe_iff : ServantsSafe s ↔ ServantsAlive s := by
  refine ⟨ServantsSafe.alive, fun h => ⟨h, fun faults object => ?_⟩⟩
  by_cases hup : s.orb = .running ∧ s.poa.managerActive = true ∧ object ∈ s.poa.activeObjects
  · obtain ⟨entity, hmem, hid⟩ := h object (List.mem_append_left _ hup.2.2)
    have hfind : s.entities.find? (·.id = object.servant) ≠ none := by
      simp only [ne_eq, List.find?_eq_none, not_forall]
      exact ⟨entity, hmem, by simpa using hid⟩
    obtain ⟨found, hfound⟩ := Option.ne_none_iff_exists'.mp hfind
    simp [perform, request, hup, hfound]
  · simp [perform, request, hup]

private theorem alive_init (hs : ServantsAlive s) {c : String} (h : Ends (initCorbaServer faults c) s t) :
    ServantsAlive t := by
  obtain ⟨hobjects, hrecords, hentities, -⟩ := init_untouched h
  refine hs.kept hentities fun id hid => .inl ?_
  rwa [CorbaProcess.held, hobjects, hrecords] at hid

/-- A close only takes ids away. -/
private theorem alive_close (hs : ServantsAlive s) (h : Ends (closeCorbaServer faults) s t) : ServantsAlive t := by
  cases hg : s.genericServer with
  | none => exact h.of_ret (closeCorbaServer_again hg) ▸ hs
  | some g =>
    rcases closeCorbaServer_cases hg faults with
      ⟨objects, x, u, hsub, hx, rfl | rfl⟩ | ⟨-, -, ⟨-, hno⟩ | ⟨-, hret⟩⟩
    · obtain rfl := h.of_raise hx
      refine hs.kept rfl fun id hid => .inl ?_
      rcases List.mem_append.mp hid with hid | hid
      · exact List.mem_append_left _ (hsub.subset hid)
      · exact List.mem_append_right _ hid
    · obtain rfl := h.of_raise hx
      refine hs.kept rfl fun id hid => .inl (List.mem_append_left _ (hsub.subset ?_))
      simpa [CorbaProcess.held, CorbaProcess.idlList, emptied, CorbaProcess.withObjects] using hid
    · exact absurd hno h.defined
    · obtain rfl := h.of_ret hret
      exact hs.kept rfl fun id hid => by simp [CorbaProcess.held, CorbaProcess.idlList, closed] at hid

/-- A registration adds ids of its own entity only. -/
private theorem alive_add (hs : ServantsAlive s) (he : e ∈ s.entities) {name : String}
    (h : Ends (addIdl faults e name) s t) : ServantsAlive t := by
  obtain ⟨g, hg, hend⟩ := h.added
  have hactive : ServantsAlive (activated s g e.id) := by
    refine hs.kept rfl fun id hid => ?_
    have hobjects : (activated s g e.id).poa.activeObjects = s.poa.activeObjects ++ [nextId s e.id] := rfl
    by_cases hnew : id = nextId s e.id
    · exact .inr ⟨e, he, by rw [hnew]; rfl⟩
    · exact .inl (by simpa [CorbaProcess.held, idlList_activated hg, hobjects, hnew] using hid)
  rcases hend with rfl | rfl | ⟨context, rfl⟩
  · exact hs
  · exact hactive
  · exact hactive.kept rfl fun id hid => .inl hid

/-- Destroying an entity leaves its ids where they are. -/
private theorem alive_destroyed (hs : ServantsAlive s) (servant : Nat) :
    ServantsAlive { s with entities := s.entities.filter (·.id ≠ servant) } ↔
      ∀ id ∈ s.held, id.servant ≠ servant := by
  constructor
  · intro ht id hid heq
    obtain ⟨entity, hmem, hserved⟩ := ht id hid
    simp only [ne_eq, decide_not, List.mem_filter, Bool.not_eq_eq_eq_not, Bool.not_true, decide_eq_false_iff_not]
      at hmem
    exact hmem.2 (hserved.trans heq)
  · intro hno id hid
    obtain ⟨entity, hmem, hserved⟩ := hs id hid
    refine ⟨entity, ?_, hserved⟩
    simpa [hmem, hserved] using hno id hid

theorem alive_step {e : Event} (hs : ServantsAlive s) (h : Steps s e t) :
    ServantsAlive t ↔ DestroysUnheld s e := by
  obtain ⟨faults, op, result⟩ := e
  have heffect := h.effect
  unfold DestroysUnheld
  cases heffect with
  | initialised h => exact iff_of_true (alive_init hs h) (by simp [Op.destroyed])
  | closed h => exact iff_of_true (alive_close hs h) (by simp [Op.destroyed])
  | nameTaken | noEntity | requested => exact iff_of_true hs (by simp [Op.destroyed])
  | created =>
    refine iff_of_true (fun id hid => ?_) (by simp [Op.destroyed])
    obtain ⟨entity, hmem, hserved⟩ := hs id hid
    exact ⟨entity, List.mem_append_left _ hmem, hserved⟩
  | notFound hfind =>
    refine iff_of_true hs ?_
    rintro servant ⟨⟩ id hid heq
    obtain ⟨entity, hmem, hserved⟩ := hs id hid
    exact absurd (hserved.trans heq) (by simpa using List.find?_eq_none.mp hfind entity hmem)
  | @destroyed servant entity hfind =>
    obtain rfl : entity.id = servant := by simpa using List.find?_some hfind
    simpa [Op.destroyed] using alive_destroyed hs entity.id
  | initCorba hfind hinit => exact iff_of_true (alive_init hs hinit) (by simp [Op.destroyed])
  | initFails hfind hinit => exact iff_of_true (alive_init hs (.inr ⟨_, hinit⟩)) (by simp [Op.destroyed])
  | start hfind hadd =>
    exact iff_of_true (alive_add hs (List.mem_of_find?_eq_some hfind) hadd) (by simp [Op.destroyed])
  | initAndStart hfind hinit hadd =>
    refine iff_of_true (alive_add (alive_init hs (.inl hinit)) ?_ hadd) (by simp [Op.destroyed])
    rw [(init_untouched (.inl hinit)).entities]
    exact List.mem_of_find?_eq_some hfind

/-- In a run no id ever belongs to a destroyed entity, exactly when no entity is destroyed
of which the POA or the server still holds an id. -/
theorem servantsSafe_run_iff {naming : NamingService} {trace : List (CorbaProcess × Event)}
    (h : Run Steps (.fresh naming) trace s) :
    ((∀ x ∈ trace, ServantsSafe x.1) ∧ ServantsSafe s) ↔ ∀ x ∈ trace, DestroysUnheld x.1 x.2 := by
  simp only [servantsSafe_iff]
  have hfresh : ServantsAlive (.fresh naming) := by
    intro id hid
    simp [CorbaProcess.held, CorbaProcess.fresh, CorbaProcess.idlList] at hid
  exact h.forall_states_iff ServantsAlive DestroysUnheld hfresh fun _ _ _ hs hstep => alive_step hs hstep

end Held

/-- An entity is started and asked, and outlives the server. -/
def servedAndClosed : List (Faults × Op) :=
  [(noFaults, .create "a"), (noFaults, .command 0 (.initAndStart "robot")), (noFaults, .request ⟨0, 0⟩),
    (noFaults, .closeCorbaServer), (noFaults, .destroy 0)]

theorem servantsSafe_servedAndClosed : ServantsSafe (execute (.fresh emptyNaming) servedAndClosed).2 :=
  ((servantsSafe_run_iff (run_execute (.fresh emptyNaming) servedAndClosed)).mpr (by decide +kernel)).2

/-- The entity is destroyed while its servant is active: the next request goes to it. -/
theorem destroyed_servant_called : ∃ (trace : List (CorbaProcess × Event)) (s : CorbaProcess),
    Run Steps (.fresh emptyNaming) trace s ∧ s.entities = [] ∧ s.poa.activeObjects = [⟨0, 0⟩] ∧
      s.idlList = [⟨0, 0⟩] ∧ ¬ServantsSafe s ∧ perform noFaults (.request ⟨0, 0⟩) s = .undefined := by
  have hundefined : perform noFaults (.request ⟨0, 0⟩) (execute (.fresh emptyNaming) [(noFaults, .create "a"),
      (noFaults, .command 0 (.initAndStart "")), (noFaults, .destroy 0)]).2 = .undefined := rfl
  exact ⟨_, _, run_execute _ [(noFaults, .create "a"), (noFaults, .command 0 (.initAndStart "")),
    (noFaults, .destroy 0)], rfl, rfl, rfl, fun hsafe => hsafe.dispatched _ _ hundefined, hundefined⟩

end DgMiddleware.Corba
