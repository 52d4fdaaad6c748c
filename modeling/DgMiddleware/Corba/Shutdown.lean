import DgMiddleware.Corba.Lifetimes
import DgMiddleware.Corba.Lookup

/-! What no operation undoes: an ORB that was shut down by a close that returned, and a
close that failed after it had deactivated a servant. -/
namespace DgMiddleware.Corba
open Library
variable {faults : Faults} {s t u : CorbaProcess} {e : Event} {trace later : List (CorbaProcess × Event)}

section Ended

/-- The ORB was shut down, and its POA holds nothing. -/
structure Ended (s : CorbaProcess) : Prop where
  orb : s.orb = .shutDown
  objects : s.poa.activeObjects = []

/-- An initialisation neither shuts an ORB down nor replaces one that was. -/
theorem shutDown_apart : ApartFromInit fun s => decide (s.orb = .shutDown) := by
  refine ⟨fun _ _ => rfl, fun s => ?_, fun _ _ => rfl, fun _ => rfl, fun _ => rfl⟩
  cases horb : s.orb <;> simp

private theorem init_ended (hs : Ended s) {c : String} (h : Ends (initCorbaServer faults c) s t) : Ended t := by
  refine ⟨?_, (init_untouched h).objects.trans hs.objects⟩
  have hsame := h.left (init_leaves shutDown_apart c)
  simpa [hs.orb] using hsame

/-- Such an ORB takes no servant. -/
private theorem add_ended (hs : Ended s) {entity : Entity} {name : String}
    (h : Ends (addIdl faults entity name) s t) : t = s := by
  obtain ⟨g, hg, -⟩ := h.added
  rcases addIdl_cases hg faults entity name with ⟨-, x, hx⟩ | ⟨ha, -⟩ | ⟨ha, -⟩
  · exact h.of_raise hx
  · exact absurd ha.running (by simp [hs.orb])
  · exact absurd ha.running (by simp [hs.orb])

private theorem close_ended (hs : Ended s) (h : Ends (closeCorbaServer faults) s t) : Ended t := by
  rcases h.close_cases with ⟨-, rfl⟩ | ⟨g, -, ⟨objects, hsub, hleft⟩ | ⟨hrun, -⟩⟩
  · exact hs
  · have hempty : objects = [] := by
      rw [hs.objects] at hsub
      exact List.sublist_nil.mp hsub
    subst hempty
    rcases hleft with rfl | rfl <;> exact ⟨hs.orb, rfl⟩
  · simp [hs.orb] at hrun

theorem Ended.step (hs : Ended s) (h : Steps s e t) : Ended t := by
  obtain ⟨faults, op, result⟩ := e
  have heffect := h.effect
  cases heffect with
  | initialised hinit => exact init_ended hs hinit
  | closed hclose => exact close_ended hs hclose
  | nameTaken | notFound | noEntity | requested => exact hs
  | created | destroyed => exact ⟨hs.orb, hs.objects⟩
  | initCorba hfind hinit => exact init_ended hs hinit
  | initFails hfind hinit => exact init_ended hs (.inr ⟨_, hinit⟩)
  | start hfind hadd => exact add_ended hs hadd ▸ hs
  | initAndStart hfind hinit hadd =>
    have hinit := init_ended hs (.inl hinit)
    exact add_ended hinit hadd ▸ hinit

theorem Ended.registers_nothing (hs : Ended s) (h : Steps s e t) :
    registration s e = none ∧ t.naming.bindings = s.naming.bindings := by
  rcases naming_step h with ⟨context, entity, -, -, hbound⟩ | ⟨hnone, hunbound⟩
  · have horb := (hs.step h).orb
    simp [hbound.orb] at horb
  · exact ⟨hnone, hunbound.bindings⟩

/-- After a close that found a server and returned, whatever is asked for: no registration
returns, no server runs, no request is answered, and the names stay bound to nobody. -/
theorem closed_for_good (hserver : s.genericServer ≠ none) (hclose : closeCorbaServer faults s = .ret () t)
    (h : Run Steps t later u) :
    (∀ y ∈ later, registration y.1 y.2 = none) ∧ ¬Running u ∧ u.naming.bindings = s.naming.bindings ∧
      (∀ context name, reaches u context name = none) ∧ ∀ object, ∃ x, request object u = .raise x u := by
  obtain ⟨g, hg⟩ := Option.ne_none_iff_exists'.mp hserver
  have hclosed : t = closed s := by
    rcases closeCorbaServer_cases hg faults with ⟨_, x, v, -, hx, -⟩ | ⟨-, -, ⟨-, hno⟩ | ⟨-, hret⟩⟩
    · simp [hclose] at hx
    · simp [hclose] at hno
    · exact Ends.of_ret (.inl hclose) hret
  subst hclosed
  have hstart : Ended (closed s) ∧ (closed s).naming.bindings = s.naming.bindings := ⟨⟨rfl, rfl⟩, rfl⟩
  obtain ⟨hthrough, hended, hbindings⟩ := h.always
    (fun v => Ended v ∧ v.naming.bindings = s.naming.bindings) hstart
    fun _ _ _ hi hs => ⟨hi.1.step hs, (hi.1.registers_nothing hs).2.trans hi.2⟩
  refine ⟨fun y hy => ?_, fun hrun => ?_, hbindings, fun context name => ?_, fun object => ?_⟩
  · obtain ⟨v, hstep, -⟩ := h.successor hy
    exact ((hthrough y hy).1.registers_nothing hstep).1
  · exact absurd hrun.orb (by simp [hended.orb])
  · simp [reaches, hended.orb]
  · exact ⟨.systemException, by simp [request, hended.orb]⟩

end Ended

section Wedged

/-- The ids that are held were given out, and no object is active twice. -/
structure Issued (s : CorbaProcess) : Prop where
  below : ∀ id ∈ s.held, id.serial < s.poa.nextSerial
  distinct : s.poa.activeObjects.Nodup

/-- The server starts its loop of deactivations with an object that is not active. -/
structure Wedged (ref : ObjectId) (s : CorbaProcess) : Prop where
  server : ∃ g rest, s.genericServer = some g ∧ g.idlList = ref :: rest
  inactive : ref ∉ s.poa.activeObjects
  issued : ref.serial < s.poa.nextSerial

private theorem init_issued (hs : Issued s) {c : String} (h : Ends (initCorbaServer faults c) s t) : Issued t := by
  obtain ⟨hobjects, hrecords, -, -⟩ := init_untouched h
  refine ⟨fun id hid => ?_, hobjects ▸ hs.distinct⟩
  rw [(init_naming h).2]
  refine hs.below id ?_
  rwa [CorbaProcess.held, hobjects, hrecords] at hid

private theorem add_issued (hs : Issued s) {entity : Entity} {name : String}
    (h : Ends (addIdl faults entity name) s t) : Issued t := by
  obtain ⟨g, hg, hend⟩ := h.added
  have hactive : Issued (activated s g entity.id) := by
    have hobjects : (activated s g entity.id).poa.activeObjects = s.poa.activeObjects ++ [nextId s entity.id] := rfl
    refine ⟨fun id hid => ?_, ?_⟩
    · have hbound : (activated s g entity.id).poa.nextSerial = s.poa.nextSerial + 1 := rfl
      rw [hbound]
      by_cases hnew : id = nextId s entity.id
      · rw [hnew]
        exact Nat.lt_succ_self _
      · refine Nat.lt_succ_of_lt (hs.below id ?_)
        simpa [CorbaProcess.held, idlList_activated hg, hobjects, hnew] using hid
    · rw [hobjects]
      refine hs.distinct.append (List.nodup_singleton _) ?_
      rw [List.disjoint_singleton]
      exact fun hmem => Nat.lt_irrefl _ (hs.below _ (List.mem_append_left _ hmem))
  rcases hend with rfl | rfl | ⟨context, rfl⟩
  · exact hs
  · exact hactive
  · exact ⟨hactive.below, hactive.distinct⟩

private theorem close_issued (hs : Issued s) (h : Ends (closeCorbaServer faults) s t) : Issued t := by
  rcases h.close_cases with ⟨-, rfl⟩ | ⟨g, -, ⟨objects, hsub, rfl | rfl⟩ | ⟨-, rfl⟩⟩
  · exact hs
  · refine ⟨fun id hid => hs.below id ?_, hs.distinct.sublist hsub⟩
    exact (List.mem_append.mp hid).elim (fun hid => List.mem_append_left _ (hsub.subset hid))
      fun hid => List.mem_append_right _ hid
  · refine ⟨fun id hid => hs.below id (List.mem_append_left _ (hsub.subset ?_)), hs.distinct.sublist hsub⟩
    simpa [CorbaProcess.held, CorbaProcess.idlList, emptied, CorbaProcess.withObjects] using hid
  · exact ⟨fun id hid => by simp [CorbaProcess.held, CorbaProcess.idlList, closed] at hid, List.nodup_nil⟩

theorem Issued.step (hs : Issued s) (h : Steps s e t) : Issued t := by
  obtain ⟨faults, op, result⟩ := e
  have heffect := h.effect
  cases heffect with
  | initialised hinit => exact init_issued hs hinit
  | closed hclose => exact close_issued hs hclose
  | nameTaken | notFound | noEntity | requested => exact hs
  | created | destroyed => exact ⟨hs.below, hs.distinct⟩
  | initCorba hfind hinit => exact init_issued hs hinit
  | initFails hfind hinit => exact init_issued hs (.inr ⟨_, hinit⟩)
  | start hfind hadd => exact add_issued hs hadd
  | initAndStart hfind hinit hadd => exact add_issued (init_issued hs (.inl hinit)) hadd

theorem Issued.run {naming : NamingService} (h : Run Steps (.fresh naming) trace s) : Issued s := by
  refine h.invariant Issued (fun _ _ => True) ⟨fun id hid => ?_, List.nodup_nil⟩ (fun _ _ _ hi _ hs => hi.step hs)
    fun _ _ => trivial
  simp [CorbaProcess.held, CorbaProcess.fresh, CorbaProcess.idlList] at hid

/-- The loop of a close stops at its first object, or takes it away. -/
private theorem deactivateAll_head {g : CorbaServerGeneric} (h : s.genericServer = some g) (ref : ObjectId)
    (rest : List ObjectId) : (∃ x, deactivateAll faults (ref :: rest) s = .raise x s) ∨
      ∃ objects, objects.Sublist (s.poa.activeObjects.erase ref) ∧
        (deactivateAll faults (ref :: rest) s = .ret () (s.withObjects objects) ∨
          ∃ x, deactivateAll faults (ref :: rest) s = .raise x (s.withObjects objects)) := by
  rcases deactivate_cases faults h ref with ⟨x, hx⟩ | hret
  · exact .inl ⟨x, by simp [deactivateAll, hx]⟩
  · obtain ⟨objects, hsub, hrest⟩ :=
      deactivateAll_cases (s := s.withObjects (s.poa.activeObjects.erase ref)) faults h rest
    rw [withObjects_twice] at hrest
    exact .inr ⟨objects, hsub, by simpa [deactivateAll, hret] using hrest⟩

/-- A close that fails with ids left in the list failed in its loop. -/
private theorem close_in_loop {g : CorbaServerGeneric} {x : CorbaException} (hg : s.genericServer = some g)
    (h : closeCorbaServer faults s = .raise x t) (hleft : t.idlList ≠ []) :
    deactivateAll faults g.idlList s = .raise x t := by
  obtain ⟨objects, -, hall | ⟨y, hall⟩⟩ := deactivateAll_cases faults hg g.idlList
  · have hend : Leaves (·.idlList) (do through g.orb; faults.call .shutdown; inUse; orbShutdown : Body Unit) :=
      .bind (through_leaves _) fun _ => .bind (call_leaves _) fun _ => .bind inUse_leaves fun _ =>
        .update _ fun _ => rfl
    have hkept := hend (emptied s g objects)
    have hstop : stop faults s = (do through g.orb; faults.call .shutdown; inUse; orbShutdown : Body Unit)
        (emptied s g objects) := by
      simp [stop, member_some hg, hall, emptied]
    cases hlast : (do through g.orb; faults.call .shutdown; inUse; orbShutdown : Body Unit) (emptied s g objects) with
    | ret a u =>
      rw [hlast] at hstop
      cases hthread : u.serverThread <;> simp [closeCorbaServer, hg, hstop, joinServerThread, hthread] at h
    | raise y u =>
      rw [hlast] at hstop hkept
      have hraise : closeCorbaServer faults s = .raise y u := by simp [closeCorbaServer, hg, hstop]
      rw [h] at hraise
      cases hraise
      exact absurd hkept hleft
    | undefined =>
      rw [hlast] at hstop
      simp [closeCorbaServer, hg, hstop] at h
  · have hraise : closeCorbaServer faults s = .raise y (s.withObjects objects) := by
      simp [closeCorbaServer, hg, stop, member_some hg, hall]
    rw [h] at hraise
    cases hraise
    exact hall

/-- Whoever fails in the loop after a deactivation leaves the list as it was. -/
theorem close_wedges {x : CorbaException} (hs : Issued s) (h : closeCorbaServer faults s = .raise x t)
    (hleft : t.idlList ≠ []) (hsome : t.poa.activeObjects ≠ s.poa.activeObjects) :
    ∃ ref, Wedged ref t := by
  cases hg : s.genericServer with
  | none => simp [closeCorbaServer_again hg] at h
  | some g =>
    have hloop := close_in_loop hg h hleft
    cases hlist : g.idlList with
    | nil => simp [hlist, deactivateAll] at hloop
    | cons ref rest =>
      rw [hlist] at hloop
      rcases deactivateAll_head hg ref rest with ⟨y, hy⟩ | ⟨objects, hsub, hret | ⟨y, hy⟩⟩
      · rw [hy] at hloop
        cases hloop
        exact absurd rfl hsome
      · rw [hret] at hloop
        cases hloop
      · rw [hy] at hloop
        cases hloop
        refine ⟨ref, ⟨g, rest, hg, hlist⟩, fun hmem => ?_, hs.below ref (List.mem_append_right _ ?_)⟩
        · exact ((hs.distinct.mem_erase_iff).mp (hsub.subset hmem)).1 rfl
        · simp [idlList_some hg, hlist]

theorem Wedged.close {ref : ObjectId} (hs : Wedged ref s) (faults : Faults) :
    ∃ x, closeCorbaServer faults s = .raise x s := by
  obtain ⟨g, rest, hg, hlist⟩ := hs.server
  have hfirst : ∃ x, deactivate faults ref s = .raise x s := by
    cases hpoa : g.poa with
    | false => exact ⟨.systemException, by simp [deactivate, member_some hg, hpoa]⟩
    | true =>
      cases hcall : faults.raises (.deactivateObject ref) with
      | some x => exact ⟨x, by simp [deactivate, member_some hg, hpoa, call_raise hcall]⟩
      | none =>
        refine ⟨.objectNotActive, ?_⟩
        simp [deactivate, member_some hg, hpoa, call_ok hcall, deactivateObject, hs.inactive]
  obtain ⟨x, hx⟩ := hfirst
  exact ⟨x, by simp [closeCorbaServer, hg, stop, member_some hg, hlist, deactivateAll, hx]⟩

private theorem Wedged.init {ref : ObjectId} (hs : Wedged ref s) {c : String}
    (h : Ends (initCorbaServer faults c) s t) : t = s := by
  obtain ⟨g, rest, hg, -⟩ := hs.server
  exact h.of_ret (initCorbaServer_again hg)

private theorem Wedged.add {ref : ObjectId} (hs : Wedged ref s) {entity : Entity} {name : String}
    (h : Ends (addIdl faults entity name) s t) : Wedged ref t := by
  obtain ⟨g, rest, hg, hlist⟩ := hs.server
  obtain ⟨g', hg', hend⟩ := h.added
  obtain rfl := Option.some.inj (hg.symm.trans hg')
  have hactive : Wedged ref (activated s g entity.id) := by
    refine ⟨⟨_, rest ++ [nextId s entity.id], rfl, by simp [hlist]⟩, ?_, Nat.lt_succ_of_lt hs.issued⟩
    have hnew : ref ≠ nextId s entity.id := by
      rintro rfl
      exact Nat.lt_irrefl _ hs.issued
    simp [activated, hs.inactive, hnew]
  rcases hend with rfl | rfl | ⟨context, rfl⟩
  · exact hs
  · exact hactive
  · exact ⟨hactive.server, hactive.inactive, hactive.issued⟩

theorem Wedged.step {ref : ObjectId} (hs : Wedged ref s) (h : Steps s e t) : Wedged ref t := by
  obtain ⟨faults, op, result⟩ := e
  have heffect := h.effect
  cases heffect with
  | initialised hinit => exact hs.init hinit ▸ hs
  | closed hclose =>
    obtain ⟨x, hx⟩ := hs.close faults
    exact hclose.of_raise hx ▸ hs
  | nameTaken | notFound | noEntity | requested => exact hs
  | created | destroyed => exact ⟨hs.server, hs.inactive, hs.issued⟩
  | initCorba hfind hinit => exact hs.init hinit ▸ hs
  | initFails hfind hinit => exact hs.init (.inr ⟨_, hinit⟩) ▸ hs
  | start hfind hadd => exact hs.add hadd
  | initAndStart hfind hinit hadd => exact (hs.init (.inl hinit) ▸ hs).add hadd

/-- A close that failed after it had deactivated a servant can never be made up for: in
every state that follows it the server is still there, and to close it fails at once,
whether or not a call fails, and changes nothing. -/
theorem close_wedged {naming : NamingService} {x : CorbaException} (h : Run Steps (.fresh naming) trace s)
    (hclose : closeCorbaServer faults s = .raise x t) (hleft : t.idlList ≠ [])
    (hsome : t.poa.activeObjects ≠ s.poa.activeObjects) (hlater : Run Steps t later u) :
    u.genericServer ≠ none ∧ ∀ faults', ∃ y, closeCorbaServer faults' u = .raise y u := by
  obtain ⟨ref, hwedged⟩ := close_wedges (Issued.run h) hclose hleft hsome
  have hu := (hlater.always (Wedged ref) hwedged fun _ _ _ hi hs => hi.step hs).2
  obtain ⟨g, rest, hg, -⟩ := hu.server
  exact ⟨by simp [hg], hu.close⟩

end Wedged

/-- A server with two servants, closed, and asked for everything again. -/
def closedThenAsked : List (Faults × Op) :=
  [(noFaults, .initCorbaServer ""), (noFaults, .create "b"), (noFaults, .command 1 .start),
    (noFaults, .request ⟨0, 0⟩)]

def twoStarted : List (Faults × Op) :=
  [(noFaults, .create "a"), (noFaults, .command 0 (.initAndStart "")), (noFaults, .create "b"),
    (noFaults, .command 1 .start)]

/-- Only the deactivation of one object throws. -/
def keeping (ref : ObjectId) : Faults := failing (.deactivateObject ref)

theorem closed_for_good_asked : ∃ t : CorbaProcess,
    closeCorbaServer noFaults (execute (.fresh emptyNaming) twoStarted).2 = .ret () t ∧
      reaches (execute t closedThenAsked).2 (contextName "sot") (servantName "a") = none := by
  have hserver : (execute (.fresh emptyNaming) twoStarted).2.genericServer ≠ none := by decide +kernel
  have hret : (match closeCorbaServer noFaults (execute (.fresh emptyNaming) twoStarted).2 with
      | .ret _ _ => true
      | _ => false) = true := by decide +kernel
  generalize (execute (.fresh emptyNaming) twoStarted).2 = s at hserver hret
  cases hclose : closeCorbaServer noFaults s with
  | ret a t =>
    obtain ⟨-, -, -, hreach, -⟩ := closed_for_good hserver hclose (run_execute t closedThenAsked)
    exact ⟨t, rfl, hreach _ _⟩
  | raise | undefined => simp [hclose] at hret

/-- The second object cannot be deactivated, the first one could be. -/
theorem close_wedged_second : ∃ (t : CorbaProcess) (x y : CorbaException),
    closeCorbaServer (keeping ⟨1, 1⟩) (execute (.fresh emptyNaming) twoStarted).2 = .raise x t ∧
      t.poa.activeObjects = [⟨1, 1⟩] ∧
      closeCorbaServer noFaults (execute t closedThenAsked).2 = .raise y (execute t closedThenAsked).2 := by
  have hrun := run_execute (.fresh emptyNaming) twoStarted
  have hbefore : (execute (.fresh emptyNaming) twoStarted).2.poa.activeObjects = [⟨0, 0⟩, ⟨1, 1⟩] := by
    decide +kernel
  have hraise : (match closeCorbaServer (keeping ⟨1, 1⟩) (execute (.fresh emptyNaming) twoStarted).2 with
      | .raise _ t => decide (t.idlList = [⟨0, 0⟩, ⟨1, 1⟩] ∧ t.poa.activeObjects = [⟨1, 1⟩])
      | _ => false) = true := by decide +kernel
  generalize (execute (.fresh emptyNaming) twoStarted).2 = s at hrun hbefore hraise
  cases hclose : closeCorbaServer (keeping ⟨1, 1⟩) s with
  | raise x t =>
    rw [hclose] at hraise
    obtain ⟨hleft, hactive⟩ := of_decide_eq_true hraise
    obtain ⟨-, hagain⟩ := close_wedged hrun hclose (by simp [hleft]) (by simp [hactive, hbefore])
      (run_execute t closedThenAsked)
    obtain ⟨y, hy⟩ := hagain noFaults
    exact ⟨t, x, y, rfl, hactive, hy⟩
  | ret | undefined => simp [hclose] at hraise

end DgMiddleware.Corba
