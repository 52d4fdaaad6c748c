import DgMiddleware.Corba.Activation
import DgMiddleware.Corba.Initialisation
import DgMiddleware.Corba.Lifecycle

/-! Starting a servant as one step. It is activated and recorded before it is bound, and
a binding that fails undoes neither. -/
namespace DgMiddleware.Corba
open Library

def CorbaProcess.idlList (s : CorbaProcess) : List ObjectId :=
  (s.genericServer.map (·.idlList)).getD []

/-- The servant is active once, recorded once, and bound under the name of its entity. -/
def Started (e : Entity) (s : CorbaProcess) : Prop :=
  ∃ id g context, s.poa.activeObjects.filter (·.servant = e.id) = [id] ∧
    s.idlList.filter (·.servant = e.id) = [id] ∧ s.genericServer = some g ∧ g.hppContext = some context ∧
    s.naming.bindings context (servantName e.name) = some id

def StartsIn (faults : Faults) (e : Entity) (command : Command) (s : CorbaProcess) : Prop :=
  ∃ t, commandLine faults e command s = .ret () t ∧ Started e t

/-- The command starts the servant, or throws and leaves all objects and records as they
were. Then the servant was started before, or asking again without failures starts it. -/
def StartAtomic (faults : Faults) (e : Entity) (command : Command) (s : CorbaProcess) : Prop :=
  StartsIn faults e command s ∨
    ∃ x t, commandLine faults e command s = .raise x t ∧ t.idlList = s.idlList ∧
      t.poa.activeObjects = s.poa.activeObjects ∧ (Started e s ∨ StartsIn noFaults e command t)

/-- The commands that register the servant. -/
inductive Command.Starts : Command → Prop
  | start : Starts .start
  | initAndStart (cmdArgs : String) : Starts (.initAndStart cmdArgs)

/-- The server misses nothing, and the servant is not active yet. -/
def Ready (s : CorbaProcess) (g : CorbaServerGeneric) (e : Entity) : Prop :=
  noFaults.Activates s g.poa e.id ∧ g.hppContext ≠ none

/-- A servant that the POA takes is bound too. -/
def Registers (faults : Faults) (s : CorbaProcess) (g : CorbaServerGeneric) (e : Entity) : Prop :=
  faults.Activates s g.poa e.id → faults.BindsIn s.naming g.hppContext (servantName e.name)

/-- Without a server, all stages but the last go through; and if all do, a servant that
the POA takes is bound. -/
def InitRegisters (faults : Faults) (s : CorbaProcess) (serverName : String) (e : Entity) : Prop :=
  faults.Opens s serverName ∧ (faults.Completes s serverName → faults.raises .activateObject = none →
    faults.BindsIn s.naming (some (contextName serverName)) (servantName e.name))

/-- With a server, the command finds the servant started or can start it in one step. -/
def StartsOnce (faults : Faults) (s : CorbaProcess) (g : CorbaServerGeneric) (e : Entity) : Prop :=
  Started e s ∨ (Ready s g e ∧ Registers faults s g e)

/-- What commands alone leave: the active objects are the recorded ones. -/
structure Consistent (s : CorbaProcess) : Prop where
  objects : s.poa.activeObjects = s.idlList
  orb : s.orb ≠ .shutDown

section Register
variable {faults : Faults} {s t : CorbaProcess} {g : CorbaServerGeneric} {e : Entity}

theorem idlList_some (h : s.genericServer = some g) : s.idlList = g.idlList := by
  simp [CorbaProcess.idlList, h]

theorem idlList_none (h : s.genericServer = none) : s.idlList = [] := by
  simp [CorbaProcess.idlList, h]

theorem idlList_activated (h : s.genericServer = some g) (servant : Nat) :
    (activated s g servant).idlList = s.idlList ++ [nextId s servant] := by
  rw [idlList_some h]
  rfl

/-- What an initialisation leaves as it was, however it ends. -/
structure Untouched (s t : CorbaProcess) : Prop where
  objects : t.poa.activeObjects = s.poa.activeObjects
  records : t.idlList = s.idlList
  entities : t.entities = s.entities
  orb : t.orb = s.orb ∨ t.orb = .running

theorem init_untouched {c : String} (h : Ends (initCorbaServer faults c) s t) : Untouched s t := by
  cases hg : s.genericServer with
  | some g =>
    obtain rfl := h.of_ret (initCorbaServer_again hg)
    exact ⟨rfl, rfl, rfl, .inl rfl⟩
  | none =>
    have hempty := idlList_none hg
    rcases initCorbaServer_cases faults hg (rfl : decideContext c = _) with
      ⟨-, hret⟩ | ⟨-, -, x, u, hx, rfl | rfl⟩ | ⟨-, x, u, hx, hcut⟩
    · obtain rfl := h.of_ret hret
      exact ⟨rfl, hempty.symm, rfl, .inr rfl⟩
    · obtain rfl := h.of_raise hx
      exact ⟨rfl, hempty.symm, rfl, .inr rfl⟩
    · obtain rfl := h.of_raise hx
      exact ⟨rfl, hempty.symm, rfl, .inr rfl⟩
    · obtain rfl := h.of_raise hx
      obtain ⟨g, hg', hlist, -⟩ := hcut.server
      exact ⟨by rw [hcut.poa], by rw [idlList_some hg', hlist, hempty], hcut.entities, hcut.orb⟩

theorem binds_noFaults (naming : NamingService) (context name : CosName) :
    noFaults.Binds naming context name := by
  by_cases h : naming.bindings context name = none
  · exact .inl ⟨rfl, h⟩
  · exact .inr ⟨rfl, .inr ⟨rfl, h⟩⟩

private theorem started_added {context : CosName} (hs : s.poa.activeObjects = s.idlList)
    (h : s.genericServer = some g) (ha : faults.Activates s g.poa e.id) (hctx : g.hppContext = some context) :
    Started e ((activated s g e.id).withBinding context (servantName e.name) (nextId s e.id)) := by
  have hold : s.poa.activeObjects.filter (·.servant = e.id) = [] := by
    simpa using ha.inactive
  have hlist : ((activated s g e.id).withBinding context (servantName e.name) (nextId s e.id)).idlList =
      s.idlList ++ [nextId s e.id] := idlList_activated h e.id
  have hnew : (nextId s e.id).servant = e.id := rfl
  refine ⟨nextId s e.id, _, context, ?_, ?_, rfl, hctx, rebind_lookup _ _ _ _⟩
  · simp only [CorbaProcess.withBinding, activated, List.filter_append, hold]
    simp [hnew]
  · rw [hlist, List.filter_append, ← hs, hold]
    simp [hnew]

private theorem started_active (h : Started e s) : ∃ id ∈ s.poa.activeObjects, id.servant = e.id := by
  obtain ⟨id, _, _, hactive, -⟩ := h
  have hid : id ∈ s.poa.activeObjects.filter (·.servant = e.id) := by simp [hactive]
  exact ⟨id, List.mem_of_mem_filter hid, by simpa using List.of_mem_filter hid⟩

/-- A servant that is started is not activated another time. -/
private theorem Started.refused (h : Started e s) (faults : Faults) (poa : Bool) : ¬faults.Activates s poa e.id := by
  obtain ⟨id, hid, hservant⟩ := started_active h
  exact fun ha => ha.inactive id hid hservant

/-- With a server there, both commands come down to the registration. -/
private theorem commandLine_registers (faults : Faults) (e : Entity) {command : Command}
    (h : s.genericServer = some g) (hc : command.Starts) :
    commandLine faults e command s = addIdl faults e e.name s := by
  cases hc with
  | start => rfl
  | initAndStart cmdArgs => simp [commandLine, initCorbaServer_again h, registerCorbaServant]

/-- Without failures the servant is started exactly by a server that is ready for it. -/
private theorem starts_iff_ready (hs : s.poa.activeObjects = s.idlList) (h : s.genericServer = some g)
    {command : Command} (hc : command.Starts) : StartsIn noFaults e command s ↔ Ready s g e := by
  rw [StartsIn, commandLine_registers noFaults e h hc]
  rcases addIdl_cases h noFaults e e.name with ⟨hno, x, hx⟩ | ⟨-, hno, x, hx⟩ | ⟨ha, -, context, hctx, -, hret⟩
  · exact iff_of_false (by simp [hx]) fun hr => hno hr.1
  · refine iff_of_false (by simp [hx]) fun hr => hno ?_
    obtain ⟨context, hctx⟩ := Option.ne_none_iff_exists'.mp hr.2
    exact ⟨rfl, context, hctx, binds_noFaults _ _ _⟩
  · exact iff_of_true ⟨_, hret, started_added hs h ha hctx⟩ ⟨ha, by simp [hctx]⟩

private theorem startAtomic_registers (faults : Faults) (e : Entity) {command : Command}
    (hs : s.poa.activeObjects = s.idlList) (h : s.genericServer = some g) (hc : command.Starts) :
    StartAtomic faults e command s ↔ StartsOnce faults s g e := by
  have hcmd := commandLine_registers faults e h hc
  rcases addIdl_cases h faults e e.name with ⟨hno, x, hx⟩ | ⟨ha, hno, x, hx⟩ | ⟨ha, hthis, context, hctx, hb, hret⟩
  · -- refused, and all is as it was
    have hraise : commandLine faults e command s = .raise x s := hcmd.trans hx
    constructor
    · rintro (⟨t, ht, -⟩ | ⟨y, t, ht, -, -, hagain⟩)
      · rw [hraise] at ht
        cases ht
      · rw [hraise] at ht
        cases ht
        exact hagain.imp_right fun hagain => ⟨(starts_iff_ready hs h hc).mp hagain, fun ha => absurd ha hno⟩
    · exact fun honce => .inr ⟨x, s, hraise, rfl, rfl,
        honce.imp_right fun hready => (starts_iff_ready hs h hc).mpr hready.1⟩
  · -- stuck between the activation and the binding
    refine iff_of_false ?_ ?_
    · rintro (⟨t, ht, -⟩ | ⟨y, t, ht, hsame, -⟩)
      · rw [hcmd, hx] at ht
        cases ht
      · rw [hcmd, hx] at ht
        cases ht
        rw [idlList_activated h] at hsame
        simp at hsame
    · rintro (hstarted | ⟨-, hr⟩)
      · exact hstarted.refused faults g.poa ha
      · exact hno (hr ha)
  · have hready : Ready s g e := ⟨⟨ha.poa, rfl, ha.running, ha.inactive⟩, by simp [hctx]⟩
    exact iff_of_true (.inl ⟨_, hcmd.trans hret, started_added hs h ha hctx⟩)
      (.inr ⟨hready, fun _ => ⟨hthis, context, hctx, hb⟩⟩)

private theorem no_objects (hs : Consistent s) (h : s.genericServer = none) : s.poa.activeObjects = [] := by
  rw [hs.objects, idlList_none h]

/-- A server that was cut short takes no servant, whatever is tried again. -/
private theorem cutShort_stuck {command : Command} (hs : Consistent s) (h : s.genericServer = none)
    (hcut : CutShort s t) (hc : command.Starts) : ¬StartsIn noFaults e command t := by
  obtain ⟨g, hg, hlist, hmissing⟩ := hcut.server
  have hobjects : t.poa.activeObjects = t.idlList := by
    rw [hcut.poa, no_objects hs h, idlList_some hg, hlist]
  rw [starts_iff_ready hobjects hg hc]
  rintro ⟨ha, hctx⟩
  rcases hmissing with hpoa | hnone
  · simp [ha.poa] at hpoa
  · exact hctx hnone

/-- A server that misses nothing but its last stage can be given the servant again. -/
private theorem starts_opened {serverName : String} (hs : Consistent s) (h : s.genericServer = none)
    (ht : t = opened s serverName ∨ t = (opened s serverName).withManager ∨ t = served s serverName)
    (command : Command) (hc : command.Starts) :
    t.idlList = s.idlList ∧ t.poa.activeObjects = s.poa.activeObjects ∧ StartsIn noFaults e command t := by
  have hg : t.genericServer = some ⟨serverName, true, true, some (contextName serverName), []⟩ := by
    rcases ht with rfl | rfl | rfl <;> rfl
  have hactive : t.poa.activeObjects = s.poa.activeObjects := by
    rcases ht with rfl | rfl | rfl <;> rfl
  have horb : t.orb = .running := by
    rcases ht with rfl | rfl | rfl <;> rfl
  have hlist : t.idlList = s.idlList := by rw [idlList_some hg, idlList_none h]
  have ha : noFaults.Activates t true e.id := ⟨rfl, rfl, horb, by rw [hactive, no_objects hs h]; simp⟩
  exact ⟨hlist, hactive, (starts_iff_ready (by rw [hactive, hlist, hs.objects]) hg hc).mpr ⟨ha, by simp⟩⟩

private theorem not_started_none (hs : Consistent s) (h : s.genericServer = none)
    (ht : t.poa.activeObjects = s.poa.activeObjects) : ¬Started e t := by
  intro hstarted
  obtain ⟨id, hid, -⟩ := started_active hstarted
  rw [ht, no_objects hs h] at hid
  cases hid

private theorem served_startsOnce {serverName : String} (hs : Consistent s) (h : s.genericServer = none) :
    StartsOnce faults (served s serverName)
      ⟨serverName, true, true, some (contextName serverName), []⟩ e ↔
    (faults.raises .activateObject = none →
      faults.BindsIn s.naming (some (contextName serverName)) (servantName e.name)) := by
  have hnone : ∀ id ∈ (served s serverName).poa.activeObjects, id.servant ≠ e.id := by
    have hempty : (served s serverName).poa.activeObjects = s.poa.activeObjects := rfl
    rw [hempty, no_objects hs h]
    simp
  have hbindings : (served s serverName).naming.bindings = s.naming.bindings := withContext_bindings _ _
  have hready : Ready (served s serverName) ⟨serverName, true, true, some (contextName serverName), []⟩ e :=
    ⟨⟨rfl, rfl, rfl, hnone⟩, by simp⟩
  have hnew : ¬Started e (served s serverName) := not_started_none hs h rfl
  simp only [StartsOnce, hready, hnew, true_and, false_or, Registers, Faults.BindsIn, Faults.Binds, hbindings]
  exact ⟨fun hr hcall => hr ⟨rfl, hcall, rfl, hnone⟩, fun hr ha => hr ha.call⟩

private theorem startAtomic_init {cmdArgs serverName : String} (hs : Consistent s) (h : s.genericServer = none)
    (hname : decideContext (contextArg cmdArgs) = serverName) :
    StartAtomic faults e (.initAndStart cmdArgs) s ↔ InitRegisters faults s serverName e := by
  have hc : (Command.initAndStart cmdArgs).Starts := .initAndStart cmdArgs
  rcases initCorbaServer_cases faults h hname with ⟨hcomp, hret⟩ | ⟨ho, hno, x, t, hx, ht⟩ |
    ⟨hno, x, t, hx, hcut⟩
  · -- the initialisation returns, and the registration decides
    have hserved : (served s serverName).genericServer =
        some ⟨serverName, true, true, some (contextName serverName), []⟩ := rfl
    obtain ⟨hlist, hactive, -⟩ := starts_opened (e := e) (t := served s serverName) hs h (.inr (.inr rfl)) _ hc
    have hcmd : commandLine faults e (.initAndStart cmdArgs) s =
        commandLine faults e (.initAndStart cmdArgs) (served s serverName) := by
      simp [commandLine, hret, initCorbaServer_again hserved]
    have hiff := startAtomic_registers faults e (s := served s serverName)
      (by rw [hactive, hlist, hs.objects]) hserved hc
    rw [served_startsOnce hs h] at hiff
    have hsame : StartAtomic faults e (.initAndStart cmdArgs) s ↔
        StartAtomic faults e (.initAndStart cmdArgs) (served s serverName) := by
      have hfirst : StartsIn faults e (.initAndStart cmdArgs) s ↔
          StartsIn faults e (.initAndStart cmdArgs) (served s serverName) := by rw [StartsIn, hcmd, StartsIn]
      have hbefore : Started e s ↔ Started e (served s serverName) :=
        iff_of_false (not_started_none hs h rfl) (not_started_none hs h hactive)
      rw [StartAtomic, StartAtomic, hfirst, hbefore, hcmd, hlist, hactive]
    rw [hsame, hiff]
    exact ⟨fun hr => ⟨hcomp.opens, fun _ => hr⟩, fun hr => hr.2 hcomp⟩
  · -- only the last stage is missing
    obtain ⟨hlist, hactive, hstarts⟩ := starts_opened (e := e) hs h
      (ht.elim .inl fun ht => .inr (.inl ht)) _ hc
    refine iff_of_true (.inr ⟨x, t, ?_, hlist, hactive, .inr hstarts⟩) ⟨ho, fun hcomp => absurd hcomp hno⟩
    simp [commandLine, hx]
  · -- the server that is left is of no use
    refine iff_of_false ?_ fun hr => hno hr.1
    have hcmd : commandLine faults e (.initAndStart cmdArgs) s = .raise x t := by simp [commandLine, hx]
    rintro (⟨u, hu, -⟩ | ⟨y, u, hu, -, -, hagain⟩)
    · rw [hcmd] at hu
      cases hu
    · rw [hcmd] at hu
      cases hu
      exact hagain.elim (not_started_none hs h rfl) (cutShort_stuck hs h hcut hc)

end Register

section Run
variable {faults : Faults} {s t : CorbaProcess} {e : Entity}

/-- The operation creates an entity, or is a command of one. -/
def FromCommand : Op → Prop
  | .create _ | .command .. => True
  | _ => False

instance : DecidablePred FromCommand
  | .create _ | .command .. => isTrue trivial
  | .initCorbaServer _ | .closeCorbaServer | .destroy _ | .request _ => isFalse id

private theorem consistent_init (hs : Consistent s) {c : String} (h : Ends (initCorbaServer faults c) s t) :
    Consistent t := by
  obtain ⟨hobjects, hrecords, -, horb⟩ := init_untouched h
  refine ⟨by rw [hobjects, hrecords, hs.objects], ?_⟩
  rcases horb with horb | horb
  · rw [horb]
    exact hs.orb
  · simp [horb]

private theorem consistent_add (hs : Consistent s) {name : String} (h : Ends (addIdl faults e name) s t) :
    Consistent t := by
  obtain ⟨g, hg, hend⟩ := h.added
  have hactive : Consistent (activated s g e.id) :=
    ⟨by rw [idlList_activated hg, ← hs.objects]; rfl, hs.orb⟩
  rcases hend with rfl | rfl | ⟨context, rfl⟩
  · exact hs
  · exact hactive
  · exact ⟨hactive.objects, hactive.orb⟩

theorem consistent_step {e : Event} (hs : Consistent s) (hop : FromCommand e.op) (h : Steps s e t) :
    Consistent t := by
  obtain ⟨faults, op, result⟩ := e
  have heffect := h.effect
  cases heffect with
  | nameTaken | noEntity => exact hs
  | created => exact ⟨hs.objects, hs.orb⟩
  | initCorba hfind hinit => exact consistent_init hs hinit
  | initFails hfind hinit => exact consistent_init hs (.inr ⟨_, hinit⟩)
  | start hfind hadd => exact consistent_add hs hadd
  | initAndStart hfind hinit hadd => exact consistent_add (consistent_init hs (.inl hinit)) hadd
  | initialised | closed | notFound | destroyed | requested => exact hop.elim

/-- In every state that commands lead to, starting a servant is one step exactly when
there is a server, and the servant is started already or the server is ready for it and
binds it if the POA takes it; or, for `initAndStart`, when an initialisation is due whose
first stages go through. -/
theorem start_atomic_iff {naming : NamingService} {trace : List (CorbaProcess × Event)}
    (h : Run Steps (.fresh naming) trace s) (hops : ∀ x ∈ trace, FromCommand x.2.op) (faults : Faults)
    (e : Entity) :
    (StartAtomic faults e .start s ↔ ∃ g, s.genericServer = some g ∧ StartsOnce faults s g e) ∧
    ∀ cmdArgs, StartAtomic faults e (.initAndStart cmdArgs) s ↔
      (∃ g, s.genericServer = some g ∧ StartsOnce faults s g e) ∨
      (s.genericServer = none ∧ InitRegisters faults s (decideContext (contextArg cmdArgs)) e) := by
  have hs : Consistent s := h.invariant Consistent (fun _ e => FromCommand e.op) ⟨rfl, by simp [CorbaProcess.fresh]⟩
    (fun _ _ _ hi hc hstep => consistent_step hi hc hstep) hops
  cases hg : s.genericServer with
  | some g =>
    refine ⟨(startAtomic_registers faults e hs.objects hg .start).trans ?_, fun cmdArgs =>
      (startAtomic_registers faults e hs.objects hg (.initAndStart cmdArgs)).trans ?_⟩ <;> simp
  | none =>
    refine ⟨iff_of_false ?_ (by simp), fun cmdArgs => (startAtomic_init hs hg rfl).trans (by simp)⟩
    have hno : commandLine faults e .start s = .undefined := by
      simp [commandLine, registerCorbaServant, addIdl, activateIdl, member_none hg]
    rintro (⟨t, ht, -⟩ | ⟨x, t, ht, -⟩) <;> rw [hno] at ht <;> cases ht

end Run

/-- Two servants, and a server made by a command of the second. -/
def twoServants : List (Faults × Op) :=
  [(noFaults, .create "a"), (noFaults, .create "b"), (noFaults, .command 1 (.initCorba ""))]

/-- What the POA refuses is left as it was, and can be asked again. -/
theorem start_atomic_twoServants :
    StartAtomic (failing .activateObject) ⟨0, "a"⟩ .start (execute (.fresh emptyNaming) twoServants).2 := by
  refine (start_atomic_iff (run_execute (.fresh emptyNaming) twoServants) (by decide +kernel) _ _).1.mpr ?_
  refine ⟨_, rfl, .inr ⟨⟨⟨rfl, rfl, rfl, by decide +kernel⟩, Option.some_ne_none _⟩, ?_⟩⟩
  exact fun ha => absurd ha.call (by simp [failing])

/-- The only command for a server throws at the POA, and leaves the server there without it. -/
def withoutPOA : List (Faults × Op) :=
  [(noFaults, .create "a"), (failing .rootPOA, .command 0 (.initCorba ""))]

/-- A binding that fails leaves the servant active, so that asking again is refused; a
server without its POA refuses every start; and without a server the command has no
defined behaviour. -/
theorem start_half_done : (∃ (trace : List (CorbaProcess × Event)) (s t : CorbaProcess),
    Run Steps (.fresh emptyNaming) trace s ∧ (∀ x ∈ trace, FromCommand x.2.op) ∧
      commandLine (failing .bind) ⟨0, "a"⟩ .start s = .raise .systemException t ∧
      s.idlList = [] ∧ t.idlList = [⟨0, 0⟩] ∧ t.poa.activeObjects = [⟨0, 0⟩] ∧
      commandLine noFaults ⟨0, "a"⟩ .start t = .raise .servantAlreadyActive t ∧
      ¬StartAtomic (failing .bind) ⟨0, "a"⟩ .start s) ∧
    (∃ (trace : List (CorbaProcess × Event)) (s : CorbaProcess),
      Run Steps (.fresh emptyNaming) trace s ∧ (∀ x ∈ trace, FromCommand x.2.op) ∧
      commandLine noFaults ⟨0, "a"⟩ .start s = .raise .systemException s ∧
      ¬StartAtomic noFaults ⟨0, "a"⟩ .start s) ∧
    commandLine noFaults ⟨0, "a"⟩ .start (.fresh emptyNaming) = .undefined := by
  refine ⟨?_, ?_, rfl⟩
  · have hstart : ∃ t, commandLine (failing .bind) ⟨0, "a"⟩ .start (execute (.fresh emptyNaming) twoServants).2 =
        .raise .systemException t ∧ t.idlList = [⟨0, 0⟩] ∧ t.poa.activeObjects = [⟨0, 0⟩] ∧
        commandLine noFaults ⟨0, "a"⟩ .start t = .raise .servantAlreadyActive t :=
      ⟨_, rfl, rfl, rfl, rfl⟩
    obtain ⟨t, hraise, hlist, hactive, hagain⟩ := hstart
    refine ⟨_, _, t, run_execute _ twoServants, by decide +kernel, hraise, rfl, hlist, hactive, hagain, ?_⟩
    rintro (⟨u, hu, -⟩ | ⟨x, u, hu, hsame, -⟩)
    · rw [hraise] at hu
      cases hu
    · rw [hraise] at hu
      cases hu
      rw [hlist] at hsame
      cases hsame
  · have hraise : commandLine noFaults ⟨0, "a"⟩ .start (execute (.fresh emptyNaming) withoutPOA).2 =
        .raise .systemException (execute (.fresh emptyNaming) withoutPOA).2 := rfl
    have hactive : (execute (.fresh emptyNaming) withoutPOA).2.poa.activeObjects = [] := rfl
    refine ⟨_, _, run_execute _ withoutPOA, by decide +kernel, hraise, ?_⟩
    rintro (⟨u, hu, -⟩ | ⟨x, u, hu, -, -, hstarted | ⟨v, hv, -⟩⟩)
    · rw [hraise] at hu
      cases hu
    · obtain ⟨id, hid, -⟩ := started_active hstarted
      rw [hactive] at hid
      cases hid
    · rw [hraise] at hu
      cases hu
      rw [hraise] at hv
      cases hv

end DgMiddleware.Corba
