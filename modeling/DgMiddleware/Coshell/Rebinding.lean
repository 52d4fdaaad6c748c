import DgMiddleware.Coshell.Submission
import DgMiddleware.Corba.Publication

/-! How a coshell finds its server again. It looks the name up in the naming service, where
every start of the server publishes a reference of its own. -/
namespace DgMiddleware.Coshell.Rebinding
open Library Server Corba
open Publication (clientName Registration)
variable {α : Type}

/-- The coshell and its server, and the naming service that they share with others. A
reference of the servant is the number of the start that made it, and the coshell is the
client 0 of the service. -/
structure World (α : Type) where
  coshell : System α
  service : Publication.System Nat

/-- A step of the coshell or its server, a call to the service, and what the handler makes
of the service: it looks the name up, or does not reach it. -/
inductive Event where
  | coshell (e : Coshell.Event)
  | service (e : Publication.Event Nat)
  | reconnect
  | unreachable

def World.start (server : ServerCommand α) (service : Publication.System Nat) : World α := ⟨.start server, service⟩

/-- What is found is narrowed to the interface of the server, which no context has. -/
def World.found (w : World α) : Option Nat :=
  match w.service.obtained (.reconnectToServant 0) with
  | some (.object ref) => some ref
  | some (.context _) | none => none

/-- A registration of the servant is that of the server that runs. -/
def World.Own (w : World α) (servant : String) (idlStrName : String) (idlObj : Nat) : Prop :=
  idlStrName = servant → w.coshell.remote.alive = true ∧ idlObj = w.coshell.remote.incarnation

instance (w : World α) (servant idlStrName : String) (idlObj : Nat) :
    Decidable (w.Own servant idlStrName idlObj) := by
  unfold World.Own
  infer_instance

/-- No other process publishes under the name of the servant, and none that is dead; the
coshell asks for no other name. -/
def World.admits (w : World α) (servant : String) : Publication.Event Nat → Bool
  | .addIdl _ idlStrName idlObj => w.Own servant idlStrName idlObj
  | .bind r | .rebind r => w.service.registrations[r]?.all fun reg => w.Own servant reg.idlStrName reg.idlObj
  | .connectToServant c _ _ => c ≠ 0
  | .bindNewContext _ | .resolveContext _ | .reconnectToServant _ => true

def World.withCoshell (w : World α) (coshell : Option (System α)) : Option (World α) :=
  coshell.map fun coshell => { w with coshell := coshell }

def World.step (env : Environment α) (servant : String) (w : World α) : Event → Option (World α)
  | .coshell (.reconnect _) => none
  | .coshell e => w.withCoshell (w.coshell.step env e)
  | .service e =>
    if w.admits servant e then (w.service.step e).map fun service => { w with service := service } else none
  | .reconnect => w.withCoshell (w.coshell.step env (.reconnect w.found))
  | .unreachable => w.withCoshell (w.coshell.step env (.reconnect none))

def Steps (env : Environment α) (servant : String) (w : World α) (e : Event) (w' : World α) : Prop :=
  w.step env servant e = some w'

/-- The server that runs has published the servant. -/
def World.Published (w : World α) (servant : String) : Prop :=
  ∃ reg ∈ w.service.registrations, reg.idlStrName = servant ∧ reg.idlObj = w.coshell.remote.incarnation ∧
    reg.stage = .bound

/-- The service when the coshell has connected to the first start of the server. -/
structure Connected (servant : String) (service : Publication.System Nat) : Prop where
  sound : Publication.Sound service
  client : service.clients 0 = some (clientName servant "servant")
  first : ∀ reg ∈ service.registrations, reg.idlStrName = servant → reg.idlObj = 0
  published : ∃ reg ∈ service.registrations, reg.idlStrName = servant ∧ reg.stage = .bound
  found : service.naming.lookup (clientName servant "servant") = some (.object 0)

/-- The turn goes on exactly when the server that runs has published: the line is then
executed by it, and by no server otherwise. -/
structure Rebinds (env : Environment α) (servant : String) (line : Nat) (w t : World α) : Prop where
  live : t.coshell.Live ↔ w.coshell.remote.alive = true ∧ w.Published servant
  answered : t.coshell.Live → ∃ u, Steps env servant t (.coshell (.resubmit .delivered)) u ∧
    u.coshell.phase = .prompt ∧ u.coshell.remote.executed = w.coshell.remote.executed ++ [(line, .again)]
  failed : ¬t.coshell.Live → ∀ fate u, Steps env servant t (.coshell (.resubmit fate)) u →
    u.coshell.phase = .closing true ∧ u.coshell.remote.executed = w.coshell.remote.executed

section Service
variable {s t : Publication.System Nat} {e : Publication.Event Nat} {r : Nat} {reg : Registration Nat}

/-- What is published for a name is found under it, and under no other. -/
theorem lookup_published {naming : Naming CosName Nat} (hs : Publication.Sound s)
    (hreg : s.registrations[r]? = some reg) (hentries : ∀ d k, naming.entries d k =
      if d = reg.hppContext ∧ k = servantName reg.idlStrName then some (.object reg.idlObj)
      else s.naming.entries d k) (n : String) : naming.lookup (clientName n "servant") =
        if reg.idlStrName = n then some (.object reg.idlObj) else s.naming.lookup (clientName n "servant") := by
  have hsot := (hs.registrations reg (List.mem_of_getElem? hreg)).2
  have hsot' : naming.entries Naming.root Publication.sotContext = some (.context reg.hppContext) := by
    rw [hentries, if_neg fun hk => Publication.servantName_ne _ hk.2, hsot]
  rw [Publication.lookup_servant hsot', Publication.lookup_servant hsot, hentries]
  simp [Publication.servantName_inj, eq_comm]

/-- The other registrations stay as they are. -/
theorem mem_withStage_other (hreg : s.registrations[r]? = some reg) {x : Registration Nat}
    (hx : x ∈ s.registrations) (hne : x ≠ reg) (stage : Publication.Stage) :
    x ∈ (s.withStage r stage).registrations := by
  obtain ⟨j, hj⟩ := List.mem_iff_getElem?.mp hx
  have hr : r ≠ j := by
    rintro rfl
    exact hne (Option.some.inj (hj.symm.trans hreg))
  refine List.mem_iff_getElem?.mpr ⟨j, ?_⟩
  rw [Publication.System.withStage, List.getElem?_modify]
  simp [hr, hj]

/-- A registration that makes a call is not bound yet. -/
theorem caller_unbound (h : s.caller e = some reg) : reg.stage ≠ .bound := by
  rcases Publication.caller_cases h with ⟨r, rfl, -⟩ | ⟨r, rfl, -⟩
  · simp [(Publication.caller_bind h).2]
  · simp [(Publication.caller_rebind h).2]

end Service

section Rebinding
variable {env : Environment α} {servant : String} {w w' : World α} {e : Event} {trace : List (World α × Event)}

/-- What is found under the name of the servant was published by one of its starts, and by
the one that runs as soon as it has published. -/
structure Tracked (servant : String) (w : World α) : Prop where
  sound : Publication.Sound w.service
  client : w.service.clients 0 = some (clientName servant "servant")
  made : ∀ reg ∈ w.service.registrations, reg.idlStrName = servant → reg.idlObj ≤ w.coshell.remote.incarnation
  current : w.Published servant → w.service.naming.lookup (clientName servant "servant") =
    some (.object w.coshell.remote.incarnation)
  found : ∀ ref, w.service.naming.lookup (clientName servant "servant") = some (.object ref) →
    ∃ reg ∈ w.service.registrations, reg.idlStrName = servant ∧ reg.idlObj = ref ∧ reg.stage = .bound

/-- No step of the coshell touches the service, and only a restart makes a new server. -/
private theorem tracked_coshell {coshell : System α} (hw : Tracked servant w)
    (h : coshell.remote.incarnation = w.coshell.remote.incarnation ∨
      coshell.remote.incarnation = w.coshell.remote.incarnation + 1) :
    Tracked servant { w with coshell := coshell } := by
  refine ⟨hw.sound, hw.client, fun reg hreg hname => ?_, ?_, hw.found⟩
  · have hle := hw.made reg hreg hname
    show reg.idlObj ≤ coshell.remote.incarnation
    omega
  · rintro ⟨reg, hreg, hname, hobj, hstage⟩
    have hle := hw.made reg hreg hname
    have hsame : coshell.remote.incarnation = w.coshell.remote.incarnation := by
      have hobj : reg.idlObj = coshell.remote.incarnation := hobj
      omega
    rw [hsame] at hobj ⊢
    exact hw.current ⟨reg, hreg, hname, hobj, hstage⟩

@[simp] theorem serve_incarnation {β : Type} (body : Body α β) (remote : Remote α) :
    (remote.serve body).incarnation = remote.incarnation := by
  unfold Remote.serve
  split <;> rfl

private theorem call_incarnation (c : System α) (fate : Fate) {body : Remote α → Remote α}
    (hbody : ∀ remote, (body remote).incarnation = remote.incarnation) :
    (c.call fate body).2.incarnation = c.remote.incarnation := by
  rcases call_cases c fate body with ⟨-, -, hcall⟩ | ⟨-, -, hcall⟩ | ⟨-, hcall⟩ <;> simp [hcall, hbody]

private theorem register_incarnation (c : System α) (fate : Fate) :
    (c.register env fate).remote.incarnation = c.remote.incarnation := by
  refine Eq.trans ?_ (call_incarnation c fate (serve_incarnation (registerClient env.client CLIENT_NAME)))
  unfold System.register
  dsimp only
  split <;> rfl

private theorem close_incarnation (c : System α) (unwinding : Bool) (fate : Fate) :
    (c.close unwinding fate).remote.incarnation = c.remote.incarnation := by
  refine Eq.trans ?_ (call_incarnation c fate (serve_incarnation (unregisterClient CLIENT_NAME)))
  unfold System.close
  dsimp only
  split <;> rfl

private theorem execute_incarnation (remote : Remote α) (line : Nat) (attempt : Attempt) (buffer : String) :
    (remote.execute env line attempt buffer).incarnation = remote.incarnation :=
  serve_incarnation (runAndRead env.shell env.describe buffer) remote

/-- Only a restart makes a new start of the server. -/
private theorem coshell_incarnation {c t : System α} {e : Coshell.Event} (h : Coshell.Steps env c e t) :
    t.remote.incarnation = c.remote.incarnation ∨ t.remote.incarnation = c.remote.incarnation + 1 := by
  have heffect := h.effect
  cases heffect with
  | registered => exact .inl (serve_incarnation _ _)
  | @notRegistered fate remote hphase =>
    simp only [Coshell.Steps, System.step, hphase] at h
    exact .inl ((congrArg (·.remote.incarnation) (Option.some.inj h)).symm.trans (register_incarnation c fate))
  | answered | unanswered | answeredAgain | unansweredAgain => exact .inl (execute_incarnation _ _ _ _)
  | @closed unwinding fate phase remote hphase =>
    simp only [Coshell.Steps, System.step, hphase] at h
    exact .inl ((congrArg (·.remote.incarnation) (Option.some.inj h)).symm.trans (close_incarnation c unwinding fate))
  | skipped | entered | exit | endOfInput | lost | reconnected | notReconnected | lostAgain | crashed =>
    exact .inl rfl
  | restarted => exact .inr rfl

private theorem own_of_admits {e : Publication.Event Nat} {reg : Registration Nat}
    (hadmits : w.admits servant e = true) (hcaller : w.service.caller e = some reg) :
    w.Own servant reg.idlStrName reg.idlObj := by
  rcases Publication.caller_cases hcaller with ⟨r, rfl, hreg⟩ | ⟨r, rfl, hreg⟩ <;>
    simpa [World.admits, hreg] using hadmits

private theorem tracked_service {service : Publication.System Nat} {e : Publication.Event Nat}
    (hw : Tracked servant w) (hadmits : w.admits servant e = true) (h : Publication.Steps w.service e service) :
    Tracked servant { w with service := service } := by
  have hsound := Publication.sound_step hw.sound h
  have heffect := hw.sound.effect h
  cases heffect with
  | @created i c naming hnew hempty hroot hentries =>
    have hnone : ∀ reg, reg ∉ w.service.registrations := by
      intro reg hreg
      have hused := (hw.sound.registrations reg hreg).2
      rw [hnew] at hused
      cases hused
    have hlookup : naming.lookup (clientName servant "servant") = none := by
      have hsot : naming.entries Naming.root Publication.sotContext = some (.context c) := by simp [hentries]
      rw [Publication.lookup_servant hsot, hentries, if_neg fun hc => hroot hc.1, hempty]
    refine ⟨hsound, hw.client, fun reg hreg => absurd hreg (hnone reg), ?_, fun ref href => ?_⟩
    · rintro ⟨reg, hreg, -⟩
      exact absurd hreg (hnone reg)
    · rw [hlookup] at href
      cases href
  | existing | resolved | reconnected => exact ⟨hsound, hw.client, hw.made, hw.current, hw.found⟩
  | @begun i c idlStrName idlObj =>
    refine ⟨hsound, hw.client, fun reg hreg hname => ?_, ?_, fun ref href => ?_⟩
    · rcases List.mem_append.mp hreg with hreg | hreg
      · exact hw.made reg hreg hname
      · obtain rfl := List.mem_singleton.mp hreg
        exact (of_decide_eq_true hadmits hname).2.le
    · rintro ⟨reg, hreg, hname, hobj, hstage⟩
      rcases List.mem_append.mp hreg with hreg | hreg
      · exact hw.current ⟨reg, hreg, hname, hobj, hstage⟩
      · rw [List.mem_singleton.mp hreg] at hstage
        cases hstage
    · obtain ⟨reg, hreg, hof⟩ := hw.found ref href
      exact ⟨reg, List.mem_append_left _ hreg, hof⟩
  | @taken r reg hcaller =>
    have hreg := (Publication.caller_bind hcaller).1
    refine ⟨hsound, hw.client, fun x hx hname => ?_, ?_, fun ref href => ?_⟩
    · rcases Publication.mem_withStage hreg hx with rfl | hx
      · exact hw.made reg (List.mem_of_getElem? hreg) hname
      · exact hw.made x hx hname
    · rintro ⟨x, hx, hname, hobj, hstage⟩
      rcases Publication.mem_withStage hreg hx with rfl | hx
      · cases hstage
      · exact hw.current ⟨x, hx, hname, hobj, hstage⟩
    · obtain ⟨x, hx, hname, hobj, hstage⟩ := hw.found ref href
      have hne : x ≠ reg := fun heq => caller_unbound hcaller (heq ▸ hstage)
      exact ⟨x, mem_withStage_other hreg hx hne _, hname, hobj, hstage⟩
  | @published e r reg naming hreg hcaller _ hentries =>
    have hlookup := lookup_published hw.sound hreg hentries servant
    have hown := own_of_admits hadmits hcaller
    refine ⟨hsound, hw.client, fun x hx hname => ?_, ?_, fun ref href => ?_⟩
    · rcases Publication.mem_withStage hreg hx with rfl | hx
      · exact hw.made reg (List.mem_of_getElem? hreg) hname
      · exact hw.made x hx hname
    · rintro ⟨x, hx, hname, hobj, hstage⟩
      by_cases hservant : reg.idlStrName = servant
      · exact hlookup.trans (by rw [if_pos hservant, (hown hservant).2])
      · rcases Publication.mem_withStage hreg hx with rfl | hx
        · exact absurd hname hservant
        · exact (hlookup.trans (if_neg hservant)).trans (hw.current ⟨x, hx, hname, hobj, hstage⟩)
    · have href := hlookup.symm.trans href
      by_cases hservant : reg.idlStrName = servant
      · rw [if_pos hservant] at href
        refine ⟨{ reg with stage := .bound }, List.mem_iff_getElem?.mpr ⟨r, ?_⟩, hservant, ?_, rfl⟩
        · simp [Publication.System.withStage, hreg]
        · simpa using href
      · rw [if_neg hservant] at href
        obtain ⟨x, hx, hname, hobj, hstage⟩ := hw.found ref href
        have hne : x ≠ reg := fun heq => caller_unbound hcaller (heq ▸ hstage)
        exact ⟨x, mem_withStage_other hreg hx hne _, hname, hobj, hstage⟩
  | @connected c =>
    have hother : c ≠ 0 := of_decide_eq_true hadmits
    refine ⟨hsound, ?_, hw.made, hw.current, hw.found⟩
    exact (Function.update_of_ne hother.symm _ _).trans hw.client

/-- A world of its own steps, whichever half of it they are in. -/
theorem tracked_step (hw : Tracked servant w) (h : Steps env servant w e w') : Tracked servant w' := by
  have hcoshell : ∀ e, w.withCoshell (w.coshell.step env e) = some w' → Tracked servant w' := by
    intro e h
    obtain ⟨coshell, hstep, rfl⟩ := Option.map_eq_some_iff.mp h
    exact tracked_coshell hw (coshell_incarnation hstep)
  cases e with
  | coshell e =>
    cases e with
    | reconnect => cases h
    | register | line | endOfInput | submit | reconnectRaises | resubmit | unregister | crash | restart =>
      exact hcoshell _ h
  | service e =>
    obtain ⟨hadmits, h⟩ := Option.ite_none_right_eq_some.mp h
    obtain ⟨service, hstep, rfl⟩ := Option.map_eq_some_iff.mp h
    exact tracked_service hw hadmits hstep
  | reconnect | unreachable => exact hcoshell _ h

theorem tracked_run {server : ServerCommand α} {service : Publication.System Nat}
    (hservice : Connected servant service) (h : Run (Steps env servant) (.start server service) trace w) :
    Tracked servant w := by
  have hstart : Tracked servant (World.start server service) := by
    refine ⟨hservice.sound, hservice.client, fun reg hreg hname => (hservice.first reg hreg hname).le, fun _ =>
      hservice.found, fun ref href => ?_⟩
    obtain ⟨reg, hreg, hname, hstage⟩ := hservice.published
    have hzero : ref = 0 := by simpa using (hservice.found.symm.trans href).symm
    exact ⟨reg, hreg, hname, (hservice.first reg hreg hname).trans hzero.symm, hstage⟩
  exact (h.always (Tracked servant) hstart fun _ _ _ hw hstep => tracked_step hw hstep).2

/-- The reference that is found leads to the server that runs exactly when that has published. -/
theorem found_iff (hw : Tracked servant w) : w.found = some w.coshell.remote.incarnation ↔ w.Published servant := by
  have hobtained : w.service.obtained (.reconnectToServant 0) =
      w.service.naming.lookup (clientName servant "servant") := by
    simp [Publication.System.obtained, hw.client]
  unfold World.found
  rw [hobtained]
  constructor
  · intro hfound
    have hlookup : w.service.naming.lookup (clientName servant "servant") =
        some (.object w.coshell.remote.incarnation) := by
      split at hfound
      · rename_i ref href
        rw [href, Option.some.inj hfound]
      · cases hfound
      · cases hfound
    obtain ⟨reg, hreg, hname, hobj, hstage⟩ := hw.found _ hlookup
    exact ⟨reg, hreg, hname, hobj, hstage⟩
  · intro hpublished
    rw [hw.current hpublished]

/-- In every run, whatever else is done with the service and however often the server dies
and is started again: a coshell that looks its server up again goes on with the server that
runs, if that has published, and else comes to its end without another execution. -/
theorem rebinds_run {server : ServerCommand α} {service : Publication.System Nat} {line : Nat} {buffer : String}
    (hservice : Connected servant service) (h : Run (Steps env servant) (.start server service) trace w)
    (hphase : w.coshell.phase = .rebinding line buffer) (hstep : Steps env servant w .reconnect w') :
    Rebinds env servant line w w' := by
  have hiff := found_iff (tracked_run hservice h)
  obtain ⟨t, hreconnect, rfl⟩ := Option.map_eq_some_iff.mp hstep
  simp only [System.step, hphase] at hreconnect
  obtain ⟨-, hreconnect⟩ := Option.ite_none_right_eq_some.mp hreconnect
  obtain rfl := Option.some.inj hreconnect
  refine ⟨?_, fun hlive => ?_, fun hdead fate u hu => ?_⟩
  · unfold System.Live
    rw [and_comm]
    exact and_congr_right fun _ => hiff
  · refine ⟨_, rfl, ?_⟩
    simp only [System.submit, System.call, if_pos hlive]
    exact ⟨rfl, execute_executed _ _ _⟩
  · simp only [Steps, World.step, System.step, World.withCoshell, Option.map_some, System.submit, System.call,
      if_neg hdead] at hu
    obtain rfl := Option.some.inj hu
    exact ⟨rfl, rfl⟩

end Rebinding

/-- One start of a server has published the coshell servant, to which the coshell is connected. -/
def connectedService : Publication.System Nat :=
  (follow Publication.System.step (.start Naming.empty) [.bindNewContext 0, .addIdl 0 "coshell" 0, .bind 0,
    .connectToServant 0 "coshell" "servant"]).2

theorem connected_service : Connected "coshell" connectedService where
  sound := Publication.sound_run Publication.initial_empty (run_follow Publication.System.step _ _)
  client := by decide +kernel
  first := by decide +kernel
  published := by decide +kernel
  found := by decide +kernel

/-- The server dies before it has received a line, and is started and published again
before the coshell looks for it. -/
def restarted : List Event :=
  [.coshell (.register .delivered), .coshell (.line "help"), .coshell .crash, .coshell .restart,
    .service (.bindNewContext 1), .coshell (.submit .delivered), .service (.resolveContext 1),
    .service (.addIdl 1 "coshell" 1), .service (.bind 1), .service (.rebind 1)]

theorem rebinds_restarted :
    ∃ w, Steps quiet "coshell" (follow (World.step quiet "coshell") (.start newServer connectedService) restarted).2
      .reconnect w ∧ w.coshell.Live ∧ Rebinds quiet "coshell" 0
        (follow (World.step quiet "coshell") (.start newServer connectedService) restarted).2 w := by
  have hrun := run_follow (World.step quiet "coshell") (.start newServer connectedService) restarted
  generalize hresult : follow (World.step quiet "coshell") (.start newServer connectedService) restarted = result
    at hrun
  have hphase : result.2.coshell.phase = .rebinding 0 "help" := by
    rw [← hresult]
    decide +kernel
  have hsteps : (result.2.step quiet "coshell" .reconnect).isSome = true := by
    rw [← hresult]
    decide +kernel
  have hpublished : result.2.coshell.remote.alive = true ∧ result.2.Published "coshell" := by
    rw [← hresult]
    unfold World.Published
    decide +kernel
  obtain ⟨w, hstep⟩ := Option.isSome_iff_exists.mp hsteps
  have hrebinds := rebinds_run connected_service hrun hphase hstep
  exact ⟨w, hstep, hrebinds.live.mpr hpublished, hrebinds⟩

end DgMiddleware.Coshell.Rebinding
