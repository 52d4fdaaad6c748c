import DgMiddleware.Corba.ServerAbstract

/-! What an initialisation of the CORBA server leaves behind, stage by stage. The
global is set before the first stage, so a stage that throws leaves it set. -/
namespace DgMiddleware.Corba
open Library

/-- The naming service gives out the context, as a new one or as the one bound already. -/
def Faults.OpensContext (faults : Faults) (naming : NamingService) (name : CosName) : Prop :=
  (faults.raises .bindNewContext = none ∧ name ∉ naming.contexts) ∨
    (name ∈ naming.contexts ∧ faults.raises .bindNewContext ∈ [none, some .alreadyBound] ∧
      faults.raises .resolveContext = none ∧ faults.nil .resolveContext = false)

/-- The three stages before the last one go through. -/
structure Faults.Opens (faults : Faults) (s : CorbaProcess) (serverName : String) : Prop where
  orb : s.orb ≠ .shutDown
  orbInit : faults.raises .orbInit = none
  orbSet : faults.nil .orbInit = false
  rootPOA : faults.raises .rootPOA = none
  poaSet : faults.nil .rootPOA = false
  nameService : faults.raises .nameService = none
  nameServiceSet : faults.nil .nameService = false
  context : faults.OpensContext s.naming (contextName serverName)

/-- All stages go through, and the thread is started. -/
structure Faults.Completes (faults : Faults) (s : CorbaProcess) (serverName : String) : Prop where
  opens : faults.Opens s serverName
  activateManager : faults.raises .activateManager = none
  newThread : faults.raises .newThread = none

instance (faults : Faults) (naming : NamingService) (name : CosName) :
    Decidable (faults.OpensContext naming name) := by
  unfold Faults.OpensContext
  infer_instance

instance (faults : Faults) (s : CorbaProcess) (serverName : String) : Decidable (faults.Opens s serverName) :=
  decidable_of_iff (s.orb ≠ .shutDown ∧ faults.raises .orbInit = none ∧ faults.nil .orbInit = false ∧
    faults.raises .rootPOA = none ∧ faults.nil .rootPOA = false ∧ faults.raises .nameService = none ∧
    faults.nil .nameService = false ∧ faults.OpensContext s.naming (contextName serverName))
    ⟨fun ⟨h₁, h₂, h₃, h₄, h₅, h₆, h₇, h₈⟩ => ⟨h₁, h₂, h₃, h₄, h₅, h₆, h₇, h₈⟩,
      fun ⟨h₁, h₂, h₃, h₄, h₅, h₆, h₇, h₈⟩ => ⟨h₁, h₂, h₃, h₄, h₅, h₆, h₇, h₈⟩⟩

instance (faults : Faults) (s : CorbaProcess) (serverName : String) : Decidable (faults.Completes s serverName) :=
  decidable_of_iff (faults.Opens s serverName ∧ faults.raises .activateManager = none ∧
    faults.raises .newThread = none) ⟨fun ⟨h₁, h₂, h₃⟩ => ⟨h₁, h₂, h₃⟩, fun ⟨h₁, h₂, h₃⟩ => ⟨h₁, h₂, h₃⟩⟩

def NamingService.withContext (naming : NamingService) (name : CosName) : NamingService :=
  if name ∈ naming.contexts then naming else { naming with contexts := naming.contexts ++ [name] }

@[simp] theorem withContext_bindings (naming : NamingService) (name : CosName) :
    (naming.withContext name).bindings = naming.bindings := by
  unfold NamingService.withContext
  split <;> rfl

section Stages
variable {faults : Faults} {s : CorbaProcess} {g : CorbaServerGeneric} {name : CosName}

theorem openContext_ok (h : faults.OpensContext s.naming name) :
    openContext faults name s = .ret name { s with naming := s.naming.withContext name } := by
  unfold openContext NamingService.withContext
  rcases h with ⟨hbind, hnew⟩ | ⟨hold, hbind, hresolve, hnil⟩
  · simp [Method.tryCatch, call_ok hbind, bindNewContext, hnew]
  · simp only [List.mem_cons, List.not_mem_nil, or_false] at hbind
    rcases hbind with hbind | hbind
    · simp [Method.tryCatch, call_ok hbind, bindNewContext, hold, call_ok hresolve, resolveContext, hnil]
    · simp [Method.tryCatch, call_raise hbind, hold, call_ok hresolve, resolveContext, hnil]

private theorem resolve_fails (faults : Faults) (s : CorbaProcess) (name : CosName)
    (h : ¬(name ∈ s.naming.contexts ∧ faults.raises .resolveContext = none ∧
      faults.nil .resolveContext = false)) : ∃ x, (do
      faults.call .resolveContext
      let context ← resolveContext name
      if faults.nil .resolveContext then .raise .todo else return context : Body CosName) s = .raise x s := by
  cases hresolve : faults.raises .resolveContext with
  | some x => exact ⟨x, by simp [call_raise hresolve]⟩
  | none =>
    by_cases hold : name ∈ s.naming.contexts
    · exact ⟨.todo, by simp_all [call_ok, resolveContext]⟩
    · exact ⟨.notFound, by simp [call_ok hresolve, resolveContext, hold]⟩

theorem openContext_fails (h : ¬faults.OpensContext s.naming name) :
    ∃ x, openContext faults name s = .raise x s := by
  unfold Faults.OpensContext at h
  unfold openContext
  cases hbind : faults.raises .bindNewContext with
  | none =>
    by_cases hold : name ∈ s.naming.contexts
    · obtain ⟨x, hx⟩ := resolve_fails faults s name (by simp_all)
      exact ⟨x, by simpa [Method.tryCatch, call_ok hbind, bindNewContext, hold] using hx⟩
    · exact absurd (.inl ⟨hbind, hold⟩) h
  | some x =>
    by_cases hx : x = .alreadyBound
    · obtain ⟨y, hy⟩ := resolve_fails faults s name (by simp_all)
      exact ⟨y, by simpa [Method.tryCatch, call_raise hbind, hx] using hy⟩
    · exact ⟨x, by simp [Method.tryCatch, call_raise hbind, hx]⟩

private theorem initOrb_ok (h : s.genericServer = some g) (hcall : faults.raises .orbInit = none)
    (hset : faults.nil .orbInit = false) : initOrb faults s = .ret () { s with
      orb := if s.orb = .absent then .running else s.orb, genericServer := some { g with orb := true } } := by
  simp [initOrb, member_some h, call_ok hcall, hset, orbInit]

private theorem initOrb_fails (h : s.genericServer = some g)
    (hfail : ¬(faults.raises .orbInit = none ∧ faults.nil .orbInit = false)) :
    ∃ x, initOrb faults s = .raise x s := by
  cases hcall : faults.raises .orbInit with
  | some x => exact ⟨x, by simp [initOrb, member_some h, call_raise hcall]⟩
  | none => exact ⟨.todo, by simp_all [initOrb, member_some h, call_ok]⟩

private theorem createThreadPolicy_ok (h : s.genericServer = some g) (horb : g.orb = true)
    (hrun : s.orb = .running) (hcall : faults.raises .rootPOA = none) : createThreadPolicy faults s =
      .ret () { s with genericServer := some { g with poa := !faults.nil .rootPOA } } := by
  simp [createThreadPolicy, member_some h, horb, inUse_running hrun, call_ok hcall]

private theorem createThreadPolicy_fails (h : s.genericServer = some g) (horb : g.orb = true)
    (hfail : ¬(s.orb = .running ∧ faults.raises .rootPOA = none)) :
    ∃ x, createThreadPolicy faults s = .raise x s := by
  by_cases hrun : s.orb = .running
  · cases hcall : faults.raises .rootPOA with
    | some x => exact ⟨x, by simp [createThreadPolicy, member_some h, horb, inUse_running hrun, call_raise hcall]⟩
    | none => exact absurd ⟨hrun, hcall⟩ hfail
  · exact ⟨.badInvOrder, by simp [createThreadPolicy, member_some h, horb, inUse_stopped hrun]⟩

private theorem createContext_ok {serverName : String} (h : s.genericServer = some g) (horb : g.orb = true)
    (hrun : s.orb = .running) (hcall : faults.raises .nameService = none) (hset : faults.nil .nameService = false)
    (hopen : faults.OpensContext s.naming (contextName serverName)) : createContext faults serverName s =
      .ret () { s with
        naming := s.naming.withContext (contextName serverName)
        genericServer := some { g with hppContext := some (contextName serverName) } } := by
  simp [createContext, member_some h, horb, inUse_running hrun, call_ok hcall, hset, openContext_ok hopen]

private theorem createContext_fails {serverName : String} (h : s.genericServer = some g) (horb : g.orb = true)
    (hrun : s.orb = .running) (hfail : ¬(faults.raises .nameService = none ∧ faults.nil .nameService = false ∧
      faults.OpensContext s.naming (contextName serverName))) :
    ∃ x, createContext faults serverName s = .raise x s := by
  cases hcall : faults.raises .nameService with
  | some x => exact ⟨x, by simp [createContext, member_some h, horb, inUse_running hrun, call_raise hcall]⟩
  | none =>
    cases hset : faults.nil .nameService with
    | true =>
      exact ⟨.todo, by simp [createContext, member_some h, horb, inUse_running hrun, call_ok hcall, hset]⟩
    | false =>
      obtain ⟨x, hx⟩ := openContext_fails fun hopen => hfail ⟨hcall, hset, hopen⟩
      exact ⟨x, by simp [createContext, member_some h, horb, inUse_running hrun, call_ok hcall, hset, hx]⟩

/-- The process once the stages before the last one went through. -/
def opened (s : CorbaProcess) (serverName : String) : CorbaProcess :=
  { s with
    orb := .running
    naming := s.naming.withContext (contextName serverName)
    genericServer := some ⟨serverName, true, true, some (contextName serverName), []⟩ }

def CorbaProcess.withManager (s : CorbaProcess) : CorbaProcess :=
  { s with poa := { s.poa with managerActive := true } }

/-- A server whose initialisation stopped before its last stage. -/
structure CutShort (s t : CorbaProcess) : Prop where
  server : ∃ g, t.genericServer = some g ∧ g.idlList = [] ∧ (g.poa = false ∨ g.hppContext = none)
  thread : t.serverThread = s.serverThread
  orb : t.orb = s.orb ∨ t.orb = .running
  poa : t.poa = s.poa
  bindings : t.naming.bindings = s.naming.bindings
  entities : t.entities = s.entities

private def afterOrb (s : CorbaProcess) (serverName : String) : CorbaProcess :=
  { s with
    orb := if s.orb = .absent then .running else s.orb
    genericServer := some ⟨serverName, true, false, none, []⟩ }

private def afterPoa (s : CorbaProcess) (serverName : String) (set : Bool) : CorbaProcess :=
  { afterOrb s serverName with genericServer := some ⟨serverName, true, set, none, []⟩ }

private def afterContext (s : CorbaProcess) (serverName : String) (set : Bool) : CorbaProcess :=
  { afterOrb s serverName with
    naming := s.naming.withContext (contextName serverName)
    genericServer := some ⟨serverName, true, set, some (contextName serverName), []⟩ }

private theorem afterOrb_running (s : CorbaProcess) (serverName : String) :
    (afterOrb s serverName).orb = .running ↔ s.orb ≠ .shutDown := by
  unfold afterOrb
  cases s.orb <;> simp

private theorem afterOrb_orb (s : CorbaProcess) (serverName : String) :
    (afterOrb s serverName).orb = s.orb ∨ (afterOrb s serverName).orb = .running := by
  unfold afterOrb
  cases s.orb <;> simp

private theorem activateContext_ok (h : s.genericServer = some g) (hpoa : g.poa = true)
    (hcall : faults.raises .activateManager = none) : activateContext faults s = .ret () s.withManager := by
  simp [activateContext, member_some h, hpoa, call_ok hcall, CorbaProcess.withManager]

/-- How an initialisation of a new server ends. -/
theorem init_cases (faults : Faults) (s : CorbaProcess) (serverName : String)
    (h : s.genericServer = some (.new serverName)) :
    (faults.Opens s serverName ∧ faults.raises .activateManager = none ∧
      init faults s = .ret () (opened s serverName).withManager) ∨
    (faults.Opens s serverName ∧ ∃ x, faults.raises .activateManager = some x ∧
      init faults s = .raise x (opened s serverName)) ∨
    (¬faults.Opens s serverName ∧ ∃ x t, init faults s = .raise x t ∧ CutShort s t) := by
  by_cases horb : faults.raises .orbInit = none ∧ faults.nil .orbInit = false
  case neg =>
    obtain ⟨x, hx⟩ := initOrb_fails h horb
    refine .inr (.inr ⟨fun hopens => horb ⟨hopens.orbInit, hopens.orbSet⟩, x, s, by simp [init, hx], ?_⟩)
    exact ⟨⟨_, h, rfl, .inl rfl⟩, rfl, .inl rfl, rfl, rfl, rfl⟩
  have hfirst : initOrb faults s = .ret () (afterOrb s serverName) := initOrb_ok h horb.1 horb.2
  by_cases hpoa : (afterOrb s serverName).orb = .running ∧ faults.raises .rootPOA = none
  case neg =>
    obtain ⟨x, hx⟩ := createThreadPolicy_fails (s := afterOrb s serverName) rfl rfl hpoa
    have hno : ¬faults.Opens s serverName := fun hopens =>
      hpoa ⟨(afterOrb_running s serverName).mpr hopens.orb, hopens.rootPOA⟩
    refine .inr (.inr ⟨hno, x, afterOrb s serverName, by simp [init, hfirst, hx], ?_⟩)
    exact ⟨⟨_, rfl, rfl, .inl rfl⟩, rfl, afterOrb_orb s serverName, rfl, rfl, rfl⟩
  obtain ⟨hrun, hpoa⟩ := hpoa
  have hsecond : createThreadPolicy faults (afterOrb s serverName) =
      .ret () (afterPoa s serverName !faults.nil .rootPOA) :=
    createThreadPolicy_ok (g := ⟨serverName, true, false, none, []⟩) rfl rfl hrun hpoa
  have hmember := member_some (s := afterPoa s serverName !faults.nil .rootPOA) rfl
  by_cases hctx : faults.raises .nameService = none ∧ faults.nil .nameService = false ∧
      faults.OpensContext s.naming (contextName serverName)
  case neg =>
    obtain ⟨x, hx⟩ := createContext_fails (s := afterPoa s serverName !faults.nil .rootPOA) rfl rfl hrun hctx
    have hno : ¬faults.Opens s serverName := fun hopens =>
      hctx ⟨hopens.nameService, hopens.nameServiceSet, hopens.context⟩
    refine .inr (.inr ⟨hno, x, afterPoa s serverName !faults.nil .rootPOA,
      by simp [init, hfirst, hsecond, hmember, hx], ?_⟩)
    exact ⟨⟨_, rfl, rfl, .inr rfl⟩, rfl, .inr hrun, rfl, rfl, rfl⟩
  have hthird : createContext faults serverName (afterPoa s serverName !faults.nil .rootPOA) =
      .ret () (afterContext s serverName !faults.nil .rootPOA) :=
    createContext_ok (s := afterPoa s serverName !faults.nil .rootPOA)
      (g := ⟨serverName, true, !faults.nil .rootPOA, none, []⟩) rfl rfl hrun hctx.1 hctx.2.1 hctx.2.2
  cases hset : faults.nil .rootPOA with
  | true =>
    simp only [hset, Bool.not_true] at hsecond hmember hthird
    have hno : ¬faults.Opens s serverName := fun hopens => by simp [hopens.poaSet] at hset
    have hlast : activateContext faults (afterContext s serverName false) =
        .raise .systemException (afterContext s serverName false) := by
      simp [activateContext, member_some (s := afterContext s serverName false) rfl]
    refine .inr (.inr ⟨hno, .systemException, afterContext s serverName false,
      by simp [init, hfirst, hsecond, hmember, hthird, hlast], ?_⟩)
    exact ⟨⟨_, rfl, rfl, .inl rfl⟩, rfl, .inr hrun, rfl, by simp [afterContext], rfl⟩
  | false =>
    simp only [hset, Bool.not_false] at hsecond hmember hthird
    have hopens : faults.Opens s serverName :=
      ⟨(afterOrb_running s serverName).mp hrun, horb.1, horb.2, hpoa, hset, hctx.1, hctx.2.1, hctx.2.2⟩
    have hopened : afterContext s serverName true = opened s serverName := by
      simp only [afterContext, opened, hrun.symm]
      rfl
    rw [hopened] at hthird
    cases hcall : faults.raises .activateManager with
    | none =>
      have hlast := activateContext_ok (s := opened s serverName) rfl rfl hcall
      exact .inl ⟨hopens, rfl, by simp [init, hfirst, hsecond, hmember, hthird, hlast]⟩
    | some x =>
      have hlast : activateContext faults (opened s serverName) = .raise x (opened s serverName) := by
        simp [activateContext, member_some (s := opened s serverName) rfl, call_raise hcall]
      exact .inr (.inl ⟨hopens, x, rfl, by simp [init, hfirst, hsecond, hmember, hthird, hlast]⟩)

/-- The process with a complete server whose thread was started. -/
def served (s : CorbaProcess) (serverName : String) : CorbaProcess :=
  { (opened s serverName).withManager with serverThread := some .started }

/-- How a call ends that finds no server. A failure leaves the global set: with a server
cut short, or with one that only misses its thread or the activation of the manager. -/
theorem initCorbaServer_cases (faults : Faults) {inContextName serverName : String} (h : s.genericServer = none)
    (hname : decideContext inContextName = serverName) :
    (faults.Completes s serverName ∧ initCorbaServer faults inContextName s = .ret () (served s serverName)) ∨
    (faults.Opens s serverName ∧ ¬faults.Completes s serverName ∧ ∃ x t,
      initCorbaServer faults inContextName s = .raise x t ∧
        (t = opened s serverName ∨ t = (opened s serverName).withManager)) ∨
    (¬faults.Opens s serverName ∧ ∃ x t, initCorbaServer faults inContextName s = .raise x t ∧ CutShort s t) := by
  subst hname
  generalize hs : ({ s with genericServer := some (.new (decideContext inContextName)) } : CorbaProcess) = s'
  have hfirst : initCorbaServer faults inContextName s = (init faults s').bind fun _ t => newThread faults t := by
    simp [initCorbaServer, h, ← hs]
  have hopens : faults.Opens s' (decideContext inContextName) ↔ faults.Opens s (decideContext inContextName) := by
    subst hs
    exact ⟨fun ⟨h₁, h₂, h₃, h₄, h₅, h₆, h₇, h₈⟩ => ⟨h₁, h₂, h₃, h₄, h₅, h₆, h₇, h₈⟩,
      fun ⟨h₁, h₂, h₃, h₄, h₅, h₆, h₇, h₈⟩ => ⟨h₁, h₂, h₃, h₄, h₅, h₆, h₇, h₈⟩⟩
  have hopened : opened s' (decideContext inContextName) = opened s (decideContext inContextName) := by
    subst hs
    rfl
  have hcases := init_cases faults s' (decideContext inContextName) (by rw [← hs])
  rw [hopens, hopened] at hcases
  rcases hcases with ⟨ho, hmanager, hret⟩ | ⟨ho, x, hmanager, hraise⟩ | ⟨hno, x, t, hraise, hcut⟩
  · cases hthread : faults.raises .newThread with
    | none =>
      refine .inl ⟨⟨ho, hmanager, hthread⟩, ?_⟩
      simp [hfirst, hret, newThread, call_ok hthread, served]
    | some x =>
      refine .inr (.inl ⟨ho, fun hc => by simp [hc.newThread] at hthread, x, _, ?_, .inr rfl⟩)
      simp [hfirst, hret, newThread, call_raise hthread]
  · refine .inr (.inl ⟨ho, fun hc => by simp [hc.activateManager] at hmanager, x, _, ?_, .inl rfl⟩)
    simp [hfirst, hraise]
  · refine .inr (.inr ⟨hno, x, t, by simp [hfirst, hraise], ?_⟩)
    subst hs
    exact ⟨hcut.server, hcut.thread, hcut.orb, hcut.poa, hcut.bindings, hcut.entities⟩

theorem initCorbaServer_again {inContextName : String} (h : s.genericServer = some g) :
    initCorbaServer faults inContextName s = .ret () s := by
  simp [initCorbaServer, h]

end Stages
end DgMiddleware.Corba
