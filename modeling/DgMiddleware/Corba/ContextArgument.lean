import DgMiddleware.Corba.ServerAbstract
import DgMiddleware.Library.Triple

/-! The context that `initCorba` and `initAndStart` take from their argument stream. A
word is only used when more text follows it. -/
namespace DgMiddleware.Corba
open Library

/-- What both commands do with their argument stream. -/
def readContext (cmdArgs : InputStream) : String :=
  let (corbaContext, is) := cmdArgs.extractWord ""
  if is.ws.good then corbaContext else ""

theorem contextArg_eq (cmdArgs : String) : contextArg cmdArgs = readContext (.ofString cmdArgs) := rfl

/-- `initCorba`, and `initAndStart` when the servant is registered too, on any stream. -/
def contextCommand (register : Bool) (faults : Faults) (entity : Entity) (cmdArgs : InputStream) : Body Unit := do
  initCorbaServer faults (readContext cmdArgs)
  if register then registerCorbaServant faults entity

theorem commandLine_contextCommand (faults : Faults) (entity : Entity) (cmdArgs : String) :
    commandLine faults entity (.initCorba cmdArgs) = contextCommand false faults entity (.ofString cmdArgs) ∧
      commandLine faults entity (.initAndStart cmdArgs) = contextCommand true faults entity (.ofString cmdArgs) := by
  refine ⟨?_, rfl⟩
  funext s
  simp only [commandLine, contextCommand, Method.bind_apply, contextArg_eq]
  cases initCorbaServer faults (readContext (.ofString cmdArgs)) s <;> rfl

section Created

/-- There is a server, created for the context. -/
def ServesContext (context : String) (s : CorbaProcess) : Prop :=
  ∃ g, s.genericServer = some g ∧ g.serverName = context

variable {context : String} {faults : Faults}

private theorem member_serves : Triple (ServesContext context) member
    (fun g s => g.serverName = context ∧ ServesContext context s) (ServesContext context) := by
  rintro s ⟨g, hg, hname⟩
  rw [member_some hg]
  exact ⟨hname, g, hg, hname⟩

private theorem assign_serves {g : CorbaServerGeneric} (hname : g.serverName = context) :
    Keeps (ServesContext context) (assign g) :=
  fun _ _ => ⟨g, rfl, hname⟩

/-- A change of the process that leaves the server. -/
private theorem set_serves {s t : CorbaProcess} (h : t.genericServer = s.genericServer)
    (hs : ServesContext context s) : ServesContext context t := by
  obtain ⟨g, hg, hname⟩ := hs
  exact ⟨g, h.trans hg, hname⟩

private theorem call_serves (c : Call) : Keeps (ServesContext context) (faults.call c) := by
  apply Triple.keeps_of_same
  intro s
  cases hc : faults.raises c with
  | none => exact .inl ⟨(), call_ok hc s⟩
  | some e => exact .inr ⟨e, call_raise hc s⟩

private theorem through_serves (set : Bool) : Keeps (ServesContext context) (through set) := by
  apply Triple.keeps_of_same
  intro s
  cases set
  · exact .inr ⟨_, through_false s⟩
  · exact .inl ⟨(), through_true s⟩

private theorem inUse_serves : Keeps (ServesContext context) inUse := by
  apply Triple.keeps_of_same
  intro s
  by_cases hrun : s.orb = .running
  · exact .inl ⟨(), inUse_running hrun⟩
  · exact .inr ⟨_, inUse_stopped hrun⟩

private theorem orbInit_serves : Keeps (ServesContext context) orbInit :=
  Triple.get_bind fun _ hs => Triple.set _ fun _ _ => set_serves rfl hs

private theorem initOrb_serves : Keeps (ServesContext context) (initOrb faults) := by
  refine Triple.bind member_serves fun server => Triple.known fun hname => ?_
  refine Triple.bind (call_serves .orbInit) fun _ => ?_
  refine Triple.ite (fun _ => Triple.raise _ fun _ hs => hs) fun _ => ?_
  exact Triple.bind orbInit_serves fun _ => assign_serves hname

private theorem createThreadPolicy_serves : Keeps (ServesContext context) (createThreadPolicy faults) := by
  refine Triple.bind member_serves fun server => Triple.known fun hname => ?_
  refine Triple.bind (through_serves server.orb) fun _ => ?_
  refine Triple.bind inUse_serves fun _ => ?_
  exact Triple.bind (call_serves .rootPOA) fun _ => assign_serves hname

private theorem bindNewContext_serves (name : CosName) : Keeps (ServesContext context) (bindNewContext name) := by
  refine Triple.get_bind fun s hs => Triple.ite (fun _ => Triple.raise _ fun _ he => he ▸ hs) fun _ => ?_
  exact Triple.bind (Q := fun _ => ServesContext context) (Triple.set _ fun _ _ => set_serves rfl hs)
    fun _ => Triple.ret _ fun _ hs => hs

private theorem resolveContext_serves (name : CosName) : Keeps (ServesContext context) (resolveContext name) :=
  Triple.get_bind fun _ hs =>
    Triple.ite (fun _ => Triple.ret _ fun _ he => he ▸ hs) fun _ => Triple.raise _ fun _ he => he ▸ hs

private theorem openContext_serves (name : CosName) : Keeps (ServesContext context) (openContext faults name) := by
  refine Triple.tryCatch (F := ServesContext context) ?_ fun e => Triple.ite (fun _ => ?_) fun _ => ?_
  · exact Triple.bind (call_serves .bindNewContext) fun _ => bindNewContext_serves name
  · refine Triple.bind (call_serves .resolveContext) fun _ => Triple.bind (resolveContext_serves name) fun _ => ?_
    exact Triple.ite (fun _ => Triple.raise _ fun _ hs => hs) fun _ => Triple.ret _ fun _ hs => hs
  · exact Triple.raise _ fun _ hs => hs

private theorem createContext_serves (contextStrName : String) :
    Keeps (ServesContext context) (createContext faults contextStrName) := by
  refine Triple.bind member_serves fun server => Triple.known fun hname => ?_
  refine Triple.bind (through_serves server.orb) fun _ => ?_
  refine Triple.bind inUse_serves fun _ => ?_
  refine Triple.bind (call_serves .nameService) fun _ => ?_
  refine Triple.ite (fun _ => Triple.raise _ fun _ hs => hs) fun _ => ?_
  exact Triple.bind (openContext_serves _) fun _ => assign_serves hname

private theorem activateContext_serves : Keeps (ServesContext context) (activateContext faults) := by
  refine Triple.bind member_serves fun server => Triple.known fun _ => ?_
  refine Triple.bind (through_serves server.poa) fun _ => ?_
  refine Triple.bind (call_serves .activateManager) fun _ => ?_
  exact Triple.get_bind fun _ hs => Triple.set _ fun _ _ => set_serves rfl hs

private theorem init_serves : Keeps (ServesContext context) (init faults) := by
  refine Triple.bind initOrb_serves fun _ => ?_
  refine Triple.bind createThreadPolicy_serves fun _ => ?_
  refine Triple.bind member_serves fun server => Triple.known fun _ => ?_
  exact Triple.bind (createContext_serves server.serverName) fun _ => activateContext_serves

private theorem newThread_serves : Keeps (ServesContext context) (newThread faults) := by
  refine Triple.bind (call_serves .newThread) fun _ => ?_
  exact Triple.get_bind fun _ hs => Triple.set _ fun _ _ => set_serves rfl hs

/-- Without a server, one is created for the context decided on, even when a later
stage throws. -/
private theorem initCorbaServer_serves (inContextName : String) :
    Triple (fun s => s.genericServer = none) (initCorbaServer faults inContextName)
      (fun _ => ServesContext (decideContext inContextName)) (ServesContext (decideContext inContextName)) := by
  refine Triple.get_bind fun s hs => ?_
  rw [hs]
  refine Triple.bind (Q := fun _ => ServesContext (decideContext inContextName)) ?_ fun _ => ?_
  · exact fun _ _ => ⟨_, rfl, rfl⟩
  · exact Triple.bind init_serves fun _ => newThread_serves

private theorem activateObject_serves (servant : Nat) : Keeps (ServesContext context) (activateObject servant) := by
  refine Triple.get_bind fun s hs => Triple.ite (fun _ => Triple.raise _ fun _ he => he ▸ hs) fun _ => ?_
  exact Triple.bind (Q := fun _ => ServesContext context) (Triple.set _ fun _ _ => set_serves rfl hs)
    fun _ => Triple.ret _ fun _ hs => hs

private theorem referenceTo_serves (servant : Nat) : Keeps (ServesContext context) (referenceTo servant) := by
  refine Triple.get_bind fun s hs => ?_
  split
  · exact Triple.ret _ fun _ he => he ▸ hs
  · exact (activateObject_serves servant).weaken fun _ he => he ▸ hs

private theorem activateIdl_serves (idlRef : Entity) : Keeps (ServesContext context) (activateIdl faults idlRef) := by
  refine Triple.bind member_serves fun server => Triple.known fun hname => ?_
  refine Triple.bind (through_serves server.poa) fun _ => ?_
  refine Triple.bind (call_serves .activateObject) fun _ => ?_
  refine Triple.bind inUse_serves fun _ => ?_
  exact Triple.bind (activateObject_serves idlRef.id) fun _ => assign_serves hname

private theorem bindObject_serves (idlName : CosName) (idlObj : ObjectId) :
    Keeps (ServesContext context) (bindObject faults idlName idlObj) := by
  refine Triple.bind member_serves fun server => Triple.known fun _ => ?_
  split
  · exact Triple.raise _ fun _ hs => hs
  · refine Triple.tryCatch (F := ServesContext context) ?_ fun e => Triple.ite (fun _ => ?_) fun _ => ?_
    · refine Triple.bind (call_serves .bind) fun _ => Triple.get_bind fun s hs => ?_
      exact Triple.ite (fun _ => Triple.raise _ fun _ he => he ▸ hs) fun _ =>
        Triple.set _ fun _ _ => set_serves rfl hs
    · refine Triple.bind (call_serves .rebind) fun _ => ?_
      exact Triple.get_bind fun _ hs => Triple.set _ fun _ _ => set_serves rfl hs
    · exact Triple.raise _ fun _ hs => hs

private theorem addIdl_serves (idlRef : Entity) (idlStrName : String) :
    Keeps (ServesContext context) (addIdl faults idlRef idlStrName) := by
  refine Triple.bind (activateIdl_serves idlRef) fun _ => ?_
  refine Triple.bind (call_serves .this) fun _ => ?_
  exact Triple.bind (referenceTo_serves idlRef.id) fun _ => bindObject_serves _ _

private theorem contextCommand_serves (register : Bool) (entity : Entity) (cmdArgs : InputStream) :
    Triple (fun s => s.genericServer = none) (contextCommand register faults entity cmdArgs)
      (fun _ => ServesContext (decideContext (readContext cmdArgs)))
      (ServesContext (decideContext (readContext cmdArgs))) := by
  refine Triple.bind (initCorbaServer_serves _) fun _ => Triple.ite (fun _ => ?_) fun _ => ?_
  · exact addIdl_serves entity entity.name
  · exact Triple.ret _ fun _ hs => hs

/-- The command ends, with a server for the context that was read. -/
private theorem contextCommand_ends (register : Bool) (faults : Faults) (entity : Entity)
    (cmdArgs : InputStream) {s : CorbaProcess} (hs : s.genericServer = none) :
    ∃ t, Ends (contextCommand register faults entity cmdArgs) s t ∧
      ServesContext (decideContext (readContext cmdArgs)) t := by
  have hcommand : Triple _ (contextCommand register faults entity cmdArgs) _ _ :=
    contextCommand_serves register entity cmdArgs
  have hserves := hcommand s hs
  cases hr : contextCommand register faults entity cmdArgs s with
  | ret a t => exact ⟨t, .inl hr, by rwa [hr] at hserves⟩
  | raise e t => exact ⟨t, .inr ⟨e, hr⟩, by rwa [hr] at hserves⟩
  | undefined => simp [hr] at hserves

end Created

section Honoured

/-- The first word of a text, if there is one. -/
def firstToken (text : List Char) : Option String :=
  match (text.dropWhile isspace).takeWhile (fun c => !isspace c) with
  | [] => none
  | word => some (String.ofList word)

/-- What follows the first word, from the next word on. -/
def afterToken (text : List Char) : List Char :=
  ((text.dropWhile isspace).dropWhile fun c => !isspace c).dropWhile isspace

/-- Without a server, either command creates one whose context is the first word of the
arguments, or the default one where there is no word; so both choose the same. -/
structure Honoured (cmdArgs : InputStream) : Prop where
  created : ∀ (register : Bool) (faults : Faults) (entity : Entity) (s : CorbaProcess), s.genericServer = none →
    ∃ t, Ends (contextCommand register faults entity cmdArgs) s t ∧
      ServesContext ((firstToken cmdArgs.rest).getD DEFAULT_CONTEXT_NAME) t
  same : ∀ (faults : Faults) (entity : Entity) (s t u : CorbaProcess), s.genericServer = none →
    Ends (contextCommand false faults entity cmdArgs) s t → Ends (contextCommand true faults entity cmdArgs) s u →
    ∃ context, ServesContext context t ∧ ServesContext context u

/-- There is no word, or it is the default context, or the stream is good and more text
follows the word. -/
def TokenUsed (cmdArgs : InputStream) : Prop :=
  firstToken cmdArgs.rest = none ∨ firstToken cmdArgs.rest = some DEFAULT_CONTEXT_NAME ∨
    (cmdArgs.good = true ∧ afterToken cmdArgs.rest ≠ [])

private theorem ends_unique {body : Body Unit} {s t u : CorbaProcess} (ht : Ends body s t) (hu : Ends body s u) :
    t = u := by
  rcases hu with hu | ⟨x, hu⟩
  · exact ht.of_ret hu
  · exact ht.of_raise hu

private theorem context_unique {context context' : String} {s : CorbaProcess} (h : ServesContext context s)
    (h' : ServesContext context' s) : context = context' := by
  obtain ⟨g, hg, rfl⟩ := h
  obtain ⟨g', hg', rfl⟩ := h'
  rw [Option.some.inj (hg.symm.trans hg')]

private theorem honoured_iff_context (cmdArgs : InputStream) : Honoured cmdArgs ↔
    decideContext (readContext cmdArgs) = (firstToken cmdArgs.rest).getD DEFAULT_CONTEXT_NAME := by
  constructor
  · intro h
    have hnone : (CorbaProcess.fresh ⟨[], fun _ _ => none⟩).genericServer = none := rfl
    obtain ⟨t, ht, hspec⟩ := h.created false noFaults ⟨0, ""⟩ _ hnone
    obtain ⟨u, hu, hread⟩ := contextCommand_ends false noFaults ⟨0, ""⟩ cmdArgs hnone
    obtain rfl := ends_unique ht hu
    exact context_unique hread hspec
  · intro hsame
    refine ⟨fun register faults entity s hs => ?_, fun faults entity s t u hs ht hu => ?_⟩
    · rw [← hsame]
      exact contextCommand_ends register faults entity cmdArgs hs
    · obtain ⟨t', ht', hread⟩ := contextCommand_ends false faults entity cmdArgs hs
      obtain ⟨u', hu', hread'⟩ := contextCommand_ends true faults entity cmdArgs hs
      obtain rfl := ends_unique ht ht'
      obtain rfl := ends_unique hu hu'
      exact ⟨_, hread, hread'⟩

private theorem firstToken_blank {text : List Char} (h : text.dropWhile isspace = []) : firstToken text = none := by
  simp [firstToken, h]

private theorem firstToken_text {text : List Char} (h : text.dropWhile isspace ≠ []) :
    firstToken text = some (String.ofList ((text.dropWhile isspace).takeWhile fun c => !isspace c)) ∧
      decideContext (String.ofList ((text.dropWhile isspace).takeWhile fun c => !isspace c)) =
        String.ofList ((text.dropWhile isspace).takeWhile fun c => !isspace c) := by
  have hhead := List.head_dropWhile_not (p := isspace) h
  cases htext : text.dropWhile isspace with
  | nil => exact absurd htext h
  | cons c cs =>
    simp only [htext, List.head_cons] at hhead
    have hword : (c :: cs).takeWhile (fun c => !isspace c) = c :: cs.takeWhile fun c => !isspace c := by
      simp [hhead]
    rw [firstToken, htext, hword]
    exact ⟨rfl, if_pos (by simp)⟩

private theorem readContext_eq (cmdArgs : InputStream) : readContext cmdArgs =
    if cmdArgs.good = true ∧ afterToken cmdArgs.rest ≠ [] then (firstToken cmdArgs.rest).getD "" else "" := by
  cases hgood : cmdArgs.good with
  | false =>
    have hword : (cmdArgs.extractWord "").1 = "" := by
      simp [InputStream.extractWord, InputStream.sentry_bad hgood]
    simp [readContext, hword]
  | true =>
    by_cases hblank : cmdArgs.rest.dropWhile isspace = []
    · simp [readContext, InputStream.extractWord_blank hgood hblank, afterToken, hblank]
    · rw [(firstToken_text hblank).1, readContext, InputStream.extractWord_text hgood hblank]
      dsimp only
      refine if_congr ?_ rfl rfl
      rw [InputStream.ws_good_iff, InputStream.good_iff]
      generalize hafter : (cmdArgs.rest.dropWhile isspace).dropWhile (fun c => !isspace c) = after
      cases after with
      | nil => simp [afterToken, hafter]
      | cons c cs => simp [afterToken, hafter]

/-- For every argument stream, the context argument is honoured exactly when its first
word is used or makes no difference. -/
theorem honoured_iff (cmdArgs : InputStream) : Honoured cmdArgs ↔ TokenUsed cmdArgs := by
  rw [honoured_iff_context, readContext_eq]
  by_cases hblank : cmdArgs.rest.dropWhile isspace = []
  · have hnone := firstToken_blank hblank
    refine iff_of_true ?_ (.inl hnone)
    rw [hnone]
    split <;> rfl
  · obtain ⟨hsome, hdecide⟩ := firstToken_text hblank
    rw [TokenUsed, hsome]
    by_cases hmore : cmdArgs.good = true ∧ afterToken cmdArgs.rest ≠ []
    · exact iff_of_true (by rw [if_pos hmore]; exact hdecide) (.inr (.inr hmore))
    · rw [if_neg hmore]
      constructor
      · intro hdefault
        exact .inr (.inl (congrArg some hdefault.symm))
      · rintro (hnone | hdefault | hused)
        · cases hnone
        · exact (Option.some.inj hdefault).symm
        · exact absurd hused hmore

/-- A context name at the end of the text, or with blanks after it only, is dropped. -/
theorem context_dropped : ¬Honoured (.ofString "robot") ∧ ¬Honoured (.ofString "robot ") ∧
    ∃ t, Ends (commandLine noFaults ⟨0, "coshell"⟩ (.initCorba "robot")) (.fresh ⟨[], fun _ _ => none⟩) t ∧
      ServesContext "sot" t := by
  refine ⟨?_, ?_, ?_⟩
  · rw [honoured_iff_context]
    decide +kernel
  · rw [honoured_iff_context]
    decide +kernel
  · have hread : decideContext (readContext (.ofString "robot")) = "sot" := by decide +kernel
    rw [(commandLine_contextCommand noFaults ⟨0, "coshell"⟩ "robot").1, ← hread]
    exact contextCommand_ends false noFaults ⟨0, "coshell"⟩ _ rfl

end Honoured
end DgMiddleware.Corba
