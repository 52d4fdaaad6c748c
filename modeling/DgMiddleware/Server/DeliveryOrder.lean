import DgMiddleware.Server.Delivery

/-! Whom the loop of `notifyClients` calls, whatever requests are served meanwhile: the
clients it has read from the list, in the order of their names, up to the call that throws. -/
namespace DgMiddleware.Server.Notification
open Library
variable {α : Type}

/-- The entry that a step of the loop reads from the list. -/
def readEntry (x : Loop α × Event) : Option (String × NotifyCallback) :=
  match x.1.phase, x.2 with
  | .read iter, .proceed => x.1.server.callbackList[iter.name]?.map fun listen => (iter.name, listen)
  | _, _ => none

/-- The call that the loop is about to make. -/
def Phase.pending : Phase → Option (String × NotifyCallback)
  | .call iter listen => some (iter.name, listen)
  | _ => none

/-- The calls of a run. A client that leaves once the loop has read its entry is called
all the same, through a reference that is taken to be still valid, and one that comes
under a name already passed is not called. -/
structure Dispatched (trace : List (Loop α × Event)) (l : Loop α) : Prop where
  ordered : (l.notified.map Prod.fst).Pairwise (· < ·)
  called : l.notified ++ l.phase.pending.toList = trace.filterMap readEntry
  stopped : l.phase = .threw → ∃ last ∈ l.notified.getLast?, ∀ name client,
    RegisteredThroughout trace l name client → ((name, client) ∈ l.notified ↔ name ≤ last.1)

section Steps
variable {l l' : Loop α} {e : Event} {trace : List (Loop α × Event)}

theorem pending_erase (p : Phase) (clientName : String) : (p.erase clientName).pending = p.pending := by
  cases p <;> simp [Phase.erase, Phase.pending, erase_name]

/-- A step that reads an entry has it pending, and the next one makes the call. -/
theorem read_step (h : Steps l e l') : l'.notified ++ l'.phase.pending.toList =
    l.notified ++ l.phase.pending.toList ++ (readEntry (l, e)).toList := by
  have heffect := h.effect
  cases heffect with
  | begin hphase | through hphase | enter hphase | reply hphase | advance hphase | raised hphase =>
    simp [readEntry, Phase.pending, hphase]
  | read hphase _ hlisten => simp [readEntry, Phase.pending, hphase, hlisten]
  | call hphase => simp [readEntry, Phase.pending, hphase]
  | registered => simp [readEntry]
  | unregistered => simp [readEntry, pending_erase]

/-- After its call, and until it moves on, the iterator is at the client called last. -/
def AtLast (l : Loop α) : Prop :=
  ∀ iter, l.phase = .reply iter → ∃ last ∈ l.notified.getLast?, last.1 = iter.name

private theorem atLast_step (hl : AtLast l) (h : Steps l e l') : AtLast l' := by
  have heffect := h.effect
  cases heffect with
  | begin | through | enter | read | reply | advance | raised => intro iter hreply; cases hreply
  | @call iter listen hphase =>
    rintro _ ⟨⟩
    exact ⟨(iter.name, listen), by simp, rfl⟩
  | registered => exact hl
  | unregistered =>
    intro iter hreply
    obtain ⟨old, hold, rfl⟩ : ∃ old, l.phase = .reply old ∧ old.erase _ = iter := by
      cases hphase : l.phase <;> simp only [hphase, Phase.erase] at hreply <;> cases hreply
      exact ⟨_, rfl, rfl⟩
    rw [erase_name]
    exact hl old hold

/-- What the loop had done when a call of it threw. -/
def Stopped (trace : List (Loop α × Event)) (l : Loop α) : Prop :=
  l.phase = .threw → ∃ last ∈ l.notified.getLast?, ∀ name client,
    RegisteredThroughout trace l name client → name ≤ last.1 → (name, client) ∈ l.notified

private theorem stopped_step (hc : Calls trace l) (hl : AtLast l) (hs : Stopped trace l) (h : Steps l e l') :
    Stopped (trace ++ [(l, e)]) l' := by
  have heffect := h.effect
  cases heffect with
  | begin | through | enter | read | call | reply | advance => intro hthrew; cases hthrew
  | @raised iter hphase =>
    intro _
    obtain ⟨last, hlast, hname⟩ := hl iter hphase
    refine ⟨last, hlast, fun name client hreg hle => ?_⟩
    refine hc.complete (by simp [hphase]) name client hreg.before ?_
    rw [hphase]
    exact hle.trans_eq hname
  | registered =>
    intro hthrew
    obtain ⟨last, hlast, hall⟩ := hs hthrew
    exact ⟨last, hlast, fun name client hreg => hall name client hreg.before⟩
  | unregistered =>
    intro hthrew
    have hbefore : l.phase = .threw := by
      cases hphase : l.phase <;> simp only [hphase, Phase.erase] at hthrew <;> cases hthrew
      rfl
    obtain ⟨last, hlast, hall⟩ := hs hbefore
    exact ⟨last, hlast, fun name client hreg => hall name client hreg.before⟩

/-- The last of the calls is to the greatest name. -/
private theorem le_last {calls : List (String × NotifyCallback)} {call last : String × NotifyCallback}
    (hordered : (calls.map Prod.fst).Pairwise (· < ·)) (hlast : last ∈ calls.getLast?) (hcall : call ∈ calls) :
    call.1 ≤ last.1 := by
  obtain ⟨before, rfl⟩ := List.getLast?_eq_some_iff.mp hlast
  rw [List.map_append, List.pairwise_append] at hordered
  rcases List.mem_append.mp hcall with hcall | hcall
  · exact le_of_lt (hordered.2.2 call.1 (List.mem_map_of_mem hcall) last.1 (by simp))
  · exact le_of_eq (congrArg Prod.fst (List.mem_singleton.mp hcall))

end Steps

section Run
variable {server : ServerCommand α} {l : Loop α} {trace : List (Loop α × Event)}

private theorem called_run (h : Run Steps (.start server) trace l) :
    l.notified ++ l.phase.pending.toList = trace.filterMap readEntry := by
  refine h.history (fun trace l => l.notified ++ l.phase.pending.toList = trace.filterMap readEntry) rfl ?_
  intro trace l e l' _ hcalled hstep
  rw [read_step hstep, hcalled, List.filterMap_append]
  cases hread : readEntry (l, e) <;> simp [hread]

private theorem stopped_run (h : Run Steps (.start server) trace l) : Stopped trace l := by
  have hstart : AtLast (.start server) ∧ Stopped [] (.start server) := by
    simp [AtLast, Stopped, Loop.start]
  refine (h.history (fun trace l => AtLast l ∧ Stopped trace l) hstart ?_).2
  intro trace l e l' hrun hl hstep
  exact ⟨atLast_step hl.1 hstep, stopped_step (calls_run hrun) hl.1 hl.2 hstep⟩

/-- Whatever requests are served while the loop runs, and wherever it stops, it has called
the clients it read, one after another in the order of their names; when a call threw, it
had called of the clients that stayed registered exactly those up to that one. -/
theorem dispatched_run (h : Run Steps (.start server) trace l) : Dispatched trace l where
  ordered := (calls_run h).ordered
  called := called_run h
  stopped := by
    intro hthrew
    obtain ⟨last, hlast, hall⟩ := stopped_run h hthrew
    refine ⟨last, hlast, fun name client hreg => ⟨fun hcall => ?_, hall name client hreg⟩⟩
    exact le_last (calls_run h).ordered hlast hcall

end Run

/-- Two clients are called; the second leaves while it is being called, and the call
throws. A third client came meanwhile, and the loop never reaches it. -/
def leaving : List Event :=
  [.proceed, .proceed, .proceed, .proceed, .proceed, .proceed, .proceed, .registerClient ⟨2⟩ "c", .proceed,
    .proceed, .unregisterClient "b", .raised]

theorem dispatched_leaving :
    (follow Loop.step (.start twoClients) leaving).2.phase = .threw ∧
      (follow Loop.step (.start twoClients) leaving).2.notified = [("a", ⟨0⟩), ("b", ⟨1⟩)] ∧
      Dispatched (follow Loop.step (.start twoClients) leaving).1
        (follow Loop.step (.start twoClients) leaving).2 :=
  ⟨by decide +kernel, by decide +kernel, dispatched_run (run_follow Loop.step (.start twoClients) leaving)⟩

end DgMiddleware.Server.Notification
