import DgMiddleware.Server.Delivery

/-! Client sessions that come and go. Each registers its callback under a name and in the
end unregisters the name, whichever callback is under it by then. -/
namespace DgMiddleware.Server.Sessions
open Library

structure Client where
  name : String
  callback : NotifyCallback
  deriving DecidableEq, Repr

inductive Event (ι : Type) where
  | register (session : ι)
  | notify
  | unregister (session : ι)
  deriving DecidableEq, Repr

section Sessions
variable {α ι : Type} (client : ι → Client)

/-- A notification changes nothing in the server. -/
def step (server : ServerCommand α) : Event ι → Option (ServerCommand α)
  | .register i => Notification.served (registerClient (client i).callback (client i).name) server
  | .notify => some server
  | .unregister i => Notification.served (unregisterClient (client i).name) server

def Steps (server : ServerCommand α) (e : Event ι) (server' : ServerCommand α) : Prop :=
  step client server e = some server'

/-- The session has registered, and since then neither unregistered nor been replaced. -/
def Registered (trace : List (ServerCommand α × Event ι)) (i : ι) : Prop :=
  ∃ before server after, trace = before ++ (server, .register i) :: after ∧
    ∀ x ∈ after, x.2 ≠ .unregister i ∧ ∀ j, x.2 = .register j → (client j).name ≠ (client i).name

/-- The client is listed with its own callback, and so notified with the others: the loop
reaches it once when it runs undisturbed, with no request served meanwhile and no call
that throws. -/
structure Reached (server : ServerCommand α) (c : Client) : Prop where
  listed : server.callbackList[c.name]? = some c.callback
  notified : ∃ trace l, Run Notification.Steps (.start server) trace l ∧ (∀ x ∈ trace, x.2 = .proceed) ∧
    l.phase = .returned ∧ l.notified.count (c.name, c.callback) = 1

def AllReached (trace : List (ServerCommand α × Event ι)) (server : ServerCommand α) : Prop :=
  ∀ i, Registered client trace i → Reached server (client i)

/-- No session unregisters a name under which another one is registered. -/
def OwnName (trace : List (ServerCommand α × Event ι)) (e : Event ι) : Prop :=
  ∀ j, e = .unregister j → ∀ i, Registered client trace i → (client i).name = (client j).name → i = j

variable {client} {trace : List (ServerCommand α × Event ι)} {server server' : ServerCommand α} {e : Event ι}

theorem reached_iff {c : Client} : Reached server c ↔ server.callbackList[c.name]? = some c.callback :=
  ⟨Reached.listed, fun h => ⟨h, Notification.notified_alone h⟩⟩

theorem registered_concat {i : ι} : Registered client (trace ++ [(server, e)]) i ↔ e = .register i ∨
    (Registered client trace i ∧ e ≠ .unregister i ∧ ∀ j, e = .register j → (client j).name ≠ (client i).name) := by
  constructor
  · rintro ⟨before, server₁, after, heq, hafter⟩
    rcases List.eq_nil_or_concat after with rfl | ⟨after', x, rfl⟩
    · obtain ⟨-, hx⟩ := List.append_inj' heq rfl
      exact .inl (congrArg Prod.snd (List.singleton_inj.mp hx))
    · rw [List.concat_eq_append, ← List.cons_append, ← List.append_assoc] at heq
      obtain ⟨rfl, hx⟩ := List.append_inj' heq rfl
      obtain rfl := List.singleton_inj.mp hx
      rw [List.concat_eq_append] at hafter
      exact .inr ⟨⟨before, server₁, after', rfl, fun x hx => hafter x (List.mem_append_left _ hx)⟩,
        hafter (server, e) (by simp)⟩
  · rintro (rfl | ⟨⟨before, server₁, after, rfl, hafter⟩, hlast⟩)
    · exact ⟨trace, server, [], rfl, by simp⟩
    · refine ⟨before, server₁, after ++ [(server, e)], by simp, fun x hx => ?_⟩
      rcases List.mem_append.mp hx with hx | hx
      · exact hafter x hx
      · obtain rfl := List.mem_singleton.mp hx
        exact hlast

/-- A step keeps all registered clients in the list exactly when it takes no name away
that belongs to another session. -/
private theorem allReached_step (hr : AllReached client trace server) (h : Steps client server e server') :
    AllReached client (trace ++ [(server, e)]) server' ↔ OwnName client trace e := by
  unfold AllReached at hr ⊢
  simp only [reached_iff, registered_concat] at hr ⊢
  cases e with
  | register j =>
    obtain rfl := Option.some.inj h
    refine iff_of_true ?_ nofun
    rintro i (heq | ⟨hold, -, hother⟩)
    · cases heq
      rw [lookup_insert, if_pos rfl]
    · rw [lookup_insert, if_neg (hother j rfl)]
      exact hr i hold
  | notify =>
    obtain rfl := Option.some.inj h
    refine iff_of_true ?_ nofun
    rintro i (heq | ⟨hold, -⟩)
    · cases heq
    · exact hr i hold
  | unregister j =>
    obtain rfl := Option.some.inj h
    simp only [OwnName, Event.unregister.injEq, forall_eq']
    constructor
    · intro hkept i hold hname
      by_contra hne
      have := hkept i (.inr ⟨hold, by simpa using Ne.symm hne, by simp⟩)
      simp [hname] at this
    · rintro hown i (heq | ⟨hold, hne, -⟩)
      · cases heq
      · have hname : (client j).name ≠ (client i).name := fun hname =>
          hne (by rw [hown i hold hname.symm])
        rw [Std.ExtTreeMap.getElem?_erase, if_neg (by simpa [Std.LawfulEqCmp.compare_eq_iff_eq] using hname)]
        exact hr i hold

/-- At any time every registered client is in the list and notified, exactly when no
session ever unregisters a name under which another one is registered. -/
theorem allReached_iff {first : ServerCommand α} (h : Run (Steps client) first trace server) :
    ((∀ before x after, trace = before ++ x :: after → AllReached client before x.1) ∧
      AllReached client trace server) ↔
      ∀ before x after, trace = before ++ x :: after → OwnName client before x.2 := by
  refine h.forall_histories_iff (AllReached client) (fun trace _ e => OwnName client trace e) ?_
    fun _ _ _ _ _ hr hs => allReached_step hr hs
  rintro i ⟨before, server₁, after, heq, -⟩
  simp at heq

end Sessions

def firstServer : ServerCommand Unit := ServerCommand.construct shortName "coshell"

/-- Two sessions of different names. -/
def twoNames (session : Bool) : Client := if session then ⟨"robot", ⟨1⟩⟩ else ⟨"coshell", ⟨0⟩⟩

/-- One session leaves while the other stays. -/
def overlap : List (Event Bool) := [.register false, .register true, .notify, .unregister false]

theorem allReached_twoNames : AllReached twoNames (follow (step twoNames) firstServer overlap).1
    (follow (step twoNames) firstServer overlap).2 := by
  have hinj : ∀ i j : Bool, (twoNames i).name = (twoNames j).name → i = j := by decide
  exact ((allReached_iff (run_follow (step twoNames) firstServer overlap)).mpr
    fun _ _ _ _ j _ i _ hname => hinj i j hname).2

/-- Sessions of one program, which all use its name. -/
def oneName (session : Bool) : Client := ⟨"coshell", ⟨session.toNat⟩⟩

/-- The second session has taken the name over when the first one leaves: it is registered
and not in the list any more. -/
theorem replaced_session_unlists : ∃ (trace : List (ServerCommand Unit × Event Bool)) (server : ServerCommand Unit),
    Run (Steps oneName) firstServer trace server ∧ Registered oneName trace true ∧
      server.callbackList["coshell"]? = none ∧ ¬AllReached oneName trace server := by
  have hregistered : Registered oneName (follow (step oneName) firstServer overlap).1 true :=
    ⟨(follow (step oneName) firstServer overlap).1.take 1, _, (follow (step oneName) firstServer overlap).1.drop 2,
      rfl, by decide +kernel⟩
  have hlookup : (follow (step oneName) firstServer overlap).2.callbackList["coshell"]? = none := by
    decide +kernel
  refine ⟨_, _, run_follow (step oneName) firstServer overlap, hregistered, hlookup, fun hall => ?_⟩
  have hlisted := (hall true hregistered).listed
  rw [show (oneName true).name = "coshell" from rfl, hlookup] at hlisted
  cases hlisted

end DgMiddleware.Server.Sessions
