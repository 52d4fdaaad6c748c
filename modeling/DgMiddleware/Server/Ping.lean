import DgMiddleware.Library.InputStream
import DgMiddleware.Server.Delivery

/-! The `ping` command when calls to clients may throw. The loop of `notifyClients` has
no handler, so the first call that throws is the last one it makes. -/
namespace DgMiddleware.Server.Ping
open Library
variable {α : Type}

/-- The server during a ping, with the calls to `notifyClient` made so far. -/
structure Calling (α : Type) where
  server : ServerCommand α
  calls : List (String × NotifyCallback)

/-- What the call on the client of a name throws, if it throws. -/
abbrev Raising : Type := String → Option Exception

def callClient (raising : Raising) (entry : String × NotifyCallback) : Method Exception (Calling α) Unit := do
  let s ← .get
  .set { s with calls := s.calls ++ [entry] }
  match raising entry.1 with
  | some e => .raise e
  | none => return

def callEach (raising : Raising) : List (String × NotifyCallback) → Method Exception (Calling α) Unit
  | [] => return
  | entry :: rest => do
    callClient raising entry
    callEach raising rest

/-- No request is served meanwhile, so the list is what it was at the start. -/
def notifyClients (raising : Raising) : Method Exception (Calling α) Unit := do
  let s ← .get
  callEach raising s.server.callbackList.toList

def notifyClient (raising : Raising) (name : String) : Method Exception (Calling α) Unit := do
  let s ← .get
  match s.server.callbackList[name]? with
  | none => return
  | some listen => callClient raising (name, listen)

def ping (raising : Raising) (cmdArgs : InputStream) : Method Exception (Calling α) Unit :=
  let cmdArgs := cmdArgs.ws
  if cmdArgs.good then notifyClient raising (cmdArgs.extractWord "").1
  else notifyClients raising

section Calls
variable {raising : Raising} {entries : List (String × NotifyCallback)}

/-- The entries up to the first one whose call throws. -/
def reached (raising : Raising) : List (String × NotifyCallback) → List (String × NotifyCallback)
  | [] => []
  | entry :: rest => entry :: if raising entry.1 = none then reached raising rest else []

theorem callEach_eq (raising : Raising) (entries : List (String × NotifyCallback)) (s : Calling α) :
    callEach raising entries s =
      match entries.findSome? fun entry => raising entry.1 with
      | some e => .raise e { s with calls := s.calls ++ reached raising entries }
      | none => .ret () { s with calls := s.calls ++ reached raising entries } := by
  induction entries generalizing s with
  | nil => simp [callEach, reached]
  | cons entry rest ih =>
    rw [callEach, Method.bind_apply, callClient, List.findSome?_cons]
    cases h : raising entry.1 with
    | some e => simp [reached, h]
    | none => simp [ih, reached, h, List.append_assoc]

theorem isPrefix_reached (raising : Raising) (entries : List (String × NotifyCallback)) :
    reached raising entries <+: entries := by
  induction entries with
  | nil => exact List.prefix_rfl
  | cons entry rest ih =>
    rw [reached, List.prefix_cons_inj]
    split
    · exact ih
    · exact List.nil_prefix

/-- All entries are called once exactly when only the last of them may throw. -/
theorem reached_all_iff (raising : Raising) (hsorted : entries.Pairwise fun a b => a.1 < b.1) :
    (∀ entry ∈ entries, (reached raising entries).count entry = 1) ↔
      ∀ entry ∈ entries, raising entry.1 ≠ none → ∀ other ∈ entries, other.1 ≤ entry.1 := by
  induction entries with
  | nil => simp
  | cons first rest ih =>
    obtain ⟨hfirst, hrest⟩ := List.pairwise_cons.mp hsorted
    have hne : ∀ entry ∈ rest, entry ≠ first := by
      rintro entry hmem rfl
      exact lt_irrefl _ (hfirst entry hmem)
    cases hraise : raising first.1 with
    | some e =>
      have hcut : reached raising (first :: rest) = [first] := by simp [reached, hraise]
      rw [hcut]
      constructor
      · intro hall
        have hnil : rest = [] := by
          refine List.eq_nil_iff_forall_not_mem.mpr fun entry hmem => ?_
          have hcount := hall entry (List.mem_cons_of_mem first hmem)
          rw [List.count_singleton, if_neg (by simpa using (hne entry hmem).symm)] at hcount
          cases hcount
        subst hnil
        simp
      · intro hlast entry hmem
        rcases List.mem_cons.mp hmem with rfl | hmem
        · simp
        · have hle := hlast first (by simp) (by simp [hraise]) entry (List.mem_cons_of_mem first hmem)
          exact absurd (hfirst entry hmem) (not_lt.mpr hle)
    | none =>
      have hon : reached raising (first :: rest) = first :: reached raising rest := by simp [reached, hraise]
      have hnot : first ∉ reached raising rest := fun hmem =>
        hne first ((isPrefix_reached raising rest).subset hmem) rfl
      rw [hon, List.forall_mem_cons, List.count_cons_self, List.count_eq_zero_of_not_mem hnot]
      have hcount : ∀ entry ∈ rest,
          ((first :: reached raising rest).count entry = 1 ↔ (reached raising rest).count entry = 1) := by
        intro entry hmem
        rw [List.count_cons_of_ne (hne entry hmem).symm]
      rw [and_iff_right (Nat.zero_add 1), forall₂_congr hcount, ih hrest, List.forall_mem_cons]
      refine Iff.trans ?_ (and_iff_right fun hno => absurd hraise hno).symm
      refine forall₂_congr fun entry hmem => imp_congr_right fun _ => ?_
      rw [List.forall_mem_cons, and_iff_right (le_of_lt (hfirst entry hmem))]

end Calls

section Loop
variable {raising : Raising} {server : ServerCommand α}

private theorem entries_sorted (s : ServerCommand α) : s.callbackList.toList.Pairwise fun a b => a.1 < b.1 := by
  have hkeys := Notification.keys_sorted s.callbackList
  rwa [← Std.ExtTreeMap.map_fst_toList_eq_keys, List.pairwise_map] at hkeys

/-- The step of the loop when no request is served and these calls throw. -/
def loopEvent (raising : Raising) (l : Notification.Loop α) : Notification.Event :=
  match l.phase with
  | .reply iter => if raising iter.name = none then .proceed else .raised
  | _ => .proceed

def AloneSteps (raising : Raising) (l : Notification.Loop α) (e : Notification.Event) (l' : Notification.Loop α) :
    Prop := e = loopEvent raising l ∧ Notification.Steps l e l'

/-- Where the loop is ahead of the entries still to visit. -/
private def atHead (rest : List (String × NotifyCallback)) : Notification.Phase :=
  .check (rest.head?.map fun entry => ⟨entry.1, false⟩)

private theorem entryAfter_entry {done rest : List (String × NotifyCallback)} {entry : String × NotifyCallback}
    (h : server.callbackList.toList = done ++ entry :: rest) :
    Notification.Phase.check (Notification.entryAfter server entry.1) = atHead rest := by
  have hkeys : server.callbackList.keys = done.map Prod.fst ++ entry.1 :: rest.map Prod.fst := by
    rw [← Std.ExtTreeMap.map_fst_toList_eq_keys, h, List.map_append, List.map_cons]
  have hsorted := Notification.keys_sorted server.callbackList
  rw [hkeys] at hsorted
  rw [Notification.entryAfter, hkeys, nextKey_append hsorted, List.head?_map, Option.map_map]
  rfl

/-- The steps for one entry, up to its call. -/
private theorem loop_call {rest notified : List (String × NotifyCallback)} {entry : String × NotifyCallback}
    {trace : List (Notification.Loop α × Notification.Event)}
    (hlisten : server.callbackList[entry.1]? = some entry.2)
    (h : Run (AloneSteps raising) (.start server) trace ⟨server, atHead (entry :: rest), notified⟩) :
    ∃ trace', Run (AloneSteps raising) (.start server) trace'
      ⟨server, .reply ⟨entry.1, false⟩, notified ++ [entry]⟩ := by
  have enter : AloneSteps raising (⟨server, atHead (entry :: rest), notified⟩ : Notification.Loop α) .proceed
      ⟨server, .read ⟨entry.1, false⟩, notified⟩ := ⟨rfl, rfl⟩
  have read : AloneSteps raising (⟨server, .read ⟨entry.1, false⟩, notified⟩ : Notification.Loop α) .proceed
      ⟨server, .call ⟨entry.1, false⟩ entry.2, notified⟩ := by
    refine ⟨rfl, ?_⟩
    simp [Notification.Steps, Notification.Loop.step, Notification.Loop.proceed, hlisten]
  have call : AloneSteps raising
      (⟨server, .call ⟨entry.1, false⟩ entry.2, notified⟩ : Notification.Loop α) .proceed
      ⟨server, .reply ⟨entry.1, false⟩, notified ++ [entry]⟩ := ⟨rfl, rfl⟩
  exact ⟨_, ((h.next enter).next read).next call⟩

private theorem loop_from (done : List (String × NotifyCallback)) {rest notified : List (String × NotifyCallback)}
    {trace : List (Notification.Loop α × Notification.Event)} (h : server.callbackList.toList = done ++ rest)
    (hrun : Run (AloneSteps raising) (.start server) trace ⟨server, atHead rest, notified⟩) :
    ∃ trace' l, Run (AloneSteps raising) (.start server) trace' l ∧ l.notified = notified ++ reached raising rest ∧
      l.phase = if ∀ entry ∈ rest, raising entry.1 = none then .returned else .threw := by
  induction rest generalizing done notified trace with
  | nil =>
    have last : AloneSteps raising (⟨server, atHead [], notified⟩ : Notification.Loop α) .proceed
        ⟨server, .returned, notified⟩ := ⟨rfl, rfl⟩
    exact ⟨_, _, hrun.next last, by simp [reached], by simp⟩
  | cons entry rest ih =>
    have hlisten : server.callbackList[entry.1]? = some entry.2 :=
      Std.ExtTreeMap.mem_toList_iff_getElem?_eq_some.mp (by simp [h])
    obtain ⟨called, hcalled⟩ := loop_call hlisten hrun
    cases hraise : raising entry.1 with
    | some e =>
      have threw : AloneSteps raising
          (⟨server, .reply ⟨entry.1, false⟩, notified ++ [entry]⟩ : Notification.Loop α) .raised
          ⟨server, .threw, notified ++ [entry]⟩ := ⟨by simp [loopEvent, hraise], rfl⟩
      exact ⟨_, _, hcalled.next threw, by simp [reached, hraise], by simp [hraise]⟩
    | none =>
      have reply : AloneSteps raising
          (⟨server, .reply ⟨entry.1, false⟩, notified ++ [entry]⟩ : Notification.Loop α) .proceed
          ⟨server, .advance ⟨entry.1, false⟩, notified ++ [entry]⟩ := ⟨by simp [loopEvent, hraise], rfl⟩
      have advance : AloneSteps raising
          (⟨server, .advance ⟨entry.1, false⟩, notified ++ [entry]⟩ : Notification.Loop α) .proceed
          ⟨server, atHead rest, notified ++ [entry]⟩ := by
        rw [← entryAfter_entry h]
        exact ⟨rfl, rfl⟩
      obtain ⟨trace', l, hrun', hnotified, hphase⟩ :=
        ih (done ++ [entry]) (by simp [h]) ((hcalled.next reply).next advance)
      exact ⟨trace', l, hrun', by simp [hnotified, reached, hraise],
        hphase.trans (if_congr (by simp [hraise]) rfl rfl)⟩

/-- With no request served meanwhile, the loop of `notifyClients` makes just these calls,
and throws as soon as one of them does. -/
theorem loop_reaches (raising : Raising) (server : ServerCommand α) :
    ∃ trace l, Run (AloneSteps raising) (.start server) trace l ∧
      l.notified = reached raising server.callbackList.toList ∧
      l.phase = if ∀ entry ∈ server.callbackList.toList, raising entry.1 = none then .returned else .threw := by
  have hhead : Notification.Phase.check (Notification.entryAfter server ⊥) = atHead server.callbackList.toList := by
    rw [Notification.entryAfter, nextKey_bot, ← Std.ExtTreeMap.map_fst_toList_eq_keys, List.head?_map,
      Option.map_map]
    rfl
  have begin : AloneSteps raising (.start server) .proceed ⟨server, atHead server.callbackList.toList, []⟩ := by
    rw [← hhead]
    exact ⟨rfl, rfl⟩
  have hrun : Run (AloneSteps raising) (Notification.Loop.start server) [] (.start server) := .start
  simpa using loop_from [] (List.nil_append _).symm (hrun.next begin)

end Loop

section Pings

/-- The server once a body has ended, with the calls it made. -/
def ended : Outcome Exception (Calling α) Unit → Option (Calling α)
  | .ret _ s => some s
  | .raise _ s => some s
  | .undefined => none

def pinged (raising : Raising) (cmdArgs : InputStream) (server : ServerCommand α) : Option (Calling α) :=
  ended (ping raising cmdArgs ⟨server, []⟩)

/-- A ping and the clients it cannot reach, a client that comes or goes, or any other
operation, which has the list as it is. -/
inductive Event (α : Type) where
  | ping (raising : Raising) (cmdArgs : InputStream)
  | registerClient (client : NotifyCallback) (clientName : String)
  | unregisterClient (clientName : String)
  | other (server : ServerCommand α)

def step (s : ServerCommand α) : Event α → Option (ServerCommand α)
  | .ping raising cmdArgs => (pinged raising cmdArgs s).map Calling.server
  | .registerClient client clientName => Notification.served (registerClient client clientName) s
  | .unregisterClient clientName => Notification.served (unregisterClient clientName) s
  | .other server => some { server with callbackList := s.callbackList }

def Steps (s : ServerCommand α) (e : Event α) (t : ServerCommand α) : Prop := step s e = some t

/-- Who is registered under a name after an event, and after all events so far. -/
def Event.listedAfter (name : String) (client : Option NotifyCallback) : Event α → Option NotifyCallback
  | .registerClient listen clientName => if clientName = name then some listen else client
  | .unregisterClient clientName => if clientName = name then none else client
  | .ping _ _ | .other _ => client

def listed (name : String) (trace : List (ServerCommand α × Event α)) : Option NotifyCallback :=
  trace.foldl (fun client x => x.2.listedAfter name client) none

@[simp] theorem listed_snoc (name : String) (trace : List (ServerCommand α × Event α)) (s : ServerCommand α)
    (e : Event α) : listed name (trace ++ [(s, e)]) = e.listedAfter name (listed name trace) := by
  simp [listed]

/-- Nothing but white space. -/
def WithoutArgument (cmdArgs : InputStream) : Prop := cmdArgs.rest.dropWhile isspace = []

instance (cmdArgs : InputStream) : Decidable (WithoutArgument cmdArgs) := by
  unfold WithoutArgument
  infer_instance

/-- A ping without argument ends having called every registered client exactly once. -/
def ReachesAll (before : List (ServerCommand α × Event α)) (s : ServerCommand α) : Event α → Prop
  | .ping raising cmdArgs => WithoutArgument cmdArgs → ∃ calling, pinged raising cmdArgs s = some calling ∧
      ∀ name client, listed name before = some client → calling.calls.count (name, client) = 1
  | _ => True

/-- Of the registered clients only the last one in name order may throw. -/
def OnlyLastRaises (before : List (ServerCommand α × Event α)) : Event α → Prop
  | .ping raising cmdArgs => WithoutArgument cmdArgs → ∀ name client, listed name before = some client →
      raising name ≠ none → ∀ other client', listed other before = some client' → other ≤ name
  | _ => True

variable {s t : ServerCommand α} {e : Event α} {trace : List (ServerCommand α × Event α)} {raising : Raising}
  {cmdArgs : InputStream}

private theorem pinged_all (h : WithoutArgument cmdArgs) (raising : Raising) (s : ServerCommand α) :
    pinged raising cmdArgs s = some ⟨s, reached raising s.callbackList.toList⟩ := by
  have hbad : cmdArgs.ws.good ≠ true := fun hgood => (InputStream.ws_good_iff.mp hgood).2 h
  rw [pinged, ping, if_neg hbad, notifyClients, Method.bind_apply, Method.get_apply, Outcome.bind_ret,
    callEach_eq]
  cases s.callbackList.toList.findSome? fun entry => raising entry.1 <;> rfl

private theorem callClient_server (entry : String × NotifyCallback) (s : Calling α) :
    (ended (callClient raising entry s)).map Calling.server = some s.server := by
  simp only [callClient, Method.bind_apply, Method.get_apply, Outcome.bind_ret, Method.set_apply]
  cases raising entry.1 <;> rfl

/-- No ping changes the server, even when it throws. -/
private theorem pinged_server (raising : Raising) (cmdArgs : InputStream) (s : ServerCommand α) :
    (pinged raising cmdArgs s).map Calling.server = some s := by
  by_cases hgood : cmdArgs.ws.good = true
  · rw [pinged, ping, if_pos hgood, notifyClient, Method.bind_apply, Method.get_apply, Outcome.bind_ret]
    cases s.callbackList[(cmdArgs.ws.extractWord "").1]? with
    | none => rfl
    | some listen => exact callClient_server _ _
  · rw [pinged, ping, if_neg hgood, notifyClients, Method.bind_apply, Method.get_apply, Outcome.bind_ret,
      callEach_eq]
    cases s.callbackList.toList.findSome? fun entry => raising entry.1 <;> rfl

/-- What a step does to the entry of a name. -/
private theorem listed_step (name : String) (hs : s.callbackList[name]? = listed name trace)
    (h : Steps s e t) : t.callbackList[name]? = listed name (trace ++ [(s, e)]) := by
  rw [listed_snoc, ← hs]
  cases e with
  | ping raising cmdArgs =>
    obtain rfl : s = t := Option.some.inj ((pinged_server raising cmdArgs s).symm.trans h)
    rfl
  | registerClient client clientName =>
    obtain rfl := Option.some.inj h
    exact lookup_insert _ _ _ _
  | unregisterClient clientName =>
    obtain rfl := Option.some.inj h
    simp [Event.listedAfter, Std.ExtTreeMap.getElem?_erase, Std.LawfulEqCmp.compare_eq_iff_eq]
  | other server =>
    obtain rfl := Option.some.inj h
    rfl

theorem listed_run {localName : String → String} {server : String} (name : String)
    (h : Run Steps (ServerCommand.construct localName server) trace s) :
    s.callbackList[name]? = listed name trace := by
  refine h.history (fun trace s => s.callbackList[name]? = listed name trace) ?_
    fun trace s e t _ hs hstep => listed_step name hs hstep
  simp [ServerCommand.construct, listed]

/-- One ping reaches everybody exactly when only the last client may throw. -/
private theorem reachesAll_iff (hs : ∀ name, s.callbackList[name]? = listed name trace) :
    ReachesAll trace s e ↔ OnlyLastRaises trace e := by
  cases e with
  | ping raising cmdArgs =>
    refine imp_congr_right fun hblank => ?_
    have hmem : ∀ name client, (name, client) ∈ s.callbackList.toList ↔ listed name trace = some client := by
      intro name client
      rw [Std.ExtTreeMap.mem_toList_iff_getElem?_eq_some, hs]
    have hall := reached_all_iff raising (entries_sorted s)
    simp only [Prod.forall, hmem] at hall
    rw [pinged_all hblank]
    simpa using hall
  | registerClient | unregisterClient | other => exact Iff.rfl

/-- In a run, every ping without argument reaches every client registered by then
exactly when none of them throws but possibly the last one in name order. -/
theorem pings_reach_all_iff {localName : String → String} {server : String}
    (h : Run Steps (ServerCommand.construct localName server) trace s) :
    (∀ before x after, trace = before ++ x :: after → ReachesAll before x.1 x.2) ↔
      ∀ before x after, trace = before ++ x :: after → OnlyLastRaises before x.2 := by
  refine forall_congr' fun before => forall_congr' fun x => forall_congr' fun after =>
    forall_congr' fun heq => ?_
  subst heq
  exact reachesAll_iff fun name => listed_run name h.split.1

/-- The calls on the client of one name throw. -/
def deadRaising (dead : String) : Raising := fun name => if name = dead then some .systemException else none

/-- Two clients register, and the one of the given name is dead when two pings follow. -/
def oneDead (dead : String) : List (Event Unit) :=
  [.registerClient ⟨0⟩ "a", .registerClient ⟨1⟩ "b", .ping (deadRaising dead) (.ofString ""),
    .ping (deadRaising dead) (.ofString " ")]

/-- The calls that a ping makes. -/
def callsMade (x : ServerCommand α × Event α) : Option (List (String × NotifyCallback)) :=
  match x.2 with
  | .ping raising cmdArgs => (pinged raising cmdArgs x.1).map Calling.calls
  | _ => none

private theorem oneDead_trace (dead : String) : ∃ s₀ s₁ s₂ s₃,
    (follow step (ServerCommand.construct shortName "coshell") (oneDead dead)).1 =
      [] ++ [(s₀, .registerClient ⟨0⟩ "a")] ++ [(s₁, .registerClient ⟨1⟩ "b")] ++
        [(s₂, .ping (deadRaising dead) (.ofString ""))] ++ [(s₃, .ping (deadRaising dead) (.ofString " "))] := by
  have hping : ∀ (s : ServerCommand Unit) cmdArgs, step s (.ping (deadRaising dead) cmdArgs) = some s :=
    fun s cmdArgs => pinged_server (deadRaising dead) cmdArgs s
  have hregister : ∀ (s : ServerCommand Unit) client name, step s (.registerClient client name) =
      some { s with callbackList := s.callbackList.insert name client } := fun _ _ _ => rfl
  simp only [follow, oneDead, List.foldl_cons, List.foldl_nil, hping, hregister]
  exact ⟨_, _, _, _, rfl⟩

private theorem lastDead_only {before : List (ServerCommand Unit × Event Unit)}
    (hlisted : ∀ name, listed name before ≠ none → name = "a" ∨ name = "b") (cmdArgs : InputStream) :
    OnlyLastRaises before (.ping (deadRaising "b") cmdArgs) := by
  rintro - name client hname hraise other client' hother
  obtain rfl : name = "b" := by
    by_contra hne
    exact hraise (if_neg hne)
  rcases hlisted other (by simp [hother]) with rfl | rfl
  · decide
  · exact le_rfl

theorem pings_reach_all_last :
    listed "b" (follow step (ServerCommand.construct shortName "coshell") (oneDead "b")).1 = some ⟨1⟩ ∧
      ∀ before x after, (follow step (ServerCommand.construct shortName "coshell") (oneDead "b")).1 =
        before ++ x :: after → ReachesAll before x.1 x.2 := by
  refine ⟨by decide +kernel, ?_⟩
  refine (pings_reach_all_iff (run_follow step (ServerCommand.construct shortName "coshell") (oneDead "b"))).mpr ?_
  obtain ⟨s₀, s₁, s₂, s₃, htrace⟩ := oneDead_trace "b"
  have hlisted : ∀ name, listed name ([] ++ [(s₀, Event.registerClient ⟨0⟩ "a")] ++
      [(s₁, .registerClient ⟨1⟩ "b")]) ≠ none → name = "a" ∨ name = "b" := by
    intro name h
    simp only [listed_snoc, Event.listedAfter] at h
    split_ifs at h with hb ha
    · exact .inr hb.symm
    · exact .inl ha.symm
    · exact absurd rfl h
  rw [htrace]
  iterate 4 rw [forall_splits_concat (P := fun before x => OnlyLastRaises before x.2)]
  refine ⟨⟨⟨⟨by simp, trivial⟩, trivial⟩, lastDead_only hlisted _⟩, lastDead_only (fun name h => ?_) _⟩
  rw [listed_snoc] at h
  exact hlisted name h

/-- The first client is dead: neither ping calls the second one. -/
theorem dead_client_hides : ∃ (trace : List (ServerCommand Unit × Event Unit)) (s : ServerCommand Unit),
    Run Steps (ServerCommand.construct shortName "coshell") trace s ∧
      trace.filterMap callsMade = [[("a", ⟨0⟩)], [("a", ⟨0⟩)]] ∧ listed "b" trace = some ⟨1⟩ ∧
      ¬∀ before x after, trace = before ++ x :: after → ReachesAll before x.1 x.2 := by
  have hcalls : (follow step (ServerCommand.construct shortName "coshell") (oneDead "a")).1.filterMap callsMade =
      [[("a", ⟨0⟩)], [("a", ⟨0⟩)]] := by decide +kernel
  have hlisted : listed "b" (follow step (ServerCommand.construct shortName "coshell") (oneDead "a")).1 =
      some ⟨1⟩ := by
    decide +kernel
  refine ⟨_, _, run_follow step _ (oneDead "a"), hcalls, hlisted, fun h => ?_⟩
  obtain ⟨s₀, s₁, s₂, s₃, htrace⟩ := oneDead_trace "a"
  rw [htrace] at h hcalls hlisted
  rw [listed_snoc] at hlisted
  obtain ⟨calling, hpinged, honce⟩ := h _ (s₃, .ping (deadRaising "a") (.ofString " ")) [] rfl (by decide)
  have hmade : callsMade (s₃, .ping (deadRaising "a") (.ofString " ")) = some calling.calls :=
    congrArg (Option.map Calling.calls) hpinged
  rw [List.filterMap_append, List.filterMap_cons_some hmade, List.filterMap_nil] at hcalls
  have hsplit : _ ++ [calling.calls] = [[("a", (⟨0⟩ : NotifyCallback))]] ++ [[("a", ⟨0⟩)]] := hcalls
  have hlast : [calling.calls] = [[("a", ⟨0⟩)]] := (List.append_inj' hsplit rfl).2
  have hcount := honce "b" ⟨1⟩ hlisted
  rw [List.singleton_inj.mp hlast] at hcount
  exact absurd hcount (by decide)

end Pings
end DgMiddleware.Server.Ping
