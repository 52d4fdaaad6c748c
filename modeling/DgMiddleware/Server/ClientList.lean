import DgMiddleware.Library.Lines
import DgMiddleware.Server.Ping

/-! The `clients` command, which lists the registered clients one on a line. A name may
hold any character, so the list can be read back only as far as the names allow it. -/
namespace DgMiddleware.Server.Ping
open Library
variable {α : Type}

def displayClientList (s : ServerCommand α) (os : String) : String :=
  s.callbackList.toList.foldl (fun os iter => os ++ " - " ++ iter.1 ++ "\n") os

/-- The names as a reader finds them, who takes each line for an entry. -/
def readClients (os : String) : List String :=
  (linesOf '\n' os.toList).map fun line => String.ofList (line.drop " - ".length)

/-- The list is read back as the names of the registered clients, in order and each once. -/
def ListsRegistered (trace : List (ServerCommand α × Event α)) (s : ServerCommand α) : Prop :=
  (readClients (displayClientList s "")).Pairwise (· < ·) ∧
    ∀ name, name ∈ readClients (displayClientList s "") ↔ listed name trace ≠ none

section Clients
variable {s : ServerCommand α} {trace : List (ServerCommand α × Event α)}

/-- The line of a name, without its end. -/
private def clientLine (name : String) : List Char := " - ".toList ++ name.toList

theorem displayClientList_eq (s : ServerCommand α) (os : String) : (displayClientList s os).toList =
    os.toList ++ joinLines '\n' (s.callbackList.keys.map clientLine) := by
  rw [displayClientList, ← Std.ExtTreeMap.map_fst_toList_eq_keys]
  generalize s.callbackList.toList = entries
  induction entries generalizing os with
  | nil => simp [joinLines]
  | cons entry entries ih =>
    rw [List.foldl_cons, ih]
    simp [joinLines, clientLine, String.toList_append]

private theorem mem_clientLine {name : String} : '\n' ∈ clientLine name ↔ '\n' ∈ name.toList := by
  simp [clientLine]

private theorem length_readClients (s : ServerCommand α) : (readClients (displayClientList s "")).length =
    (linesOf '\n' (joinLines '\n' (s.callbackList.keys.map clientLine))).length := by
  simp [readClients, displayClientList_eq]

/-- Names without a line end are read back as they are. -/
theorem readClients_eq (h : ∀ name ∈ s.callbackList.keys, '\n' ∉ name.toList) :
    readClients (displayClientList s "") = s.callbackList.keys := by
  have hlines : ∀ line ∈ s.callbackList.keys.map clientLine, '\n' ∉ line := by
    intro line hline
    obtain ⟨name, hname, rfl⟩ := List.mem_map.mp hline
    exact mt mem_clientLine.mp (h name hname)
  rw [readClients, displayClientList_eq, String.toList_empty, List.nil_append, linesOf_joinLines hlines, List.map_map]
  refine (List.map_congr_left fun name _ => ?_).trans (List.map_id _)
  have hdrop : (clientLine name).drop " - ".length = name.toList := List.drop_left' rfl
  rw [Function.comp_apply, hdrop, String.ofList_toList, id_eq]

/-- In a run of registrations, pings and anything else, the list shows exactly the clients
that are registered, if and only if no name of theirs holds the end of a line. -/
theorem clients_run_iff {localName : String → String} {server : String}
    (h : Run Steps (ServerCommand.construct localName server) trace s) :
    ListsRegistered trace s ↔ ∀ name, listed name trace ≠ none → '\n' ∉ name.toList := by
  have hkeys : ∀ name, name ∈ s.callbackList.keys ↔ listed name trace ≠ none := by
    intro name
    rw [← listed_run name h, Std.ExtTreeMap.mem_keys, Std.ExtTreeMap.mem_iff_isSome_getElem?,
      Option.isSome_iff_ne_none]
  have hsorted := Notification.keys_sorted s.callbackList
  constructor
  · rintro ⟨hread, hmem⟩
    -- the list read back and the keys are sets of the same names, so no line is too many
    have hsame : (readClients (displayClientList s "")).Perm s.callbackList.keys := by
      refine (List.perm_ext_iff_of_nodup ?_ ?_).mpr fun name => (hmem name).trans (hkeys name).symm
      · exact hread.imp fun hlt => ne_of_lt hlt
      · exact hsorted.imp fun hlt => ne_of_lt hlt
    have hlength := hsame.length_eq
    rw [length_readClients, ← List.length_map (f := clientLine), length_linesOf_joinLines_iff] at hlength
    intro name hname
    exact mt mem_clientLine.mpr (hlength _ (List.mem_map_of_mem ((hkeys name).mpr hname)))
  · intro hnames
    rw [ListsRegistered, readClients_eq fun name hname => hnames name ((hkeys name).mp hname)]
    exact ⟨hsorted, hkeys⟩

end Clients

/-- Three clients are registered, not in the order of their names, and one has left. -/
def oneLeft : List (Event Unit) :=
  [.registerClient ⟨0⟩ "robot", .registerClient ⟨1⟩ "viewer", .registerClient ⟨2⟩ "coshell",
    .unregisterClient "robot"]

theorem clients_run_oneLeft :
    displayClientList (follow step (ServerCommand.construct shortName "coshell") oneLeft).2 "" =
        " - coshell\n - viewer\n" ∧
      ListsRegistered (follow step (ServerCommand.construct shortName "coshell") oneLeft).1
        (follow step (ServerCommand.construct shortName "coshell") oneLeft).2 := by
  have hrun := run_follow step (ServerCommand.construct shortName "coshell") oneLeft
  refine ⟨by decide +kernel, (clients_run_iff hrun).mpr ?_⟩
  intro name hname
  have hevents : listed name (follow step (ServerCommand.construct shortName "coshell") oneLeft).1 =
      if "robot" = name then none else if "coshell" = name then some ⟨2⟩ else
        if "viewer" = name then some ⟨1⟩ else if "robot" = name then some ⟨0⟩ else none := rfl
  rw [hevents] at hname
  split_ifs at hname with hrobot hcoshell hviewer
  · exact absurd rfl hname
  · exact hcoshell ▸ by decide
  · exact hviewer ▸ by decide
  · exact absurd rfl hname

end DgMiddleware.Server.Ping
