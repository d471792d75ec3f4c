/-
# Rehearsing a restore

A restore can be rehearsed against stores in memory.  A rehearsal may have a drive and a store
of items of each kind, and keeps the receipts it is handed.  It can be disturbed by rules: a
call of a certain kind, every time or only the n-th, fails without reaching the stores, finds
nothing, or stops the restore.
-/
import TenantRestore.Store.Drive
import TenantRestore.Store.Items

namespace TenantRestore

/-- What a call asks for, whoever it concerns. -/
inductive Verb
  /-- The root folder of a drive. -/
  | rootFolder
  /-- A folder of a name. -/
  | findFolder
  /-- A new folder. -/
  | createFolder
  /-- The keys of a folder or container. -/
  | listKeys
  /-- A new file or item. -/
  | create
  /-- The deletion of a file or item. -/
  | delete
  /-- A new name for a file. -/
  | rename
  /-- A new permission. -/
  | grant
  /-- The end of a permission. -/
  | revoke
  /-- A container of a name. -/
  | container
  /-- The children of an item. -/
  | addChildren
  /-- A receipt. -/
  | receipt
deriving DecidableEq, Repr

/-- What a call asks for. -/
def Call.verb : Call → Verb
  | .drive (.rootFolder _) => .rootFolder
  | .drive (.findFolder _ _ _) => .findFolder
  | .drive (.createFolder _ _ _) => .createFolder
  | .drive (.listKeys _ _) => .listKeys
  | .drive (.upload _ _ _ _ _) => .create
  | .drive (.delete _ _) => .delete
  | .drive (.rename _ _ _) => .rename
  | .drive (.grant _ _ _) => .grant
  | .drive (.revoke _ _ _) => .revoke
  | .items _ (.container _ _) => .container
  | .items _ (.listKeys _) => .listKeys
  | .items _ (.create _ _) => .create
  | .items _ (.addChildren _ _ _) => .addChildren
  | .items _ (.delete _ _) => .delete
  | .receipt _ => .receipt

/-- The answer of a call that finds nothing, if it can. -/
def Call.nothing? : (call : Call) → Option call.Answer
  | .drive (.findFolder _ _ _) => some (none : Option Container)
  | .drive (.listKeys _ _) => some (Table.empty : Keys)
  | .drive (.grant _ _ _) => some (none : Option String)
  | .items _ (.listKeys _) => some (Table.empty : Keys)
  | _ => none

/-- A disturbance of the calls of one kind. -/
structure Disturbance where
  /-- The kind of calls. -/
  verb : Verb
  /-- Which of these calls is disturbed; all of them if absent. -/
  nth : Option Nat
  /-- Whether the restore is stopped. -/
  stops : Bool
  /-- How the call fails. -/
  failure : Option Failure
  /-- Whether the call finds nothing. -/
  findsNothing : Bool

/-- The stores of a rehearsal. -/
structure Rehearsal where
  /-- The drive. -/
  drive : Option DriveStore := none
  /-- The stores of items. -/
  items : Table ItemKind ItemStore := .empty
  /-- The receipts handed out. -/
  receipts : List Receipt := []
  /-- How often each kind of call was made. -/
  calls : Table Verb Nat := .empty
  /-- The disturbances; of several for one call the first counts. -/
  disturbances : List Disturbance := []
  /-- The name of the file whose upload stops the restore. -/
  stopsOnUpload : Option String := none

namespace Rehearsal

/-- Whether there is a store for a handler. -/
def serves (r : Rehearsal) : Handler → Bool
  | .drive => r.drive.isSome
  | .items kind => r.items.contains kind

/-- What a call gets that finds no store for it. -/
def nobody : Failure := .because "nobody answers"

/-- Whether a call is the upload that stops the restore; it has to reach the drive. -/
def stopsUpload (r : Rehearsal) : Call → Bool
  | .drive (.upload d _ name _ _) =>
    r.drive.any (fun s => s.drive = d) && r.stopsOnUpload = some name
  | _ => false

/-- Let the stores answer a call. -/
def reach (r : Rehearsal) : (call : Call) → Except Failure call.Answer × Rehearsal
  | .drive c =>
    match r.drive with
    | none => (.error nobody, r)
    | some s =>
      let (answer, s) := s.respond c
      (answer, { r with drive := some s })
  | .items kind c =>
    match r.items.find? kind with
    | none => (.error nobody, r)
    | some s =>
      let (answer, s) := s.respond kind c
      (answer, { r with items := r.items.insert kind s })
  | .receipt receipt => (.ok (), { r with receipts := r.receipts ++ [receipt] })

/-- Whether a call goes past the stores: children are refused by default, without asking. -/
def isRefusal (r : Rehearsal) : Call → Bool
  | .items kind (.addChildren _ _ _) => (r.items.find? kind).any fun s => !s.keepsChildren
  | _ => false

/-- Answer a call under the disturbances. -/
def respond (call : Call) (r : Rehearsal) : Response call.Answer × Rehearsal :=
  if r.isRefusal call then
    let (answer, r) := r.reach call
    (⟨answer, false⟩, r)
  else
    let n := (r.calls.find? call.verb).getD 0 + 1
    let r := { r with calls := r.calls.insert call.verb n }
    let here := r.disturbances.filter fun d => d.verb = call.verb ∧ (d.nth.getD n = n)
    let stops := here.any fun d => d.stops
    match here.findSome? (·.failure) with
    | some f => (⟨.error f, stops⟩, r)
    | none =>
      match if here.any (fun d => d.findsNothing) then call.nothing? else none with
      | some nothing => (⟨.ok nothing, stops⟩, r)
      | none =>
        let (answer, after) := r.reach call
        (⟨answer, stops || r.stopsUpload call⟩, after)

/-- The stores of a rehearsal as the other side of a restore. -/
def remote (r : Rehearsal) : Remote Rehearsal where
  serves := r.serves
  respond := respond

end Rehearsal

end TenantRestore
