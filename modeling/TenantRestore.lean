import TenantRestore.Table
import TenantRestore.Path.Basic
import TenantRestore.Path.Text
import TenantRestore.Path.Order
import TenantRestore.Format
import TenantRestore.Json.Tree
import TenantRestore.Text.LowerCase
import TenantRestore.Item.Stored
import TenantRestore.Permission.Diff
import TenantRestore.Store.Rehearsal
import TenantRestore.Paging.Changes
import TenantRestore.Paging.Containers
import TenantRestore.Paging.Script
import TenantRestore.Restore.Run
import TenantRestore.Collection
import TenantRestore.Registry
import TenantRestore.Progress.Basic
import TenantRestore.Options
import TenantRestore.Path.Stored
import TenantRestore.Fault.Log
import TenantRestore.StopSignal
import TenantRestore.Remote.Call
import TenantRestore.Permission.Desk
import TenantRestore.Permission.Remote
import TenantRestore.Time.Read
import TenantRestore.Time.Write
import TenantRestore.Proofs.Path.Text
import TenantRestore.Proofs.Parents
import TenantRestore.Proofs.Permission.Removal
import TenantRestore.Proofs.Independence
import TenantRestore.Proofs.Truncation
import TenantRestore.Proofs.Drive.Replacement
import TenantRestore.Proofs.Drive.Folders
import TenantRestore.Proofs.Drive.Confinement
import TenantRestore.Proofs.Accounts
import TenantRestore.Proofs.Seen
import TenantRestore.Proofs.Faults
import TenantRestore.Proofs.Content
import TenantRestore.Proofs.Permission.WithoutMetadata
import TenantRestore.Proofs.Permission.Legacy
import TenantRestore.Proofs.Item.Stored
import TenantRestore.Proofs.Items.Again
import TenantRestore.Proofs.Destinations.Once
import TenantRestore.Proofs.Uploads
import TenantRestore.Proofs.Updates
import TenantRestore.Proofs.Permission.Inheritance
import TenantRestore.Proofs.Permission.Update
import TenantRestore.Proofs.Permission.Agreement
import TenantRestore.Proofs.Collision
import TenantRestore.Proofs.Permission.Remote
import TenantRestore.Proofs.Path.Order
import TenantRestore.Proofs.Item.Key
import TenantRestore.Proofs.Drive.Names
import TenantRestore.Proofs.Paging.Changes
import TenantRestore.Proofs.Paging.Containers
import TenantRestore.Proofs.Time.Forms
import TenantRestore.Proofs.Time.Normalized
