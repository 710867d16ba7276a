import Mathlib.Data.List.Sort
import OpenDmcn.Relay.Resolve

/-! The verified union of removal records (`node/fanout.go`): what the operator's ceremonies start
from. Every candidate is checked before its bindings count, and the result is rebuilt from
scratch. -/

namespace Dmcn

open Go

def mergeBinding (merged : List RemovedBinding) (b : RemovedBinding) : List RemovedBinding :=
  match merged with
  | [] => [b]
  | prior :: rest =>
    if prior.ed25519Public = b.ed25519Public then
      (if b.removedAt.before prior.removedAt then b else prior) :: rest
    else prior :: mergeBinding rest b

/-- A candidate counts if it names this address and domain and is signed by a root or, where the
address's own record is at hand, by its key. -/
def countsForUnion (rt : Runtime) (dar : DomainAuthorityRecord) (owner : Option IdentityRecord)
    (domain address : String) (rm : AddressRemovalRecord) : Bool :=
  Strings.equalFold rt.unicode rm.address address && Strings.equalFold rt.unicode rm.domain
    domain &&
    (removalIsRootSigned rt dar rm || owner.elim false fun owner =>
      removalIsOwnerSigned rt owner rm)

def maxRevision (candidates : List AddressRemovalRecord) : UInt64 :=
  candidates.foldl (fun m rm => if rm.revision > m then rm.revision else m) 0

def unionBindings (candidates : List AddressRemovalRecord) : List RemovedBinding :=
  ((candidates.flatMap AddressRemovalRecord.removedBindings).foldl mergeBinding []).mergeSort
    fun b c => decide (b.ed25519Public ≤ c.ed25519Public)

def mergeRemovalCandidates (rt : Runtime) (dar : DomainAuthorityRecord)
    (owner : Option IdentityRecord) (domain address : String)
    (candidates : List AddressRemovalRecord) (now : Time) :
    Option AddressRemovalRecord :=
  let counted := candidates.filter (countsForUnion rt dar owner domain address)
  if counted.isEmpty then none
  else (AddressRemovalRecord.new domain address now).map fun union =>
    { union with
      revision := maxRevision counted
      removedBindings := unionBindings counted }

/-- `FetchRemovalUnion`, on the replies of the fleet. Both the local candidate and the record that
owner signatures are checked against come from the node's own store, which a client has not. -/
def fetchRemovalUnion (rt : Runtime) (records : Option RecordStore) (replies : List (Option Bytes))
    (dar : DomainAuthorityRecord) (address : String) (now : Time) : Option AddressRemovalRecord :=
  let own := handleGetRemoval records address
  let candidates := (own :: replies).filterMap fun reply =>
    reply.bind (AddressRemovalRecord.fromProtoBytes rt)
  mergeRemovalCandidates rt dar (records.bind fun rs => rs.getIdentity rt address)
    (domainOf address)
    address candidates now

theorem mem_keys_mergeBinding {merged : List RemovedBinding} {b : RemovedBinding} {key : Bytes} :
    key ∈ (mergeBinding merged b).map RemovedBinding.ed25519Public ↔
      key ∈ merged.map RemovedBinding.ed25519Public ∨ key = b.ed25519Public := by
  induction merged with
  | nil => simp [mergeBinding]
  | cons prior rest ih =>
    unfold mergeBinding
    split
    · next hkey =>
      have hhead : (if b.removedAt.before prior.removedAt then b else prior).ed25519Public =
          prior.ed25519Public := by
        split
        · exact hkey.symm
        · rfl
      simp only [List.map_cons, List.mem_cons, hhead, ← hkey]
      tauto
    · simp only [List.map_cons, List.mem_cons, ih]
      tauto

theorem mem_keys_foldl_mergeBinding {bs merged : List RemovedBinding} {key : Bytes} :
    key ∈ (bs.foldl mergeBinding merged).map RemovedBinding.ed25519Public ↔
      key ∈ merged.map RemovedBinding.ed25519Public ∨
      key ∈ bs.map RemovedBinding.ed25519Public := by
  induction bs generalizing merged with
  | nil => simp
  | cons b bs ih =>
    simp only [List.foldl_cons, ih, mem_keys_mergeBinding, List.map_cons, List.mem_cons]
    tauto

theorem mem_keys_unionBindings {candidates : List AddressRemovalRecord} {key : Bytes} :
    key ∈ (unionBindings candidates).map RemovedBinding.ed25519Public ↔
      ∃ rm ∈ candidates, key ∈ rm.keys := by
  have hperm : (unionBindings candidates).Perm
      ((candidates.flatMap AddressRemovalRecord.removedBindings).foldl mergeBinding []) :=
    List.mergeSort_perm _ _
  rw [(hperm.map RemovedBinding.ed25519Public).mem_iff, mem_keys_foldl_mergeBinding]
  simp only [List.map_nil, List.not_mem_nil, false_or, List.mem_map, List.mem_flatMap,
    AddressRemovalRecord.keys]
  constructor
  · rintro ⟨b, ⟨rm, hrm, hb⟩, hkey⟩
    exact ⟨rm, hrm, b, hb, hkey⟩
  · rintro ⟨rm, hrm, b, hb, hkey⟩
    exact ⟨b, ⟨rm, hrm, hb⟩, hkey⟩

theorem maxRevision_singleton (rm : AddressRemovalRecord) : maxRevision [rm] = rm.revision := by
  simp only [maxRevision, List.foldl_cons, List.foldl_nil]
  split
  · rfl
  · next h => exact (UInt64.le_antisymm (UInt64.not_lt.mp h) (UInt64.zero_le)).symm

end Dmcn
