import OpenDmcn.Identity.Verify
import Mathlib.Logic.Function.Basic

/-! The record store of a serving node (`recordstore.go`): marshaled records, filed by kind and
by address or domain. The source hashes the name into the key; the model files by the name, so
that two names never share a slot. -/

namespace Dmcn

open Go

inductive Prefix where
  | identity | dar | removal | history | blocklist | roster
  deriving DecidableEq

structure RecordStore where
  entries : Prefix × String → Option Bytes

namespace RecordStore

def empty : RecordStore := ⟨fun _ => none⟩

def put (rs : RecordStore) (p : Prefix) (id : String) (data : Bytes) : RecordStore :=
  ⟨Function.update rs.entries (p, id) (some data)⟩

def get (rs : RecordStore) (p : Prefix) (id : String) : Option Bytes := rs.entries (p, id)

theorem get_put_self (rs : RecordStore) (p : Prefix) (id : String) (data : Bytes) :
    (rs.put p id data).get p id = some data := by
  simp [get, put]

theorem get_put_of_id_ne (rs : RecordStore) {p : Prefix} {id id' : String} (data : Bytes)
    (h : id' ≠ id) : (rs.put p id data).get p id' = rs.get p id' := by
  simp [get, put, Function.update, h]

theorem get_put_of_prefix_ne (rs : RecordStore) {p q : Prefix} {id id' : String} (data : Bytes)
    (h : q ≠ p) : (rs.put p id data).get q id' = rs.get q id' := by
  simp [get, put, Function.update, h]

variable (rt : Runtime)

def putIdentity (rs : RecordStore) (rec : IdentityRecord) : RecordStore :=
  rs.put .identity rec.address (rt.identityRecord.marshal rec.toProto)

def getIdentityBytes (rs : RecordStore) (address : String) : Option Bytes :=
  rs.get .identity address

def getIdentity (rs : RecordStore) (address : String) : Option IdentityRecord :=
  (rs.get .identity address).bind (IdentityRecord.fromProtoBytes rt)

def putDAR (rs : RecordStore) (dar : DomainAuthorityRecord) : RecordStore :=
  rs.put .dar dar.domain (rt.domainAuthorityRecord.marshal dar.toProto)

def getDARBytes (rs : RecordStore) (domain : String) : Option Bytes := rs.get .dar domain

def getDAR (rs : RecordStore) (domain : String) : Option DomainAuthorityRecord :=
  (rs.get .dar domain).bind (DomainAuthorityRecord.fromProtoBytes rt)

def putRemoval (rs : RecordStore) (rm : AddressRemovalRecord) : RecordStore :=
  rs.put .removal rm.address (rt.addressRemovalRecord.marshal rm.toProto)

def getRemovalBytes (rs : RecordStore) (address : String) : Option Bytes := rs.get .removal address

def putHistory (rs : RecordStore) (h : AddressHistoryRecord) : RecordStore :=
  rs.put .history h.address (rt.addressHistoryRecord.marshal h.toProto)

def getHistoryBytes (rs : RecordStore) (address : String) : Option Bytes := rs.get .history address

def getHistory (rs : RecordStore) (address : String) : Option AddressHistoryRecord :=
  (rs.get .history address).bind fun data =>
    (rt.addressHistoryRecord.unmarshal data).bind AddressHistoryRecord.fromProto

def putBlocklist (rs : RecordStore) (bl : CredentialBlockList) : RecordStore :=
  rs.put .blocklist bl.domain (rt.credentialBlockList.marshal bl.toProto)

def getBlocklistBytes (rs : RecordStore) (domain : String) : Option Bytes :=
  rs.get .blocklist domain

def putRoster (rs : RecordStore) (roster : FleetRoster) : RecordStore :=
  rs.put .roster roster.fleetDomain (rt.fleetRoster.marshal roster.toProto)

/-- `storedRemovalAny`: the removal held for an address, whoever signed it. Empty bytes read as
no record. -/
def storedRemovalAny (rs : RecordStore) (address : String) : Option AddressRemovalRecord :=
  (rs.get .removal address).bind fun data =>
    if data.isEmpty then none else AddressRemovalRecord.fromProtoBytes rt data

def storedRemoval (rs : RecordStore) (dar : DomainAuthorityRecord) (address : String) :
    Option AddressRemovalRecord :=
  (rs.storedRemovalAny rt address).filter (removalIsRootSigned rt dar)

def storedBlocklist (rs : RecordStore) (dar : DomainAuthorityRecord) : Option CredentialBlockList :=
  (rs.get .blocklist dar.domain).bind fun data =>
    if data.isEmpty then none
    else (CredentialBlockList.fromProtoBytes rt data).filter (blocklistIsRootSigned rt dar)

variable {rt} {rs : RecordStore}

variable {data : Bytes}

@[simp] theorem getIdentity_put_of_ne {p : Prefix} {id a : String} (h : p ≠ .identity) :
    (rs.put p id data).getIdentity rt a = rs.getIdentity rt a := by
  unfold getIdentity
  rw [get_put_of_prefix_ne rs data h.symm]

@[simp] theorem getDAR_put_of_ne {p : Prefix} {id a : String} (h : p ≠ .dar) :
    (rs.put p id data).getDAR rt a = rs.getDAR rt a := by
  unfold getDAR
  rw [get_put_of_prefix_ne rs data h.symm]

@[simp] theorem storedRemovalAny_put_of_ne {p : Prefix} {id a : String} (h : p ≠ .removal)
    : (rs.put p id data).storedRemovalAny rt a = rs.storedRemovalAny rt a := by
  unfold storedRemovalAny
  rw [get_put_of_prefix_ne rs data h.symm]

theorem getIdentity_putIdentity {rec : IdentityRecord}
    (h : IdentityRecord.fromProtoBytes rt data = some rec) (a : String) :
    (rs.putIdentity rt rec).getIdentity rt a =
      if a = rec.address then some rec else rs.getIdentity rt a := by
  unfold getIdentity putIdentity
  split
  · next ha =>
    rw [ha, get_put_self]
    exact IdentityRecord.fromProtoBytes_marshal h
  · next ha => rw [get_put_of_id_ne rs _ ha]

theorem getDAR_putDAR {dar : DomainAuthorityRecord}
    (h : DomainAuthorityRecord.fromProtoBytes rt data = some dar) (d : String) :
    (rs.putDAR rt dar).getDAR rt d = if d = dar.domain then some dar else rs.getDAR rt d := by
  unfold getDAR putDAR
  split
  · next hd =>
    obtain ⟨pb, -, rfl⟩ := Option.map_eq_some_iff.mp h
    rw [hd, get_put_self]
    simp [DomainAuthorityRecord.fromProtoBytes]
  · next hd => rw [get_put_of_id_ne rs _ hd]

theorem storedRemovalAny_putRemoval {rm : AddressRemovalRecord}
    (h : AddressRemovalRecord.fromProtoBytes rt data = some rm) (hne : rm.address ≠ "")
    (a : String) :
    (rs.putRemoval rt rm).storedRemovalAny rt a =
      if a = rm.address then some rm else rs.storedRemovalAny rt a := by
  -- a removal that names an address is not the empty message, so it reads back
  unfold storedRemovalAny putRemoval
  split
  · next ha =>
    obtain ⟨pb, -, rfl⟩ := Option.map_eq_some_iff.mp h
    have hmsg : (AddressRemovalRecord.fromProto pb).toProto ≠ default := by
      intro heq
      exact hne (congrArg Pb.AddressRemovalRecord.address heq)
    have hbytes := rt.addressRemovalRecord.marshal_ne_nil hmsg
    rw [ha, get_put_self]
    simp [hbytes, AddressRemovalRecord.fromProtoBytes]
  · next ha => rw [get_put_of_id_ne rs _ ha]

theorem storedRemoval_eq_some {dar : DomainAuthorityRecord} {a : String}
    {rm : AddressRemovalRecord} :
    rs.storedRemoval rt dar a = some rm ↔
      rs.storedRemovalAny rt a = some rm ∧ removalIsRootSigned rt dar rm = true := by
  unfold storedRemoval
  rw [Option.filter_eq_some_iff]

end RecordStore

end Dmcn
